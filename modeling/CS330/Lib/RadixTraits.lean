import CS330.Lib.Radix

/-! Radix trees whose entries differ in what a walk does not look at.

`τ` takes of an entry what matters, at least whether it is present and the node it names. Two stores with
the same traits everywhere have the same nodes, and their walks go through entries of the same traits. -/
namespace CS330.Radix

section
variable {ι E X : Type} {F : Format E} {rows rows' : Nat → ι → E} {τ : E → X}

/-- Walks see no more of the entries than which are present and what they name. -/
theorem node_traits (hτ : ∀ e e', τ e = τ e' → F.present e = F.present e' ∧ F.target e = F.target e')
    (h : ∀ f i, τ (rows' f i) = τ (rows f i)) (f : Nat) (q : List ι) : node F rows' f q = node F rows f q := by
  induction q generalizing f with
  | nil => rfl
  | cons i q ih =>
    obtain ⟨hp, ht⟩ := hτ _ _ (h f i)
    simp only [node, Format.get, hp]
    split
    · simp only [Option.bind_some, ht, ih]
    · rfl

theorem entries_traits (hτ : ∀ e e', τ e = τ e' → F.present e = F.present e' ∧ F.target e = F.target e')
    (h : ∀ f i, τ (rows' f i) = τ (rows f i)) (f : Nat) (q : List ι) :
    (entries F rows' f q).map (List.map τ) = (entries F rows f q).map (List.map τ) := by
  induction q generalizing f with
  | nil => rfl
  | cons i q ih =>
    obtain ⟨hp, ht⟩ := hτ _ _ (h f i)
    simp only [entries, Format.get, hp]
    split
    · have hrest := ih (F.target (rows f i))
      simp only [Option.bind_some, ht, Option.map_map]
      have hcons : ∀ e : E, List.map τ ∘ (e :: ·) = (τ e :: ·) ∘ List.map τ := fun e => rfl
      rw [hcons, hcons, ← Option.map_map, ← Option.map_map, hrest, h f i]
    · rfl

theorem entryAt_traits (hτ : ∀ e e', τ e = τ e' → F.present e = F.present e' ∧ F.target e = F.target e')
    (h : ∀ f i, τ (rows' f i) = τ (rows f i)) (f : Nat) (q : List ι) (i : ι) :
    (entryAt F rows' f q i).map τ = (entryAt F rows f q i).map τ := by
  simp only [entryAt, node_traits hτ h f q]
  cases node F rows f q with
  | none => rfl
  | some g =>
    obtain ⟨hp, -⟩ := hτ _ _ (h g i)
    simp only [Option.bind_some, Format.get, hp]
    split
    · simp only [Option.map_some, h g i]
    · rfl

end

end CS330.Radix
