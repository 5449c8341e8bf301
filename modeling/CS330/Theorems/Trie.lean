import CS330.Lib.Machine
import CS330.Gem5.Updates
import CS330.Spec.PrefixMap

/-! The trie is a map from prefixes.

`stored` reads a trie as such a map. Each operation does to the trie what it does to the map, so
that a whole run of the trie is one of the map, and no assertion on the way fails. -/
namespace CS330.Gem5.Node
open Machine TopBits PrefixMap

variable {n : Nat} {V : Type} {t t' : Node n V} {h : Handle n} {v val : V} {key : BitVec n}

/-- The map a trie holds. -/
def stored (t : Node n V) : PrefixMap n V := fun h => t.valueAt h

theorem Whole.stored (ht : Whole t) : t.stored h = some v ↔ t.Holds h v := ht.valueAt_iff

theorem Whole.stored_none (ht : Whole t) : t.stored h = none ↔ ∀ v, ¬ t.Holds h v := by
  rw [Option.eq_none_iff_forall_ne_some]
  exact forall_congr' fun v => not_congr ht.stored

/-- Maps are told apart by what they hold. -/
theorem Whole.stored_eq (ht : Whole t) {M : PrefixMap n V} (hM : ∀ h v, t.Holds h v ↔ M h = some v) : t.stored = M := by
  funext h
  apply Option.ext
  intro v
  exact ht.stored.trans (hM h v)

theorem Whole.shortest (ht : Whole t) (key : BitVec n) : Shortest t.stored key (t.lookupNode key) := by
  have hfinds := ht.finds key
  match hr : t.lookupNode key with
  | some (h, v) =>
    rw [hr] at hfinds
    exact ⟨ht.stored.mpr hfinds.1, hfinds.2.1, fun h' v' hh' => hfinds.2.2 h' v' (ht.stored.mp hh')⟩
  | none =>
    rw [hr] at hfinds
    exact fun h v hh => hfinds h v (ht.stored.mp hh)

theorem stored_inserted (ht : Whole t) (ht' : Whole t')
    (hholds : ∀ h' v', t'.Holds h' v' ↔ (h = h' ∧ val = v') ∨ t.Holds h' v')
    (hfree : t.stored h = none) : t'.stored = Function.update t.stored h (some val) := by
  apply ht'.stored_eq
  intro h' v'
  rw [hholds]
  by_cases he : h' = h
  · subst he
    have hno := ht.stored_none.mp hfree v'
    simp [hno]
  · rw [Function.update_of_ne he, ht.stored]
    simp [Ne.symm he]

theorem stored_removed (ht : Whole t) (ht' : Whole t') (hholds : ∀ h' v', t'.Holds h' v' ↔ t.Holds h' v' ∧ h' ≠ h) :
    t'.stored = Function.update t.stored h none := by
  apply ht'.stored_eq
  intro h' v'
  rw [hholds]
  by_cases he : h' = h
  · subst he
    simp
  · rw [Function.update_of_ne he, ht.stored]
    simp [he]

/-- One operation, in the trie and in the map. -/
theorem Whole.step (hn : 0 < n) (op : Op n V) (ht : Whole t) (hop : Permits op t.stored) :
    ∃ r t', t.step op = some (r, t') ∧ Whole t' ∧ PrefixMap.Step op t.stored r t'.stored := by
  cases op with
  | insert key width val =>
    obtain ⟨hpos, hfree⟩ := hop
    obtain ⟨t', he, ht', hholds⟩ := ht.insert val hn hpos key (ht.stored_none.mp hfree)
    exact ⟨_, t', by rw [Node.step, he]; rfl, ht', rfl, stored_inserted ht ht' hholds hfree⟩
  | lookup key => exact ⟨_, t, rfl, ht, _, ht.shortest key, rfl, rfl⟩
  | remove h =>
    obtain ⟨v, hv⟩ := Option.ne_none_iff_exists'.mp hop
    obtain ⟨t', he, ht', hholds⟩ := ht.remove (ht.stored.mp hv)
    refine ⟨_, t', by rw [Node.step, he]; rfl, ht', ?_, stored_removed ht ht' hholds⟩
    rw [hv]
  | removeKey key =>
    have hshort := ht.shortest key
    match hr : t.lookupNode key with
    | some (h, v) =>
      rw [hr] at hshort
      obtain ⟨t', he, ht', hholds⟩ := ht.remove (ht.stored.mp hshort.1)
      have hrun : t.removeKey key = some (some v, t') := by
        simp only [removeKey, lookupHandle, hr, Option.map_some, he]
      exact ⟨_, t', by rw [Node.step, hrun]; rfl, ht', _, hshort, rfl, stored_removed ht ht' hholds⟩
    | none =>
      rw [hr] at hshort
      have hrun : t.removeKey key = some (none, t) := by simp only [removeKey, lookupHandle, hr, Option.map_none]
      exact ⟨_, t, by rw [Node.step, hrun]; rfl, ht, _, hshort, rfl, rfl⟩
  | clear =>
    obtain ⟨ht', hholds⟩ := ht.clear
    exact ⟨_, _, rfl, ht', rfl, ht'.stored_eq fun h v => iff_of_false (hholds h v) (by simp [empty])⟩

end CS330.Gem5.Node
