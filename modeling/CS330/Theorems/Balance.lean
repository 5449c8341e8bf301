import CS330.Theorems.AddressSpace

/-! `cleanup_context_mm` gives back what `prepare_context_mm` took.

Cleanup reads the three walks again. The tables on them are all the tables there are, and
`pfn_array` lists each once, in whatever pattern the walks share them. -/
namespace CS330.GemOS.Launch
open Radix

/-! ### The array -/

section Array
variable {arr : List Nat} {x g : Nat}

theorem mem_addToArray : x ∈ addToArray arr g ↔ x ∈ arr ∨ x = g := by
  unfold addToArray existInArray
  split
  · simp
  case isFalse hmem =>
    simp only [Bool.not_eq_true', Bool.not_eq_false, List.any_eq_true, beq_iff_eq, exists_eq_right] at hmem
    constructor
    · exact .inl
    · rintro (h | rfl)
      · exact h
      · exact hmem

theorem nodup_addToArray (h : arr.Nodup) : (addToArray arr g).Nodup := by
  unfold addToArray existInArray
  split
  case isTrue hnot =>
    refine List.nodup_append.mpr ⟨h, by simp, fun a ha b hb hab => ?_⟩
    simp only [Bool.not_eq_true', List.any_eq_false, beq_iff_eq] at hnot
    rw [List.mem_singleton] at hb
    exact hnot a ha (hab.trans hb)
  case isFalse => exact h

theorem length_addToArray : (addToArray arr g).length ≤ arr.length + 1 := by
  unfold addToArray
  split <;> simp

end Array

/-! ### Reading a walk again -/

/-- The words on the walk to an address are the same in both memories. -/
def SameSlots (t m : Memory) (pgd a : Nat) : Prop := ∀ p i f, p ++ [i] <+: path a → t.node pgd p = some f →
  m.words f i = t.words f i

section Walk
variable {t m : Memory} {pgd a f g x : Nat} {p : List (Fin 512)} {i : Fin 512} {arr : List Nat}

/-- An entry read without a mask names the node below it. -/
theorem word_of_node (htree : PageTree t pgd) (hp : p.length ≤ 3) (hf : t.node pgd p = some f)
    (hg : t.node pgd (p ++ [i]) = some g) : t.words f i >>> 12 = g := by
  rw [Memory.node_snoc] at hg
  obtain ⟨e, he, rfl⟩ := Option.map_eq_some_iff.mp hg
  have hword := (Memory.entry_of_node hf).symm.trans he
  obtain ⟨rfl, -⟩ := Format.get_some hword
  exact (extract_eq (htree.clear p i _ hp he)).symm

/-- What a walk adds to the array, and the frame at its end. -/
theorem addPagesToArray_spec (htree : PageTree t pgd) (ha : t.translate pgd a = some f)
    (hsame : SameSlots t m pgd a) : (addPagesToArray pgd a m arr).1 = f ∧
      (∀ x, x ∈ (addPagesToArray pgd a m arr).2 ↔ x ∈ arr ∨
        ∃ q, q ≠ [] ∧ q.length ≤ 3 ∧ q <+: path a ∧ t.node pgd q = some x) ∧
      (arr.Nodup → (addPagesToArray pgd a m arr).2.Nodup) ∧
      (addPagesToArray pgd a m arr).2.length ≤ arr.length + 3 := by
  have hp3 : [] ++ [l4Index a] <+: path a := by simp [path]
  have hp2 : [l4Index a] ++ [l3Index a] <+: path a := by simp [path]
  have hp1 : [l4Index a, l3Index a] ++ [l2Index a] <+: path a := by simp [path]
  obtain ⟨n3, h3⟩ := node_prefix ha hp3
  obtain ⟨n2, h2⟩ := node_prefix ha hp2
  obtain ⟨n1, h1⟩ := node_prefix ha hp1
  have hw3 : m.words pgd (l4Index a) >>> 12 = n3 := by
    rw [hsame [] _ pgd hp3 rfl]
    exact word_of_node htree (by simp) rfl h3
  have hw2 : m.words n3 (l3Index a) >>> 12 = n2 := by
    rw [hsame [l4Index a] _ n3 hp2 h3]
    exact word_of_node htree (by simp) h3 h2
  have hw1 : m.words n2 (l2Index a) >>> 12 = n1 := by
    rw [hsame [l4Index a, l3Index a] _ n2 hp1 h2]
    exact word_of_node htree (by simp) h2 h1
  have hw0 : m.words n1 (l1Index a) >>> 12 = f := by
    rw [hsame (dir a) _ n1 (List.prefix_refl _) h1]
    exact word_of_node htree (by simp) h1 ha
  have heq : addPagesToArray pgd a m arr = (f, addToArray (addToArray (addToArray arr n3) n2) n1) := by
    simp only [addPagesToArray, hw3, hw2, hw1, hw0]
  rw [heq]
  refine ⟨rfl, fun x => ?_, fun h => nodup_addToArray (nodup_addToArray (nodup_addToArray h)), ?_⟩
  · simp only [mem_addToArray]
    constructor
    · rintro (((hx | rfl) | rfl) | rfl)
      · exact .inl hx
      · exact .inr ⟨_, by simp, by simp, hp3, h3⟩
      · exact .inr ⟨_, by simp, by simp, hp2, h2⟩
      · exact .inr ⟨_, by simp, by simp, hp1, h1⟩
    · rintro (hx | ⟨q, hne, hlen, hq, hx⟩)
      · exact .inl (.inl (.inl hx))
      · have hpos := List.length_pos_iff.mpr hne
        have htake := List.prefix_iff_eq_take.mp hq
        -- One of the three parts of the path.
        obtain hl | hl | hl : q.length = 1 ∨ q.length = 2 ∨ q.length = 3 := by omega
        · rw [htake, hl] at hx
          exact .inl (.inl (.inr (Option.some.inj (hx.symm.trans h3))))
        · rw [htake, hl] at hx
          exact .inl (.inr (Option.some.inj (hx.symm.trans h2)))
        · rw [htake, hl] at hx
          exact .inr (Option.some.inj (hx.symm.trans h1))
  · have l1 := @length_addToArray arr n3
    have l2 := @length_addToArray (addToArray arr n3) n2
    have l3 := @length_addToArray (addToArray (addToArray arr n3) n2) n1
    dsimp only
    omega

end Walk

/-! ### Cleaning up -/

section Cleanup
variable {ctx : ExecContext} {m : Memory}

theorem freed_osPfnFree (r : Region) (pfn : Nat) (m : Memory) :
    (osPfnFree r pfn m).freed = (r, pfn) :: m.freed := rfl

theorem freed_tables (tables : List Nat) (m : Memory) :
    (tables.foldl (fun m pfn => osPfnFree .osPtReg pfn m) m).freed =
      (tables.map fun g => (Region.osPtReg, g)).reverse ++ m.freed := by
  induction tables generalizing m with
  | nil => rfl
  | cons g tables ih => simp [ih, freed_osPfnFree]

/-- What cleanup frees is what it collected. -/
theorem cleanup_freed (ctx : ExecContext) (m : Memory) : (cleanupContextMm ctx m).freed =
    (.userReg, (collect ctx m).2.2.2) :: (.userReg, (collect ctx m).2.2.1) :: (.userReg, (collect ctx m).2.1) ::
      ((collect ctx m).1.map fun g => (Region.osPtReg, g)).reverse ++ m.freed := by
  unfold cleanupContextMm
  dsimp only
  rw [freed_osPfnFree, freed_osPfnFree, freed_osPfnFree, freed_tables]
  rfl

/-- What cleanup collects after the stages: every table once, and the frames of the pages. -/
theorem Stages.collect {m₀ m₁ m₂ t m' : Memory} {pgd fs fc fd : Nat} (h : Stages ctx m pgd m₀ m₁ m₂ t)
    (hf : Frames ctx m pgd t fs fc fd) (hsame : ∀ a ∈ ctx.pages, SameSlots t m' pgd a) :
    ((collect {ctx with pgd := pgd} m').2 = (fs, fc, fd)) ∧
      (collect {ctx with pgd := pgd} m').1.Perm (allocs .osPtReg t.log) ∧
      (collect {ctx with pgd := pgd} m').1.length ≤ 10 := by
  obtain ⟨A, hA⟩ : ∃ A, addPagesToArray pgd ctx.stackPage m' [pgd] = A := ⟨_, rfl⟩
  obtain ⟨B, hB⟩ : ∃ B, addPagesToArray pgd ctx.code.start m' A.2 = B := ⟨_, rfl⟩
  obtain ⟨C, hC⟩ : ∃ C, addPagesToArray pgd ctx.data.start m' B.2 = C := ⟨_, rfl⟩
  have hcollect : Launch.collect {ctx with pgd := pgd} m' = (C.2, A.1, B.1, C.1) := by
    rw [← hC, ← hB, ← hA]
    rfl
  obtain ⟨hs, hsmem, hsnodup, hslen⟩ := hA ▸ @addPagesToArray_spec t m' pgd _ _ [pgd] h.built.tree hf.stack
    (hsame _ (by simp [ExecContext.pages]))
  obtain ⟨hc, hcmem, hcnodup, hclen⟩ := hB ▸ @addPagesToArray_spec t m' pgd _ _ A.2 h.built.tree hf.code
    (hsame _ (by simp [ExecContext.pages]))
  obtain ⟨hd, hdmem, hdnodup, hdlen⟩ := hC ▸ @addPagesToArray_spec t m' pgd _ _ B.2 h.built.tree hf.data
    (hsame _ (by simp [ExecContext.pages]))
  rw [hcollect, hs, hc, hd]
  refine ⟨rfl, ?_, ?_⟩
  · refine (List.perm_ext_iff_of_nodup (hdnodup (hcnodup (hsnodup (by simp)))) h.built.nodup).mpr fun x => ?_
    rw [h.built.tables x]
    refine (hdmem x).trans ?_
    rw [hcmem x, hsmem x, List.mem_singleton]
    constructor
    · rintro (((rfl | ⟨q, -, hq, -, hx⟩) | ⟨q, -, hq, -, hx⟩) | ⟨q, -, hq, -, hx⟩)
      · exact ⟨[], by simp, rfl⟩
      · exact ⟨q, hq, hx⟩
      · exact ⟨q, hq, hx⟩
      · exact ⟨q, hq, hx⟩
    · rintro ⟨q, hq, hx⟩
      by_cases hnil : q = []
      · rw [hnil] at hx
        exact .inl (.inl (.inl (Option.some.inj hx).symm))
      · -- A table below the root is on the way to one of the pages.
        obtain ⟨a, ha, hpre⟩ := (h.built.spans q x (by omega) hx).resolve_left hnil
        simp only [ExecContext.pages, List.mem_cons, List.not_mem_nil, or_false] at ha
        rcases ha with ha | ha | ha <;> rw [ha] at hpre
        · exact .inl (.inl (.inr ⟨q, hnil, hq, hpre, hx⟩))
        · exact .inl (.inr ⟨q, hnil, hq, hpre, hx⟩)
        · exact .inr ⟨q, hnil, hq, hpre, hx⟩
  · rw [List.length_singleton] at hslen
    dsimp only
    omega

end Cleanup

/-- **Cleanup after prepare balances the allocator**: whatever was put into other slots in
between, it frees every page-table frame that prepare allocated once, the three data frames,
and nothing else, and `pfn_array` is long enough. -/
theorem cleanup_balances_prepare {alloc : Allocator} {ctx : ExecContext} {m : Memory}
    (hready : Ready alloc ctx m) (hd : ctx.Distinct) :
    ∃ ctx' t, prepareContextMm alloc ctx m = some (ctx', t) ∧
      ∀ m', (∀ a ∈ ctx.pages, SameSlots t m' ctx'.pgd a) → ∃ tables fs fc fd,
        (cleanupContextMm ctx' m').freed = (.userReg, fd) :: (.userReg, fc) :: (.userReg, fs) ::
          (tables.map fun g => (Region.osPtReg, g)).reverse ++ m'.freed ∧
        tables = (collect ctx' m').1 ∧ tables.Perm (allocs .osPtReg t.log) ∧ tables.Nodup ∧
        tables.length ≤ 16 ∧
        allocs .userReg t.log = (if ctx.argPfn = 0 then [fd, fc, fs] else [fc, fs]) ∧
        (ctx.argPfn ≠ 0 → fd = ctx.argPfn) := by
  obtain ⟨pgd, m₀, m₁, m₂, t, hprepare, h⟩ := prepareContextMm_stages hready
  obtain ⟨fs, fc, fd, hf⟩ := h.frames hd
  refine ⟨_, t, hprepare, fun m' hsame => ⟨_, fs, fc, fd, ?_, rfl, ?_⟩⟩
  · rw [cleanup_freed, (h.collect hf hsame).1]
  · obtain ⟨-, hperm, hlen⟩ := h.collect hf hsame
    exact ⟨hperm, hperm.nodup_iff.mpr h.built.nodup, by omega, hf.allocs, hf.data_given⟩

/-- A process that is set up and torn down at once: as many frames are freed as were taken. -/
theorem cleanup_balances_prepare_plain : ∃ ctx' t,
    prepareContextMm (lowest 20) (plain 3) ⟨fun _ _ => 0, fun _ => none, []⟩ = some (ctx', t) ∧
      (cleanupContextMm ctx' t).freed.length =
        (allocs .osPtReg t.log).length + (allocs .userReg t.log).length + t.freed.length := by
  obtain ⟨ctx', t, hprepare, hcleanup⟩ := cleanup_balances_prepare (plain_ready 3) (plain_distinct 3)
  obtain ⟨tables, fs, fc, fd, hfreed, -, hperm, -, -, hallocs, -⟩ := hcleanup t fun a _ p i f _ _ => rfl
  refine ⟨ctx', t, hprepare, ?_⟩
  rw [hfreed, hallocs, ← hperm.length_eq, if_pos (show (plain 3).argPfn = 0 from rfl)]
  simp
  omega

end CS330.GemOS.Launch
