import CS330.GemOS.Tables

/-! Address spaces built page by page from an empty root.

After pages were assigned, the tables are exactly those on the way to them: the frames
the log says were taken from the page-table region, each once. `Built` carries this,
with the raw words of the tables, through every step of growth. -/
namespace CS330.GemOS
open Radix Relation

/-- The frames allocated from a region, latest first. -/
def allocs (region : Region) (log : List Event) : List Nat :=
  log.filterMap fun e => match e with
    | .alloc r pfn => if r = region then some pfn else none
    | _ => none

/-- Bits 3 to 11 and 52 to 63 of an entry are clear. -/
def Clean (entry : Nat) : Prop := entry / 8 % 512 = 0 ∧ entry / 2 ^ 52 = 0

/-- The address space below `pgd` was built for the given addresses. -/
structure Built (m : Memory) (pgd : Nat) (as : List Nat) : Prop where
  tree : PageTree m pgd
  spans : ∀ q f, q.length ≤ 4 → m.node pgd q = some f → q = [] ∨ ∃ a ∈ as, q <+: path a
  tables : ∀ g, g ∈ allocs .osPtReg m.log ↔ ∃ q, q.length ≤ 3 ∧ m.node pgd q = some g
  nodup : (allocs .osPtReg m.log).Nodup
  region : ∀ q f, q.length ≤ 3 → m.node pgd q = some f → m.owner f = some .osPtReg
  clean : ∀ q f i, q.length ≤ 3 → m.node pgd q = some f → Clean (m.words f i)

section
variable {m t : Memory} {pgd addr flags pfn g f : Nat} {as : List Nat} {p : List (Fin 512)} {i : Fin 512}

theorem clean_zero : Clean 0 := ⟨rfl, rfl⟩

theorem Built.spans_attach (hm : Built m pgd as) (ha : addr ∈ as) (hpath : p ++ [i] <+: path addr)
    (hattach : Attached format m.words t.words pgd 3 p i (makeEntry g flags)) :
    ∀ q f, q.length ≤ 4 → t.node pgd q = some f → q = [] ∨ ∃ a ∈ as, q <+: path a := by
  intro q f hq hf
  rcases hattach.node_cases hq hf with ⟨rfl, -⟩ | hf
  · exact .inr ⟨addr, ha, hpath⟩
  · exact hm.spans q f hq hf

/-- A page is a node of the last level: the tables are what they were. -/
theorem Built.page (hm : Built m pgd as) (ha : addr ∈ as) (htree : PageTree t pgd)
    (hnode : m.node pgd (dir addr) = some f) (hlt : g < 2 ^ 40)
    (hattach : Attached format m.words t.words pgd 3 (dir addr) (l1Index addr) (makeEntry g flags))
    (hwords : t.words = put m.words f (l1Index addr) (makeEntry g flags))
    (howner : ∀ q x, q.length ≤ 3 → m.node pgd q = some x → t.owner x = m.owner x)
    (hlog : allocs .osPtReg t.log = allocs .osPtReg m.log) : Built t pgd as := by
  have hold : ∀ {q : List (Fin 512)} {x : Nat}, q.length ≤ 3 → t.node pgd q = some x →
      m.node pgd q = some x := by
    intro q x hq hx
    rcases hattach.node_cases (by omega) hx with ⟨rfl, -⟩ | hx
    · simp at hq
    · exact hx
  refine ⟨htree, hm.spans_attach ha (List.prefix_refl _) hattach, fun x => ?_, ?_, fun q x hq hx => ?_,
    fun q x j hq hx => ?_⟩
  · rw [hlog, hm.tables x]
    constructor
    · rintro ⟨q, hq, hx⟩
      exact ⟨q, hq, hattach.node_mono (by omega) hx⟩
    · rintro ⟨q, hq, hx⟩
      exact ⟨q, hq, hold hq hx⟩
  · rw [hlog]
    exact hm.nodup
  · rw [howner q x hq (hold hq hx)]
    exact hm.region q x hq (hold hq hx)
  · rw [hwords]
    by_cases hplace : x = f ∧ j = l1Index addr
    · obtain ⟨rfl, rfl⟩ := hplace
      rw [put_self]
      exact makeEntry_clear hlt
    · rw [put_other (Decidable.not_and_iff_or_not.mp hplace)]
      exact hm.clean q x j hq (hold hq hx)

/-- A table is a new frame of the page-table region, empty. -/
theorem Built.table (hm : Built m pgd as) (ha : addr ∈ as) (hlen : p.length < 3)
    (hpath : p ++ [i] <+: path addr)
    (hattach : Attached format m.words t.words pgd 3 p i (makeEntry g flags))
    (hfree : m.owner g = none) (hlt : g < 2 ^ 40)
    (howner : t.owner = Function.update m.owner g (some .osPtReg))
    (hlog : t.log = .alloc .osPtReg g :: m.log)
    (hwords : t.words = Function.update (put m.words f i (makeEntry g flags)) g fun _ => 0) :
    Built t pgd as := by
  have hallocs : allocs .osPtReg t.log = g :: allocs .osPtReg m.log := by rw [hlog]; rfl
  have hnew : t.node pgd (p ++ [i]) = some g := by
    refine (hattach.node _ (by simp; omega)).trans ?_
    rw [if_pos rfl, makeEntry_target hlt]
  have hcases : ∀ {q : List (Fin 512)} {x : Nat}, q.length ≤ 3 → t.node pgd q = some x →
      x = g ∨ m.node pgd q = some x := by
    intro q x hq hx
    rcases hattach.node_cases (by omega) hx with ⟨-, rfl⟩ | hx
    · exact .inl (makeEntry_target hlt)
    · exact .inr hx
  refine ⟨hm.tree.attach_fresh hlt hattach howner, hm.spans_attach ha hpath hattach, fun x => ?_, ?_,
    fun q x hq hx => ?_, fun q x j hq hx => ?_⟩
  · rw [hallocs, List.mem_cons, hm.tables x]
    constructor
    · rintro (rfl | ⟨q, hq, hx⟩)
      · exact ⟨p ++ [i], by simp; omega, hnew⟩
      · exact ⟨q, hq, hattach.node_mono (by omega) hx⟩
    · rintro ⟨q, hq, hx⟩
      exact (hcases hq hx).imp_right fun hx => ⟨q, hq, hx⟩
  · rw [hallocs, List.nodup_cons]
    refine ⟨fun hmem => ?_, hm.nodup⟩
    obtain ⟨q, hq, hx⟩ := (hm.tables g).mp hmem
    exact hm.tree.fresh hfree q (by omega) hx
  · rw [howner]
    by_cases hg : x = g
    · rw [hg, Function.update_self]
    · rw [Function.update_of_ne hg]
      exact hm.region q x hq ((hcases hq hx).resolve_left hg)
  · rw [hwords]
    by_cases hg : x = g
    · rw [hg, Function.update_self]
      exact clean_zero
    · rw [Function.update_of_ne hg]
      by_cases hplace : x = f ∧ j = i
      · obtain ⟨rfl, rfl⟩ := hplace
        rw [put_self]
        exact makeEntry_clear hlt
      · rw [put_other (Decidable.not_and_iff_or_not.mp hplace)]
        exact hm.clean q x j hq ((hcases hq hx).resolve_left hg)

theorem Grow.built (h : Grow pgd addr flags pfn m t) (hm : Built m pgd as) (ha : addr ∈ as) :
    Built t pgd as := by
  have htree := h.pageTree hm.tree
  have howner : ∀ q x, q.length ≤ 3 → m.node pgd q = some x → t.owner x = m.owner x :=
    fun q x hq hx => h.owner (hm.tree.used q x (by omega) hx)
  cases h with
  | table hlen hpath hattach hfree hlt howner hlog _ hwords =>
    exact hm.table ha hlen hpath hattach hfree hlt howner hlog hwords
  | page _ hnode hattach _ hlt _ hlog hwords =>
    exact hm.page ha htree hnode hlt hattach hwords howner (by rw [hlog]; rfl)
  | given _ hnode hattach _ hlt _ hlog hwords =>
    exact hm.page ha htree hnode hlt hattach hwords howner (by rw [hlog]; rfl)

theorem Grows.built (h : Grows pgd addr flags pfn m t) (hm : Built m pgd as) (ha : addr ∈ as) :
    Built t pgd as := by
  induction h with
  | refl => exact hm
  | tail _ hgrow ih => exact hgrow.built ih ha

end

end CS330.GemOS
