import CS330.GemOS.Entries
import Mathlib.Logic.Relation

/-! What the functions of `Paging` do to a table that is a tree.

Each call of `assign_page_table_page` or `assign_data_page` adds at most one entry on
the walk to its address (`Grow`), and `free_data_page` removes at most the leaf
(`FreePage`). Everything later modules say about page tables follows from these two
relations and from what an entry added to a tree changes (`Radix.Attached`). -/
namespace CS330.GemOS
open Radix Relation

section Views
variable (m : Memory) (pgd : Nat)

abbrev Memory.node (p : List (Fin 512)) : Option Nat := Radix.node format m.words pgd p

abbrev Memory.entry (p : List (Fin 512)) (i : Fin 512) : Option Nat := Radix.entryAt format m.words pgd p i

/-- The hardware's walk: the four entries on the way to an address, if all are present. -/
def Memory.walk (addr : Nat) : Option (List Nat) := Radix.entries format m.words pgd (path addr)

/-- The indices above the leaf. -/
def dir (addr : Nat) : List (Fin 512) := [l4Index addr, l3Index addr, l2Index addr]

def Memory.leaf (addr : Nat) : Option Nat := m.entry pgd (dir addr) (l1Index addr)

/-- The frame an address is translated to. -/
def Memory.translate (addr : Nat) : Option Nat := m.node pgd (path addr)

end Views

@[simp] theorem dir_length (addr : Nat) : (dir addr).length = 3 := rfl

theorem path_eq (addr : Nat) : path addr = dir addr ++ [l1Index addr] := rfl

/-- The tables below `pgd` are a tree, their frames and those of the mapped pages are in
use, and bits 52 to 63 of their entries are clear. -/
structure PageTree (m : Memory) (pgd : Nat) : Prop where
  tree : IsTree format m.words pgd 3
  used : ∀ q f, q.length ≤ 4 → m.node pgd q = some f → m.owner f ≠ none
  clear : ∀ q i e, q.length ≤ 3 → m.entry pgd q i = some e → e < 2 ^ 52

section Walks
variable {m t : Memory} {pgd addr : Nat}

theorem Memory.node_snoc (m : Memory) (pgd : Nat) (p : List (Fin 512)) (i : Fin 512) :
    m.node pgd (p ++ [i]) = (m.entry pgd p i).map extractAddrFromPageEntry :=
  Radix.node_snoc m.words pgd p i

theorem Memory.entry_of_node {p : List (Fin 512)} {i : Fin 512} {f : Nat} (hf : m.node pgd p = some f) :
    m.entry pgd p i = format.get (m.words f i) := by
  unfold Memory.entry entryAt
  exact congrArg (Option.bind · _) hf

theorem translate_eq : m.translate pgd addr = (m.leaf pgd addr).map extractAddrFromPageEntry :=
  m.node_snoc pgd (dir addr) (l1Index addr)

theorem walk_none : m.walk pgd addr = none ↔ m.leaf pgd addr = none := by
  have h : m.walk pgd addr = none ↔ m.translate pgd addr = none := entries_none
  rw [h, translate_eq, Option.map_eq_none_iff]

theorem format_get_none {e : Nat} : format.get e = none ↔ isPresent e = false := by
  unfold Radix.Format.get
  cases h : isPresent e <;> simp [format, h]

theorem format_get_some {e : Nat} (h : isPresent e = true) : format.get e = some e := if_pos h

/-- The walk that `is_valid_virtual_addr` and `free_data_page` share: it stops with `x` at a
missing table, and goes on with `k` at the last one. -/
theorem walk_cases {α : Type} (m : Memory) (pgd addr : Nat) (x : α) (k : Nat → α) :
    (if !isPresent (m.words pgd (l4Index addr)) then x
      else
        let l3 := extractAddrFromPageEntry (m.words pgd (l4Index addr))
        if !isPresent (m.words l3 (l3Index addr)) then x
        else
          let l2 := extractAddrFromPageEntry (m.words l3 (l3Index addr))
          if !isPresent (m.words l2 (l2Index addr)) then x
          else k (extractAddrFromPageEntry (m.words l2 (l2Index addr)))) =
      (m.node pgd (dir addr)).elim x k := by
  simp only [Memory.node, dir, Radix.node, show format.target = extractAddrFromPageEntry from rfl]
  cases h4 : isPresent (m.words pgd (l4Index addr)) with
  | false => simp [format_get_none.mpr h4]
  | true =>
    rw [format_get_some h4, Option.bind_some]
    generalize extractAddrFromPageEntry (m.words pgd (l4Index addr)) = l3
    cases h3 : isPresent (m.words l3 (l3Index addr)) with
    | false => simp [format_get_none.mpr h3]
    | true =>
      rw [format_get_some h3, Option.bind_some]
      generalize extractAddrFromPageEntry (m.words l3 (l3Index addr)) = l2
      cases h2 : isPresent (m.words l2 (l2Index addr)) with
      | false => simp [format_get_none.mpr h2]
      | true => simp [format_get_some h2]

theorem leaf_eq : m.leaf pgd addr =
    (m.node pgd (dir addr)).bind fun l1 => format.get (m.words l1 (l1Index addr)) := rfl

theorem isValidVirtualAddr_eq : isValidVirtualAddr addr pgd m = if m.walk pgd addr = none then 0 else 1 := by
  have h : isValidVirtualAddr addr pgd m = (m.node pgd (dir addr)).elim 0 fun l1 =>
      if !isPresent (m.words l1 (l1Index addr)) then 0 else 1 :=
    walk_cases m pgd addr 0 fun l1 => if !isPresent (m.words l1 (l1Index addr)) then 0 else 1
  simp only [h, walk_none, leaf_eq]
  cases m.node pgd (dir addr) with
  | none => rfl
  | some l1 =>
    simp only [Option.bind_some, Option.elim_some, format_get_none]
    cases isPresent (m.words l1 (l1Index addr)) <;> rfl

end Walks

theorem valid_iff {m : Memory} {pgd addr : Nat} :
    isValidVirtualAddr addr pgd m = 1 ↔ m.walk pgd addr ≠ none := by
  rw [isValidVirtualAddr_eq]
  split <;> simp_all

theorem invalid_iff {m : Memory} {pgd addr : Nat} :
    isValidVirtualAddr addr pgd m = 0 ↔ m.walk pgd addr = none := by
  rw [isValidVirtualAddr_eq]
  split <;> simp_all

/-! ### One call -/

/-- What a call adds: a table on the way to the address, or the page itself. -/
inductive Grow (pgd addr flags pfn : Nat) (m t : Memory) : Prop
  | table {p : List (Fin 512)} {i : Fin 512} {g f : Nat} (hlen : p.length < 3) (hpath : p ++ [i] <+: path addr)
      (hattach : Attached format m.words t.words pgd 3 p i (makeEntry g flags))
      (hfree : m.owner g = none) (hlt : g < 2 ^ 40)
      (howner : t.owner = Function.update m.owner g (some .osPtReg))
      (hlog : t.log = .alloc .osPtReg g :: m.log) (hnode : m.node pgd p = some f)
      (hwords : t.words = Function.update (put m.words f i (makeEntry g flags)) g fun _ => 0)
  | page {f g : Nat} (hpfn : pfn = 0) (hnode : m.node pgd (dir addr) = some f)
      (hattach : Attached format m.words t.words pgd 3 (dir addr) (l1Index addr) (makeEntry g flags))
      (hfree : m.owner g = none) (hlt : g < 2 ^ 40)
      (howner : t.owner = Function.update m.owner g (some .userReg))
      (hlog : t.log = .leaf (f, l1Index addr) g :: .alloc .userReg g :: m.log)
      (hwords : t.words = put m.words f (l1Index addr) (makeEntry g flags))
  | given {f : Nat} (hpfn : pfn ≠ 0) (hnode : m.node pgd (dir addr) = some f)
      (hattach : Attached format m.words t.words pgd 3 (dir addr) (l1Index addr) (makeEntry pfn flags))
      (hused : m.owner pfn ≠ none) (hlt : pfn < 2 ^ 40) (howner : t.owner = m.owner)
      (hlog : t.log = .leaf (f, l1Index addr) pfn :: m.log)
      (hwords : t.words = put m.words f (l1Index addr) (makeEntry pfn flags))

abbrev Grows (pgd addr flags pfn : Nat) : Memory → Memory → Prop := ReflTransGen (Grow pgd addr flags pfn)

/-- A frame that the caller passes: none, or one in use that the tables do not have. -/
structure Spare (pgd pfn : Nat) (m : Memory) : Prop where
  lt : pfn < 2 ^ 40
  used : pfn ≠ 0 → m.owner pfn ≠ none
  fresh : pfn ≠ 0 → ∀ q, q.length ≤ 4 → m.node pgd q ≠ some pfn

theorem Spare.zero (pgd : Nat) (m : Memory) : Spare pgd 0 m where
  lt := by omega
  used h := absurd rfl h
  fresh h := absurd rfl h

section Grow
variable {pgd addr flags pfn g : Nat} {m t : Memory} {p : List (Fin 512)} {i : Fin 512} {r : Region}

theorem PageTree.attach_fresh (hm : PageTree m pgd) (hlt : g < 2 ^ 40)
    (hattach : Attached format m.words t.words pgd 3 p i (makeEntry g flags))
    (howner : t.owner = Function.update m.owner g (some r)) : PageTree t pgd where
  tree := hattach.tree
  used q f hq hf := by
    rw [howner]
    by_cases hg : f = g
    · simp [hg]
    · rw [Function.update_of_ne hg]
      rw [Memory.node, hattach.node q hq, makeEntry_target hlt] at hf
      split at hf
      · exact absurd (Option.some.inj hf).symm hg
      · exact hm.used q f hq hf
  clear q j e hq he := by
    rw [Memory.entry, hattach.entry q j hq] at he
    split at he
    · cases he
      exact makeEntry_lt hlt
    · exact hm.clear q j e hq he

/-- Growing keeps the tree. -/
theorem Grow.pageTree (h : Grow pgd addr flags pfn m t) (hm : PageTree m pgd) : PageTree t pgd := by
  cases h with
  | table _ _ hattach _ hlt howner _ => exact hm.attach_fresh hlt hattach howner
  | page _ _ hattach _ hlt howner _ => exact hm.attach_fresh hlt hattach howner
  | given _ _ hattach hused hlt howner _ =>
    refine ⟨hattach.tree, fun q f hq hf => ?_, fun q j e hq he => ?_⟩
    · rw [howner]
      rw [Memory.node, hattach.node q hq, makeEntry_target hlt] at hf
      split at hf
      · cases hf
        exact hused
      · exact hm.used q f hq hf
    · rw [Memory.entry, hattach.entry q j hq] at he
      split at he
      · cases he
        exact makeEntry_lt hlt
      · exact hm.clear q j e hq he

/-- The entry a step adds, and where. -/
theorem Grow.attached (h : Grow pgd addr flags pfn m t) : ∃ p i g, g < 2 ^ 40 ∧
    p ++ [i] <+: path addr ∧ Attached format m.words t.words pgd 3 p i (makeEntry g flags) := by
  cases h with
  | table hlen hpath hattach _ hlt _ _ => exact ⟨_, _, _, hlt, hpath, hattach⟩
  | page _ _ hattach _ hlt _ _ => exact ⟨_, _, _, hlt, List.prefix_refl _, hattach⟩
  | given _ _ hattach _ hlt _ _ => exact ⟨_, _, _, hlt, List.prefix_refl _, hattach⟩

/-- A frame the caller kept aside is still aside after something else was added. -/
theorem Grow.spare (h : Grow pgd addr flags 0 m t) (hs : Spare pgd pfn m) : Spare pgd pfn t := by
  have haside : ∀ {p : List (Fin 512)} {i : Fin 512} {g : Nat} {r : Region}, m.owner g = none → g < 2 ^ 40 →
      Attached format m.words t.words pgd 3 p i (makeEntry g flags) →
      t.owner = Function.update m.owner g (some r) → Spare pgd pfn t := by
    intro p i g r hfree hlt hattach howner
    have hne : pfn ≠ 0 → pfn ≠ g := fun h0 hg => hs.used h0 (hg ▸ hfree)
    refine ⟨hs.lt, fun h0 => ?_, fun h0 q hq => ?_⟩
    · rw [howner, Function.update_of_ne (hne h0)]
      exact hs.used h0
    · rw [Memory.node, hattach.node q hq, makeEntry_target hlt]
      split
      · exact fun hc => hne h0 (Option.some.inj hc).symm
      · exact hs.fresh h0 q hq
  cases h with
  | table _ _ hattach hfree hlt howner _ => exact haside hfree hlt hattach howner
  | page _ _ hattach hfree hlt howner _ => exact haside hfree hlt hattach howner
  | given hpfn => exact absurd rfl hpfn

theorem Grows.spare (h : Grows pgd addr flags 0 m t) (hs : Spare pgd pfn m) : Spare pgd pfn t := by
  induction h with
  | refl => exact hs
  | tail _ hgrow ih => exact hgrow.spare ih

/-- Nothing is added to a page that is mapped. -/
theorem Grow.unmapped (h : Grow pgd addr flags pfn m t) : m.walk pgd addr = none := by
  obtain ⟨p, i, g, _, ⟨r, hr⟩, hattach⟩ := h.attached
  rw [Memory.walk, entries_none, ← hr, node_append, Radix.node_snoc, hattach.missing]
  rfl

/-- The walks to other pages are as before. -/
theorem Grow.walk {b : Nat} (h : Grow pgd addr flags pfn m t) (hb : path b ≠ path addr) :
    t.walk pgd b = m.walk pgd b := by
  obtain ⟨p, i, g, _, hpath, hattach⟩ := h.attached
  refine hattach.entries (by simp) fun hc => hb ?_
  rw [hc]
  refine hpath.eq_of_length ?_
  rw [← hc]
  rfl

/-- What is in use stays in use. -/
theorem Grow.owner {f : Nat} (h : Grow pgd addr flags pfn m t) (hf : m.owner f ≠ none) :
    t.owner f = m.owner f := by
  have hkeep : ∀ {g : Nat} {r : Region}, m.owner g = none → t.owner = Function.update m.owner g (some r) →
      t.owner f = m.owner f := by
    intro g r hfree howner
    rw [howner, Function.update_of_ne]
    rintro rfl
    exact hf hfree
  cases h with
  | table _ _ _ hfree _ howner _ => exact hkeep hfree howner
  | page _ _ _ hfree _ howner _ => exact hkeep hfree howner
  | given _ _ _ _ _ howner _ => rw [howner]

theorem Grows.owner {f : Nat} (h : Grows pgd addr flags pfn m t) (hf : m.owner f ≠ none) :
    t.owner f = m.owner f := by
  induction h with
  | refl => rfl
  | tail _ hgrow ih =>
    rw [← ih]
    exact hgrow.owner (by rwa [ih])

theorem Grows.walk {b : Nat} (h : Grows pgd addr flags pfn m t) (hb : path b ≠ path addr) :
    t.walk pgd b = m.walk pgd b := by
  induction h with
  | refl => rfl
  | tail _ hgrow ih => rw [hgrow.walk hb, ih]

theorem Grows.eq_of_mapped (h : Grows pgd addr flags pfn m t) (hm : m.walk pgd addr ≠ none) : t = m := by
  rcases h.cases_head with heq | ⟨u, hgrow, -⟩
  · exact heq.symm
  · exact absurd hgrow.unmapped hm

/-- A table that is added leaves the page unmapped, a page is mapped to the frame it got. -/
theorem Grow.mapped (h : Grow pgd addr flags 0 m t) (ht : t.walk pgd addr ≠ none) :
    ∃ g, t.translate pgd addr = some g ∧ m.owner g = none ∧ t.owner g = some .userReg := by
  have hnone := h.unmapped
  cases h with
  | @table p i g f hlen _ hattach =>
    refine absurd ?_ ht
    rw [walk_none] at hnone ⊢
    refine (hattach.entry _ _ (by simp)).trans ?_
    rw [if_neg]
    · exact hnone
    · rintro ⟨hp, -⟩
      rw [← hp] at hlen
      simp at hlen
  | @page f g _ _ hattach hfree hlt howner =>
    refine ⟨g, ?_, hfree, by rw [howner, Function.update_self]⟩
    refine (hattach.node (path addr) (by simp)).trans ?_
    rw [if_pos (path_eq addr), makeEntry_target hlt]
  | given hpfn => exact absurd rfl hpfn

/-- **An unmapped page gets a frame that was not in use.** -/
theorem Grows.mapped (h : Grows pgd addr flags 0 m t) (hm : m.walk pgd addr = none)
    (ht : t.walk pgd addr ≠ none) :
    ∃ g, t.translate pgd addr = some g ∧ m.owner g = none ∧ t.owner g = some .userReg := by
  rcases h.cases_tail with heq | ⟨u, hgrows, hgrow⟩
  · exact absurd (heq ▸ hm) ht
  · obtain ⟨g, hg, hfree, howner⟩ := hgrow.mapped ht
    refine ⟨g, hg, ?_, howner⟩
    by_contra hused
    exact hused (Grows.owner hgrows hused ▸ hfree)

end Grow

/-! ### The functions -/

section Assign
variable {alloc : Allocator} {pgd addr flags pfn f g : Nat} {m t : Memory} {p : List (Fin 512)}
  {i : Fin 512} {r : Region} {ptr : EntryPtr}

theorem osPfnAlloc_some (h : osPfnAlloc alloc r m = some (g, t)) : m.owner g = none ∧ g < 2 ^ 40 ∧
    t = {m with owner := Function.update m.owner g (some r), log := .alloc r g :: m.log} := by
  unfold osPfnAlloc at h
  dsimp only at h
  split at h
  case isTrue hfree =>
    cases h
    exact ⟨hfree.1, hfree.2, rfl⟩
  case isFalse => cases h

theorem osPfnAlloc_frame (h : osPfnAlloc alloc r m = some (g, t)) : g = alloc r m.owner := by
  unfold osPfnAlloc at h
  dsimp only at h
  split at h
  · cases h
    rfl
  · cases h

/-- A frame not in use is not in the tree. -/
theorem PageTree.fresh (hm : PageTree m pgd) (hfree : m.owner g = none) (q : List (Fin 512))
    (hq : q.length ≤ 4) : m.node pgd q ≠ some g :=
  fun hg => hm.used q g hq hg hfree

/-- A step of growth, or none. -/
theorem PageTree.grows (hm : PageTree m pgd) (h : t = m ∨ ∀ pfn, Grow pgd addr flags pfn m t) :
    PageTree t pgd ∧ ∀ pfn, Grows pgd addr flags pfn m t := by
  rcases h with rfl | h
  · exact ⟨hm, fun _ => .refl⟩
  · exact ⟨(h 0).pageTree hm, fun pfn => .single (h pfn)⟩

theorem assignPageTablePage_spec (hm : PageTree m pgd) (hlen : p.length < 3)
    (hpath : p ++ [i] <+: path addr) (hf : m.node pgd p = some f)
    (h : assignPageTablePage alloc (f, i) flags m = some (g, t)) :
    t.node pgd (p ++ [i]) = some g ∧ (t = m ∨ ∀ pfn, Grow pgd addr flags pfn m t) := by
  unfold assignPageTablePage at h
  dsimp only at h
  split at h
  case isTrue hpresent =>
    cases h
    have hentry : m.entry pgd p i = some (m.words f i) :=
      (Memory.entry_of_node hf).trans (format_get_some hpresent)
    refine ⟨?_, .inl rfl⟩
    rw [Memory.node_snoc, hentry, ← extract_eq (hm.clear p i _ (by omega) hentry)]
    rfl
  case isFalse hpresent =>
    obtain ⟨⟨g, u⟩, hu, heq⟩ := Option.map_eq_some_iff.mp h
    cases heq
    obtain ⟨hfree, hlt, rfl⟩ := osPfnAlloc_some hu
    have htarget := @makeEntry_target g flags hlt
    have hattach := hm.tree.attached_fill (e := makeEntry g flags) (by omega) hf
      (format_get_none.mpr (Bool.eq_false_iff.mpr hpresent)) (makeEntry_present hlt)
      (by rw [htarget]; exact hm.fresh hfree) (fun _ => 0) (fun _ => rfl)
    rw [htarget] at hattach
    refine ⟨?_, .inr fun _ => .table hlen hpath hattach hfree hlt rfl rfl hf rfl⟩
    exact (hattach.node _ (by simp; omega)).trans (by rw [if_pos rfl, htarget])

theorem assignDataPage_spec (hm : PageTree m pgd) (hs : Spare pgd pfn m)
    (hf : m.node pgd (dir addr) = some f) (h : assignDataPage alloc (f, l1Index addr) flags pfn m = some t) :
    t.walk pgd addr ≠ none ∧ (t = m ∨ Grow pgd addr flags pfn m t) := by
  have hmapped : ∀ {u : Memory} {g : Nat},
      Attached format m.words u.words pgd 3 (dir addr) (l1Index addr) (makeEntry g flags) →
        u.walk pgd addr ≠ none := by
    intro u g hattach hnone
    rw [walk_none] at hnone
    have := hattach.entry (dir addr) (l1Index addr) (by simp)
    rw [if_pos ⟨rfl, rfl⟩] at this
    exact absurd (hnone.symm.trans this) (by simp)
  unfold assignDataPage at h
  dsimp only at h
  split at h
  case isTrue hpresent =>
    cases h
    refine ⟨fun hnone => ?_, .inl rfl⟩
    rw [walk_none, Memory.leaf, Memory.entry_of_node hf, format_get_some hpresent] at hnone
    cases hnone
  case isFalse hpresent =>
    have hget := format_get_none.mpr (Bool.eq_false_iff.mpr hpresent)
    split at h
    case isTrue hpfn =>
      obtain ⟨⟨g, u⟩, hu, heq⟩ := Option.map_eq_some_iff.mp h
      cases heq
      obtain ⟨hfree, hlt, rfl⟩ := osPfnAlloc_some hu
      have hattach := hm.tree.attached (e := makeEntry g flags) (by simp) hf hget (makeEntry_present hlt)
        (by rw [makeEntry_target hlt]; exact hm.fresh hfree) (by simp)
      exact ⟨hmapped hattach, .inr (.page hpfn hf hattach hfree hlt rfl rfl rfl)⟩
    case isFalse hpfn =>
      cases h
      have hattach := hm.tree.attached (e := makeEntry pfn flags) (by simp) hf hget (makeEntry_present hs.lt)
        (by rw [makeEntry_target hs.lt]; exact hs.fresh hpfn) (by simp)
      exact ⟨hmapped hattach, .inr (.given hpfn hf hattach (hs.used hpfn) hs.lt rfl rfl rfl)⟩

theorem assignPageTablePages_spec (hm : PageTree m pgd)
    (h : assignPageTablePages alloc pgd addr flags m = some (ptr, t)) : PageTree t pgd ∧
      (∃ f, ptr = (f, l1Index addr) ∧ t.node pgd (dir addr) = some f) ∧ ∀ pfn, Grows pgd addr flags pfn m t := by
  unfold assignPageTablePages at h
  obtain ⟨⟨l3, m3⟩, h3, h⟩ := Option.bind_eq_some_iff.mp h
  obtain ⟨⟨l2, m2⟩, h2, h⟩ := Option.bind_eq_some_iff.mp h
  obtain ⟨⟨l1, m1⟩, h1, h⟩ := Option.map_eq_some_iff.mp h
  cases h
  have hp3 : [] ++ [l4Index addr] <+: path addr := by simp [path]
  have hp2 : [l4Index addr] ++ [l3Index addr] <+: path addr := by simp [path]
  have hp1 : [l4Index addr, l3Index addr] ++ [l2Index addr] <+: path addr := by simp [path]
  obtain ⟨hn3, hg3⟩ := assignPageTablePage_spec hm (by simp) hp3 rfl h3
  obtain ⟨hm3, hg3⟩ := hm.grows hg3
  obtain ⟨hn2, hg2⟩ := assignPageTablePage_spec hm3 (by simp) hp2 hn3 h2
  obtain ⟨hm2, hg2⟩ := hm3.grows hg2
  obtain ⟨hn1, hg1⟩ := assignPageTablePage_spec hm2 (by simp) hp1 hn2 h1
  obtain ⟨hm1, hg1⟩ := hm2.grows hg1
  exact ⟨hm1, ⟨l1, rfl, hn1⟩, fun pfn => (hg3 pfn).trans ((hg2 pfn).trans (hg1 pfn))⟩

/-- **A page assigned in a tree**: entries were added on its walk only, the tables are a tree
again, and the page is mapped. -/
theorem assignPage_spec (hm : PageTree m pgd) (hs : Spare pgd pfn m)
    (h : assignPage alloc pgd addr flags pfn m = some t) :
    PageTree t pgd ∧ Grows pgd addr flags pfn m t ∧ t.walk pgd addr ≠ none := by
  unfold assignPage at h
  obtain ⟨⟨ptr, u⟩, hu, h⟩ := Option.bind_eq_some_iff.mp h
  obtain ⟨htree, ⟨f, rfl, hf⟩, hgrows⟩ := assignPageTablePages_spec hm hu
  obtain ⟨hmapped, hgrow⟩ := assignDataPage_spec htree ((hgrows 0).spare hs) hf h
  rcases hgrow with rfl | hgrow
  · exact ⟨htree, hgrows pfn, hmapped⟩
  · exact ⟨hgrow.pageTree htree, (hgrows pfn).tail hgrow, hmapped⟩

end Assign

/-! ### Enough frames -/

/-- The next `k` calls of the allocator return unused frames below 2^40. -/
def Honest (alloc : Allocator) : Nat → (Nat → Option Region) → Prop
  | 0, _ => True
  | k + 1, owner => ∀ r, owner (alloc r owner) = none ∧ alloc r owner < 2 ^ 40 ∧
      Honest alloc k (Function.update owner (alloc r owner) (some r))

section Honest
variable {alloc : Allocator} {pgd addr flags pfn k : Nat} {m : Memory} {r : Region} {ptr : EntryPtr}
  {owner : Nat → Option Region}

theorem Honest.mono (h : Honest alloc (k + 1) owner) : Honest alloc k owner := by
  induction k generalizing owner with
  | zero => trivial
  | succ k ih => exact fun r => ⟨(h r).1, (h r).2.1, ih (h r).2.2⟩

theorem Honest.osPfnAlloc (h : Honest alloc (k + 1) m.owner) (r : Region) :
    ∃ g t, osPfnAlloc alloc r m = some (g, t) ∧ Honest alloc k t.owner := by
  obtain ⟨hfree, hlt, hrest⟩ := h r
  unfold GemOS.osPfnAlloc
  dsimp only
  rw [if_pos ⟨hfree, hlt⟩]
  exact ⟨_, _, rfl, hrest⟩

theorem Honest.assignPageTablePage (h : Honest alloc (k + 1) m.owner) (ptr : EntryPtr) (flags : Nat) :
    ∃ g t, assignPageTablePage alloc ptr flags m = some (g, t) ∧ Honest alloc k t.owner := by
  unfold GemOS.assignPageTablePage
  dsimp only
  split
  · exact ⟨_, _, rfl, h.mono⟩
  · obtain ⟨g, t, hg, ht⟩ := h.osPfnAlloc .osPtReg
    rw [hg]
    exact ⟨_, _, rfl, ht⟩

theorem Honest.assignDataPage (h : Honest alloc (k + 1) m.owner) (ptr : EntryPtr) (flags pfn : Nat) :
    ∃ t, assignDataPage alloc ptr flags pfn m = some t ∧ Honest alloc k t.owner := by
  unfold GemOS.assignDataPage
  split
  · exact ⟨_, rfl, h.mono⟩
  · split
    · obtain ⟨g, t, hg, ht⟩ := h.osPfnAlloc .userReg
      rw [hg]
      exact ⟨_, rfl, ht⟩
    · exact ⟨_, rfl, h.mono⟩

/-- Four frames are enough to assign a page. -/
theorem Honest.assignPage (h : Honest alloc (k + 4) m.owner) (pgd addr flags pfn : Nat) :
    ∃ t, assignPage alloc pgd addr flags pfn m = some t ∧ Honest alloc k t.owner := by
  obtain ⟨l3, m3, h3, hm3⟩ := Honest.assignPageTablePage (k := k + 3) h (pgd, l4Index addr) flags
  obtain ⟨l2, m2, h2, hm2⟩ := Honest.assignPageTablePage (k := k + 2) hm3 (l3, l3Index addr) flags
  obtain ⟨l1, m1, h1, hm1⟩ := Honest.assignPageTablePage (k := k + 1) hm2 (l2, l2Index addr) flags
  obtain ⟨t, ht, hrest⟩ := hm1.assignDataPage (l1, l1Index addr) flags pfn
  refine ⟨t, ?_, hrest⟩
  simp only [GemOS.assignPage, assignPageTablePages, h3, h2, h1, Option.bind_some, Option.map_some, ht]

end Honest

/-- The first of the frames from `g` on that is free, `n` of them tried. -/
def firstFree (owner : Nat → Option Region) : Nat → Nat → Nat
  | 0, g => g
  | n + 1, g => if owner g = none then g else firstFree owner n (g + 1)

/-- The allocator that returns the lowest free frame from 1 on. -/
def lowest (limit : Nat) : Allocator := fun _ owner => firstFree owner limit 1

section Lowest
variable {owner : Nat → Option Region} {limit c g k n : Nat}

theorem firstFree_spec (hfree : owner c = none) (hle : g ≤ c) (hlt : c ≤ g + n) :
    owner (firstFree owner n g) = none ∧ g ≤ firstFree owner n g ∧ firstFree owner n g ≤ c := by
  induction n generalizing g with
  | zero =>
    obtain rfl : c = g := by omega
    exact ⟨hfree, le_rfl, le_rfl⟩
  | succ n ih =>
    rw [firstFree]
    split
    case isTrue hg => exact ⟨hg, le_rfl, hle⟩
    case isFalse hg =>
      have hne : g ≠ c := fun h => hg (h ▸ hfree)
      obtain ⟨hnone, hge, hle'⟩ := ih (g := g + 1) (by omega) (by omega)
      exact ⟨hnone, by omega, hle'⟩

theorem firstFree_le (owner : Nat → Option Region) (n g : Nat) : firstFree owner n g ≤ g + n := by
  induction n generalizing g with
  | zero => exact le_rfl
  | succ n ih =>
    rw [firstFree]
    split
    · omega
    · exact (ih (g + 1)).trans (by omega)

/-- It is honest as long as there are frames left. -/
theorem honest_lowest (hc : 1 ≤ c) (hfree : ∀ g, c ≤ g → owner g = none) (hlimit : c + k ≤ limit)
    (hlt : limit < 2 ^ 40) : Honest (lowest limit) k owner := by
  induction k generalizing owner c with
  | zero => trivial
  | succ k ih =>
    intro r
    obtain ⟨hnone, hpos, hle⟩ := firstFree_spec (n := limit) (hfree c le_rfl) hc (by omega)
    refine ⟨hnone, by unfold lowest; omega, ih (c := c + 1) (by omega) (fun g hg => ?_) (by omega)⟩
    rw [Function.update_of_ne (by unfold lowest; omega)]
    exact hfree g (by omega)

end Lowest

/-! ### An empty table -/

section Empty
variable {m : Memory} {pgd : Nat} (hrow : ∀ i, m.words pgd i = 0)
include hrow

theorem node_empty (q : List (Fin 512)) : m.node pgd q = if q = [] then some pgd else none := by
  cases q with
  | nil => rfl
  | cons i q =>
    rw [if_neg (List.cons_ne_nil i q), Memory.node, Radix.node, hrow i, format_get_none.mpr isPresent_zero]
    rfl

theorem entry_empty (q : List (Fin 512)) (i : Fin 512) : m.entry pgd q i = none := by
  cases hq : m.node pgd q with
  | none => rw [Memory.entry, entryAt, show Radix.node format m.words pgd q = none from hq]; rfl
  | some f =>
    rw [Memory.entry_of_node hq]
    rw [node_empty hrow] at hq
    split at hq
    · cases hq
      rw [hrow i, format_get_none.mpr isPresent_zero]
    · cases hq

theorem pageTree_empty (howner : m.owner pgd ≠ none) : PageTree m pgd where
  tree p q f _ _ hp hq := by
    have hp' := (node_empty hrow p).symm.trans hp
    have hq' := (node_empty hrow q).symm.trans hq
    split at hp'
    case isTrue hnil =>
      split at hq'
      case isTrue hnil' => rw [hnil, hnil']
      case isFalse => cases hq'
    case isFalse => cases hp'
  used q f _ hf := by
    rw [node_empty hrow] at hf
    split at hf
    · cases hf
      exact howner
    · cases hf
  clear q i e _ he := by
    rw [entry_empty hrow] at he
    cases he

end Empty

theorem owner_bare {pgd g : Nat} (h : g ≠ pgd) : (Memory.bare pgd).owner g = none := by
  simp [Memory.bare, h]

theorem entry_bare (pgd : Nat) (q : List (Fin 512)) (i : Fin 512) : (Memory.bare pgd).entry pgd q i = none :=
  entry_empty (fun _ => rfl) q i

theorem pageTree_bare (pgd : Nat) : PageTree (Memory.bare pgd) pgd :=
  pageTree_empty (fun _ => rfl) (by simp [Memory.bare])

theorem walk_bare (pgd addr : Nat) : (Memory.bare pgd).walk pgd addr = none := by
  rw [walk_none]
  exact entry_bare pgd _ _

/-! ### Giving a page back -/

/-- What `free_data_page` does to the page: nothing, or it frees the frame and clears the leaf. -/
inductive FreePage (pgd addr : Nat) (m t : Memory) : Prop
  | unmapped (hwalk : m.walk pgd addr = none) (h : t = m.emit (.freePage addr))
  | freed {f g : Nat} (hnode : m.node pgd (dir addr) = some f) (hframe : m.translate pgd addr = some g)
      (hclear : Cleared format m.words t.words pgd 3 (dir addr) (l1Index addr))
      (howner : t.owner = Function.update m.owner g none)
      (hlog : t.log = .clear (f, l1Index addr) :: .free .userReg g (m.owner g) :: .freePage addr :: m.log)

theorem freeDataPage_spec {m : Memory} {pgd addr : Nat} (htree : IsTree format m.words pgd 3) :
    FreePage pgd addr m (freeDataPage addr pgd m) := by
  have h : freeDataPage addr pgd m = (m.node pgd (dir addr)).elim (m.emit (.freePage addr)) fun l1 =>
      if !isPresent (m.words l1 (l1Index addr)) then m.emit (.freePage addr)
      else ((osPfnFree .userReg (extractAddrFromPageEntry (m.words l1 (l1Index addr)))
        (m.emit (.freePage addr))).write (l1, l1Index addr) 0).emit (.clear (l1, l1Index addr)) :=
    walk_cases m pgd addr _ fun l1 => if !isPresent (m.words l1 (l1Index addr)) then m.emit (.freePage addr)
      else ((osPfnFree .userReg (extractAddrFromPageEntry (m.words l1 (l1Index addr)))
        (m.emit (.freePage addr))).write (l1, l1Index addr) 0).emit (.clear (l1, l1Index addr))
  rw [h]
  cases hnode : m.node pgd (dir addr) with
  | none =>
    refine .unmapped ?_ rfl
    rw [walk_none, leaf_eq, hnode]
    rfl
  | some f =>
    have hleaf : m.leaf pgd addr = format.get (m.words f (l1Index addr)) := Memory.entry_of_node hnode
    cases hpresent : isPresent (m.words f (l1Index addr)) with
    | false =>
      refine .unmapped ?_ (by simp [hpresent])
      rw [walk_none, hleaf, format_get_none.mpr hpresent]
    | true =>
      have hframe : m.translate pgd addr = some (extractAddrFromPageEntry (m.words f (l1Index addr))) := by
        rw [translate_eq, hleaf, format_get_some hpresent]
        rfl
      rw [Option.elim_some, hpresent]
      exact .freed hnode hframe (htree.cleared rfl hnode isPresent_zero) rfl rfl

/-- The frames given back, latest first. -/
def Memory.freed (m : Memory) : List (Region × Nat) :=
  m.log.filterMap fun e => match e with
    | .free region pfn _ => some (region, pfn)
    | _ => none

section
variable {m t : Memory} {pgd addr : Nat}

theorem walk_none_iff_translate : m.walk pgd addr = none ↔ m.translate pgd addr = none := Radix.entries_none

theorem FreePage.unmapped_after (h : FreePage pgd addr m t) : t.walk pgd addr = none := by
  cases h with
  | unmapped hwalk h =>
    subst h
    exact hwalk
  | freed _ _ hclear _ _ =>
    rw [walk_none]
    exact (hclear.entry _ _ (by simp)).trans (if_pos ⟨rfl, rfl⟩)

theorem FreePage.walk {b : Nat} (h : FreePage pgd addr m t) (hb : path b ≠ path addr) :
    t.walk pgd b = m.walk pgd b := by
  cases h with
  | unmapped _ h =>
    subst h
    rfl
  | freed _ _ hclear _ _ => exact hclear.entries (by simp) hb

/-- Exactly the frame of the page is given back. -/
theorem FreePage.freed_eq (h : FreePage pgd addr m t) :
    t.freed = ((m.translate pgd addr).map fun g => (Region.userReg, g)).toList ++ m.freed := by
  cases h with
  | unmapped hwalk h =>
    rw [walk_none_iff_translate.mp hwalk, h]
    rfl
  | freed _ hframe _ _ hlog =>
    rw [hframe]
    simp [Memory.freed, hlog]

theorem FreePage.owner_eq (h : FreePage pgd addr m t) (f : Nat) :
    t.owner f = if m.translate pgd addr = some f then none else m.owner f := by
  cases h with
  | unmapped hwalk h =>
    rw [walk_none_iff_translate.mp hwalk, h]
    rfl
  | @freed _ g _ hframe _ howner _ =>
    rw [hframe, howner, Function.update_apply]
    simp only [Option.some.injEq, eq_comm]

end

end CS330.GemOS
