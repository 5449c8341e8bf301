import CS330.GemOS.Tables

/-! Whose frames are whose.

The log tells which user frames were allocated and not yet freed (`Held`) and which
leaf entries were made and not yet cleared (`Made`). In a `Ledger` the two are the same
frames: those the made entries map. It survives growing the tables and giving a page
back, because no frame is mapped twice. -/
namespace CS330.GemOS
open Radix Relation

/-- User frames that were allocated and that nobody has freed. -/
def Held : List Event → Nat → Prop
  | [], _ => False
  | .alloc .userReg pfn :: log, f => f = pfn ∨ Held log f
  | .free _ pfn _ :: log, f => f ≠ pfn ∧ Held log f
  | _ :: log, f => Held log f

section
variable {log : List Event} {entry : EntryPtr} {f g addr : Nat} {was : Option Region}

theorem held_table : Held (.alloc .osPtReg g :: log) f ↔ Held log f := .rfl

theorem held_page : Held (.leaf entry g :: .alloc .userReg g :: log) f ↔ f = g ∨ Held log f := .rfl

theorem held_freed :
    Held (.clear entry :: .free .userReg g was :: .freePage addr :: log) f ↔ f ≠ g ∧ Held log f := .rfl

end

/-- Leaf entries that `assign_data_page` made and that were not cleared. -/
def Made : List Event → EntryPtr → Prop
  | [], _ => False
  | .leaf entry _ :: log, x => x = entry ∨ Made log x
  | .clear entry :: log, x => x ≠ entry ∧ Made log x
  | _ :: log, x => Made log x

/-- The frame is mapped by an entry that was made. -/
def MadeFor (m : Memory) (pgd f : Nat) : Prop :=
  ∃ q i l1, q.length = 3 ∧ m.node pgd q = some l1 ∧ m.node pgd (q ++ [i]) = some f ∧ Made m.log (l1, i)

structure Ledger (m : Memory) (pgd : Nat) : Prop where
  tree : PageTree m pgd
  /-- No frame is mapped twice. -/
  inj : ∀ q q' f, q.length = 4 → q'.length = 4 → m.node pgd q = some f → m.node pgd q' = some f → q = q'
  held : ∀ f, Held m.log f ↔ MadeFor m pgd f
  /-- Only frames in use were freed. -/
  once : ∀ r pfn was, .free r pfn was ∈ m.log → was ≠ none

section
variable {m t : Memory} {pgd addr flags : Nat}

/-- Growing by a table: no page is mapped or made. -/
theorem Ledger.table {p : List (Fin 512)} {i : Fin 512} {g : Nat} (hm : Ledger m pgd) (hlen : p.length < 3)
    (hattach : Attached format m.words t.words pgd 3 p i (makeEntry g flags)) (hlt : g < 2 ^ 40)
    (howner : t.owner = Function.update m.owner g (some .osPtReg))
    (hlog : t.log = .alloc .osPtReg g :: m.log) : Ledger t pgd := by
  have hold : ∀ {q : List (Fin 512)} {f : Nat}, q.length = 4 → t.node pgd q = some f →
      m.node pgd q = some f := by
    intro q f hq hf
    rcases hattach.node_cases (by omega) hf with ⟨heq, -⟩ | hf
    · rw [heq, List.length_append, List.length_singleton] at hq
      omega
    · exact hf
  refine ⟨hm.tree.attach_fresh hlt hattach howner, fun q q' f hq hq' hf hf' => ?_, fun f => ?_, ?_⟩
  · exact hm.inj q q' f hq hq' (hold hq hf) (hold hq' hf')
  · rw [hlog, held_table, hm.held f]
    constructor
    · rintro ⟨q, j, l1, hq, hl1, hf, hmade⟩
      refine ⟨q, j, l1, hq, hattach.node_mono (by omega) hl1, ?_, ?_⟩
      · exact hattach.node_mono (by simp [hq]) hf
      · rw [hlog]
        exact hmade
    · rintro ⟨q, j, l1, hq, hl1, hf, hmade⟩
      have hf' := hold (by simp [hq]) hf
      obtain ⟨y, hy⟩ := node_prefix hf' (List.prefix_append q [j])
      have : l1 = y := Option.some.inj (hl1.symm.trans (hattach.node_mono (by omega) hy))
      subst this
      rw [hlog] at hmade
      exact ⟨q, j, l1, hq, hy, hf', hmade⟩
  · intro r pfn was hmem
    rw [hlog] at hmem
    exact hm.once r pfn was (by simpa using hmem)

/-- Growing by the page: its frame is held and mapped by the entry just made. -/
theorem Ledger.page {f g : Nat} (hm : Ledger m pgd) (hnode : m.node pgd (dir addr) = some f)
    (hattach : Attached format m.words t.words pgd 3 (dir addr) (l1Index addr) (makeEntry g flags))
    (hfree : m.owner g = none) (hlt : g < 2 ^ 40)
    (howner : t.owner = Function.update m.owner g (some .userReg))
    (hlog : t.log = .leaf (f, l1Index addr) g :: .alloc .userReg g :: m.log) : Ledger t pgd := by
  have hnew : ∀ {q : List (Fin 512)} {x : Nat}, q.length ≤ 4 → t.node pgd q = some x →
      q = path addr ∧ x = g ∨ m.node pgd q = some x := by
    intro q x hq hx
    rcases hattach.node_cases hq hx with ⟨heq, htarget⟩ | hx
    · exact .inl ⟨heq, htarget.trans (makeEntry_target hlt)⟩
    · exact .inr hx
  have hpage : t.node pgd (path addr) = some g := by
    refine (hattach.node _ (by simp)).trans ?_
    rw [if_pos (path_eq addr), makeEntry_target hlt]
  refine ⟨hm.tree.attach_fresh hlt hattach howner, fun q q' x hq hq' hx hx' => ?_, fun x => ?_, ?_⟩
  · rcases hnew (by omega) hx with ⟨rfl, rfl⟩ | hx
    · rcases hnew (by omega) hx' with ⟨rfl, -⟩ | hx'
      · rfl
      · exact absurd hx' (hm.tree.fresh hfree q' (by omega))
    · rcases hnew (by omega) hx' with ⟨rfl, rfl⟩ | hx'
      · exact absurd hx (hm.tree.fresh hfree q (by omega))
      · exact hm.inj q q' x hq hq' hx hx'
  · rw [hlog, held_page, hm.held x]
    constructor
    · rintro (rfl | ⟨q, j, l1, hq, hl1, hx, hmade⟩)
      · refine ⟨dir addr, l1Index addr, f, rfl, hattach.node_mono (by simp) hnode, hpage, ?_⟩
        rw [hlog]
        exact .inl rfl
      · refine ⟨q, j, l1, hq, hattach.node_mono (by omega) hl1, ?_, ?_⟩
        · exact hattach.node_mono (by simp [hq]) hx
        · rw [hlog]
          exact .inr hmade
    · rintro ⟨q, j, l1, hq, hl1, hx, hmade⟩
      rcases hnew (by simp [hq]) hx with ⟨-, rfl⟩ | hx'
      · exact .inl rfl
      · -- An old page: its entry is another one than the entry just made.
        have hl1' : m.node pgd q = some l1 := by
          rcases hnew (by omega) hl1 with ⟨heq, -⟩ | hl1
          · rw [heq] at hq
            simp at hq
          · exact hl1
        rw [hlog] at hmade
        rcases hmade with hptr | hmade
        · obtain ⟨rfl, rfl⟩ := Prod.mk.inj hptr
          have hdir : dir addr = q := (hm.tree.tree q (dir addr) l1 (by omega) (by simp) hl1' hnode)
          rw [← hdir, ← path_eq, Memory.node, path_eq, Radix.node_snoc, hattach.missing] at hx'
          cases hx'
        · exact .inr ⟨q, j, l1, hq, hl1', hx', hmade⟩
  · intro r pfn was hmem
    rw [hlog] at hmem
    exact hm.once r pfn was (by simpa using hmem)

theorem Grow.ledger (h : Grow pgd addr flags 0 m t) (hm : Ledger m pgd) : Ledger t pgd := by
  cases h with
  | table hlen _ hattach _ hlt howner hlog => exact hm.table hlen hattach hlt howner hlog
  | page _ hnode hattach hfree hlt howner hlog => exact hm.page hnode hattach hfree hlt howner hlog
  | given hpfn => exact absurd rfl hpfn

theorem Grows.ledger (h : Grows pgd addr flags 0 m t) (hm : Ledger m pgd) : Ledger t pgd := by
  induction h with
  | refl => exact hm
  | tail _ hgrow ih => exact hgrow.ledger ih

/-- Giving a page back: its frame is freed, and nothing maps it any more. -/
theorem Ledger.freed {f g : Nat} (hm : Ledger m pgd) (hnode : m.node pgd (dir addr) = some f)
    (hframe : m.translate pgd addr = some g)
    (hclear : Cleared format m.words t.words pgd 3 (dir addr) (l1Index addr))
    (howner : t.owner = Function.update m.owner g none)
    (hlog : t.log = .clear (f, l1Index addr) :: .free .userReg g (m.owner g) :: .freePage addr :: m.log) :
    Ledger t pgd := by
  have hnode' : ∀ q, q.length ≤ 4 → t.node pgd q = if q = path addr then none else m.node pgd q :=
    fun q hq => hclear.node q hq
  have hold : ∀ {q : List (Fin 512)} {x : Nat}, q.length ≤ 4 → t.node pgd q = some x →
      q ≠ path addr ∧ m.node pgd q = some x := by
    intro q x hq hx
    rw [hnode' q hq] at hx
    split at hx
    case isTrue => cases hx
    case isFalse hne => exact ⟨hne, hx⟩
  -- The frame was mapped at this place only.
  have hother : ∀ {q : List (Fin 512)} {x : Nat}, q.length ≤ 4 → t.node pgd q = some x → x ≠ g := by
    rintro q x hq hx rfl
    obtain ⟨hne, hx⟩ := hold hq hx
    by_cases hlen : q.length = 4
    · exact hne (hm.inj q (path addr) x hlen rfl hx hframe)
    · exact hne (hm.tree.tree q (path addr) x (by omega) (by simp) hx hframe).symm
  refine ⟨⟨hclear.tree, fun q x hq hx => ?_, fun q j e hq he => ?_⟩, fun q q' x hq hq' hx hx' => ?_,
    fun x => ?_, ?_⟩
  · rw [howner, Function.update_of_ne (hother hq hx)]
    exact hm.tree.used q x hq (hold hq hx).2
  · rw [Memory.entry, hclear.entry q j hq] at he
    split at he
    · cases he
    · exact hm.tree.clear q j e hq he
  · exact hm.inj q q' x hq hq' (hold (by omega) hx).2 (hold (by omega) hx').2
  · rw [hlog, held_freed, hm.held x]
    constructor
    · rintro ⟨hne, q, j, l1, hq, hl1, hx, hmade⟩
      have hqj : q ++ [j] ≠ path addr := by
        intro hc
        rw [hc] at hx
        exact hne (Option.some.inj (hx.symm.trans hframe))
      refine ⟨q, j, l1, hq, ?_, ?_, ?_⟩
      · rw [hnode' q (by omega), if_neg, hl1]
        rintro rfl
        simp at hq
      · rw [hnode' _ (by simp [hq]), if_neg hqj, hx]
      · rw [hlog]
        refine ⟨fun hptr => hqj ?_, hmade⟩
        obtain ⟨rfl, rfl⟩ := Prod.mk.inj hptr
        rw [hm.tree.tree (dir addr) q l1 (by simp) (by omega) hnode hl1]
        rfl
    · rintro ⟨q, j, l1, hq, hl1, hx, hmade⟩
      have hlen : (q ++ [j]).length ≤ 4 := by simp [hq]
      rw [hlog] at hmade
      exact ⟨hother hlen hx, q, j, l1, hq, (hold (by omega) hl1).2, (hold hlen hx).2, hmade.2⟩
  · intro r pfn was hmem
    rw [hlog] at hmem
    simp only [List.mem_cons, reduceCtorEq, Event.free.injEq, false_or] at hmem
    rcases hmem with ⟨-, -, rfl⟩ | hmem
    · exact hm.tree.used (path addr) g (by simp) hframe
    · exact hm.once r pfn was hmem

theorem FreePage.ledger (h : FreePage pgd addr m t) (hm : Ledger m pgd) : Ledger t pgd := by
  cases h with
  | unmapped _ h =>
    subst h
    refine ⟨⟨hm.tree.tree, hm.tree.used, hm.tree.clear⟩, hm.inj, hm.held, fun r pfn was hmem => ?_⟩
    exact hm.once r pfn was (by simpa using hmem)
  | freed hnode hframe hclear howner hlog => exact hm.freed hnode hframe hclear howner hlog

end

end CS330.GemOS
