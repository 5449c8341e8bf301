import CS330.Spec.Positions

/-! Trees without gaps.

A read, a measurement and a deletion all stop at the first table or entry that is
missing, so what lies behind a gap is there for none of them. A write cuts off what lies
behind its end and fills what lies in it; it leaves a gap exactly when it starts behind
one. -/
namespace CS330.Spec
open ObjStore

namespace Tree

/-- Behind a table or an entry that is missing there is no other. -/
structure Gapless (T : Tree) : Prop where
  tables : ∀ i j, i ≤ j → T j ≠ none → T i ≠ none
  entries : ∀ j k l, k ≤ l → T.entry j l ≠ none → T.entry j k ≠ none

/-- Nothing is missing in front of `offset`: not a table, nor an entry of the table it lies in. -/
structure FilledTo (T : Tree) (offset : Nat) : Prop where
  tables : ∀ i, i < firstOf offset → T i ≠ none
  entries : ∀ k, k < entryOf offset → T.entry (firstOf offset) k ≠ none

theorem gapless_empty : Gapless empty := ⟨fun _ _ _ h => absurd rfl h, fun _ _ _ _ h => absurd rfl h⟩

section Write
variable {T : Tree} {B : Buffer} {n offset j k : Nat}

theorem write_ne_none : T.write B n offset j ≠ none ↔
    if j < firstOf offset then T j ≠ none else j < 4 ∧ (j - firstOf offset) * 4194304 < n := by
  unfold write
  dsimp only
  by_cases hj : j < firstOf offset
  · rw [if_pos hj, if_pos hj]
  · rw [if_neg hj, if_neg hj]
    split
    · simp only [ne_eq, not_true_eq_false, false_iff]
      omega
    · simp only [ne_eq, reduceCtorEq, not_false_eq_true, true_iff]
      omega

/-- The entries of the tables that the write goes through. -/
theorem write_entry_ne_none (hj : firstOf offset ≤ j) (hj4 : j < 4) (hn : (j - firstOf offset) * 4194304 < n) :
    (T.write B n offset).entry j k ≠ none ↔
      if k < startAt (firstOf offset) (entryOf offset) j then T.entry j k ≠ none
      else k < 1024 ∧ (j - firstOf offset) * 4194304 + (k - startAt (firstOf offset) (entryOf offset) j) * 4096 < n := by
  rw [write_entry, if_neg (by omega), if_neg (by omega)]
  split
  · rfl
  · split <;> simp_all

theorem write_entry_before (hj : j < firstOf offset) : (T.write B n offset).entry j k = T.entry j k := by
  rw [write_entry, if_pos hj]

/-- A write that starts behind no gap leaves none. -/
theorem Gapless.write (h : T.Gapless) (hfilled : T.FilledTo offset) : (T.write B n offset).Gapless := by
  refine ⟨fun i j hij hj => ?_, fun j k l hkl hl => ?_⟩
  · rw [write_ne_none] at hj ⊢
    split
    case isTrue hi => exact hfilled.tables i hi
    case isFalse hi =>
      rw [if_neg (by omega)] at hj
      omega
  · rcases Nat.lt_or_ge j (firstOf offset) with hj | hj
    · rw [write_entry_before hj] at hl ⊢
      exact h.entries j k l hkl hl
    have htable : Tree.write T B n offset j ≠ none := by
      intro hnone
      rw [entry, hnone] at hl
      exact hl rfl
    rw [write_ne_none, if_neg (by omega)] at htable
    rw [write_entry_ne_none hj htable.1 htable.2] at hl ⊢
    split
    case isTrue hk =>
      -- only the table the write starts in has entries in front of it
      obtain rfl : j = firstOf offset := by
        by_contra hne
        rw [startAt, if_neg hne] at hk
        exact absurd hk (Nat.not_lt_zero k)
      rw [startAt_self] at hk
      exact hfilled.entries k hk
    case isFalse hk =>
      rw [if_neg (by omega)] at hl
      omega

/-- The first block of a write that leaves no gap has its predecessors. -/
theorem Gapless.filledTo (h : (T.write B n offset).Gapless) (hn : 0 < n) (hoff : firstOf offset < 4) :
    T.FilledTo offset := by
  have hfirst : (firstOf offset - firstOf offset) * 4194304 < n := by omega
  have htable : Tree.write T B n offset (firstOf offset) ≠ none := by
    rw [write_ne_none, if_neg (Nat.lt_irrefl _)]
    exact ⟨hoff, hfirst⟩
  have hentry : (Tree.write T B n offset).entry (firstOf offset) (entryOf offset) ≠ none := by
    have hlt := entryOf_lt offset
    rw [write_entry_ne_none (Nat.le_refl _) hoff hfirst, startAt_self, if_neg (Nat.lt_irrefl _)]
    omega
  refine ⟨fun i hi => ?_, fun k hk => ?_⟩
  · have hi' := h.tables i _ hi.le htable
    rwa [write_ne_none, if_pos hi] at hi'
  · have hk' := h.entries _ k _ hk.le hentry
    rwa [write_entry_ne_none (Nat.le_refl _) hoff hfirst, startAt_self, if_pos hk] at hk'

end Write

end Tree

/-! ### Files -/

namespace Files

def Gapless (F : Files) : Prop := ∀ x f, F x = some f → f.tree.Gapless

/-- A call that places blocks places them behind no gap. -/
def FilledFor (F : Files) : Op → Prop
  | .write id _ offset => ∀ f, F.lookup id = some f → f.tree.FilledTo offset
  | _ => True

/-- A write of at least a byte inside the 16 MB of a file. -/
theorem gapless_write_iff {F : Files} {id : Int} {data : List UInt8} {offset : Nat} (hF : F.Gapless)
    (hdata : 1 ≤ data.length) (hend : offset + data.length ≤ 16777216) :
    (F.write id data offset).2.Gapless ↔ F.FilledFor (.write id data offset) := by
  have htaken : taken data offset = data.length := by
    rw [taken_eq (by omega) (by omega)]
    omega
  have hoff : firstOf offset < 4 := firstOf_lt (by omega)
  cases hl : F.lookup id with
  | none =>
    rw [write, hl]
    refine iff_of_true hF fun f hf => ?_
    cases hl.symm.trans hf
  | some f =>
    obtain ⟨hid, hf⟩ := lookup_eq_some.mp hl
    rw [write_live hid hf]
    dsimp only
    have hself : Function.update F (idToIndex id) (some (f.write (bufferOf data) (taken data offset) offset))
        (idToIndex id) = some ⟨offset + data.length, f.tree.write (bufferOf data) data.length offset⟩ := by
      rw [Function.update_self, htaken]
      rfl
    constructor
    · intro h g hg
      obtain rfl := Option.some.inj (hl.symm.trans hg)
      exact (h _ _ hself).filledTo hdata hoff
    · intro h x g hg
      by_cases hx : x = idToIndex id
      · subst hx
        obtain rfl := Option.some.inj (hself.symm.trans hg)
        exact (hF _ _ hf).write (h f hl)
      · rw [Function.update_of_ne hx] at hg
        exact hF x g hg

end Files

end CS330.Spec
