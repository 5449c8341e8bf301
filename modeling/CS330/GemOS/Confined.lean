import CS330.GemOS.Ledger
import CS330.GemOS.Segments
import CS330.Lib.Machine

/-! Lazy allocation stays inside the segments.

Faults map pages below `next_free` only, shrink gives back what it cuts off, and the
ledger of frames survives both. `Confined` is the invariant of runs in which no shrink
subtracts more than `next_free` holds. -/
namespace CS330.GemOS.Lazy
open Machine

/-- The segments that expand and shrink move. -/
def Moves (k : MmSeg) : Prop := k = .rodata ∨ k = .data

def MmSegment.Has (seg : MmSegment) (a : Nat) : Prop := seg.start ≤ a ∧ a < seg.end_

/-- Page-aligned, disjoint segments of the 48-bit address space, each `next_free` in its own. -/
structure Layout (s : State) : Prop where
  start_aligned : ∀ k, k ≠ .code → (s.seg k).start % 4096 = 0
  end_aligned : ∀ k, k ≠ .code → (s.seg k).end_ % 4096 = 0
  next_aligned : ∀ k, Moves k → (s.seg k).nextFree % 4096 = 0
  start_le : ∀ k, Moves k → (s.seg k).start ≤ (s.seg k).nextFree
  le_end : ∀ k, Moves k → (s.seg k).nextFree ≤ (s.seg k).end_
  high : ∀ k, k ≠ .code → (s.seg k).end_ ≤ 2 ^ 48
  disjoint : ∀ j k a, j ≠ .code → k ≠ .code → (s.seg j).Has a → (s.seg k).Has a → j = k

structure Confined (s : State) : Prop where
  layout : Layout s
  ledger : Ledger s.mem s.current.pgd
  above : ∀ k, Moves k → ∀ a, (s.seg k).nextFree ≤ a → a < (s.seg k).end_ →
    s.mem.walk s.current.pgd a = none

section Faults
variable {alloc : Allocator} {s t : State} {k : MmSeg} {cr2 errorCode : Nat}

theorem Moves.ne_code (h : Moves k) : k ≠ .code := by
  rcases h with rfl | rfl <;> decide

/-- Whose handler a fault gets, if any. -/
def served (cr2 errorCode : Nat) (s : State) : Option MmSeg :=
  if cr2 ≥ (s.seg .data).start ∧ cr2 < (s.seg .data).nextFree ∧ errorCode &&& 1 = 0 then some .data
  else if cr2 ≥ (s.seg .rodata).start ∧ cr2 < (s.seg .rodata).nextFree then some .rodata
  else if cr2 ≥ (s.seg .stack).start ∧ cr2 < (s.seg .stack).end_ then some .stack
  else none

theorem handlePageFault_eq (alloc : Allocator) (cr2 errorCode : Nat) (s : State) :
    handlePageFault alloc cr2 errorCode s = match served cr2 errorCode s with
      | none => some (.doExit, s)
      | some k => (assignPage alloc s.current.pgd cr2 (s.seg k).accessFlags 0 s.mem).map fun m =>
          (.iretq, {s with mem := m}) := by
  unfold handlePageFault served
  dsimp only
  split_ifs <;> first | rfl | exact Option.map_map ..

theorem handlePageFault_cases {o : Outcome} (h : handlePageFault alloc cr2 errorCode s = some (o, t)) :
    served cr2 errorCode s = none ∧ o = .doExit ∧ t = s ∨
      ∃ k m, served cr2 errorCode s = some k ∧ o = .iretq ∧ t = {s with mem := m} ∧
        assignPage alloc s.current.pgd cr2 (s.seg k).accessFlags 0 s.mem = some m := by
  rw [handlePageFault_eq] at h
  cases hserved : served cr2 errorCode s with
  | none =>
    rw [hserved] at h
    cases h
    exact .inl ⟨rfl, rfl, rfl⟩
  | some k =>
    rw [hserved] at h
    obtain ⟨m, hm, heq⟩ := Option.map_eq_some_iff.mp h
    cases heq
    exact .inr ⟨k, m, rfl, rfl, rfl, hm⟩

/-- A fault that is served lies in its segment, below `next_free` where there is one. -/
theorem served_has (hl : Layout s) (h : served cr2 errorCode s = some k) :
    k ≠ .code ∧ (s.seg k).Has cr2 ∧ (Moves k → cr2 < (s.seg k).nextFree) := by
  unfold served at h
  split_ifs at h with hdata hrodata hstack <;> cases h
  · have := hl.le_end .data (.inr rfl)
    exact ⟨by decide, ⟨hdata.1, by omega⟩, fun _ => hdata.2.1⟩
  · have := hl.le_end .rodata (.inl rfl)
    exact ⟨by decide, ⟨hrodata.1, by omega⟩, fun _ => hrodata.2⟩
  · refine ⟨by decide, hstack, ?_⟩
    rintro (h | h) <;> cases h

theorem walk_congr {m : Memory} {pgd a b : Nat} (h : a / 4096 = b / 4096) : m.walk pgd a = m.walk pgd b := by
  unfold Memory.walk
  rw [path_congr h]

/-- A fault that is served leaves the pages at and above `next_free` alone. -/
theorem served_page {a : Nat} {j : MmSeg} (hl : Layout s) (h : served cr2 errorCode s = some j) (hk : Moves k)
    (ha : (s.seg k).nextFree ≤ a) (hend : a < (s.seg k).end_) : path a ≠ path cr2 := by
  obtain ⟨hj, hhas, hlow⟩ := served_has hl h
  have hhigh := hl.high j hj
  have hhigh' := hl.high k hk.ne_code
  have hhas' : (s.seg k).Has a := ⟨(hl.start_le k hk).trans ha, hend⟩
  intro hpath
  have hpage := path_inj (by omega) (by have := hhas.2; omega) hpath
  by_cases hjk : j = k
  · subst hjk
    have := hl.next_aligned j hk
    have := hlow hk
    omega
  · -- The page of `cr2` lies in its own segment.
    refine hjk (hl.disjoint j k a hj hk.ne_code ⟨?_, ?_⟩ hhas')
    · have := hl.start_aligned j hj
      have := hhas.1
      omega
    · have := hl.end_aligned j hj
      have := hhas.2
      omega

theorem Confined.fault {o : Outcome} (hs : Confined s)
    (h : handlePageFault alloc cr2 errorCode s = some (o, t)) : Confined t := by
  rcases handlePageFault_cases h with ⟨-, -, rfl⟩ | ⟨j, m, hserved, -, rfl, hm⟩
  · exact hs
  · obtain ⟨-, hgrows, -⟩ := assignPage_spec hs.ledger.tree (Spare.zero _ _) hm
    refine ⟨⟨hs.layout.1, hs.layout.2, hs.layout.3, hs.layout.4, hs.layout.5, hs.layout.6, hs.layout.7⟩,
      hgrows.ledger hs.ledger, fun k hk a ha hend => ?_⟩
    exact (hgrows.walk (served_page hs.layout hserved hk ha hend)).trans (hs.above k hk a ha hend)

end Faults

/-! ### Expand and shrink -/

section Calls
variable {s t : State} {j k : MmSeg} {v size : Nat}

/-- The layout after `next_free` was moved inside its segment, to a page boundary. -/
theorem Layout.move (hl : Layout s) (hv : v % 4096 = 0) (hstart : (s.seg k).start ≤ v)
    (hend : v ≤ (s.seg k).end_) : Layout (s.setNextFree k v) := by
  have hseg : ∀ j, (s.setNextFree k v).seg j = if j = k then {s.seg k with nextFree := v} else s.seg j := by
    intro j
    split
    case isTrue hj => subst hj; exact setNextFree_seg s j v
    case isFalse hj => exact setNextFree_other hj
  have hsame : ∀ j, ((s.setNextFree k v).seg j).start = (s.seg j).start ∧
      ((s.setNextFree k v).seg j).end_ = (s.seg j).end_ := by
    intro j
    rw [hseg j]
    split
    case isTrue hj => subst hj; exact ⟨rfl, rfl⟩
    case isFalse => exact ⟨rfl, rfl⟩
  constructor
  · intro j hj
    rw [(hsame j).1]
    exact hl.start_aligned j hj
  · intro j hj
    rw [(hsame j).2]
    exact hl.end_aligned j hj
  · intro j hj
    rw [hseg j]
    split
    · exact hv
    · exact hl.next_aligned j hj
  · intro j hj
    rw [hseg j]
    split
    · exact hstart
    · exact hl.start_le j hj
  · intro j hj
    rw [hseg j]
    split
    · exact hend
    · exact hl.le_end j hj
  · intro j hj
    rw [(hsame j).2]
    exact hl.high j hj
  · intro j j' a hj hj'
    unfold MmSegment.Has
    rw [(hsame j).1, (hsame j).2, (hsame j').1, (hsame j').2]
    exact hl.disjoint j j' a hj hj'

theorem Confined.raise (hs : Confined s) (hv : v % 4096 = 0) (hle : (s.seg k).nextFree ≤ v)
    (hstart : (s.seg k).start ≤ v) (hend : v ≤ (s.seg k).end_) : Confined (s.setNextFree k v) := by
  refine ⟨hs.layout.move hv hstart hend, hs.ledger, fun j hj a ha hlt => ?_⟩
  by_cases hjk : j = k
  · subst hjk
    rw [setNextFree_seg] at ha hlt
    exact hs.above j hj a (hle.trans ha) hlt
  · rw [setNextFree_other hjk] at ha hlt
    exact hs.above j hj a ha hlt

/-- One page given back. -/
theorem Confined.giveBack (hs : Confined s) (hk : Moves k)
    (hroom : (s.seg k).start + 4096 ≤ (s.seg k).nextFree) : Confined (giveBack k s) := by
  have hend := hs.layout.le_end k hk
  have hhigh := hs.layout.high k hk.ne_code
  have haligned := hs.layout.next_aligned k hk
  have hfree := @freeDataPage_spec s.mem s.current.pgd ((s.seg k).nextFree - 4096) hs.ledger.tree.tree
  have hl := hs.layout.move (k := k) (v := (s.seg k).nextFree - 4096) (by omega)
    (Nat.le_sub_of_add_le hroom) ((Nat.sub_le _ _).trans hend)
  rw [giveBack_eq (by omega) (by omega)]
  refine ⟨⟨hl.1, hl.2, hl.3, hl.4, hl.5, hl.6, hl.7⟩, hfree.ledger hs.ledger, fun j hj a ha hlt => ?_⟩
  by_cases hpage : a / 4096 = ((s.seg k).nextFree - 4096) / 4096
  · rw [walk_congr hpage]
    exact hfree.unmapped_after
  · have hold : (s.seg j).nextFree ≤ a ∧ a < (s.seg j).end_ := by
      change ((s.setNextFree k _).seg j).nextFree ≤ a at ha
      change a < ((s.setNextFree k _).seg j).end_ at hlt
      by_cases hjk : j = k
      · subst hjk
        rw [setNextFree_seg] at ha hlt
        dsimp only at ha hlt
        omega
      · rw [setNextFree_other hjk] at ha hlt
        exact ⟨ha, hlt⟩
    have hhigh' := hs.layout.high j hj.ne_code
    refine (hfree.walk fun hc => hpage (path_inj (by omega) (by omega) hc)).trans ?_
    exact hs.above j hj a hold.1 hold.2

/-- What holds of a confined state and survives giving back a page of its segment holds after
the loop. -/
theorem Confined.shrinkLoop_rule {P : State → Prop} (hk : Moves k)
    (hstep : ∀ u, Confined u → (u.seg k).start + 4096 ≤ (u.seg k).nextFree → P u → P (Lazy.giveBack k u))
    (hs : Confined s) (hP : P s) (hroom : (s.seg k).start + size * 4096 ≤ (s.seg k).nextFree) :
    Confined (shrinkLoop k size s) ∧ P (shrinkLoop k size s) := by
  induction size generalizing s with
  | zero => exact ⟨hs, hP⟩
  | succ size ih =>
    have hend := hs.layout.le_end k hk
    have hhigh := hs.layout.high k hk.ne_code
    have hone : (s.seg k).start + 4096 ≤ (s.seg k).nextFree := by omega
    have hrest : (s.seg k).start + size * 4096 ≤ (s.seg k).nextFree - 4096 := by
      rw [Nat.succ_mul, ← Nat.add_assoc] at hroom
      exact Nat.le_sub_of_add_le hroom
    rw [shrinkLoop_succ]
    refine ih (hs.giveBack hk hone) (hstep s hs hone hP) ?_
    rw [giveBack_seg, sub_page (by omega) (by omega)]
    exact hrest

theorem Confined.shrinkLoop (hs : Confined s) (hk : Moves k)
    (hroom : (s.seg k).start + size * 4096 ≤ (s.seg k).nextFree) : Confined (shrinkLoop k size s) :=
  (Confined.shrinkLoop_rule (P := fun _ => True) hk (fun _ _ _ _ => trivial) hs trivial hroom).1

end Calls

/-! ### Runs -/

section Runs
variable {alloc : Allocator} {s t : State} {k : MmSeg} {op : Op} {r : Ret}

/-- A shrink of fewer than 2^20 pages that does not subtract more than `next_free` holds. -/
def Tame : Op → State → Prop
  | .shrink param1 param2, s => ∀ k, memorySegment (param2 % 2 ^ 32) = some k →
      param1 % 2 ^ 32 < 2 ^ 20 ∧ param1 % 2 ^ 32 * 4096 ≤ (s.seg k).nextFree
  | _, _ => True

theorem memorySegment_moves {flags : Nat} (h : memorySegment flags = some k) : Moves k := by
  unfold memorySegment at h
  split_ifs at h <;> cases h
  · exact .inr rfl
  · exact .inl rfl

/-- What an expand does: nothing, or it raises `next_free` by whole pages. -/
theorem syscallExpand_cases {param1 param2 : Nat} {v : Int} (hl : Layout s)
    (h : syscallExpand param1 param2 s = some (v, t)) : t = s ∨ ∃ k w, Moves k ∧ w % 4096 = 0 ∧
      (s.seg k).nextFree + w ≤ (s.seg k).end_ ∧ t = s.setNextFree k ((s.seg k).nextFree + w) := by
  obtain ⟨k, hk, -⟩ := Option.map_eq_some_iff.mp h
  have hmoves := memorySegment_moves hk
  have hend := hl.le_end k hmoves
  have hhigh := hl.high k hmoves.ne_code
  rw [syscallExpand_eq hk rfl (by omega)] at h
  split at h
  case isTrue =>
    cases h
    exact .inl rfl
  case isFalse hfits =>
    cases h
    refine .inr ⟨k, _, hmoves, ?_, not_lt.mp hfits, rfl⟩
    rw [shifted_eq]
    omega

/-- What a shrink does: nothing, or it gives back the pages it was asked to. -/
theorem syscallShrink_cases {param1 param2 : Nat} {v : Int} (hl : Layout s)
    (h : syscallShrink param1 param2 s = some (v, t)) (htame : Tame (.shrink param1 param2) s) :
    t = s ∨ ∃ k size, Moves k ∧ (s.seg k).start + size * 4096 ≤ (s.seg k).nextFree ∧
      t = shrinkLoop k size s := by
  obtain ⟨k, hk, -⟩ := Option.map_eq_some_iff.mp h
  have hmoves := memorySegment_moves hk
  have hend := hl.le_end k hmoves
  have hhigh := hl.high k hmoves.ne_code
  obtain ⟨hsmall, hroom⟩ := htame k hk
  have hshift := shifted_small hsmall
  rw [syscallShrink_eq hk rfl (hshift.trans_le hroom) (by omega), hshift] at h
  split at h
  case isTrue =>
    cases h
    exact .inl rfl
  case isFalse hfits =>
    cases h
    exact .inr ⟨k, _, hmoves, not_lt.mp hfits, rfl⟩

theorem Confined.step (hs : Confined s) (h : step alloc op s = some (r, t)) (htame : Tame op s) :
    Confined t := by
  cases op with
  | fault cr2 errorCode =>
    obtain ⟨⟨o, u⟩, hu, heq⟩ := Option.map_eq_some_iff.mp h
    cases heq
    exact hs.fault hu
  | expand param1 param2 =>
    obtain ⟨⟨v, u⟩, hu, heq⟩ := Option.map_eq_some_iff.mp h
    cases heq
    rcases syscallExpand_cases hs.layout hu with rfl | ⟨k, w, hk, hw, hend, rfl⟩
    · exact hs
    · have haligned := hs.layout.next_aligned k hk
      have hstart := hs.layout.start_le k hk
      exact hs.raise (by omega) (by omega) (by omega) hend
  | shrink param1 param2 =>
    obtain ⟨⟨v, u⟩, hu, heq⟩ := Option.map_eq_some_iff.mp h
    cases heq
    rcases syscallShrink_cases hs.layout hu htame with rfl | ⟨k, size, hk, hroom, rfl⟩
    · exact hs
    · exact hs.shrinkLoop hk hroom

end Runs

end CS330.GemOS.Lazy
