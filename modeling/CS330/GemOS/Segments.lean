import CS330.GemOS.Lazy

/-! The two system calls as moves of `next_free`.

Below 2^47 the 64-bit sums do not wrap, so the calls compare with the 32-bit
`size << 12` as plain numbers. The loop of shrink, however, takes `size` steps: what
it moves is not what was compared unless `size` is below 2^20. -/
namespace CS330.GemOS.Lazy

variable {s t : State} {k j : MmSeg} {v size flags : Nat}

/-! ### Moving `next_free` -/

theorem setNextFree_seg (s : State) (k : MmSeg) (v : Nat) :
    (s.setNextFree k v).seg k = {s.seg k with nextFree := v} := by
  simp [State.setNextFree, State.seg]

theorem setNextFree_other (h : j ≠ k) : (s.setNextFree k v).seg j = s.seg j := by
  simp [State.setNextFree, State.seg, h]

theorem setNextFree_self (s : State) (k : MmSeg) : s.setNextFree k (s.seg k).nextFree = s := by
  unfold State.setNextFree State.seg
  simp

/-- Two states with the same segments and root. -/
theorem current_ext (hpgd : s.current.pgd = t.current.pgd) (h : ∀ k, s.seg k = t.seg k) :
    s.current = t.current := by
  cases hs : s.current with
  | mk pgd mms =>
    cases ht : t.current with
    | mk pgd' mms' =>
      have hmms : mms = mms' := by
        funext k
        simpa [State.seg, hs, ht] using h k
      rw [hs, ht] at hpgd
      rw [hmms, show pgd = pgd' from hpgd]

/-! ### Expand -/

theorem shifted_eq (size : Nat) : shifted size = size * 4096 % 2 ^ 32 := by
  rw [shifted, Nat.shiftLeft_eq]

theorem shifted_lt (size : Nat) : shifted size < 2 ^ 32 := Nat.mod_lt _ (by omega)

theorem shifted_small (h : size < 2 ^ 20) : shifted size = size * 4096 := by
  rw [shifted_eq]
  omega

theorem toLong_eq (h : v < 2 ^ 63) : toLong v = v := if_pos h

/-- An expand adds the 32-bit `size << 12`, or does nothing if that is too much. -/
theorem syscallExpand_eq {param1 : Nat} (hk : memorySegment (flags % 2 ^ 32) = some k)
    (hsize : param1 % 2 ^ 32 = size) (hnext : (s.seg k).nextFree < 2 ^ 62) : syscallExpand param1 flags s =
      if (s.seg k).end_ < (s.seg k).nextFree + shifted size then some (0, s)
      else some (((s.seg k).nextFree : Int), s.setNextFree k ((s.seg k).nextFree + shifted size)) := by
  have hw := shifted_lt size
  have hsum : ((s.seg k).nextFree + shifted size) % 2 ^ 64 = (s.seg k).nextFree + shifted size := by omega
  have hback : ((s.seg k).nextFree + shifted size + 2 ^ 64 - shifted size) % 2 ^ 64 = (s.seg k).nextFree := by
    omega
  have hlong := toLong_eq (show (s.seg k).nextFree < 2 ^ 63 by omega)
  unfold syscallExpand
  simp only [hk, hsize, Option.map_some, hsum, hback, setNextFree_self, gt_iff_lt, hlong]
  split <;> rfl

/-! ### Shrink -/

/-- One round of the loop: the page below `next_free` is given back. -/
def giveBack (k : MmSeg) (s : State) : State :=
  let nextFree := ((s.seg k).nextFree + 2 ^ 64 - 4096) % 2 ^ 64
  {s.setNextFree k nextFree with mem := freeDataPage nextFree s.current.pgd s.mem}

theorem shrinkLoop_succ (k : MmSeg) (size : Nat) (s : State) :
    shrinkLoop k (size + 1) s = shrinkLoop k size (giveBack k s) := rfl

theorem giveBack_seg (k : MmSeg) (s : State) : (giveBack k s).seg k =
    {s.seg k with nextFree := ((s.seg k).nextFree + 2 ^ 64 - 4096) % 2 ^ 64} := setNextFree_seg _ _ _

theorem sub_page {n : Nat} (hpage : 4096 ≤ n) (hlt : n < 2 ^ 64) :
    (n + 2 ^ 64 - 4096) % 2 ^ 64 = n - 4096 := by
  omega

/-- The round, when there is a page below `next_free`. -/
theorem giveBack_eq (hpage : 4096 ≤ (s.seg k).nextFree) (hlt : (s.seg k).nextFree < 2 ^ 64) :
    giveBack k s = {s.setNextFree k ((s.seg k).nextFree - 4096) with
      mem := freeDataPage ((s.seg k).nextFree - 4096) s.current.pgd s.mem} := by
  unfold giveBack
  rw [sub_page hpage hlt]

theorem giveBack_other (h : j ≠ k) : (giveBack k s).seg j = s.seg j := setNextFree_other h

@[simp] theorem giveBack_pgd (k : MmSeg) (s : State) : (giveBack k s).current.pgd = s.current.pgd := rfl

theorem shrinkLoop_other (h : j ≠ k) : (shrinkLoop k size s).seg j = s.seg j := by
  induction size generalizing s with
  | zero => rfl
  | succ size ih => rw [shrinkLoop_succ, ih, giveBack_other h]

theorem shrinkLoop_pgd (k : MmSeg) (size : Nat) (s : State) :
    (shrinkLoop k size s).current.pgd = s.current.pgd := by
  induction size generalizing s with
  | zero => rfl
  | succ size ih => rw [shrinkLoop_succ, ih, giveBack_pgd]

/-- After `size` rounds `next_free` is lower by `size` pages, modulo 2^64. -/
theorem shrinkLoop_seg (k : MmSeg) (size : Nat) (s : State) (h : (s.seg k).nextFree < 2 ^ 64) :
    (shrinkLoop k size s).seg k =
      {s.seg k with nextFree := ((s.seg k).nextFree + size * (2 ^ 64 - 4096)) % 2 ^ 64} := by
  induction size generalizing s with
  | zero =>
    rw [Nat.zero_mul, Nat.add_zero, Nat.mod_eq_of_lt h]
    rfl
  | succ size ih =>
    rw [shrinkLoop_succ, ih _ (by rw [giveBack_seg]; exact Nat.mod_lt _ (by omega)), giveBack_seg]
    simp only [MmSegment.mk.injEq, true_and, and_true]
    omega

theorem shrinkLoop_nextFree (h : (s.seg k).nextFree < 2 ^ 64) (hsize : size * 4096 ≤ (s.seg k).nextFree) :
    (shrinkLoop k size s).seg k = {s.seg k with nextFree := (s.seg k).nextFree - size * 4096} := by
  rw [shrinkLoop_seg k size s h]
  simp only [MmSegment.mk.injEq, true_and, and_true]
  omega

/-- The loop moves `next_free`: fewer than 2^52 pages are not a multiple of 2^64 bytes. -/
theorem shrinkLoop_moved (h : (s.seg k).nextFree < 2 ^ 64) (hpos : 0 < size) (hsize : size < 2 ^ 32) :
    ((shrinkLoop k size s).seg k).nextFree ≠ (s.seg k).nextFree := by
  have hsum : size * (2 ^ 64 - 4096) + size * 4096 = size * 2 ^ 64 := by omega
  rw [shrinkLoop_seg k size s h]
  dsimp only
  generalize (s.seg k).nextFree = n
  intro hmoved
  have hpos' : 0 < size * 4096 := Nat.mul_pos hpos (by decide)
  have hdiv := Nat.div_add_mod (n + size * (2 ^ 64 - 4096)) (2 ^ 64)
  rw [hmoved, Nat.add_comm] at hdiv
  have hdvd : 2 ^ 64 ∣ size * (2 ^ 64 - 4096) := ⟨_, (Nat.add_left_cancel hdiv).symm⟩
  have hrest : 2 ^ 64 ∣ size * 4096 := by
    rw [← Nat.dvd_add_right hdvd, hsum]
    exact Nat.dvd_mul_left _ _
  have hle := Nat.le_of_dvd hpos' hrest
  clear hdiv hsum hmoved hdvd
  omega

/-- Where the loop leaves the segments. -/
theorem shrinkLoop_current (h : (s.seg k).nextFree < 2 ^ 64) (hsize : size * 4096 ≤ (s.seg k).nextFree) :
    (shrinkLoop k size s).current = (s.setNextFree k ((s.seg k).nextFree - size * 4096)).current := by
  refine current_ext (shrinkLoop_pgd k size s) fun j => ?_
  by_cases hj : j = k
  · subst hj
    rw [shrinkLoop_nextFree h hsize, setNextFree_seg]
  · rw [shrinkLoop_other hj, setNextFree_other hj]

theorem syscallShrink_eq {param1 : Nat} (hk : memorySegment (flags % 2 ^ 32) = some k)
    (hsize : param1 % 2 ^ 32 = size) (hroom : shifted size ≤ (s.seg k).nextFree)
    (hnext : (s.seg k).nextFree < 2 ^ 62) : syscallShrink param1 flags s =
      if (s.seg k).nextFree < (s.seg k).start + shifted size then some (0, s)
      else some (toLong ((shrinkLoop k size s).seg k).nextFree, shrinkLoop k size s) := by
  have hguard : ((s.seg k).nextFree + 2 ^ 64 - shifted size) % 2 ^ 64 < (s.seg k).start ↔
      (s.seg k).nextFree < (s.seg k).start + shifted size := by omega
  unfold syscallShrink
  simp only [hk, hsize, Option.map_some, hguard]
  split <;> rfl

/-! ### The pages passed to `free_data_page` -/

theorem freePage_mem_freeDataPage {addr pgd a : Nat} {m : Memory} :
    Event.freePage a ∈ (freeDataPage addr pgd m).log ↔ a = addr ∨ Event.freePage a ∈ m.log := by
  unfold freeDataPage
  dsimp only
  split_ifs <;> simp [osPfnFree]

theorem freePage_mem_shrinkLoop {a : Nat} (h : (s.seg k).nextFree < 2 ^ 64)
    (hsize : size * 4096 ≤ (s.seg k).nextFree) :
    Event.freePage a ∈ (shrinkLoop k size s).mem.log ↔ Event.freePage a ∈ s.mem.log ∨
      ∃ n < size, a = (s.seg k).nextFree - (n + 1) * 4096 := by
  induction size generalizing s with
  | zero => simp [shrinkLoop]
  | succ size ih =>
    rw [Nat.succ_mul] at hsize
    have hpage : 4096 ≤ (s.seg k).nextFree := by omega
    have hseg : ((giveBack k s).seg k).nextFree = (s.seg k).nextFree - 4096 := by
      rw [giveBack_seg]
      exact sub_page hpage h
    have hmem : Event.freePage a ∈ (giveBack k s).mem.log ↔
        a = (s.seg k).nextFree - 4096 ∨ Event.freePage a ∈ s.mem.log := by
      rw [giveBack_eq hpage h]
      exact freePage_mem_freeDataPage
    rw [shrinkLoop_succ, ih (hseg.trans_lt ((Nat.sub_le _ _).trans_lt h))
      ((Nat.le_sub_of_add_le hsize).trans_eq hseg.symm), hseg, hmem]
    clear hseg hmem
    constructor
    · rintro ((ha | hmem) | ⟨n, hn, ha⟩)
      · exact .inr ⟨0, by omega, by omega⟩
      · exact .inl hmem
      · exact .inr ⟨n + 1, by omega, by omega⟩
    · rintro (hmem | ⟨n, hn, ha⟩)
      · exact .inl (.inr hmem)
      · cases n with
        | zero => exact .inl (.inl (by omega))
        | succ n => exact .inr ⟨n, by omega, by omega⟩

end CS330.GemOS.Lazy
