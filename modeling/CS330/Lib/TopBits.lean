import Mathlib.Data.Nat.Bits

/-! The leading bits of a bit vector.

`mask n w` has the first `w` of `n` bits set. Two vectors agree up to `w` (`Agree`) if their first
`w` bits are the same, and that is what comparing them under the mask tells. -/
namespace CS330.TopBits

def mask (n w : Nat) : BitVec n := if w < n then BitVec.allOnes n <<< (n - w) else BitVec.allOnes n

/-- The mask with one more bit. -/
def extend {n : Nat} (m : BitVec n) : BitVec n := m ||| m >>> 1 ||| 1#n <<< (n - 1)

def Agree {n : Nat} (w : Nat) (a b : BitVec n) : Prop := ∀ i < w, a.getMsbD i = b.getMsbD i

variable {n u w : Nat} {a b c : BitVec n}

/-! ### Masks -/

theorem getMsbD_mask (i : Nat) : (mask n w).getMsbD i = decide (i < w ∧ i < n) := by
  unfold mask
  split
  · rw [BitVec.getMsbD_shiftLeft, BitVec.getMsbD_allOnes]
    exact decide_eq_decide.mpr (by omega)
  · rw [BitVec.getMsbD_allOnes]
    exact decide_eq_decide.mpr (by omega)

/-- A width beyond the last bit. -/
theorem mask_min (w : Nat) : mask n w = mask n (min w n) := by
  by_cases hle : w ≤ n
  · rw [Nat.min_eq_left hle]
  · rw [Nat.min_eq_right (by omega), mask, mask, if_neg (by omega), if_neg (by omega)]

theorem mask_and_mask (hu : u ≤ n) : mask n u &&& mask n w = mask n u ↔ u ≤ w := by
  constructor
  · intro h
    refine Nat.le_of_not_lt fun hlt => ?_
    have hbit := congrArg (·.getMsbD w) h
    simp only [BitVec.getMsbD_and, getMsbD_mask] at hbit
    simp [hlt, show w < n by omega] at hbit
  · intro h
    refine BitVec.eq_of_getMsbD_eq fun i _ => ?_
    rw [BitVec.getMsbD_and, getMsbD_mask, getMsbD_mask, ← Bool.decide_and]
    exact decide_eq_decide.mpr (by omega)

theorem mask_inj (hu : u ≤ n) (hw : w ≤ n) (h : mask n u = mask n w) : u = w := by
  have h₁ := (mask_and_mask (w := w) hu).mp (by rw [h, BitVec.and_self])
  have h₂ := (mask_and_mask (w := u) hw).mp (by rw [h, BitVec.and_self])
  omega

theorem mask_zero : mask n 0 = 0#n := by
  refine BitVec.eq_of_getMsbD_eq fun i _ => ?_
  rw [getMsbD_mask]
  simp

theorem extend_mask : extend (mask n w) = mask n (w + 1) := by
  refine BitVec.eq_of_getMsbD_eq fun i hi => ?_
  unfold extend
  simp only [BitVec.getMsbD_or, BitVec.getMsbD_ushiftRight, BitVec.getMsbD_shiftLeft, getMsbD_mask,
    BitVec.getMsbD_eq_getLsbD (1#n)]
  rcases Nat.eq_zero_or_pos i with rfl | hpos
  · simp [show n - 1 < n by omega, show 0 < n by omega]
  · rw [Bool.eq_iff_iff]
    simp [show ¬ i + (n - 1) < n by omega, show ¬ i < 1 by omega, hi]
    omega

/-! ### Agreement -/

theorem Agree.refl (w : Nat) (a : BitVec n) : Agree w a a := fun _ _ => rfl

theorem Agree.symm (h : Agree w a b) : Agree w b a := fun i hi => (h i hi).symm

theorem Agree.trans (h : Agree w a b) (h' : Agree w b c) : Agree w a c := fun i hi => (h i hi).trans (h' i hi)

theorem Agree.mono (h : Agree w a b) (hu : u ≤ w) : Agree u a b := fun i hi => h i (by omega)

theorem Agree.succ (h : Agree w a b) (hbit : a.getMsbD w = b.getMsbD w) : Agree (w + 1) a b := by
  intro i hi
  rcases Nat.lt_succ_iff_lt_or_eq.mp hi with hlt | rfl
  · exact h i hlt
  · exact hbit

theorem and_mask_eq (hw : w ≤ n) : a &&& mask n w = b &&& mask n w ↔ Agree w a b := by
  constructor
  · intro h i hi
    have hbit := congrArg (·.getMsbD i) h
    simpa [BitVec.getMsbD_and, getMsbD_mask, hi, show i < n by omega] using hbit
  · intro h
    refine BitVec.eq_of_getMsbD_eq fun i hi => ?_
    rw [BitVec.getMsbD_and, BitVec.getMsbD_and, getMsbD_mask]
    by_cases hlt : i < w
    · rw [h i hlt]
    · simp [hlt]

theorem and_mask_agree (a : BitVec n) : Agree w (a &&& mask n w) a := by
  intro i hi
  rw [BitVec.getMsbD_and, getMsbD_mask]
  by_cases hn : i < n
  · simp [hi, hn]
  · simp [BitVec.getMsbD_of_ge a i (by omega)]

/-- A vector with nothing behind its first `w` bits. -/
theorem eq_and_mask (hw : w ≤ n) (ha : a &&& mask n w = a) : b &&& mask n w = a ↔ Agree w b a := by
  rw [← and_mask_eq hw, ha]

theorem eq_of_agree (hw : w ≤ n) (ha : a &&& mask n w = a) (hb : b &&& mask n w = b) (h : Agree w a b) : a = b := by
  rw [← ha, ← hb]
  exact (and_mask_eq hw).mpr h

end CS330.TopBits
