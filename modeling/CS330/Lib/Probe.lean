import Mathlib.Tactic.Common
import Mathlib.Data.Nat.ModEq

/-! Searching a table for the first cell that satisfies `P`.

`probe P m n i` looks at `n` cells from `i` on, going round a table of `m` cells. It is
described by how far from `i` the cell is: `probe_eq_some` and `probe_eq_none`.
`scan P n i` looks at the `n` cells from `i` on without going round, and `visits P n i`
are the cells it looks at. -/
namespace CS330.Probe

def probe (P : Nat → Bool) (m : Nat) : Nat → Nat → Option Nat
  | 0, _ => none
  | n + 1, i => if P i then some i else probe P m n ((i + 1) % m)

variable {P Q : Nat → Bool} {m : Nat}

theorem add_one_mod (i d : Nat) : ((i + 1) % m + d) % m = (i + (d + 1)) % m := by
  rw [Nat.mod_add_mod]
  congr 1
  omega

theorem probe_eq_some {n i j : Nat} (hi : i < m) :
    probe P m n i = some j ↔ ∃ d, d < n ∧ j = (i + d) % m ∧ P j = true ∧
      ∀ e, e < d → P ((i + e) % m) = false := by
  induction n generalizing i with
  | zero => simp [probe]
  | succ n ih =>
    unfold probe
    have hi' : (i + 0) % m = i := Nat.mod_eq_of_lt hi
    split
    · rename_i hP
      constructor
      · intro h
        cases h
        exact ⟨0, by omega, hi'.symm, hP, fun e he => by omega⟩
      · rintro ⟨d, -, rfl, -, hall⟩
        rcases Nat.eq_zero_or_pos d with rfl | hd
        · rw [hi']
        · have := hall 0 hd
          rw [hi', hP] at this
          cases this
    · rename_i hP
      rw [ih (Nat.mod_lt _ (by omega))]
      simp only [add_one_mod]
      constructor
      · rintro ⟨d, hd, hj, hPj, hall⟩
        refine ⟨d + 1, by omega, hj, hPj, fun e he => ?_⟩
        cases e with
        | zero => rw [hi']; simpa using hP
        | succ e => exact hall e (by omega)
      · rintro ⟨d, hd, hj, hPj, hall⟩
        cases d with
        | zero => rw [hi'] at hj; exact absurd (hj ▸ hPj) hP
        | succ d => exact ⟨d, by omega, hj, hPj, fun e he => hall (e + 1) (by omega)⟩

theorem probe_eq_none {n i : Nat} (hi : i < m) :
    probe P m n i = none ↔ ∀ d, d < n → P ((i + d) % m) = false := by
  induction n generalizing i with
  | zero => simp [probe]
  | succ n ih =>
    unfold probe
    have hi' : (i + 0) % m = i := Nat.mod_eq_of_lt hi
    split
    · rename_i hP
      refine iff_of_false (by simp) fun h => ?_
      have := h 0 (by omega)
      rw [hi', hP] at this
      cases this
    · rename_i hP
      rw [ih (Nat.mod_lt _ (by omega))]
      simp only [add_one_mod]
      constructor
      · intro h d hd
        cases d with
        | zero => rw [hi']; simpa using hP
        | succ d => exact h d (by omega)
      · intro h d hd
        exact h (d + 1) (by omega)

/-- How far `j` is behind `i`, going round. -/
def dist (m i j : Nat) : Nat := (j + m - i) % m

theorem dist_lt {i j : Nat} (hm : 0 < m) : dist m i j < m := Nat.mod_lt _ hm

theorem add_dist {i j : Nat} (hi : i < m) (hj : j < m) : (i + dist m i j) % m = j := by
  unfold dist
  rw [Nat.add_mod_mod, show i + (j + m - i) = j + m by omega, Nat.add_mod_right, Nat.mod_eq_of_lt hj]

theorem dist_add {i d : Nat} (hi : i < m) (hd : d < m) : dist m i ((i + d) % m) = d := by
  unfold dist
  rcases Nat.lt_or_ge (i + d) m with h | h
  · rw [Nat.mod_eq_of_lt h, show i + d + m - i = d + m by omega, Nat.add_mod_right, Nat.mod_eq_of_lt hd]
  · have hmod : (i + d) % m = i + d - m := by
      rw [Nat.mod_eq_sub_mod h, Nat.mod_eq_of_lt (by omega)]
    rw [hmod, show i + d - m + m - i = d by omega, Nat.mod_eq_of_lt hd]

/-- One whole round finds the cell nearest behind the start. -/
theorem probe_round {i j : Nat} (hi : i < m) :
    probe P m m i = some j ↔ j < m ∧ P j = true ∧
      ∀ k, k < m → dist m i k < dist m i j → P k = false := by
  rw [probe_eq_some hi]
  constructor
  · rintro ⟨d, hd, rfl, hP, hall⟩
    refine ⟨Nat.mod_lt _ (by omega), hP, fun k hk hlt => ?_⟩
    rw [dist_add hi hd] at hlt
    rw [← add_dist hi hk]
    exact hall _ hlt
  · rintro ⟨hj, hP, hall⟩
    refine ⟨dist m i j, dist_lt (by omega), (add_dist hi hj).symm, hP, fun e he => ?_⟩
    have hem : e < m := lt_trans he (dist_lt (by omega))
    refine hall _ (Nat.mod_lt _ (by omega)) ?_
    rw [dist_add hi hem]
    exact he

theorem probe_round_none {i : Nat} (hi : i < m) :
    probe P m m i = none ↔ ∀ j, j < m → P j = false := by
  rw [probe_eq_none hi]
  constructor
  · intro h j hj
    rw [← add_dist hi hj]
    exact h _ (dist_lt (by omega))
  · intro h d _
    exact h _ (Nat.mod_lt _ (by omega))

/-- Two cells at the same distance are the same. -/
theorem dist_inj {i j k : Nat} (hi : i < m) (hj : j < m) (hk : k < m) (h : dist m i j = dist m i k) :
    j = k := by
  rw [← add_dist hi hj, h, add_dist hi hk]

/-! ### Without going round -/

def scan (P : Nat → Bool) : Nat → Nat → Option Nat
  | 0, _ => none
  | n + 1, i => if P i then some i else scan P n (i + 1)

def visits (P : Nat → Bool) : Nat → Nat → List Nat
  | 0, _ => []
  | n + 1, i => i :: if P i then [] else visits P n (i + 1)

theorem scan_eq_none {n i : Nat} : scan P n i = none ↔ ∀ k, i ≤ k → k < i + n → P k = false := by
  induction n generalizing i with
  | zero =>
    refine iff_of_true rfl fun k hk hlt => ?_
    omega
  | succ n ih =>
    unfold scan
    split
    · rename_i hP
      refine iff_of_false (by simp) fun h => ?_
      simp [h i (Nat.le_refl i) (by omega)] at hP
    · rename_i hP
      rw [ih]
      constructor
      · intro h k hk hlt
        rcases Nat.eq_or_lt_of_le hk with rfl | hk
        · simpa using hP
        · exact h k hk (by omega)
      · intro h k hk hlt
        exact h k (by omega) (by omega)

theorem scan_eq_some {n i j : Nat} : scan P n i = some j ↔ i ≤ j ∧ j < i + n ∧ P j = true ∧
    ∀ k, i ≤ k → k < j → P k = false := by
  induction n generalizing i with
  | zero =>
    refine iff_of_false (by simp [scan]) fun ⟨hi, hj, _⟩ => ?_
    omega
  | succ n ih =>
    unfold scan
    split
    · rename_i hP
      constructor
      · intro h
        cases h
        exact ⟨Nat.le_refl _, by omega, hP, fun k hk hlt => absurd hlt (by omega)⟩
      · intro ⟨hi, _, _, hall⟩
        rcases Nat.eq_or_lt_of_le hi with rfl | hi
        · rfl
        · simp [hall i (Nat.le_refl i) hi] at hP
    · rename_i hP
      rw [ih]
      constructor
      · intro ⟨hi, hj, hPj, hall⟩
        refine ⟨by omega, by omega, hPj, fun k hk hlt => ?_⟩
        rcases Nat.eq_or_lt_of_le hk with rfl | hk
        · simpa using hP
        · exact hall k hk hlt
      · intro ⟨hi, hj, hPj, hall⟩
        have hne : i ≠ j := by
          rintro rfl
          exact hP hPj
        exact ⟨by omega, by omega, hPj, fun k hk hlt => hall k (by omega) hlt⟩

theorem scan_congr {n i : Nat} (h : ∀ k, i ≤ k → P k = Q k) : scan P n i = scan Q n i := by
  induction n generalizing i with
  | zero => rfl
  | succ n ih =>
    unfold scan
    rw [h i (Nat.le_refl i), ih fun k hk => h k (by omega)]

theorem visits_congr {n i : Nat} (h : ∀ k, i ≤ k → P k = Q k) : visits P n i = visits Q n i := by
  induction n generalizing i with
  | zero => rfl
  | succ n ih =>
    unfold visits
    rw [h i (Nat.le_refl i), ih fun k hk => h k (by omega)]

/-- A cell is looked at when no cell before it is what is sought. -/
theorem mem_visits {n i k : Nat} : k ∈ visits P n i ↔ i ≤ k ∧ k < i + n ∧
    ∀ l, i ≤ l → l < k → P l = false := by
  induction n generalizing i with
  | zero =>
    refine iff_of_false (by simp [visits]) fun ⟨hi, hk, _⟩ => ?_
    omega
  | succ n ih =>
    unfold visits
    split
    · rename_i hP
      rw [List.mem_singleton]
      constructor
      · rintro rfl
        exact ⟨Nat.le_refl k, by omega, fun l hl hlt => absurd hlt (by omega)⟩
      · intro ⟨hi, _, hall⟩
        rcases Nat.eq_or_lt_of_le hi with rfl | hi
        · rfl
        · simp [hall i (Nat.le_refl i) hi] at hP
    · rename_i hP
      rw [List.mem_cons, ih]
      constructor
      · rintro (rfl | ⟨hi, hk, hall⟩)
        · exact ⟨Nat.le_refl k, by omega, fun l hl hlt => absurd hlt (by omega)⟩
        · refine ⟨by omega, by omega, fun l hl hlt => ?_⟩
          rcases Nat.eq_or_lt_of_le hl with rfl | hl
          · simpa using hP
          · exact hall l hl hlt
      · intro ⟨hi, hk, hall⟩
        rcases Nat.eq_or_lt_of_le hi with rfl | hi
        · exact .inl rfl
        · exact .inr ⟨hi, by omega, fun l hl hlt => hall l (by omega) hlt⟩

/-- Nothing is looked at behind the cell that is found. -/
theorem le_of_mem_visits {n i j k : Nat} (hs : scan P n i = some j) (hk : k ∈ visits P n i) : k ≤ j := by
  obtain ⟨hi, -, hP, -⟩ := scan_eq_some.mp hs
  obtain ⟨-, -, hall⟩ := mem_visits.mp hk
  by_contra hlt
  simp [hall j hi (by omega)] at hP

/-- What a scan finds inside the table is what going round would find. -/
theorem probe_of_scan {n n' i j : Nat} (h : scan P n i = some j) (hn : n ≤ n') (hj : j < m) :
    probe P m n' i = some j := by
  obtain ⟨hi, hlt, hP, hall⟩ := scan_eq_some.mp h
  rw [probe_eq_some (by omega)]
  refine ⟨j - i, by omega, ?_, hP, fun e he => ?_⟩
  · rw [Nat.add_sub_cancel' hi, Nat.mod_eq_of_lt hj]
  · rw [Nat.mod_eq_of_lt (by omega)]
    exact hall (i + e) (by omega) (by omega)

end CS330.Probe
