import CS330.ObjStore.Slots
import Mathlib.Data.List.TakeWhile

/-! Keys as the table holds them.

The key of a slot is the C string in its 32-byte field. For a key of at most 31
bytes `strcmp` never leaves the field, so the test the scans make is whether the
slot's key is the one looked for, whatever else the slot holds. -/
namespace CS330.ObjStore
open Probe

/-- The bytes of the field in front of the first NUL. -/
def Object.name (o : Object) : Key where
  bytes := ((List.range 32).map o.key).takeWhile (· != 0)
  noNul := fun h => by simpa using List.mem_takeWhile_imp h

theorem keyMemory_key (obj : Nat → Object) (i : Nat) {n : Nat} (hn : n < 32) :
    keyMemory obj i n = (obj i).key n := by
  unfold keyMemory
  rw [show (56 * i + 8 + n) / 56 = i by omega, show (56 * i + 8 + n) % 56 = 8 + n by omega]
  unfold Object.byte
  rw [if_neg (by omega), if_neg (by omega), if_pos (by omega), Nat.add_sub_cancel_left]

/-- `strcmp` from position `n` on compares the `m` bytes left of the field. -/
theorem strcmpEq_takeWhile {mem : Nat → UInt8} (bytes : List UInt8) (hnul : (0 : UInt8) ∉ bytes)
    (n m : Nat) (hm : bytes.length < m) : strcmpEq mem n bytes = true ↔
      ((List.range' n m).map mem).takeWhile (· != 0) = bytes := by
  induction bytes generalizing n m with
  | nil =>
    obtain ⟨m, rfl⟩ : ∃ k, m = k + 1 := ⟨m - 1, by simp at hm; omega⟩
    rw [strcmpEq, List.range'_succ, List.map_cons, List.takeWhile_cons]
    by_cases h : mem n = 0
    · simp [h]
    · simp [h]
  | cons c rest ih =>
    obtain ⟨m, rfl⟩ : ∃ k, m = k + 1 := ⟨m - 1, by simp at hm; omega⟩
    have hc : c ≠ 0 := fun h => hnul (h ▸ List.mem_cons_self ..)
    have hrest := ih (fun h => hnul (List.mem_cons_of_mem c h)) (n + 1) m (by simpa using hm)
    rw [strcmpEq, Bool.and_eq_true, hrest, beq_iff_eq, List.range'_succ, List.map_cons,
      List.takeWhile_cons]
    by_cases h : mem n = 0
    · simp [h, hc.symm]
    · simp [h]

section Keys
variable {s : State} {key : Key} {i : Nat}

theorem strcmpEq_name (obj : Nat → Object) (i : Nat) (hk : key.bytes.length ≤ 31) :
    strcmpEq (keyMemory obj i) 0 key.bytes = true ↔ (obj i).name = key := by
  have hfield : (List.range' 0 32).map (keyMemory obj i) = (List.range 32).map (obj i).key := by
    rw [← List.range_eq_range']
    refine List.map_congr_left fun n hn => keyMemory_key obj i (List.mem_range.mp hn)
  rw [strcmpEq_takeWhile key.bytes key.noNul 0 32 (by omega), hfield]
  constructor
  · intro h
    cases key
    unfold Object.name
    congr 1
  · intro h
    rw [← h]
    rfl

theorem slotHolds_iff (hk : key.bytes.length ≤ 31) :
    slotHolds s key i = true ↔ LiveSlot s i ∧ (s.obj i).name = key := by
  unfold slotHolds LiveSlot
  rw [Bool.and_eq_true, bne_iff_ne, strcmpEq_name s.obj i hk]

theorem freeOrHolds_iff (hk : key.bytes.length ≤ 31) :
    freeOrHolds s key i = true ↔ ¬ LiveSlot s i ∨ (s.obj i).name = key := by
  unfold freeOrHolds LiveSlot
  rw [Bool.or_eq_true, beq_iff_eq, strcmpEq_name s.obj i hk, not_not]

/-- What `strncpy` put into the field is the key again. -/
theorem name_strncpyKey {o : Object} (hk : key.bytes.length ≤ 31)
    (h : ∀ n, n < 32 → o.key n = strncpyKey key n) : o.name = key := by
  have hmap : (List.range 32).map o.key = (List.range 32).map fun n => key.bytes.getD n 0 := by
    refine List.map_congr_left fun n hn => ?_
    have hn := List.mem_range.mp hn
    rw [h n hn, strncpyKey, if_pos hn]
  have hread : ∀ (bytes : List UInt8) (m : Nat), (0 : UInt8) ∉ bytes → bytes.length < m →
      ((List.range m).map fun n => bytes.getD n 0).takeWhile (· != 0) = bytes := by
    intro bytes m hnul hm
    induction bytes generalizing m with
    | nil =>
      obtain ⟨m, rfl⟩ : ∃ k, m = k + 1 := ⟨m - 1, by simp at hm; omega⟩
      simp [List.range_succ_eq_map]
    | cons c rest ih =>
      obtain ⟨m, rfl⟩ : ∃ k, m = k + 1 := ⟨m - 1, by simp at hm; omega⟩
      have hc : c ≠ 0 := fun h => hnul (h ▸ List.mem_cons_self ..)
      have hrest := ih m (fun h => hnul (List.mem_cons_of_mem c h)) (by simpa using hm)
      rw [List.range_succ_eq_map, List.map_cons, List.map_map, List.takeWhile_cons]
      simpa [hc, Function.comp_def] using hrest
  cases key with
  | mk bytes hnul =>
    unfold Object.name
    congr 1
    rw [hmap]
    exact hread bytes 32 hnul (by dsimp only at hk; omega)

theorem name_newObject (hk : key.bytes.length ≤ 31) (i : Nat) : (newObject key i).name = key :=
  name_strncpyKey hk fun _ _ => rfl

/-- A key in the slot of its hash is found there. -/
theorem findObjectId_here (h : slotHolds s key (hash key) = true) :
    findObjectId key s = (s.obj (hash key)).id := by
  rw [findObjectId_eq, probe_million, if_pos h]
  rfl

theorem findObjectId_created (key : Key) (hk : key.bytes.length ≤ 31) (s : State) :
    findObjectId key (created key s) = indexToID (hash key) := by
  have hobj := created_obj key s
  rw [findObjectId_here ((slotHolds_iff hk).mpr ⟨created_live key s, by rw [hobj]; exact name_newObject hk _⟩),
    hobj]
  rfl

end Keys

end CS330.ObjStore
