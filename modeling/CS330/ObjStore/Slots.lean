import CS330.Lib.Probe
import CS330.ObjStore.Owners

/-! What the scans of the directory find.

Both are probes of one round: `find_object_id` stops at the nearest slot that holds
the key, `create_object` at the nearest slot that is free or holds it. -/
namespace CS330.ObjStore
open Probe

theorem hash_lt (key : Key) : hash key < 1000000 := Nat.mod_lt _ (by decide)

theorem probe_million (P : Nat → Bool) (i : Nat) : probe P 1000000 1000000 i =
    if P i then some i else probe P 1000000 999999 ((i + 1) % 1000000) :=
  probe.eq_2 P 1000000 i 999999

section Find
variable {s : State} {key : Key}

/-- The `while` loop of `find_object_id` with the slots it tests: no result if it is not done
after `n` rounds. -/
def findTests (s : State) (key : Key) (previousIndex : Nat) : Nat → Nat → Option (Int × List Nat)
  | 0, _ => none
  | n + 1, index =>
    if previousIndex = index then some (-1, [])
    else if slotHolds s key index then some ((s.obj index).id, [index])
    else (findTests s key previousIndex n ((index + 1) % 1000000)).map fun r => (r.1, index :: r.2)

theorem findTests_findLoop {start n i : Nat} {v : Int} {tests : List Nat}
    (h : findTests s key start n i = some (v, tests)) : findLoop s key start n i = v := by
  induction n generalizing i tests with
  | zero => cases h
  | succ n ih =>
    unfold findTests at h
    unfold findLoop
    split at h
    · rw [if_pos ‹_›]
      cases h
      rfl
    · rw [if_neg ‹_›]
      split at h
      · rw [if_pos ‹_›]
        cases h
        rfl
      · rw [if_neg ‹_›]
        obtain ⟨r, hr, hv⟩ := Option.map_eq_some_iff.mp h
        cases hv
        exact ih hr

/-- The loop is `k` slots away from where it started. It tests them one after the other, and
`k + 1` rounds are enough. -/
theorem findTests_eq {start : Nat} (hstart : start < 1000000) (k d : Nat) (hd : 1 ≤ d) (hk : d + k = 1000000) :
    ∃ c, c ≤ k ∧ ∀ n, k < n → findTests s key start n ((start + d) % 1000000) =
      some ((probe (slotHolds s key) 1000000 k ((start + d) % 1000000)).elim (-1) fun i => (s.obj i).id,
        (List.range' d c).map fun e => (start + e) % 1000000) := by
  induction k generalizing d with
  | zero =>
    obtain rfl : d = 1000000 := by omega
    refine ⟨0, Nat.le_refl 0, fun n hn => ?_⟩
    obtain ⟨n, rfl⟩ := Nat.exists_eq_add_one.mpr hn
    rw [findTests, Nat.add_mod_right, Nat.mod_eq_of_lt hstart, if_pos rfl]
    rfl
  | succ k ih =>
    have hne : start ≠ (start + d) % 1000000 := by omega
    have hnext : ((start + d) % 1000000 + 1) % 1000000 = (start + (d + 1)) % 1000000 := by omega
    rw [probe, hnext]
    by_cases hslot : slotHolds s key ((start + d) % 1000000) = true
    · refine ⟨1, by omega, fun n hn => ?_⟩
      obtain ⟨n, rfl⟩ := Nat.exists_eq_add_one.mpr (Nat.zero_lt_of_lt hn)
      rw [findTests, if_neg hne, if_pos hslot, if_pos hslot]
      rfl
    · obtain ⟨c, hc, hrest⟩ := ih (d + 1) (by omega) (by omega)
      refine ⟨c + 1, by omega, fun n hn => ?_⟩
      obtain ⟨n, rfl⟩ := Nat.exists_eq_add_one.mpr (Nat.zero_lt_of_lt hn)
      rw [findTests, if_neg hne, if_neg hslot, if_neg hslot, hnext, hrest n (by omega), List.range'_succ]
      rfl

theorem findObjectId_eq (key : Key) (s : State) : findObjectId key s =
    (probe (slotHolds s key) 1000000 1000000 (hash key)).elim (-1) fun i => (s.obj i).id := by
  unfold findObjectId
  rw [probe_million]
  dsimp only
  split
  · rfl
  · obtain ⟨c, -, htests⟩ := @findTests_eq s key (hash key) (hash_lt key) 999999 1 (by decide) (by decide)
    exact findTests_findLoop (htests 1000000 (by decide))

/-- A slot that is free, or holds the key. -/
def freeOrHolds (s : State) (key : Key) (i : Nat) : Bool :=
  (s.obj i).id == 0 || strcmpEq (keyMemory s.obj i) 0 key.bytes

theorem createProbe_eq (s : State) (key : Key) (n i : Nat) : createProbe s key n i =
    (probe (freeOrHolds s key) 1000000 n i).map fun i => if (s.obj i).id = 0 then some i else none := by
  induction n generalizing i with
  | zero => rfl
  | succ n ih =>
    unfold createProbe probe freeOrHolds
    by_cases h₀ : (s.obj i).id = 0
    · simp [h₀]
    · cases h₁ : strcmpEq (keyMemory s.obj i) 0 key.bytes
      · simp only [h₀, if_false, Bool.or_false, beq_iff_eq]
        exact ih _
      · simp [h₀]

end Find

/-! ### Under the table's invariant -/

/-- A slot in use has the id that belongs to it. -/
def SlotsOk (s : State) : Prop := ∀ x, LiveSlot s x → x < 1000000 ∧ (s.obj x).id = indexToID x

/-- So has a slot in use of the table. -/
def Numbered (s : State) : Prop := ∀ x, x < 1000000 → LiveSlot s x → (s.obj x).id = indexToID x

theorem SlotsOk.numbered {s : State} (h : SlotsOk s) : Numbered s := fun x _ hx => (h x hx).2

theorem idToIndex_indexToID (x : Nat) : idToIndex (indexToID x) = x := by
  unfold idToIndex indexToID
  omega

theorem two_le_indexToID (x : Nat) : 2 ≤ indexToID x := by
  unfold indexToID
  omega

theorem indexToID_ne (x : Nat) : indexToID x ≠ 0 ∧ indexToID x ≠ -1 := by
  unfold indexToID
  omega

theorem indexToID_inj {x y : Nat} (h : indexToID x = indexToID y) : x = y := by
  unfold indexToID at h
  omega

theorem slotHolds_live {s : State} {key : Key} {i : Nat} (h : slotHolds s key i = true) :
    LiveSlot s i := by
  unfold slotHolds at h
  unfold LiveSlot
  simp_all

theorem findObjectId_cases {s : State} (hs : Numbered s) (key : Key) :
    (findObjectId key s = -1 ∧ probe (slotHolds s key) 1000000 1000000 (hash key) = none) ∨
    ∃ x, probe (slotHolds s key) 1000000 1000000 (hash key) = some x ∧ LiveSlot s x ∧
      findObjectId key s = indexToID x := by
  rw [findObjectId_eq]
  cases h : probe (slotHolds s key) 1000000 1000000 (hash key) with
  | none => exact .inl ⟨rfl, rfl⟩
  | some x =>
    obtain ⟨hlt, hholds, -⟩ := (probe_round (hash_lt key)).mp h
    have hx := slotHolds_live hholds
    exact .inr ⟨x, rfl, hx, hs x hlt hx⟩

/-- What `create_object` did, if it came back. -/
theorem createObject_cases {key : Key} {s : State} {r : Int × State}
    (h : createObject key s = some r) :
    (r.1 = -1 ∧ r.2 = (s.emit (.lock .createObjectLock)).emit (.unlock .createObjectLock) ∧
      ∃ x, probe (freeOrHolds s key) 1000000 1000000 (hash key) = some x ∧ LiveSlot s x) ∨
    ∃ x, probe (freeOrHolds s key) 1000000 1000000 (hash key) = some x ∧ x < 1000000 ∧
      ¬ LiveSlot s x ∧ r.1 = indexToID x ∧
      r.2 = (((s.emit (.lock .createObjectLock)).setObj x (newObject key x)).emit
        (.unlock .createObjectLock)) := by
  unfold createObject at h
  dsimp only at h
  rw [createProbe_eq] at h
  have hcongr : freeOrHolds (s.emit (.lock .createObjectLock)) key = freeOrHolds s key := rfl
  rw [hcongr] at h
  cases hp : probe (freeOrHolds s key) 1000000 1000000 (hash key) with
  | none => rw [hp] at h; cases h
  | some x =>
    rw [hp] at h
    have hlt := ((probe_round (hash_lt key)).mp hp).1
    dsimp only [Option.map_some] at h
    by_cases hx : (s.obj x).id = 0
    · rw [if_pos (show ((s.emit (.lock .createObjectLock)).obj x).id = 0 from hx)] at h
      cases h
      exact .inr ⟨x, rfl, hlt, not_not.mpr hx, rfl, rfl⟩
    · rw [if_neg (show ((s.emit (.lock .createObjectLock)).obj x).id ≠ 0 from hx)] at h
      cases h
      exact .inl ⟨rfl, rfl, x, rfl, hx⟩

/-- The state once `create_object` has put the key into its own slot. -/
def created (key : Key) (s : State) : State :=
  ((s.emit (.lock .createObjectLock)).setObj (hash key) (newObject key (hash key))).emit
    (.unlock .createObjectLock)

theorem probe_free (key : Key) {s : State} (h : ¬ LiveSlot s (hash key)) :
    probe (freeOrHolds s key) 1000000 1000000 (hash key) = some (hash key) := by
  have hid : (s.obj (hash key)).id = 0 := not_not.mp h
  rw [probe_million, if_pos (by simp [freeOrHolds, hid])]

theorem createObject_free (key : Key) {s : State} (h : ¬ LiveSlot s (hash key)) :
    createObject key s = some (indexToID (hash key), created key s) := by
  have hid : (s.obj (hash key)).id = 0 := not_not.mp h
  have hprobe := probe_free key h
  unfold createObject
  dsimp only
  rw [createProbe_eq, show freeOrHolds (s.emit (.lock .createObjectLock)) key = freeOrHolds s key from rfl,
    hprobe, Option.map_some, if_pos (show ((s.emit (.lock .createObjectLock)).obj (hash key)).id = 0 from hid)]
  rfl

theorem created_obj (key : Key) (s : State) :
    (created key s).obj (hash key) = newObject key (hash key) := Function.update_self ..

theorem created_other (key : Key) (s : State) {y : Nat} (hy : y ≠ hash key) : (created key s).obj y = s.obj y :=
  Function.update_of_ne hy ..

theorem created_live (key : Key) (s : State) : LiveSlot (created key s) (hash key) := by
  unfold LiveSlot
  rw [created_obj]
  show indexToID _ ≠ 0
  unfold indexToID
  omega

end CS330.ObjStore
