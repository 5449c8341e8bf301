import CS330.ObjStore.Keys
import Mathlib.Data.Finset.Card

/-! Room in the directory, and keys for it.

`create_object` comes back when some slot is free or holds the key, and its loop never ends
otherwise. There are more keys than slots, so a directory with a free slot can always take
one more object. -/
namespace CS330.ObjStore
open Probe

/-- Some slot is free or holds the key. -/
def Room (key : Key) (s : State) : Prop := ∃ x, x < 1000000 ∧ freeOrHolds s key x = true

section Room
variable {key newname : Key} {s t : State}

theorem createObject_isSome : (∃ r, createObject key s = some r) ↔ Room key s := by
  have hprobe : probe (freeOrHolds s key) 1000000 1000000 (hash key) = none ↔ ¬ Room key s := by
    rw [probe_round_none (hash_lt key)]
    simp [Room]
  constructor
  · intro ⟨r, h⟩
    by_contra hroom
    rcases createObject_cases h with ⟨-, -, x, hx, -⟩ | ⟨x, hx, -⟩
    · rw [hprobe.mpr hroom] at hx
      cases hx
    · rw [hprobe.mpr hroom] at hx
      cases hx
  · intro hroom
    cases hp : probe (freeOrHolds s key) 1000000 1000000 (hash key) with
    | none => exact absurd hroom (hprobe.mp hp)
    | some x =>
      rw [createObject, createProbe_eq, show freeOrHolds (s.emit (.lock .createObjectLock)) key = freeOrHolds s key from rfl, hp,
        Option.map_some]
      by_cases hx : (s.obj x).id = 0
      · rw [if_pos (show ((s.emit (.lock .createObjectLock)).obj x).id = 0 from hx)]
        exact ⟨_, rfl⟩
      · rw [if_neg (show ((s.emit (.lock .createObjectLock)).obj x).id ≠ 0 from hx)]
        exact ⟨_, rfl⟩

/-- Without room the loop goes round for ever. -/
theorem createProbe_forever (h : ¬ Room key s) (n : Nat) : createProbe s key n (hash key) = none := by
  rw [createProbe_eq, (probe_eq_none (hash_lt key)).mpr]
  · rfl
  · intro d _
    by_contra hx
    exact h ⟨_, Nat.mod_lt _ (by decide), by simpa using hx⟩

theorem room_iff (hk : key.bytes.length ≤ 31) : Room key s ↔
    ∃ x, x < 1000000 ∧ (¬ LiveSlot s x ∨ (s.obj x).name = key) := by
  simp only [Room, freeOrHolds_iff hk]

theorem Room.of_free (key : Key) {x : Nat} (hx : x < 1000000) (hfree : ¬ LiveSlot s x) : Room key s := by
  refine ⟨x, hx, ?_⟩
  have hid : (s.obj x).id = 0 := not_not.mp hfree
  simp [freeOrHolds, hid]

/-- A key that no object has gets a slot of its own. -/
theorem createObject_fresh (hk : key.bytes.length ≤ 31) (hfree : ∃ x, x < 1000000 ∧ ¬ LiveSlot s x)
    (hfresh : ∀ x, LiveSlot s x → (s.obj x).name ≠ key) : ∃ x t, x < 1000000 ∧ ¬ LiveSlot s x ∧
      createObject key s = some (indexToID x, t) ∧
      t = ((s.emit (.lock .createObjectLock)).setObj x (newObject key x)).emit (.unlock .createObjectLock) := by
  obtain ⟨y, hy, hyfree⟩ := hfree
  obtain ⟨⟨v, t⟩, h⟩ := createObject_isSome.mpr (Room.of_free key hy hyfree)
  rcases createObject_cases h with ⟨-, -, x, hx, hlive⟩ | ⟨x, -, hx, hfree, rfl, ht⟩
  · have hhold := (freeOrHolds_iff hk).mp ((probe_round (hash_lt key)).mp hx).2.1
    exact absurd (hhold.resolve_left (not_not_intro hlive)) (hfresh x hlive)
  · exact ⟨x, t, hx, hfree, h, ht⟩

end Room

/-! ### More keys than slots -/

/-- A byte other than NUL for each digit below 200. -/
def digit (d : Nat) : UInt8 := UInt8.ofNat (d % 200 + 1)

theorem digit_toNat (d : Nat) : (digit d).toNat = d % 200 + 1 := by
  rw [digit, UInt8.toNat_ofNat']
  omega

theorem digit_ne_zero (d : Nat) : digit d ≠ 0 := by
  intro h
  have := digit_toNat d
  rw [h] at this
  simp at this

/-- The keys of three such bytes. -/
def keyNo (i : Nat) : Key where
  bytes := [digit i, digit (i / 200), digit (i / 40000)]
  noNul := by simp [(digit_ne_zero _).symm]

theorem keyNo_inj {i j : Nat} (hi : i < 8000000) (hj : j < 8000000) (h : keyNo i = keyNo j) : i = j := by
  have hbytes : (keyNo i).bytes.map UInt8.toNat = (keyNo j).bytes.map UInt8.toNat := by rw [h]
  simp only [keyNo, List.map_cons, List.map_nil, digit_toNat, List.cons.injEq, and_true] at hbytes
  omega

/-- A key for one more object. -/
theorem exists_fresh (X : Finset Nat) (hX : X.card ≤ 1000000) (name : Nat → Key) :
    ∃ key : Key, key.bytes.length ≤ 31 ∧ ∀ x ∈ X, name x ≠ key := by
  have hcard : ((Finset.range 1000001).image keyNo).card = 1000001 := by
    rw [Finset.card_image_of_injOn, Finset.card_range]
    intro i hi j hj h
    have hi := Finset.mem_range.mp (Finset.mem_coe.mp hi)
    have hj := Finset.mem_range.mp (Finset.mem_coe.mp hj)
    exact keyNo_inj (by omega) (by omega) h
  have hlt : (X.image name).card < ((Finset.range 1000001).image keyNo).card := by
    rw [hcard]
    exact Nat.lt_of_le_of_lt Finset.card_image_le (by omega)
  obtain ⟨key, hkey, hnew⟩ := Finset.exists_mem_notMem_of_card_lt_card hlt
  obtain ⟨i, -, rfl⟩ := Finset.mem_image.mp hkey
  exact ⟨_, by simp [keyNo], fun x hx h => hnew (Finset.mem_image.mpr ⟨x, hx, h⟩)⟩

/-- A directory with a free slot takes one more object. -/
theorem createObject_more {s : State} {X : Finset Nat} (hX : ∀ x, LiveSlot s x ↔ x ∈ X) (hcard : X.card < 1000000) :
    ∃ key x t, x < 1000000 ∧ x ∉ X ∧ createObject key s = some (indexToID x, t) ∧
      t = ((s.emit (.lock .createObjectLock)).setObj x (newObject key x)).emit (.unlock .createObjectLock) ∧
      ∀ y, LiveSlot t y ↔ y ∈ insert x X := by
  obtain ⟨key, hshort, hfresh⟩ := exists_fresh X (by omega) fun x => (s.obj x).name
  have hlt : X.card < (Finset.range 1000000).card := by rwa [Finset.card_range]
  obtain ⟨z, hz, hnot⟩ := Finset.exists_mem_notMem_of_card_lt_card hlt
  obtain ⟨x, t, hx, hfree, hcreate, ht⟩ := createObject_fresh hshort
    ⟨z, Finset.mem_range.mp hz, fun h => hnot ((hX z).mp h)⟩ fun x hx => hfresh x ((hX x).mp hx)
  refine ⟨key, x, t, hx, fun h => hfree ((hX x).mpr h), hcreate, ht, fun y => ?_⟩
  have hobj : t.obj = Function.update s.obj x (newObject key x) := by rw [ht]; rfl
  rw [Finset.mem_insert, ← hX, LiveSlot, hobj]
  by_cases hy : y = x
  · subst hy
    rw [Function.update_self]
    exact iff_of_true (indexToID_ne y).1 (.inl rfl)
  · rw [Function.update_of_ne hy]
    exact (or_iff_right hy).symm

end CS330.ObjStore
