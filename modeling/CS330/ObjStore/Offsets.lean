import CS330.ObjStore.Beside
import CS330.ObjStore.Writes
import CS330.Spec.Store

/-! Offsets outside an object.

The start block of a write is an `int`, so an offset counts modulo 2^44, and so does the size
that is left of the write. Behind 16 MB a write reaches no pointer, and all it does is to set
the object's size to 16 MB. -/
namespace CS330.ObjStore
open Bytes Spec

section Offsets
variable {build : Build} {x : Nat} {buf : Buffer} {size : Int} {offset start : Nat} {s : State}

theorem startBlock_mod (offset : Nat) : startBlock (offset % 17592186044416) = startBlock offset := by
  have h : offset % 17592186044416 / 4096 % 4294967296 = offset / 4096 % 4294967296 := by omega
  unfold startBlock
  rw [h]

/-- The start block keeps its sign below 2^43, counted modulo 2^44. -/
theorem startBlock_eq (offset : Nat) : startBlock offset =
    if offset % 17592186044416 < 8796093022208 then some (offset / 4096 % 4294967296) else none := by
  have h : offset / 4096 % 4294967296 < 2147483648 ↔ offset % 17592186044416 < 8796093022208 := by omega
  simp only [startBlock, h]

theorem writeObject_mod : writeObject build x buf size (offset % 17592186044416) s =
    writeObject build x buf size offset s := by
  have hskip : offset % 17592186044416 % 4096 = offset % 4096 := by omega
  have hsize : int32 ((offset % 17592186044416 : Nat) + size) = int32 (offset + size) := int32_congr (by omega)
  unfold writeObject
  rw [startBlock_mod]
  split
  · rfl
  · simp only [fillBuffer, oldBytes, hskip, hsize]

/-- An aligned write that starts behind the last pointer. -/
theorem writeObject_past (ha : offset % 4096 = 0) (hstart : startBlock offset = some start)
    (hfirst : 4 ≤ start / 1024) : writeObject build x buf size offset s =
      (size, finishWrite x (start / 1024) (int32 (offset + size)) s) := by
  have hfill : (fillBuffer build x buf size start offset (auxPages size * 4096).toNat s).2 = s := by
    have hcap : 0 < size → size ≤ (auxPages size * 4096).toNat :=
      fun hpos => (capOf_spec (Int.le_of_lt hpos)).1
    unfold fillBuffer oldBytes
    dsimp only
    rw [ha, if_neg (show ¬ 0 < 0 by decide), if_neg (by omega)]
  unfold writeObject
  rw [hstart]
  dsimp only
  rw [show 4 - start / 1024 = 0 by omega, writePointers, hfill]

/-- One that starts inside a block reads a pointer that the object does not have. -/
theorem writeObject_past_fault (ha : offset % 4096 ≠ 0) (hstart : startBlock offset = some start)
    (hfirst : 4 ≤ start / 1024) : Event.fault ∈ (writeObject build x buf size offset s).2.log := by
  have hold : ∀ cap, oldBytes build x start offset cap s = (zeroBuffer, s.emit .fault) := by
    intro cap
    rw [oldBytes, if_pos (by omega), if_pos hfirst]
  unfold writeObject
  rw [hstart]
  dsimp only
  rw [show 4 - start / 1024 = 0 by omega, writePointers]
  simp only [fillBuffer, hold, finishWrite]
  split <;> simp

theorem finishWrite_self {i : Nat} (hi : 4 ≤ i) (hsize : (s.obj x).size = size) : finishWrite x i size s = s := by
  have hptr : (fun j => if i ≤ j ∧ j < 4 then -1 else (s.obj x).dataBlockPointers j) =
      (s.obj x).dataBlockPointers := funext fun j => if_neg (by omega)
  rw [finishWrite, hptr, ← hsize, State.setObj, Function.update_eq_self]

/-- Where nothing is left of a write, it starts behind the last pointer. -/
theorem past_of_clipped (hstart : startBlock offset = some start) (h : int32 (16777216 - offset) ≤ 0) :
    4 ≤ start / 1024 := by
  by_contra hlt
  have hs : start = offset / 4096 % 4294967296 := by
    rw [startBlock_eq] at hstart
    split at hstart
    · exact (Option.some.inj hstart).symm
    · cases hstart
  have hcongr : int32 (16777216 - offset) = int32 (16777216 - (offset % 17592186044416 : Nat)) :=
    int32_congr (by omega)
  rw [hcongr, int32_eq (by omega) (by omega)] at h
  omega

/-- The size that a cut write leaves. -/
theorem int32_clipped (offset : Nat) : int32 (offset + int32 (16777216 - offset)) = 16777216 := by
  have h := int32_emod (16777216 - offset)
  rw [int32_congr (show ((offset : Int) + int32 (16777216 - offset)) % 4294967296 = 16777216 % 4294967296 by omega)]
  decide

theorem objstoreWrite_slot (hx : LiveSlot s x) (hlt : x < 1000000) :
    objstoreWrite build (indexToID x) buf size offset s =
      writeObject build x buf (clipWrite size offset) offset s := by
  unfold objstoreWrite
  dsimp only
  rw [idToIndex_indexToID, if_neg (by have := two_le_indexToID x; omega), if_neg (by omega), if_neg hx]

/-- What is left of a write fits behind its offset, counted modulo 2^44. -/
theorem taken_inside {data : List UInt8} (hlen : data.length < 2147483648)
    (hoff : offset % 17592186044416 ≤ 16777216) : 0 ≤ Files.taken data offset ∧
      ((offset % 17592186044416 : Nat) : Int) + Files.taken data offset ≤ 16777216 := by
  have hcongr : int32 (16777216 - offset) = int32 (16777216 - (offset % 17592186044416 : Nat)) :=
    int32_congr (by omega)
  unfold Files.taken clipWrite
  rw [int32_eq (show -2147483648 ≤ (data.length : Int) by omega) (by omega), hcongr,
    int32_eq (by omega) (by omega)]
  split <;> omega

/-- A write that starts on a block boundary goes to the object, or reaches none of its pointers. -/
theorem objstoreWrite_aligned {owner : Owner} {data : List UInt8} (hinv : BlockInv build s) (hown : Owned owner s)
    (hx : LiveSlot s x) (hlen : data.length < 2147483648) (ha : offset % 4096 = 0)
    (hret : Returned (objstoreWrite build (indexToID x) (bufferOf data) (int32 data.length) offset s).2) :
    (∃ owner', ObjectWritten build x (bufferOf data) (Files.taken data offset) (offset % 17592186044416) owner owner' s
      (objstoreWrite build (indexToID x) (bufferOf data) (int32 data.length) offset s).2) ∨
    4 ≤ firstOf (offset % 17592186044416) ∧ ∃ size,
      (objstoreWrite build (indexToID x) (bufferOf data) (int32 data.length) offset s).2 =
        finishWrite x (firstOf (offset % 17592186044416)) size s := by
  rw [objstoreWrite_slot hx (hown.slot x hx).1, ← writeObject_mod] at hret ⊢
  have ha' : offset % 17592186044416 % 4096 = 0 := by omega
  rcases Nat.lt_or_ge 16777216 (offset % 17592186044416) with hlt | hle
  · have hfirst : 4 ≤ firstOf (offset % 17592186044416) := by rw [firstOf_eq]; omega
    refine .inr ⟨hfirst, ?_⟩
    by_cases hsign : offset % 17592186044416 < 8796093022208
    · have hstart : startBlock (offset % 17592186044416) = some (offset % 17592186044416 / 4096) := by
        rw [startBlock_eq, if_pos (by omega), Nat.mod_eq_of_lt (by omega)]
      rw [writeObject_past ha' hstart hfirst]
      exact ⟨_, rfl⟩
    · refine absurd ?_ hret.2
      unfold writeObject
      rw [startBlock_eq, if_neg (by omega)]
      exact List.mem_cons_self ..
  · obtain ⟨h₀, hend⟩ := taken_inside hlen hle
    exact .inl (writeObject_spec ha' h₀ hend hinv hown hx hret.1).2

end Offsets

end CS330.ObjStore
