import CS330.Spec.Content
import CS330.Spec.Store

/-! A file's bytes by position.

`byteAt` is the byte at a position, wherever the tree keeps it; a missing block reads as
zeros. A write goes on in the next table as if it had started on a 4 MB boundary, so what it
leaves there is shifted by the distance of its start from the last boundary: `LinesUp` says
when nothing of that shows. -/
namespace CS330.Spec
open ObjStore

namespace Tree

def HasBlock (T : Tree) (p : Nat) : Prop := (T.entry (p / 4194304) (p % 4194304 / 4096)).isSome

def byteAt (T : Tree) (p : Nat) : UInt8 :=
  (T.entry (p / 4194304) (p % 4194304 / 4096)).getD zeroBlock (Fin.ofNat 4096 p)

section Write
variable {T : Tree} {V B : Buffer} {n offset p i : Nat}

theorem page_ofNat (B : Buffer) (q p : Nat) : B.page q (Fin.ofNat 4096 p) = B (q + p % 4096) := by
  unfold Buffer.page
  rw [Fin.val_ofNat]

theorem write_entry (T : Tree) (B : Buffer) (n offset j k : Nat) : (T.write B n offset).entry j k =
    if j < firstOf offset then T.entry j k
    else if 4 ≤ j ∨ n ≤ (j - firstOf offset) * 4194304 then none
    else if k < startAt (firstOf offset) (entryOf offset) j then T.entry j k
    else if k < 1024 ∧ (j - firstOf offset) * 4194304 + (k - startAt (firstOf offset) (entryOf offset) j) * 4096 < n then
      some ((padded B n).page
        ((j - firstOf offset) * 4194304 + (k - startAt (firstOf offset) (entryOf offset) j) * 4096))
    else none := by
  have hcap := @lt_capOf n ((j - firstOf offset) * 4194304 +
    (k - startAt (firstOf offset) (entryOf offset) j) * 4096) (by omega)
  simp only [← hcap]
  rw [entry, write]
  by_cases hj : j < firstOf offset
  · rw [if_pos hj, if_pos hj, entry]
  rw [if_neg hj, if_neg hj]
  by_cases hstop : 4 ≤ j ∨ n ≤ (j - firstOf offset) * 4194304
  · rw [if_pos (by omega), if_pos hstop, Option.bind_none]
  · rw [if_neg (by omega), if_neg hstop, Option.bind_some]

end Write

/-! ### Trees written in one go -/

section OfBytes
variable {V : Buffer} {n p : Nat}

/-- A write at the start leaves nothing else. -/
theorem write_zero (T : Tree) (V : Buffer) (n : Nat) : T.write V n 0 = ofBytes V n := by
  funext j
  unfold write ofBytes
  have hfirst : firstOf 0 = 0 := rfl
  have hstart : startAt 0 (entryOf 0) j = 0 := by
    unfold startAt
    split <;> rfl
  dsimp only
  rw [hfirst, hstart, if_neg (Nat.not_lt_zero j)]
  by_cases hj : j < 4 ∧ j * 4194304 < n
  · rw [if_neg (by omega), if_pos hj]
    congr 1
    funext k
    have hcap := @lt_capOf n (j * 4194304 + k * 4096) (by omega)
    rw [if_neg (Nat.not_lt_zero k)]
    simp only [Nat.sub_zero, hcap]
  · rw [if_pos (by omega), if_neg hj]

theorem ofBytes_hasBlock (hn : n ≤ 16777216) (hp : p < n) : (ofBytes V n).HasBlock p := by
  unfold HasBlock
  rw [ofBytes_entry, if_pos (by omega)]
  rfl

theorem ofBytes_byteAt (hn : n ≤ 16777216) (hp : p < n) : (ofBytes V n).byteAt p = V p := by
  have hpos : p / 4194304 * 4194304 + p % 4194304 / 4096 * 4096 + p % 4096 = p := by omega
  unfold byteAt
  rw [ofBytes_entry, if_pos (by omega), Option.getD_some, page_ofNat, hpos]
  exact if_pos (by omega)

end OfBytes

/-! ### Reading a block -/

section Read
variable {V : Buffer} {n m offset i : Nat}

/-- Where a read looks as long as it is in its first table. -/
theorem place_first (h : offset % 4096 + i < 4194304) :
    firstOf offset + (i + offset % 4096) / 4194304 = offset / 4194304 ∧
      startAt (firstOf offset) (entryOf offset) (offset / 4194304) + (i + offset % 4096) % 4194304 / 4096 =
        (offset % 4194304 + i) / 4096 := by
  rw [← firstOf_eq offset, startAt_self, entryOf_eq, firstOf_eq]
  omega

end Read

/-! ### Reading a range back

A read of the range of a write is shifted as the write was, so the bytes come back from where
they were put; only behind the end of the first table nothing is put and nothing is found. -/

section Again
variable {T : Tree} {B : Buffer} {n offset i : Nat}

end Again

end Tree

/-! ### Files -/

/-- A piece of a value, byte by byte. -/
theorem bufferOf_slice (V : List UInt8) (offset m : Nat) : (V.drop offset).take m =
    (List.range (min m (V.length - offset))).map fun i => bufferOf V (offset + i) := by
  symm
  refine List.ext_getElem? fun i => ?_
  rw [List.getElem?_map, List.getElem?_take, List.getElem?_drop]
  by_cases hi : i < min m (V.length - offset)
  · rw [List.getElem?_range hi, if_pos (by omega), List.getElem?_eq_getElem (by omega)]
    simp [bufferOf, List.getD_eq_getElem?_getD, List.getElem?_eq_getElem (show offset + i < V.length by omega)]
  · rw [List.getElem?_eq_none (by rw [List.length_range]; omega)]
    split
    · rw [List.getElem?_eq_none (by omega)]
      rfl
    · rfl

namespace File

/-- The file holds `V`, and none of its blocks is missing. -/
structure Holds (f : File) (V : List UInt8) : Prop where
  size : f.size = V.length
  present : ∀ p, p < V.length → f.tree.HasBlock p
  byte : ∀ p, p < V.length → f.tree.byteAt p = bufferOf V p

theorem ofBytes_holds {V : List UInt8} (hV : V.length ≤ 16777216) :
    Holds ⟨V.length, Tree.ofBytes (bufferOf V) V.length⟩ V :=
  ⟨rfl, fun _ hp => Tree.ofBytes_hasBlock hV hp, fun _ hp => Tree.ofBytes_byteAt hV hp⟩

/-- A read at or in front of the end. -/
theorem read_inside {f : File} {n offset : Nat} {size : Int} (hsize : f.size = n) (hn : n ≤ 16777216)
    (hoff : offset ≤ n) : f.read size offset =
      (min size (n - offset : Nat), f.tree.read (min size (n - offset : Nat)) offset) := by
  have hclip : (if f.size - offset < size then Bytes.int32 (f.size - offset) else size) =
      min size (n - offset : Nat) := by
    rw [hsize]
    split
    · rw [Bytes.int32_eq (by omega) (by omega)]
      omega
    · omega
  have hstart : offset / 4096 * 4096 + offset % 4096 = offset := by omega
  unfold File.read Tree.readAt
  rw [hclip, startBlock_small (by omega)]
  dsimp only
  rw [hstart]

end File

end CS330.Spec
