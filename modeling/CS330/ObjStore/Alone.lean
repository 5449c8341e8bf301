import CS330.ObjStore.Atomic
import CS330.ObjStore.Sound

/-! A call that runs alone.

Without other threads the programs of atomic actions do what the store's functions do: they
return the same values and leave the same state, the log included. -/
namespace CS330.ObjStore.Atomic
open Threads Prog Bytes

section Actions
variable (s : State)

@[simp]
theorem run_ret {α : Type} (a : α) : (ret a : Code α).run perform s = some (a, s) := rfl

@[simp]
theorem lock_run (m : Mutex) : (lock m).run perform s = some ((), s.emit (.lock m)) := rfl

@[simp]
theorem unlock_run (m : Mutex) : (unlock m).run perform s = some ((), s.emit (.unlock m)) := rfl

@[simp]
theorem loadId_run (x : Nat) : (loadId x).run perform s = some ((s.obj x).id, s) := rfl

@[simp]
theorem probeId_run (x : Nat) (key : Key) : (probeId x key).run perform s = some ((s.obj x).id, s) := rfl

@[simp]
theorem storeId_run (x : Nat) (v : Int) :
    (storeId x v).run perform s = some ((), s.setObj x {s.obj x with id := v}) := rfl

@[simp]
theorem loadSize_run (x : Nat) : (loadSize x).run perform s = some ((s.obj x).size, s) := rfl

@[simp]
theorem storeSize_run (x : Nat) (v : Int) :
    (storeSize x v).run perform s = some ((), s.setObj x {s.obj x with size := v}) := rfl

@[simp]
theorem loadKey_run (x n : Nat) : (loadKey x n).run perform s = some (keyMemory s.obj x n, s) := rfl

@[simp]
theorem storeKey_run (x n : Nat) (c : UInt8) : (storeKey x n c).run perform s = some ((), s.setObj x {s.obj x with
    key := fun m => if m = n then c else if m < 32 then (s.obj x).key m else 0}) := rfl

@[simp]
theorem loadPointer_run (x j : Nat) :
    (loadPointer x j).run perform s = some ((s.obj x).dataBlockPointers j, s) := rfl

@[simp]
theorem storePointer_run (x j : Nat) (p : Int) :
    (storePointer x j p).run perform s = some ((), setPointer x j p s) := rfl

@[simp]
theorem resetPointer_run (x j : Nat) : (resetPointer x j).run perform s = some ((), s.setObj x {s.obj x with
    dataBlockPointers := fun k => if k = j ∨ 4 ≤ k then -1 else (s.obj x).dataBlockPointers k}) := rfl

@[simp]
theorem loadTotal_run : loadTotal.run perform s = some (s.totalNumDiskBlocks, s) := rfl

@[simp]
theorem loadBitmap_run (b : Int) :
    (loadBitmap b).run perform s = some (s.blockBitmap b, s.emit (.bitmap b)) := rfl

@[simp]
theorem probeBitmap_run (b : Int) :
    (probeBitmap b).run perform s = some (s.blockBitmap b, s.emit (.bitmap b)) := rfl

@[simp]
theorem storeBitmap_run (b : Int) (v : Nat) : (storeBitmap b v).run perform s = some ((), s.setBitmap b v) := rfl

@[simp]
theorem storeCacheBitmap_run (c : Nat) (b : Int) :
    (storeCacheBitmap c b).run perform s = some ((), s.setCacheBitmap c b) := rfl

@[simp]
theorem storeDirty_run (c : Nat) (d : Bool) : (storeDirty c d).run perform s = some ((), s.setDirty c d) := rfl

@[simp]
theorem readBlock_run (b : Int) (addr : Nat) (buf : Block) :
    (readBlock b addr buf).run perform s = some (ObjStore.readBlock s b addr buf, s) :=
  (run_act ..).trans (perform_eq_some.mpr ⟨rfl, rfl⟩)

@[simp]
theorem writeBlock_run (b : Int) (addr : Nat) (buf : Block) :
    (writeBlock b addr buf).run perform s = some (ObjStore.writeBlock b addr buf s) :=
  (run_act ..).trans (congrArg some (Prod.mk.eta (p := ObjStore.writeBlock b addr buf s)))

@[simp]
theorem note_run (e : Event) : (note e).run perform s = some ((), s.emit e) := rfl

@[simp]
theorem spin_run {α : Type} : (spin : Code α).run perform s = none := rfl

end Actions

section Directory
variable {x : Nat} {key : Key} {s : State}

@[simp]
theorem strcmp_run (n : Nat) (bytes : List UInt8) :
    (strcmp x n bytes).run perform s = some (strcmpEq (keyMemory s.obj x) n bytes, s) := by
  induction bytes generalizing n with
  | nil => simp [strcmp, run_bind, strcmpEq]
  | cons c rest ih =>
    simp only [strcmp, bind_eq, pure_eq, run_bind, loadKey_run, Option.bind_some, strcmpEq]
    split
    · rename_i h
      rw [ih, h, Bool.true_and]
    · rename_i h
      rw [run_ret, Bool.eq_false_iff.mpr h, Bool.false_and]

@[simp]
theorem slotHolds_run : (slotHolds key x).run perform s = some (ObjStore.slotHolds s key x, s) := by
  simp only [slotHolds, bind_eq, pure_eq, run_bind, loadId_run, Option.bind_some, ObjStore.slotHolds]
  split
  · rename_i h
    simp [h]
  · rename_i h
    simp [h]

@[simp]
theorem findLoop_run (previousIndex n index : Nat) :
    (findLoop key previousIndex n index).run perform s =
      some (ObjStore.findLoop s key previousIndex n index, s) := by
  induction n generalizing index with
  | zero => rfl
  | succ n ih =>
    simp only [findLoop, bind_eq, pure_eq, ObjStore.findLoop]
    split
    · rfl
    · simp only [run_bind, slotHolds_run, Option.bind_some]
      split
      · rfl
      · exact ih _

@[simp]
theorem findObjectId_run : (findObjectId key).run perform s = some (ObjStore.findObjectId key s, s) := by
  simp only [findObjectId, bind_eq, run_bind, slotHolds_run, Option.bind_some, ObjStore.findObjectId]
  split
  · rfl
  · exact findLoop_run _ _ _

@[simp]
theorem createProbe_run (n index : Nat) :
    (createProbe key n index).run perform s = (ObjStore.createProbe s key n index).map fun r => (r, s) := by
  induction n generalizing index with
  | zero => rfl
  | succ n ih =>
    simp only [createProbe, bind_eq, pure_eq, run_bind, probeId_run, Option.bind_some, ObjStore.createProbe]
    split
    · rfl
    · simp only [run_bind, strcmp_run, Option.bind_some]
      split
      · rfl
      · exact ih _

theorem strncpy_run (m n : Nat) (h : n + m ≤ 32) : (strncpy x key m n).run perform s =
    some ((), s.setObj x {s.obj x with key := fun k =>
      if n ≤ k ∧ k < n + m then key.bytes.getD k 0 else if k < 32 ∨ m = 0 then (s.obj x).key k else 0}) := by
  induction m generalizing n s with
  | zero =>
    have hkey : (fun k => if n ≤ k ∧ k < n + 0 then key.bytes.getD k 0
        else if k < 32 ∨ 0 = 0 then (s.obj x).key k else 0) = (s.obj x).key := by
      funext k
      rw [if_neg (by omega), if_pos (.inr rfl)]
    rw [hkey]
    simp [strncpy, State.setObj]
  | succ m ih =>
    simp only [strncpy, bind_eq, run_bind, storeKey_run, Option.bind_some]
    rw [ih (n + 1) (by omega)]
    simp only [State.setObj, Function.update_self, Function.update_idem]
    congr 5
    funext k
    rcases Nat.lt_trichotomy k n with hk | rfl | hk
    · rw [if_neg (by omega), if_pos (by omega), if_neg (by omega), if_pos (by omega), if_neg (by omega), if_pos (by omega)]
    · rw [if_neg (by omega), if_pos (by omega), if_pos rfl, if_pos (by omega)]
    · by_cases hm : k < n + 1 + m
      · rw [if_pos (by omega), if_pos (by omega)]
      · rw [if_neg (by omega), if_neg (show ¬ (n ≤ k ∧ k < n + (m + 1)) by omega), if_neg (show ¬ k = n by omega)]
        by_cases h32 : k < 32
        · simp [h32]
        · simp [h32]

theorem resetPointers_run (m j : Nat) (h : j + m ≤ 4) : (resetPointers x m j).run perform s =
    some ((), s.setObj x {s.obj x with dataBlockPointers := fun k =>
      if j ≤ k ∧ k < j + m ∨ 4 ≤ k ∧ m ≠ 0 then -1 else (s.obj x).dataBlockPointers k}) := by
  induction m generalizing j s with
  | zero =>
    have hptr : (fun k => if j ≤ k ∧ k < j + 0 ∨ 4 ≤ k ∧ 0 ≠ 0 then -1 else (s.obj x).dataBlockPointers k) =
        (s.obj x).dataBlockPointers := by
      funext k
      rw [if_neg (by omega)]
    rw [hptr]
    simp [resetPointers, State.setObj]
  | succ m ih =>
    simp only [resetPointers, bind_eq, run_bind, resetPointer_run, Option.bind_some]
    rw [ih (j + 1) (by omega)]
    simp only [State.setObj, Function.update_self, Function.update_idem]
    congr 5
    funext k
    split_ifs <;> first | rfl | omega

/-- What `create_object` does with the slot its loop stopped at. -/
theorem fillSlot_run (x : Nat) : (fillSlot key (some x)).run perform s =
    some (indexToID x, (s.setObj x (newObject key x)).emit (.unlock .createObjectLock)) := by
  have hkey : (fun k => if 0 ≤ k ∧ k < 0 + 32 then key.bytes.getD k 0
      else if k < 32 ∨ 32 = 0 then (s.obj x).key k else 0) = strncpyKey key := by
    funext k
    unfold strncpyKey
    by_cases h : k < 32
    · rw [if_pos (by omega), if_pos h]
    · rw [if_neg (by omega), if_neg (by omega), if_neg h]
  have hptr : (fun k => if 0 ≤ k ∧ k < 0 + 4 ∨ 4 ≤ k ∧ 4 ≠ 0 then -1 else (s.obj x).dataBlockPointers k) =
      fun _ => -1 := by
    funext k
    rw [if_pos (by omega)]
  simp only [fillSlot, bind_eq, run_bind, storeId_run, storeSize_run, strncpy_run 32 0 (by decide),
    resetPointers_run 4 0 (by decide), unlock_run, loadId_run, Option.bind_some, State.setObj, State.emit,
    Function.update_self, Function.update_idem, hkey, hptr]
  rfl

theorem createObject_run : (createObject key).run perform s = ObjStore.createObject key s := by
  unfold createObject ObjStore.createObject
  rw [bind_eq, run_bind, lock_run, Option.bind_some, bind_eq, run_bind, createProbe_run]
  dsimp only
  cases ObjStore.createProbe (s.emit (.lock .createObjectLock)) key 1000000 (hash key) with
  | none => rfl
  | some found =>
    cases found with
    | none => rfl
    | some i => rw [Option.map_some, Option.bind_some, fillSlot_run]

theorem copyPointers_run {z : Nat} (hzx : z ≠ x) (m j : Nat) : (copyPointers x z m j).run perform s =
    some ((), s.setObj x {s.obj x with dataBlockPointers := fun k =>
      if j ≤ k ∧ k < j + m then (s.obj z).dataBlockPointers k else (s.obj x).dataBlockPointers k}) := by
  induction m generalizing j s with
  | zero =>
    have hptr : (fun k => if j ≤ k ∧ k < j + 0 then (s.obj z).dataBlockPointers k
        else (s.obj x).dataBlockPointers k) = (s.obj x).dataBlockPointers := by
      funext k
      rw [if_neg (by omega)]
    rw [hptr]
    simp [copyPointers, State.setObj]
  | succ m ih =>
    simp only [copyPointers, bind_eq, run_bind, loadPointer_run, storePointer_run, Option.bind_some]
    rw [ih (j + 1)]
    simp only [setPointer, State.setObj, Function.update_self, Function.update_idem, Function.update_of_ne hzx]
    congr 5
    funext k
    rcases Nat.lt_trichotomy k j with hk | rfl | hk
    · rw [if_neg (by omega), if_neg (by omega), Function.update_of_ne (by omega)]
    · rw [if_neg (by omega), if_pos (by omega), Function.update_self]
    · rw [Function.update_of_ne (by omega)]
      by_cases hm : k < j + 1 + m
      · rw [if_pos (by omega), if_pos (by omega)]
      · rw [if_neg (by omega), if_neg (by omega)]

/-- Nothing is behind the pointers of a live object. -/
def Tidy (s : State) : Prop := ∀ x, LiveSlot s x → ∀ k, 4 ≤ k → (s.obj x).dataBlockPointers k = -1

theorem renameObject_run {newname : Key} (hs : Numbered s) (htidy : Tidy s) :
    (renameObject key newname).run perform s = ObjStore.renameObject key newname s := by
  unfold renameObject ObjStore.renameObject
  split
  · rfl
  rw [bind_eq, run_bind, findObjectId_run, Option.bind_some]
  dsimp only
  rcases findObjectId_cases hs key with ⟨hf, -⟩ | ⟨z, -, hz, hf⟩
  · rw [hf, if_pos rfl, if_pos rfl]
    rfl
  rw [hf, if_neg (indexToID_ne z).2, if_neg (indexToID_ne z).2, idToIndex_indexToID, bind_eq, run_bind,
    createObject_run]
  cases hc : ObjStore.createObject newname s with
  | none => rfl
  | some r =>
    rw [Option.bind_some, Option.map_some]
    rcases createObject_cases hc with ⟨h₁, h₂, -⟩ | ⟨x, -, -, hfree, h₁, h₂⟩
    · rw [if_pos h₁, if_pos h₁]
      rfl
    have hzx : z ≠ x := fun heq => hfree (heq ▸ hz)
    have hptr : (fun k => if 0 ≤ k ∧ k < 0 + 4 then (s.obj z).dataBlockPointers k else -1) =
        (s.obj z).dataBlockPointers := by
      funext k
      by_cases hk : k < 4
      · rw [if_pos (by omega)]
      · rw [if_neg (by omega), htidy z hz k (by omega)]
    rw [h₁, if_neg (indexToID_ne x).2, if_neg (indexToID_ne x).2, h₂, idToIndex_indexToID]
    simp only [bind_eq, pure_eq, run_bind, loadSize_run, storeSize_run, copyPointers_run hzx, lock_run, storeId_run,
      unlock_run, run_ret, Option.bind_some, State.setObj, State.emit, Function.update_self, Function.update_idem,
      Function.update_of_ne hzx, newObject, hptr]

end Directory

section Blocks
variable {s : State}

@[simp]
theorem setBlockBitmap_run (b : Int) :
    (setBlockBitmap b).run perform s = some ((), ObjStore.setBlockBitmap b s) := rfl

@[simp]
theorem clearBlockBitmap_run (b : Int) :
    (clearBlockBitmap b).run perform s = some ((), ObjStore.clearBlockBitmap b s) := rfl

@[simp]
theorem scanBitmap_run (n i : Nat) : (scanBitmap n i).run perform s = some (ObjStore.scanBitmap n i s) := by
  induction n generalizing i s with
  | zero => rfl
  | succ n ih =>
    simp only [scanBitmap, bind_eq, pure_eq, run_bind, probeBitmap_run, Option.bind_some, ObjStore.scanBitmap,
      State.emit_blockBitmap]
    split
    · rfl
    · exact ih _

@[simp]
theorem getNewDatablock_run : getNewDatablock.run perform s = some (ObjStore.getNewDatablock s) := by
  simp only [getNewDatablock, bind_eq, pure_eq, run_bind, lock_run, loadTotal_run, scanBitmap_run, unlock_run, note_run,
    run_ret, Option.bind_some, ObjStore.getNewDatablock, State.emit_totalNumDiskBlocks]

@[simp]
theorem initializeBlock_run (b : Int) :
    (initializeBlock b).run perform s = some ((), ObjStore.initializeBlock b s) := by
  simp only [initializeBlock, bind_eq, pure_eq, run_bind, writeBlock_run, run_ret, Option.bind_some,
    ObjStore.initializeBlock]

@[simp]
theorem dropPage_run (c : Nat) : (dropPage c).run perform s = some ((), ObjStore.dropPage c s) := by
  unfold dropPage ObjStore.dropPage
  split <;> rfl

@[simp]
theorem freeEntries_run (tmp : Nat → Int) (n i : Nat) :
    (freeEntries tmp n i).run perform s = some ((), ObjStore.freeEntries tmp n i s) := by
  induction n generalizing i s with
  | zero => rfl
  | succ n ih =>
    unfold freeEntries ObjStore.freeEntries
    split
    · rfl
    · simp only [bind_eq, run_bind, loadBitmap_run, dropPage_run, clearBlockBitmap_run, ih, Option.bind_some,
        freeEntry, State.emit_blockBitmap]

@[simp]
theorem freeDataBlock_run (p : Int) : (freeDataBlock p).run perform s = some ((), ObjStore.freeDataBlock p s) := by
  simp only [freeDataBlock, bind_eq, run_bind, readBlock_run, freeEntries_run, clearBlockBitmap_run, Option.bind_some,
    ObjStore.freeDataBlock]

theorem freePointers_run (x n i : Nat) : (freePointers x n i).run perform s =
    some ((), ObjStore.freePointers (s.obj x).dataBlockPointers n i s) := by
  induction n generalizing i s with
  | zero => rfl
  | succ n ih =>
    simp only [freePointers, bind_eq, pure_eq, run_bind, loadPointer_run, Option.bind_some, ObjStore.freePointers]
    split
    · rfl
    · have hobj := (freeDataBlock_freed ((s.obj x).dataBlockPointers i) s).obj
      rw [run_bind, loadPointer_run, Option.bind_some, run_bind, freeDataBlock_run, Option.bind_some]
      -- the freed block is left abstract: unfolding it goes through every entry of the table
      generalize ObjStore.freeDataBlock ((s.obj x).dataBlockPointers i) s = t at hobj ⊢
      rw [ih, hobj]

theorem destroyObject_run (key : Key) :
    (destroyObject key).run perform s = some (ObjStore.destroyObject key s) := by
  simp only [destroyObject, bind_eq, pure_eq, run_bind, findObjectId_run, Option.bind_some, ObjStore.destroyObject]
  split
  · rfl
  · rw [run_bind, loadId_run, Option.bind_some]
    dsimp only
    split
    · rfl
    · simp only [run_bind, freePointers_run, storeId_run, run_ret, Option.bind_some]

end Blocks

section Reading
variable {s : State}

@[simp]
theorem readEntries_run (block : Nat → Int) (blockOffset offset size n i : Nat) (buf : Buffer) :
    (readEntries block blockOffset offset size n i buf).run perform s =
      some (ObjStore.readEntries .uncached block blockOffset offset size n i buf s) := by
  induction n generalizing i buf with
  | zero => rfl
  | succ n ih =>
    unfold readEntries ObjStore.readEntries
    dsimp only
    split
    · rfl
    split
    · rfl
    rw [bind_eq, run_bind, readBlock_run, Option.bind_some, fetch_uncached]
    dsimp only
    split
    · rfl
    · exact ih _ _

@[simp]
theorem readIndirectBlock_run (b : Int) (blockOffset : Nat) (buf : Buffer) (offset size : Nat) :
    (readIndirectBlock b blockOffset buf offset size).run perform s =
      some (ObjStore.readIndirectBlock .uncached b blockOffset buf offset size s) := by
  unfold readIndirectBlock ObjStore.readIndirectBlock
  split
  · rfl
  · rw [bind_eq, run_bind, readBlock_run, Option.bind_some, fetch_uncached, readEntries_run]

theorem readPointers_run (x : Nat) (size : Int) (cap first n i blockOffset : Nat) (buf : Buffer) :
    (readPointers x size cap first n i blockOffset buf).run perform s =
      some (ObjStore.readPointers .uncached x size cap first n i blockOffset buf s) := by
  induction n generalizing i blockOffset buf s with
  | zero => rfl
  | succ n ih =>
    unfold readPointers ObjStore.readPointers
    dsimp only
    split
    · rfl
    · simp only [bind_eq, run_bind, loadPointer_run, readIndirectBlock_run, Option.bind_some, ih]

@[simp]
theorem readObject_run (x : Nat) (size : Int) (offset : Nat) : (readObject x size offset).run perform s =
    some (((ObjStore.readObject .uncached x size offset s).1, (ObjStore.readObject .uncached x size offset s).2.1),
      (ObjStore.readObject .uncached x size offset s).2.2) := by
  unfold readObject ObjStore.readObject
  cases startBlock offset with
  | none => rfl
  | some start =>
    dsimp only
    rw [bind_eq, run_bind, readPointers_run, Option.bind_some]
    split <;> rfl

theorem objstoreRead_run (id size : Int) (offset : Nat) : (objstoreRead id size offset).run perform s =
    some (((ObjStore.objstoreRead .uncached id size offset s).1,
      (ObjStore.objstoreRead .uncached id size offset s).2.1),
      (ObjStore.objstoreRead .uncached id size offset s).2.2) := by
  unfold objstoreRead ObjStore.objstoreRead
  dsimp only
  split
  · rfl
  split
  · rfl
  rw [bind_eq, run_bind, loadId_run, Option.bind_some]
  dsimp only
  split
  · rfl
  unfold clipRead
  rw [bind_eq, run_bind, loadSize_run, Option.bind_some]
  dsimp only
  split
  · rw [bind_eq, run_bind, loadSize_run, Option.bind_some, readObject_run]
  · exact readObject_run ..

end Reading

section Writing
variable {s : State}

@[simp]
theorem entryBlock_run (block : Nat → Int) (i : Nat) :
    (entryBlock block i).run perform s = some (ObjStore.entryBlock block i s) := by
  unfold entryBlock ObjStore.entryBlock
  split
  · simp only [bind_eq, pure_eq, run_bind, getNewDatablock_run, setBlockBitmap_run, run_ret, Option.bind_some]
  · rfl

@[simp]
theorem writeEntries_run (buf : Buffer) (blockOffset offset size n i : Nat) (block : Nat → Int) :
    (writeEntries buf blockOffset offset size n i block).run perform s =
      some (((ObjStore.writeEntries .uncached buf blockOffset offset size n i block s).1,
        (ObjStore.writeEntries .uncached buf blockOffset offset size n i block s).2.1),
        (ObjStore.writeEntries .uncached buf blockOffset offset size n i block s).2.2) := by
  induction n generalizing i block s with
  | zero => rfl
  | succ n ih =>
    unfold writeEntries ObjStore.writeEntries
    dsimp only
    split
    · rfl
    simp only [bind_eq, pure_eq, run_bind, entryBlock_run, writeBlock_run, Option.bind_some, store_uncached]
    split
    · rfl
    · exact ih _ _

@[simp]
theorem indirectBlock_run (b : Int) :
    (indirectBlock b).run perform s = some (ObjStore.indirectBlock b s) := by
  unfold indirectBlock ObjStore.indirectBlock
  split
  · simp only [bind_eq, pure_eq, run_bind, getNewDatablock_run, setBlockBitmap_run, initializeBlock_run, run_ret,
      Option.bind_some]
  · rfl

@[simp]
theorem writeIndirectBlock_run (b : Int) (blockOffset : Nat) (buf : Buffer) (offset size : Nat) :
    (writeIndirectBlock b blockOffset buf offset size).run perform s =
      some (ObjStore.writeIndirectBlock .uncached b blockOffset buf offset size s) := by
  simp only [writeIndirectBlock, bind_eq, pure_eq, run_bind, indirectBlock_run, readBlock_run, writeEntries_run,
    writeBlock_run, run_ret, Option.bind_some, ObjStore.writeIndirectBlock, fetch_uncached, store_uncached]

theorem writePointers_run (x : Nat) (buf : Buffer) (size : Int) (cap first n i blockOffset : Nat) :
    (writePointers x buf size cap first n i blockOffset).run perform s =
      some (ObjStore.writePointers .uncached x buf size cap first n i blockOffset s) := by
  induction n generalizing i blockOffset s with
  | zero => rfl
  | succ n ih =>
    unfold writePointers ObjStore.writePointers
    dsimp only
    split
    · rfl
    · simp only [bind_eq, run_bind, loadPointer_run, writeIndirectBlock_run, storePointer_run, ih, Option.bind_some]

theorem cutPointers_run (x m i : Nat) : (cutPointers x m i).run perform s =
    some ((), s.setObj x {s.obj x with dataBlockPointers := fun k =>
      if i ≤ k ∧ k < i + m then -1 else (s.obj x).dataBlockPointers k}) := by
  induction m generalizing i s with
  | zero =>
    have hptr : (fun k => if i ≤ k ∧ k < i + 0 then -1 else (s.obj x).dataBlockPointers k) =
        (s.obj x).dataBlockPointers := by
      funext k
      rw [if_neg (by omega)]
    rw [hptr]
    simp [cutPointers, State.setObj]
  | succ m ih =>
    simp only [cutPointers, bind_eq, run_bind, storePointer_run, Option.bind_some]
    rw [ih (i + 1)]
    simp only [setPointer, State.setObj, Function.update_self, Function.update_idem]
    congr 5
    funext k
    rcases Nat.lt_trichotomy k i with hk | rfl | hk
    · rw [if_neg (by omega), if_neg (by omega), Function.update_of_ne (by omega)]
    · rw [if_neg (by omega), if_pos (by omega), Function.update_self]
    · rw [Function.update_of_ne (by omega)]
      by_cases hm : k < i + 1 + m
      · rw [if_pos (by omega), if_pos (by omega)]
      · rw [if_neg (by omega), if_neg (by omega)]

theorem cutPointers_all (x i : Nat) : (cutPointers x (4 - i) i).run perform s =
    some ((), s.setObj x {s.obj x with dataBlockPointers := fun k =>
      if i ≤ k ∧ k < 4 then -1 else (s.obj x).dataBlockPointers k}) := by
  have hrange : ∀ k, i ≤ k ∧ k < i + (4 - i) ↔ i ≤ k ∧ k < 4 := fun k => by omega
  simp only [cutPointers_run, hrange]

@[simp]
theorem readIndirectHelper_run (b : Int) (blockOffset : Nat) (buf : Buffer) (cap : Nat) :
    (readIndirectHelper b blockOffset buf cap).run perform s =
      some (ObjStore.readIndirectHelper .uncached b blockOffset buf cap s) := by
  unfold readIndirectHelper ObjStore.readIndirectHelper
  rw [bind_eq, run_bind, readBlock_run, Option.bind_some, fetch_uncached]
  dsimp only
  split
  · rfl
  · rw [bind_eq, run_bind, readBlock_run, Option.bind_some, fetch_uncached]
    dsimp only
    split <;> rfl

@[simp]
theorem oldBytes_run (x start offset cap : Nat) :
    (oldBytes x start offset cap).run perform s = some (ObjStore.oldBytes .uncached x start offset cap s) := by
  unfold oldBytes ObjStore.oldBytes
  split
  · split
    · rfl
    · simp only [bind_eq, run_bind, loadPointer_run, readIndirectHelper_run, Option.bind_some]
  · rfl

@[simp]
theorem fillBuffer_run (x : Nat) (buf : Buffer) (size : Int) (start offset cap : Nat) :
    (fillBuffer x buf size start offset cap).run perform s =
      some (ObjStore.fillBuffer .uncached x buf size start offset cap s) := by
  unfold fillBuffer ObjStore.fillBuffer
  rw [bind_eq, run_bind, oldBytes_run, Option.bind_some]
  dsimp only
  split <;> rfl

@[simp]
theorem writeObject_run (x : Nat) (buf : Buffer) (size : Int) (offset : Nat) :
    (writeObject x buf size offset).run perform s = some (ObjStore.writeObject .uncached x buf size offset s) := by
  unfold writeObject ObjStore.writeObject
  cases startBlock offset with
  | none => rfl
  | some start =>
    simp only [bind_eq, pure_eq, run_bind, fillBuffer_run, writePointers_run, cutPointers_all, storeSize_run, run_ret,
      Option.bind_some, finishWrite, State.setObj, Function.update_self, Function.update_idem]

theorem objstoreWrite_run (id : Int) (buf : Buffer) (size : Int) (offset : Nat) :
    (objstoreWrite id buf size offset).run perform s =
      some (ObjStore.objstoreWrite .uncached id buf size offset s) := by
  unfold objstoreWrite ObjStore.objstoreWrite
  dsimp only
  split
  · rfl
  split
  · rfl
  rw [bind_eq, run_bind, loadId_run, Option.bind_some]
  dsimp only
  split
  · rfl
  · exact writeObject_run ..

end Writing

section Measuring
variable {s : State}

@[simp]
theorem calNumberBlocks_run (b : Int) :
    (calNumberBlocks b).run perform s = some (ObjStore.calNumberBlocks .uncached b s) := by
  unfold calNumberBlocks ObjStore.calNumberBlocks
  split
  · rfl
  · simp only [bind_eq, pure_eq, run_bind, readBlock_run, run_ret, Option.bind_some, fetch_uncached]

theorem countPointers_run (x n i numBlocks : Nat) : (countPointers x n i numBlocks).run perform s =
    some (ObjStore.countPointers .uncached x n i numBlocks s) := by
  induction n generalizing i numBlocks s with
  | zero => rfl
  | succ n ih =>
    simp only [countPointers, bind_eq, pure_eq, run_bind, loadPointer_run, Option.bind_some, ObjStore.countPointers]
    split
    · rfl
    · simp only [run_bind, loadPointer_run, calNumberBlocks_run, ih, Option.bind_some]

theorem fillupSizeDetails_run (id : Int) : (fillupSizeDetails id).run perform s =
    some (((ObjStore.fillupSizeDetails .uncached id s).1, (ObjStore.fillupSizeDetails .uncached id s).2.1,
      (ObjStore.fillupSizeDetails .uncached id s).2.2.1), (ObjStore.fillupSizeDetails .uncached id s).2.2.2) := by
  unfold fillupSizeDetails ObjStore.fillupSizeDetails
  dsimp only
  split
  · rfl
  split
  · rfl
  rw [bind_eq, run_bind, loadId_run, Option.bind_some]
  dsimp only
  split
  · rfl
  · simp only [bind_eq, pure_eq, run_bind, loadSize_run, countPointers_run, run_ret, Option.bind_some]

end Measuring

end CS330.ObjStore.Atomic

namespace CS330.Objfs
open ObjStore Threads Prog Atomic

/-- A callback that runs alone. -/
theorem callback_run {objfs : Defaults} {call : Call} {s : State} (hcall : call ≠ .remount)
    (hrename : ∀ oldkey newkey, call = .rename oldkey newkey → Numbered s ∧ Tidy s) :
    (callback objfs call).run perform s = exec .uncached objfs call s := by
  cases call with
  | getattr key =>
    simp only [callback, exec, objfsGetattr]
    split
    · rfl
    rw [bind_eq, run_bind, findObjectId_run, Option.bind_some]
    dsimp only
    generalize Bytes.int32 (ObjStore.findObjectId key s) = retval
    split
    · rfl
    rw [bind_eq, run_bind, fillupSizeDetails_run, Option.bind_some]
    generalize ObjStore.fillupSizeDetails .uncached retval s = r
    dsimp only
    split <;> rfl
  | unlink key =>
    simp only [callback, exec, objfsUnlink, bind_eq, pure_eq, run_bind, destroyObject_run, run_ret, Option.bind_some]
  | rename oldkey newkey =>
    obtain ⟨hs, htidy⟩ := hrename oldkey newkey rfl
    simp only [callback, exec, objfsRenameKey, bind_eq, pure_eq, run_bind, renameObject_run hs htidy]
    cases ObjStore.renameObject oldkey newkey s <;> rfl
  | create key =>
    simp only [callback, exec, objfsCreate, bind_eq, pure_eq, run_bind, createObject_run]
    cases ObjStore.createObject key s with
    | none => rfl
    | some r =>
      rw [Option.bind_some, Option.map_some, Option.map_some]
      split <;> rfl
  | opens key =>
    simp only [callback, exec, objfsOpen, bind_eq, pure_eq, run_bind, findObjectId_run, Option.bind_some]
    generalize Bytes.int32 (ObjStore.findObjectId key s) = retval
    split <;> rfl
  | read fh size offset =>
    obtain ⟨⟨v, bytes, t⟩, hr⟩ :
      ∃ r, ObjStore.objstoreRead .uncached (Bytes.int32 fh) (Bytes.int32 size) offset s = r := ⟨_, rfl⟩
    simp only [callback, exec, objfsRead, bind_eq, pure_eq, run_bind, objstoreRead_run, run_ret, Option.bind_some, hr]
  | write fh data offset =>
    obtain ⟨⟨v, t⟩, hr⟩ : ∃ r, ObjStore.objstoreWrite .uncached (Bytes.int32 fh) (bufferOf data)
      (Bytes.int32 data.length) offset s = r := ⟨_, rfl⟩
    simp only [callback, exec, objfsWrite, bind_eq, pure_eq, run_bind, objstoreWrite_run, run_ret, Option.bind_some, hr]
  | release fh => rfl
  | remount => exact absurd rfl hcall

end CS330.Objfs
