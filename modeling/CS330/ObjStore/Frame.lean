import CS330.ObjStore.Ops

/-! Which calls touch the slots.

Block and page traffic leaves the table of objects alone. A write changes the
size and the pointers of its object; reads and measurements change nothing. So
whose slot it is, its `id` and its key, only changes when an object is created,
renamed or destroyed, whatever offsets and sizes the other calls are given. -/
namespace CS330.ObjStore
open Bytes

section Slots
variable {build : Build} {s t u : State}

theorem writeBlock_obj (b : Int) (addr : Nat) (buf : Block) (s : State) :
    (writeBlock b addr buf s).2.obj = s.obj := by
  unfold writeBlock
  dsimp only
  split_ifs <;> rfl

theorem flushCache_obj (c : Nat) (s : State) : (flushCache c s).obj = s.obj := by
  unfold flushCache
  simp only [State.setBitmap_obj, State.emit_obj, State.setCacheBitmap_obj]
  split
  · exact writeBlock_obj ..
  · rfl

theorem getFreeCachePage_obj (s : State) : (getFreeCachePage s).2.obj = s.obj := by
  unfold getFreeCachePage
  simp only [State.emit_obj]
  split
  · simp only [flushCache_obj, State.setLast_obj, State.emit_obj]
  · rfl

theorem newCleanPage_obj (b : Int) (s : State) : (newCleanPage b s).2.obj = s.obj := by
  unfold newCleanPage
  simp only [State.setDirty_obj, State.setBitmap_obj, State.setCacheBitmap_obj, getFreeCachePage_obj]

theorem pageFor_obj (b : Int) (s : State) : (pageFor b s).2.obj = s.obj := by
  unfold pageFor
  split
  · rfl
  · simp only [State.setCacheBitmap_obj, State.setBitmap_obj, getFreeCachePage_obj]

theorem fetch_obj (b : Int) (addr : Nat) (buf : Block) (s : State) :
    (fetch build b addr buf s).2.2.obj = s.obj := by
  have hread : (readCached build b addr buf s).2.2.obj = s.obj := by
    unfold readCached
    cases build with
    | uncached => rfl
    | cached =>
      dsimp only
      split_ifs
      · rfl
      · simp only [State.setPage_obj, newCleanPage_obj, State.emit_obj]
      · rfl
  unfold fetch
  dsimp only
  split <;> exact hread

theorem store_obj (b : Int) (addr : Nat) (buf : Block) (s : State) :
    (store build b addr buf s).2.obj = s.obj := by
  have hwrite : (writeCached build b buf s).2.obj = s.obj := by
    unfold writeCached
    cases build with
    | uncached => rfl
    | cached =>
      dsimp only
      split
      · rfl
      · simp only [State.setDirty_obj, State.setPage_obj, pageFor_obj, State.emit_obj]
  unfold store
  dsimp only
  split
  · exact hwrite
  · rw [writeBlock_obj, hwrite]

theorem scanBitmap_obj (n i : Nat) (s : State) : (scanBitmap n i s).2.obj = s.obj := by
  induction n generalizing i s with
  | zero => rfl
  | succ n ih =>
    rw [scanBitmap]
    split
    · rfl
    · rw [ih]
      rfl

/-- Taking a block, as every caller of `get_new_datablock` does it. -/
theorem newBlock_obj {r : Int × State} (hr : getNewDatablock s = r) :
    (setBlockBitmap r.1 r.2).obj = s.obj := by
  have hget : (getNewDatablock s).2.obj = s.obj := by
    simp only [getNewDatablock, State.emit_obj, scanBitmap_obj]
  rw [hr] at hget
  simp only [setBlockBitmap, State.emit_obj, State.setBitmap_obj, hget]

theorem entryBlock_obj (block : Nat → Int) (i : Nat) (s : State) : (entryBlock block i s).2.obj = s.obj := by
  unfold entryBlock
  obtain ⟨r, hr⟩ : ∃ r, getNewDatablock s = r := ⟨_, rfl⟩
  rw [hr]
  split
  · exact newBlock_obj hr
  · rfl

theorem writeEntries_obj (buf : Buffer) (blockOffset offset size n i : Nat) (block : Nat → Int) (s : State) :
    (writeEntries build buf blockOffset offset size n i block s).2.2.obj = s.obj := by
  induction n generalizing i block s with
  | zero => rfl
  | succ n ih =>
    rw [writeEntries]
    dsimp only
    split_ifs
    · rfl
    · rw [store_obj, entryBlock_obj]
    · rw [ih, store_obj, entryBlock_obj]

theorem indirectBlock_obj (b : Int) (s : State) : (indirectBlock b s).2.obj = s.obj := by
  unfold indirectBlock
  split
  · obtain ⟨r, hr⟩ : ∃ r, getNewDatablock s = r := ⟨_, rfl⟩
    rw [hr]
    dsimp only
    unfold initializeBlock
    rw [writeBlock_obj, newBlock_obj hr]
  · rfl

theorem writeIndirectBlock_obj (b : Int) (blockOffset : Nat) (buf : Buffer) (offset size : Nat) (s : State) :
    (writeIndirectBlock build b blockOffset buf offset size s).2.obj = s.obj := by
  unfold writeIndirectBlock
  dsimp only
  rw [fetch_obj, store_obj, writeEntries_obj, fetch_obj, indirectBlock_obj]

theorem readEntries_obj (block : Nat → Int) (blockOffset offset size n i : Nat) (buf : Buffer) (s : State) :
    (readEntries build block blockOffset offset size n i buf s).2.obj = s.obj := by
  induction n generalizing i buf s with
  | zero => rfl
  | succ n ih =>
    rw [readEntries]
    dsimp only
    split_ifs
    · rfl
    · rfl
    · exact fetch_obj ..
    · rw [ih, fetch_obj]

theorem readIndirectBlock_obj (b : Int) (blockOffset : Nat) (buf : Buffer) (offset size : Nat) (s : State) :
    (readIndirectBlock build b blockOffset buf offset size s).2.obj = s.obj := by
  unfold readIndirectBlock
  split
  · rfl
  · rw [readEntries_obj, fetch_obj]

theorem readPointers_obj (x : Nat) (size : Int) (cap first n i blockOffset : Nat) (buf : Buffer) (s : State) :
    (readPointers build x size cap first n i blockOffset buf s).2.obj = s.obj := by
  induction n generalizing i blockOffset buf s with
  | zero => rfl
  | succ n ih =>
    rw [readPointers]
    split
    · rfl
    · rw [ih, readIndirectBlock_obj]

theorem objstoreRead_obj (id size : Int) (offset : Nat) (s : State) :
    (objstoreRead build id size offset s).2.2.obj = s.obj := by
  have hread : ∀ (x : Nat) (size : Int), (readObject build x size offset s).2.2.obj = s.obj := by
    intro x size
    unfold readObject
    split
    · rfl
    · dsimp only
      split
      · exact readPointers_obj ..
      · exact readPointers_obj ..
  unfold objstoreRead
  dsimp only
  split_ifs
  · rfl
  · rfl
  · rfl
  · exact hread ..

theorem calNumberBlocks_obj (b : Int) (s : State) : (calNumberBlocks build b s).2.obj = s.obj := by
  unfold calNumberBlocks
  split
  · rfl
  · exact fetch_obj ..

theorem countPointers_obj (x n i count : Nat) (s : State) :
    (countPointers build x n i count s).2.obj = s.obj := by
  induction n generalizing i count s with
  | zero => rfl
  | succ n ih =>
    rw [countPointers]
    split
    · rfl
    · rw [ih, calNumberBlocks_obj]

theorem fillupSizeDetails_obj (id : Int) (s : State) :
    (fillupSizeDetails build id s).2.2.2.obj = s.obj := by
  unfold fillupSizeDetails
  dsimp only
  split_ifs
  · rfl
  · rfl
  · rfl
  · exact countPointers_obj ..

/-! ### Writes -/

/-- No slot changed hands. -/
structure SameNames (s t : State) : Prop where
  id : ∀ y, (t.obj y).id = (s.obj y).id
  key : ∀ y, (t.obj y).key = (s.obj y).key

theorem SameNames.of_obj (h : t.obj = s.obj) : SameNames s t := ⟨fun y => by rw [h], fun y => by rw [h]⟩

theorem SameNames.trans (h₁ : SameNames s t) (h₂ : SameNames t u) : SameNames s u :=
  ⟨fun y => (h₂.id y).trans (h₁.id y), fun y => (h₂.key y).trans (h₁.key y)⟩

/-- A slot that keeps its id and its key. -/
theorem setObj_sameNames {x : Nat} {o : Object} (hid : o.id = (s.obj x).id) (hkey : o.key = (s.obj x).key) :
    SameNames s (s.setObj x o) := by
  refine ⟨fun y => ?_, fun y => ?_⟩
  · by_cases hy : y = x
    · rw [State.setObj_obj, hy, Function.update_self, hid]
    · rw [State.setObj_obj, Function.update_of_ne hy]
  · by_cases hy : y = x
    · rw [State.setObj_obj, hy, Function.update_self, hkey]
    · rw [State.setObj_obj, Function.update_of_ne hy]

theorem writePointers_sameNames (x : Nat) (buf : Buffer) (size : Int) (cap first n i blockOffset : Nat)
    (s : State) : SameNames s (writePointers build x buf size cap first n i blockOffset s).2 := by
  induction n generalizing i blockOffset s with
  | zero => exact .of_obj rfl
  | succ n ih =>
    rw [writePointers]
    dsimp only
    split
    · exact .of_obj rfl
    · obtain ⟨r, hr⟩ : ∃ r, writeIndirectBlock build ((s.obj x).dataBlockPointers i) blockOffset buf
        ((i - first) * 4194304) cap s = r := ⟨_, rfl⟩
      have hobj : r.2.obj = s.obj := hr ▸ writeIndirectBlock_obj ..
      have hset : SameNames r.2 (setPointer x i r.1 r.2) := setObj_sameNames rfl rfl
      rw [hr]
      exact (SameNames.of_obj hobj).trans (hset.trans (ih ..))

theorem fillBuffer_obj (x : Nat) (buf : Buffer) (size : Int) (start offset cap : Nat) (s : State) :
    (fillBuffer build x buf size start offset cap s).2.obj = s.obj := by
  have hhelper : ∀ b entry (buf : Buffer) (u : State),
      (readIndirectHelper build b entry buf cap u).2.obj = u.obj := by
    intro b entry buf u
    unfold readIndirectHelper
    dsimp only
    split_ifs
    · exact fetch_obj ..
    · rw [State.emit_obj, fetch_obj, fetch_obj]
    · rw [fetch_obj, fetch_obj]
  have hold : (oldBytes build x start offset cap s).2.obj = s.obj := by
    unfold oldBytes
    split_ifs
    · rfl
    · exact hhelper ..
    · rfl
  unfold fillBuffer
  dsimp only
  split
  · exact hold
  · exact hold

theorem objstoreWrite_sameNames (id : Int) (buf : Buffer) (size : Int) (offset : Nat) (s : State) :
    SameNames s (objstoreWrite build id buf size offset s).2 := by
  unfold objstoreWrite writeObject
  dsimp only
  split_ifs
  · exact .of_obj rfl
  · exact .of_obj rfl
  · exact .of_obj rfl
  · split
    · exact .of_obj rfl
    · have hfinish : ∀ (x i : Nat) (n : Int) (u : State), SameNames u (finishWrite x i n u) :=
        fun _ _ _ _ => setObj_sameNames rfl rfl
      refine SameNames.trans ?_ (hfinish ..)
      refine SameNames.trans ?_ (writePointers_sameNames ..)
      exact .of_obj (fillBuffer_obj ..)

end Slots

end CS330.ObjStore
