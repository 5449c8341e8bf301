import CS330.ObjStore.Exec
import CS330.ObjStore.Frame

/-! What a call does not look at.

No call looks at the log it adds to, and reading and writing blocks does not look at the
slots. So a call does the same on a state with another history, and a read does the same
on an object in another slot. -/
namespace CS330.ObjStore
open Bytes

/-- The state with the slots `o`, and with the history `l` before its own. -/
@[simps -fullyApplied]
def State.beside (o : Nat → Object) (l : List Event) (s : State) : State :=
  {s with obj := o, log := s.log ++ l}

section Blocks
variable {build : Build} (o : Nat → Object) (l : List Event) (s : State)

theorem emit_beside (e : Event) : (s.beside o l).emit e = (s.emit e).beside o l := (rfl)

theorem writeBlock_beside (b : Int) (addr : Nat) (buf : Block) : writeBlock b addr buf (s.beside o l) =
    ((writeBlock b addr buf s).1, (writeBlock b addr buf s).2.beside o l) := by
  unfold writeBlock
  dsimp only
  split_ifs <;> rfl

theorem readBlock_beside (b : Int) (addr : Nat) (buf : Block) :
    readBlock (s.beside o l) b addr buf = readBlock s b addr buf := (rfl)

theorem flushCache_beside (c : Nat) : flushCache c (s.beside o l) = (flushCache c s).beside o l := by
  unfold flushCache
  simp only [State.beside_dirtyFlag, State.beside_cacheBitmap, State.beside_cache, writeBlock_beside]
  generalize (writeBlock (s.cacheBitmap c) (c <<< 12) (s.cache c) s).2 = u
  split_ifs <;> rfl

theorem getFreeCachePage_beside : getFreeCachePage (s.beside o l) =
    ((getFreeCachePage s).1, (getFreeCachePage s).2.beside o l) := by
  unfold getFreeCachePage
  dsimp only
  rw [emit_beside, State.beside_lastCacheIndex, emit_beside,
    show ∀ c t, State.setLast c (State.beside o l t) = State.beside o l (t.setLast c) from fun _ _ => rfl,
    State.beside_cacheBitmap, flushCache_beside]
  split_ifs <;> rfl

theorem newCleanPage_beside (b : Int) : newCleanPage b (s.beside o l) =
    ((newCleanPage b s).1, (newCleanPage b s).2.beside o l) := by
  unfold newCleanPage
  rw [getFreeCachePage_beside]
  rfl

theorem pageFor_beside (b : Int) : pageFor b (s.beside o l) = ((pageFor b s).1, (pageFor b s).2.beside o l) := by
  unfold pageFor
  rw [getFreeCachePage_beside, State.beside_blockBitmap]
  split_ifs <;> rfl

theorem readCached_beside (b : Int) (addr : Nat) (buf : Block) : readCached build b addr buf (s.beside o l) =
    ((readCached build b addr buf s).1, (readCached build b addr buf s).2.1,
      (readCached build b addr buf s).2.2.beside o l) := by
  cases build with
  | uncached => rfl
  | cached =>
    unfold readCached
    dsimp only
    rw [emit_beside, newCleanPage_beside, State.beside_blockBitmap, State.beside_cache]
    generalize newCleanPage b (s.emit (.bitmap b)) = page
    rw [readBlock_beside]
    split_ifs <;> rfl

theorem writeCached_beside (b : Int) (buf : Block) : writeCached build b buf (s.beside o l) =
    ((writeCached build b buf s).1, (writeCached build b buf s).2.beside o l) := by
  cases build with
  | uncached => rfl
  | cached =>
    unfold writeCached
    dsimp only
    rw [emit_beside, pageFor_beside, State.beside_blockBitmap]
    split_ifs <;> rfl

theorem fetch_beside (b : Int) (addr : Nat) (buf : Block) : fetch build b addr buf (s.beside o l) =
    ((fetch build b addr buf s).1, (fetch build b addr buf s).2.1, (fetch build b addr buf s).2.2.beside o l) := by
  unfold fetch
  rw [readCached_beside]
  generalize readCached build b addr buf s = r
  dsimp only
  rw [readBlock_beside]
  split_ifs <;> rfl

theorem store_beside (b : Int) (addr : Nat) (buf : Block) : store build b addr buf (s.beside o l) =
    ((store build b addr buf s).1, (store build b addr buf s).2.beside o l) := by
  unfold store
  rw [writeCached_beside]
  dsimp only
  rw [writeBlock_beside]
  split_ifs <;> rfl

theorem scanBitmap_beside (n i : Nat) : scanBitmap n i (s.beside o l) =
    ((scanBitmap n i s).1, (scanBitmap n i s).2.beside o l) := by
  induction n generalizing i s with
  | zero => rfl
  | succ n ih =>
    unfold scanBitmap
    dsimp only
    rw [emit_beside, ih, State.beside_blockBitmap]
    split_ifs <;> rfl

theorem getNewDatablock_beside : getNewDatablock (s.beside o l) =
    ((getNewDatablock s).1, (getNewDatablock s).2.beside o l) := by
  have hend : ∀ r : Int × State, endScan (r.1, r.2.beside o l) = ((endScan r).1, (endScan r).2.beside o l) :=
    fun _ => rfl
  rw [getNewDatablock_eq, getNewDatablock_eq, emit_beside, State.beside_totalNumDiskBlocks, scanBitmap_beside, hend]

theorem setBlockBitmap_beside (b : Int) : setBlockBitmap b (s.beside o l) = (setBlockBitmap b s).beside o l := (rfl)

/-! ### Reading -/

theorem readEntries_beside (block : Nat → Int) (blockOffset offset size n i : Nat) (buf : Buffer) :
    readEntries build block blockOffset offset size n i buf (s.beside o l) =
      ((readEntries build block blockOffset offset size n i buf s).1,
        (readEntries build block blockOffset offset size n i buf s).2.beside o l) := by
  induction n generalizing i buf s with
  | zero => rfl
  | succ n ih =>
    unfold readEntries
    dsimp only
    rw [fetch_beside]
    dsimp only
    rw [ih]
    split_ifs <;> rfl

theorem readIndirectBlock_beside (b : Int) (blockOffset : Nat) (buf : Buffer) (offset size : Nat) :
    readIndirectBlock build b blockOffset buf offset size (s.beside o l) =
      ((readIndirectBlock build b blockOffset buf offset size s).1,
        (readIndirectBlock build b blockOffset buf offset size s).2.beside o l) := by
  unfold readIndirectBlock
  simp only [fetch_beside, readEntries_beside]
  split_ifs <;> rfl

theorem calNumberBlocks_beside (b : Int) : calNumberBlocks build b (s.beside o l) =
    ((calNumberBlocks build b s).1, (calNumberBlocks build b s).2.beside o l) := by
  unfold calNumberBlocks
  by_cases h : b < 0
  · simp only [if_pos h]
  · simp only [if_neg h, fetch_beside]

/-! ### Writing -/

theorem entryBlock_beside (block : Nat → Int) (i : Nat) : entryBlock block i (s.beside o l) =
    ((entryBlock block i s).1, (entryBlock block i s).2.beside o l) := by
  obtain ⟨r, hr⟩ : ∃ r, getNewDatablock s = r := ⟨_, rfl⟩
  have hnew := getNewDatablock_beside o l s
  rw [hr] at hnew
  by_cases h : block i = -1
  · simp only [entryBlock, if_pos h, hnew, hr, setBlockBitmap_beside]
  · simp only [entryBlock, if_neg h]

theorem writeEntries_beside (buf : Buffer) (blockOffset offset size n i : Nat) (block : Nat → Int) :
    writeEntries build buf blockOffset offset size n i block (s.beside o l) =
      ((writeEntries build buf blockOffset offset size n i block s).1,
        (writeEntries build buf blockOffset offset size n i block s).2.1,
        (writeEntries build buf blockOffset offset size n i block s).2.2.beside o l) := by
  induction n generalizing i block s with
  | zero => rfl
  | succ n ih =>
    unfold writeEntries
    dsimp only
    rw [entryBlock_beside]
    dsimp only
    rw [store_beside]
    dsimp only
    rw [ih]
    split_ifs <;> rfl

theorem initializeBlock_beside (b : Int) : initializeBlock b (s.beside o l) = (initializeBlock b s).beside o l :=
  congrArg Prod.snd (writeBlock_beside o l s b 0 _)

theorem indirectBlock_beside (b : Int) : indirectBlock b (s.beside o l) =
    ((indirectBlock b s).1, (indirectBlock b s).2.beside o l) := by
  obtain ⟨r, hr⟩ : ∃ r, getNewDatablock s = r := ⟨_, rfl⟩
  have hnew := getNewDatablock_beside o l s
  rw [hr] at hnew
  by_cases h : b < 0
  · simp only [indirectBlock, if_pos h, hnew, hr, setBlockBitmap_beside, initializeBlock_beside]
  · simp only [indirectBlock, if_neg h]

theorem writeIndirectBlock_beside (b : Int) (blockOffset : Nat) (buf : Buffer) (offset size : Nat) :
    writeIndirectBlock build b blockOffset buf offset size (s.beside o l) =
      ((writeIndirectBlock build b blockOffset buf offset size s).1,
        (writeIndirectBlock build b blockOffset buf offset size s).2.beside o l) := by
  unfold writeIndirectBlock
  simp only [indirectBlock_beside, fetch_beside, writeEntries_beside, store_beside]

theorem readIndirectHelper_beside (b : Int) (blockOffset : Nat) (buf : Buffer) (cap : Nat) :
    readIndirectHelper build b blockOffset buf cap (s.beside o l) =
      ((readIndirectHelper build b blockOffset buf cap s).1,
        (readIndirectHelper build b blockOffset buf cap s).2.beside o l) := by
  unfold readIndirectHelper
  simp only [fetch_beside, emit_beside]
  split_ifs <;> rfl

end Blocks

/-! ### Objects -/

section Objects
variable {build : Build} {x y : Nat} {o : Nat → Object} (l : List Event) {s : State}

/-- An object in slot `y` of `o` with the pointers that the one in slot `x` has. -/
theorem readPointers_beside (size : Int) (cap first n i blockOffset : Nat) (buf : Buffer)
    (hptr : (o y).dataBlockPointers = (s.obj x).dataBlockPointers) :
    readPointers build y size cap first n i blockOffset buf (s.beside o l) =
      ((readPointers build x size cap first n i blockOffset buf s).1,
        (readPointers build x size cap first n i blockOffset buf s).2.beside o l) := by
  induction n generalizing i blockOffset buf s with
  | zero => rfl
  | succ n ih =>
    unfold readPointers
    simp only [State.beside_obj, hptr, readIndirectBlock_beside]
    split_ifs
    · rfl
    · exact ih _ _ _ (by rw [readIndirectBlock_obj]; exact hptr)

theorem countPointers_beside (n i count : Nat) (hptr : (o y).dataBlockPointers = (s.obj x).dataBlockPointers) :
    countPointers build y n i count (s.beside o l) =
      ((countPointers build x n i count s).1, (countPointers build x n i count s).2.beside o l) := by
  induction n generalizing i count s with
  | zero => rfl
  | succ n ih =>
    unfold countPointers
    simp only [State.beside_obj, hptr, calNumberBlocks_beside]
    split_ifs
    · rfl
    · exact ih _ _ (by rw [calNumberBlocks_obj]; exact hptr)

theorem readObject_beside (size : Int) (offset : Nat)
    (hptr : (o y).dataBlockPointers = (s.obj x).dataBlockPointers) :
    readObject build y size offset (s.beside o l) =
      ((readObject build x size offset s).1, (readObject build x size offset s).2.1,
        (readObject build x size offset s).2.2.beside o l) := by
  unfold readObject
  split
  · rfl
  · simp only [readPointers_beside l size _ _ _ _ _ _ hptr, emit_beside]
    split_ifs <;> rfl

/-- The object in slot `y` of `o` is the one in slot `x`. -/
structure SameObject (o : Nat → Object) (y : Nat) (s : State) (x : Nat) : Prop where
  here : x < 1000000 ∧ LiveSlot s x
  there : y < 1000000 ∧ (o y).id ≠ 0
  size : (o y).size = (s.obj x).size
  pointers : (o y).dataBlockPointers = (s.obj x).dataBlockPointers

/-- A slot that can hold an object passes the checks of the calls. -/
theorem indexToID_inside {z : Nat} (hz : z < 1000000) :
    ¬ indexToID z < 2 ∧ ¬ 1000000 ≤ idToIndex (indexToID z) := by
  rw [idToIndex_indexToID]
  exact ⟨not_lt.mpr (two_le_indexToID z), by omega⟩

theorem SameObject.objstoreRead (h : SameObject o y s x) (size : Int) (offset : Nat) :
    objstoreRead build (indexToID y) size offset (s.beside o l) =
      ((objstoreRead build (indexToID x) size offset s).1, (objstoreRead build (indexToID x) size offset s).2.1,
        (objstoreRead build (indexToID x) size offset s).2.2.beside o l) := by
  obtain ⟨⟨hx, hlive⟩, ⟨hy, hlive'⟩, hsize, hptr⟩ := h
  unfold ObjStore.objstoreRead
  rw [if_neg (indexToID_inside hy).1, if_neg (indexToID_inside hy).2, if_neg (indexToID_inside hx).1,
    if_neg (indexToID_inside hx).2]
  simp only [idToIndex_indexToID, State.beside_obj, if_neg hlive', if_neg hlive]
  rw [readObject_beside l _ _ hptr, clipRead, clipRead, hsize]

theorem SameObject.fillupSizeDetails (h : SameObject o y s x) :
    fillupSizeDetails build (indexToID y) (s.beside o l) =
      ((fillupSizeDetails build (indexToID x) s).1, (fillupSizeDetails build (indexToID x) s).2.1,
        (fillupSizeDetails build (indexToID x) s).2.2.1, (fillupSizeDetails build (indexToID x) s).2.2.2.beside o l) := by
  obtain ⟨⟨hx, hlive⟩, ⟨hy, hlive'⟩, hsize, hptr⟩ := h
  unfold ObjStore.fillupSizeDetails
  rw [if_neg (indexToID_inside hy).1, if_neg (indexToID_inside hy).2, if_neg (indexToID_inside hx).1,
    if_neg (indexToID_inside hx).2]
  simp only [idToIndex_indexToID, State.beside_obj, if_neg hlive', if_neg hlive, hsize,
    countPointers_beside l 4 0 0 hptr]

/-! ### Calls -/

/-- A history that took no mutex for good does not matter to the mutexes. -/
theorem held_append {l : List Event} (hl : held l = some []) (new : List Event) : held (new ++ l) = held new := by
  induction new with
  | nil => rw [List.nil_append, hl, held]
  | cons e new ih =>
    rw [List.cons_append]
    cases e <;> simp only [held, ih]

/-- Which states come back does not depend on what came back before. -/
theorem returned_beside {l : List Event} (hl : held l = some []) (hf : Event.fault ∉ l) :
    Returned (s.beside o l) ↔ Returned s := by
  rw [Returned, Returned, State.beside_log, held_append hl, List.mem_append, or_iff_left hf]

theorem step_beside {op op' : Op} {l : List Event} (hl : held l = some []) (hf : Event.fault ∉ l)
    (h : exec build op' (s.beside o l) = (exec build op s).map fun q => (q.1, q.2.beside o l)) :
    step build op' (s.beside o l) = (step build op s).map fun q => (q.1, q.2.beside o l) := by
  unfold step
  rw [h]
  cases hexec : exec build op s with
  | none => rfl
  | some q =>
    rw [Option.map_some, Option.filter_some, Option.filter_some]
    by_cases hq : Returned q.2
    · have hq' : Returned (q.2.beside o l) := (returned_beside hl hf).mpr hq
      simp [hq, hq']
    · have hq' : ¬ Returned (q.2.beside o l) := fun h => hq ((returned_beside hl hf).mp h)
      simp [hq, hq']

theorem SameObject.step_read (h : SameObject o y s x) {l : List Event} (hl : held l = some [])
    (hf : Event.fault ∉ l) (size : Int) (offset : Nat) :
    step build (.read (indexToID y) size offset) (s.beside o l) =
      (step build (.read (indexToID x) size offset) s).map fun q => (q.1, q.2.beside o l) := by
  refine step_beside hl hf ?_
  simp only [exec, h.objstoreRead l size offset, Option.map_some]

theorem SameObject.step_stat (h : SameObject o y s x) {l : List Event} (hl : held l = some [])
    (hf : Event.fault ∉ l) :
    step build (.stat (indexToID y)) (s.beside o l) =
      (step build (.stat (indexToID x)) s).map fun q => (q.1, q.2.beside o l) := by
  refine step_beside hl hf ?_
  simp only [exec, h.fillupSizeDetails l, Option.map_some]

end Objects

/-! ### The same answers -/

/-- Reads and measurements through `id'` answer in `t` as those through `id` do in `s`, or
neither comes back. -/
def AnswersAs (build : Build) (id : Int) (s : State) (id' : Int) (t : State) : Prop :=
  (∀ size offset, (step build (.read id' size offset) t).map Prod.fst =
    (step build (.read id size offset) s).map Prod.fst) ∧
  (step build (.stat id') t).map Prod.fst = (step build (.stat id) s).map Prod.fst

theorem SameObject.answersAs {build : Build} {x y : Nat} {s t : State} (h : SameObject t.obj y s x)
    (ht : t = {s with obj := t.obj, log := t.log}) (hs : Calling s) (hcall : Calling t) :
    AnswersAs build (indexToID x) s (indexToID y) t := by
  obtain ⟨s₀, hs₀⟩ : ∃ s₀ : State, s₀ = {s with log := []} := ⟨_, rfl⟩
  have hs' : s = s₀.beside s.obj s.log := by rw [hs₀]; rfl
  have ht' : t = s₀.beside t.obj t.log := by rw [hs₀]; exact ht
  have hhere : SameObject s.obj x s₀ x := by
    rw [hs₀]
    exact ⟨h.here, h.here, rfl, rfl⟩
  have hthere : SameObject t.obj y s₀ x := by
    rw [hs₀]
    exact ⟨h.here, h.there, h.size, h.pointers⟩
  refine ⟨fun size offset => ?_, ?_⟩
  · rw [ht', hs', hthere.step_read hcall.free hcall.noFault, hhere.step_read hs.free hs.noFault, Option.map_map,
      Option.map_map]
    rfl
  · rw [ht', hs', hthere.step_stat hcall.free hcall.noFault, hhere.step_stat hs.free hs.noFault, Option.map_map,
      Option.map_map]
    rfl

/-! ### Another history -/

/-- The state with the history `l` before its own. -/
def State.after (l : List Event) (s : State) : State := s.beside s.obj l

section After
variable {build : Build} (l : List Event) (s : State)

/-- What does not change the slots leaves them beside as well. -/
theorem beside_obj_eq {t : State} (h : t.obj = s.obj) : t.beside s.obj l = t.after l := by
  rw [State.after, h]

theorem writePointers_after (x : Nat) (buf : Buffer) (size : Int) (cap first n i blockOffset : Nat) :
    writePointers build x buf size cap first n i blockOffset (s.after l) =
      ((writePointers build x buf size cap first n i blockOffset s).1,
        (writePointers build x buf size cap first n i blockOffset s).2.after l) := by
  induction n generalizing i blockOffset s with
  | zero => rfl
  | succ n ih =>
    have hstep : ∀ j p u, setPointer x j p (State.after l u) = State.after l (setPointer x j p u) := fun _ _ _ => (rfl)
    unfold writePointers
    simp only [State.after, State.beside_obj, writeIndirectBlock_beside]
    rw [beside_obj_eq l s (writeIndirectBlock_obj ..), hstep, ih]
    split_ifs <;> rfl

theorem fillBuffer_after (x : Nat) (buf : Buffer) (size : Int) (start offset cap : Nat) :
    fillBuffer build x buf size start offset cap (s.after l) =
      ((fillBuffer build x buf size start offset cap s).1,
        (fillBuffer build x buf size start offset cap s).2.after l) := by
  have hold : oldBytes build x start offset cap (s.after l) =
      ((oldBytes build x start offset cap s).1, (oldBytes build x start offset cap s).2.beside s.obj l) := by
    unfold oldBytes
    simp only [State.after, State.beside_obj, readIndirectHelper_beside, emit_beside]
    split_ifs <;> rfl
  have hobj := @fillBuffer_obj build x buf size start offset cap s
  rw [← beside_obj_eq l s hobj]
  unfold fillBuffer
  simp only [hold, emit_beside]
  split_ifs <;> rfl

theorem writeObject_after (x : Nat) (buf : Buffer) (size : Int) (offset : Nat) :
    writeObject build x buf size offset (s.after l) =
      ((writeObject build x buf size offset s).1, (writeObject build x buf size offset s).2.after l) := by
  unfold writeObject
  split
  · rfl
  · simp only [fillBuffer_after, writePointers_after]
    rfl

theorem objstoreWrite_after (id : Int) (buf : Buffer) (size : Int) (offset : Nat) :
    objstoreWrite build id buf size offset (s.after l) =
      ((objstoreWrite build id buf size offset s).1, (objstoreWrite build id buf size offset s).2.after l) := by
  unfold objstoreWrite
  simp only [writeObject_after]
  rw [show (s.after l).obj = s.obj from rfl]
  split_ifs <;> rfl

theorem Owned.forget {owner : Owner} {s : State} (h : Owned owner s) : Owned owner {s with log := []} :=
  ⟨h.used, h.ptr, h.table, h.disk, h.slot⟩

theorem BlockInv.forget {s : State} (h : BlockInv build s) : BlockInv build {s with log := []} :=
  ⟨h.total, h.fits, h.range, h.page, h.pageLt, h.uncached⟩

/-- A write that comes back does so from a state without a history as well, and adds the same
events. -/
theorem step_write_forget {id : Int} {data : List UInt8} {offset : Nat} {r : Ret} {t : State} (hs : Calling s)
    (h : step build (.write id data offset) s = some (r, t)) :
    ∃ t₀, step build (.write id data offset) {s with log := []} = some (r, t₀) ∧ t = t₀.after s.log := by
  obtain ⟨hexec, hret⟩ := step_some.mp h
  have hafter := @objstoreWrite_after build s.log {s with log := []} id (bufferOf data)
    (Bytes.int32 data.length) offset
  rw [show State.after s.log {s with log := []} = s from rfl] at hafter
  rw [exec, hafter] at hexec
  obtain ⟨rfl, rfl⟩ := Prod.mk.inj (Option.some.inj hexec)
  exact ⟨_, step_some.mpr ⟨rfl, (returned_beside hs.free hs.noFault).mp hret⟩, rfl⟩

end After

end CS330.ObjStore
