import CS330.Lib.Threads
import CS330.ObjStore.Objfs

/-! The store's calls as programs of atomic actions, for threads that make them at once.

This is the program compiled without `-DCACHE`. An action is one access to a field of `*sobject`,
one `pread` or `pwrite`, or a call on a mutex, in the order in which the source makes them;
accesses take effect one after the other. `value` is what an action returns, `effect` what it
does to the memory. The loops that load a slot or a bitmap entry to take it if it is free have
actions of their own, `probeId` and `probeBitmap`: loads like the others. The entries behind the
end of a key or a pointer array mean nothing; filling a slot resets them. -/
namespace CS330.ObjStore
open Bytes Threads

inductive Act where
  | lock (m : Mutex)
  | unlock (m : Mutex)
  | loadId (x : Nat)
  /-- The load in the `while` condition of `create_object` for `key`. -/
  | probeId (x : Nat) (key : Key)
  | storeId (x : Nat) (v : Int)
  | loadSize (x : Nat)
  | storeSize (x : Nat) (v : Int)
  /-- Byte `n` from `obj[x].key` on. -/
  | loadKey (x n : Nat)
  | storeKey (x n : Nat) (c : UInt8)
  | loadPointer (x j : Nat)
  | storePointer (x j : Nat) (p : Int)
  /-- The store of -1 in `create_object`. -/
  | resetPointer (x j : Nat)
  | loadTotal
  | loadBitmap (b : Int)
  /-- The load in the scan of `get_new_datablock`. -/
  | probeBitmap (b : Int)
  | storeBitmap (b : Int) (v : Nat)
  | storeCacheBitmap (c : Nat) (b : Int)
  | storeDirty (c : Nat) (d : Bool)
  | readBlock (b : Int) (addr : Nat) (buf : Block)
  | writeBlock (b : Int) (addr : Nat) (buf : Block)
  /-- Not in the source: an entry of the log. -/
  | note (e : Event)
  /-- A loop that never ends. -/
  | spin

def Act.Res : Act → Type
  | .loadId _ | .probeId _ _ | .loadSize _ | .loadPointer _ _ | .writeBlock _ _ _ => Int
  | .loadKey _ _ => UInt8
  | .loadTotal | .loadBitmap _ | .probeBitmap _ => Nat
  | .readBlock _ _ _ => Int × Block
  | .spin => Empty
  | _ => Unit

abbrev signature : Signature := ⟨Act, Act.Res⟩

abbrev Code := Prog signature

/-- What an action returns; `spin` never does. -/
def value : (a : Act) → State → Option a.Res
  | .loadId x, s | .probeId x _, s => some (s.obj x).id
  | .loadSize x, s => some (s.obj x).size
  | .loadKey x n, s => some (keyMemory s.obj x n)
  | .loadPointer x j, s => some ((s.obj x).dataBlockPointers j)
  | .loadTotal, s => some s.totalNumDiskBlocks
  | .loadBitmap b, s | .probeBitmap b, s => some (s.blockBitmap b)
  | .readBlock b addr buf, s => some (readBlock s b addr buf)
  | .writeBlock b addr buf, s => some (writeBlock b addr buf s).1
  | .spin, _ => none
  | .lock _, _ | .unlock _, _ | .storeId _ _, _ | .storeSize _ _, _ | .storeKey _ _ _, _ | .storePointer _ _ _, _
  | .resetPointer _ _, _ | .storeBitmap _ _, _ | .storeCacheBitmap _ _, _ | .storeDirty _ _, _ | .note _, _ => some ()

/-- The memory after an action. -/
def effect : Act → State → State
  | .lock m, s => s.emit (.lock m)
  | .unlock m, s => s.emit (.unlock m)
  | .storeId x v, s => s.setObj x {s.obj x with id := v}
  | .storeSize x v, s => s.setObj x {s.obj x with size := v}
  | .storeKey x n c, s => s.setObj x {s.obj x with
      key := fun m => if m = n then c else if m < 32 then (s.obj x).key m else 0}
  | .storePointer x j p, s => setPointer x j p s
  | .resetPointer x j, s => s.setObj x {s.obj x with
      dataBlockPointers := fun k => if k = j ∨ 4 ≤ k then -1 else (s.obj x).dataBlockPointers k}
  | .loadBitmap b, s | .probeBitmap b, s => s.emit (.bitmap b)
  | .storeBitmap b v, s => s.setBitmap b v
  | .storeCacheBitmap c b, s => s.setCacheBitmap c b
  | .storeDirty c d, s => s.setDirty c d
  | .writeBlock b addr buf, s => (writeBlock b addr buf s).2
  | .note e, s => s.emit e
  | _, s => s

/-- What an action does when nobody is in its way. -/
def perform : Sem signature State := fun a s => (value a s).map fun v => (v, effect a s)

theorem perform_eq_some {a : Act} {b : a.Res} {s t : State} :
    perform a s = some (b, t) ↔ value a s = some b ∧ t = effect a s := by
  unfold perform
  rw [Option.map_eq_some_iff]
  constructor
  · rintro ⟨v, hv, h⟩
    cases h
    exact ⟨hv, rfl⟩
  · rintro ⟨hv, rfl⟩
    exact ⟨b, hv, rfl⟩

namespace Atomic

def lock (m : Mutex) : Code Unit := .act (.lock m) .ret

def unlock (m : Mutex) : Code Unit := .act (.unlock m) .ret

def loadId (x : Nat) : Code Int := .act (.loadId x) .ret

def probeId (x : Nat) (key : Key) : Code Int := .act (.probeId x key) .ret

def storeId (x : Nat) (v : Int) : Code Unit := .act (.storeId x v) .ret

def loadSize (x : Nat) : Code Int := .act (.loadSize x) .ret

def storeSize (x : Nat) (v : Int) : Code Unit := .act (.storeSize x v) .ret

def loadKey (x n : Nat) : Code UInt8 := .act (.loadKey x n) .ret

def storeKey (x n : Nat) (c : UInt8) : Code Unit := .act (.storeKey x n c) .ret

def loadPointer (x j : Nat) : Code Int := .act (.loadPointer x j) .ret

def storePointer (x j : Nat) (p : Int) : Code Unit := .act (.storePointer x j p) .ret

def resetPointer (x j : Nat) : Code Unit := .act (.resetPointer x j) .ret

def loadTotal : Code Nat := .act .loadTotal .ret

def loadBitmap (b : Int) : Code Nat := .act (.loadBitmap b) .ret

def probeBitmap (b : Int) : Code Nat := .act (.probeBitmap b) .ret

def storeBitmap (b : Int) (v : Nat) : Code Unit := .act (.storeBitmap b v) .ret

def storeCacheBitmap (c : Nat) (b : Int) : Code Unit := .act (.storeCacheBitmap c b) .ret

def storeDirty (c : Nat) (d : Bool) : Code Unit := .act (.storeDirty c d) .ret

def readBlock (b : Int) (addr : Nat) (buf : Block) : Code (Int × Block) := .act (.readBlock b addr buf) .ret

def writeBlock (b : Int) (addr : Nat) (buf : Block) : Code Int := .act (.writeBlock b addr buf) .ret

def note (e : Event) : Code Unit := .act (.note e) .ret

def spin {α : Type} : Code α := .act .spin Empty.elim

/-! ### The directory -/

/-- `!strcmp(obj[x].key, key)`, from position `n` of both on. -/
def strcmp (x : Nat) : Nat → List UInt8 → Code Bool
  | n, [] => do return (← loadKey x n) == 0
  | n, c :: rest => do
    if (← loadKey x n) == c then strcmp x (n + 1) rest else return false

/-- `obj->id && !strcmp(obj->key, key)` -/
def slotHolds (key : Key) (x : Nat) : Code Bool := do
  if (← loadId x) = 0 then return false else strcmp x 0 key.bytes

def findLoop (key : Key) (previousIndex : Nat) : Nat → Nat → Code Int
  | 0, _ => return -1
  | n + 1, index =>
    if previousIndex = index then return -1
    else do
      if ← slotHolds key index then loadId index
      else findLoop key previousIndex n ((index + 1) % 1000000)

def findObjectId (key : Key) : Code Int := do
  let index := hash key
  if ← slotHolds key index then loadId index
  else findLoop key index 1000000 ((index + 1) % 1000000)

/-- The `while` loop of `create_object`: the free slot, or none when it meets the key. -/
def createProbe (key : Key) : Nat → Nat → Code (Option Nat)
  | 0, _ => spin
  | n + 1, index => do
    if (← probeId index key) = 0 then return some index
    else if ← strcmp index 0 key.bytes then return none
    else createProbe key n ((index + 1) % 1000000)

/-- `strncpy(obj[x].key, key, 32)`, `m` bytes from `n` on. -/
def strncpy (x : Nat) (key : Key) : Nat → Nat → Code Unit
  | 0, _ => return
  | m + 1, n => do
    storeKey x n (key.bytes.getD n 0)
    strncpy x key m (n + 1)

/-- `create_object`'s loop over the pointers, `m` of them from `j` on. -/
def resetPointers (x : Nat) : Nat → Nat → Code Unit
  | 0, _ => return
  | m + 1, j => do
    resetPointer x j
    resetPointers x m (j + 1)

/-- What `create_object` does after its loop. -/
def fillSlot (key : Key) : Option Nat → Code Int
  | none => do
    unlock .createObjectLock
    return -1
  | some x => do
    storeId x (indexToID x)
    storeSize x 0
    strncpy x key 32 0
    resetPointers x 4 0
    unlock .createObjectLock
    loadId x

def createObject (key : Key) : Code Int := do
  lock .createObjectLock
  fillSlot key (← createProbe key 1000000 (hash key))

/-- The loop of `rename_object` over the pointers, `m` of them from `j` on. -/
def copyPointers (x z : Nat) : Nat → Nat → Code Unit
  | 0, _ => return
  | m + 1, j => do
    storePointer x j (← loadPointer z j)
    copyPointers x z m (j + 1)

def renameObject (key newname : Key) : Code Int :=
  if 32 < newname.bytes.length then return -1
  else do
    let oldId ← findObjectId key
    if oldId = -1 then return -1
    else
      let newId ← createObject newname
      if newId = -1 then return -1
      else
        storeSize (idToIndex newId) (← loadSize (idToIndex oldId))
        copyPointers (idToIndex newId) (idToIndex oldId) 4 0
        lock .createObjectLock
        storeId (idToIndex oldId) 0
        unlock .createObjectLock
        return newId

/-! ### Blocks -/

def setBlockBitmap (blockNum : Int) : Code Unit := do
  lock .blockBitmapMutex
  storeBitmap blockNum 1
  unlock .blockBitmapMutex

def clearBlockBitmap (blockNum : Int) : Code Unit := do
  lock .blockBitmapMutex
  storeBitmap blockNum 0
  unlock .blockBitmapMutex

def scanBitmap : Nat → Nat → Code Int
  | 0, _ => return -1
  | n + 1, i => do
    if (← probeBitmap i) = 0 then
      storeBitmap i 1
      return i
    else scanBitmap n (i + 1)

def getNewDatablock : Code Int := do
  lock .blockBitmapMutex
  let total ← loadTotal
  let b ← scanBitmap (total - dataBlocksStart) dataBlocksStart
  unlock .blockBitmapMutex
  note (.newDatablock b)
  return b

def initializeBlock (blockNum : Int) : Code Unit := do
  let _ ← writeBlock blockNum 0 (ofInts fun _ => -1)
  return

def dropPage (cacheIndex : Nat) : Code Unit :=
  if 1 < cacheIndex then do
    lock .cacheBitmapMutex
    storeCacheBitmap cacheIndex 0
    storeDirty cacheIndex false
    unlock .cacheBitmapMutex
  else return

def freeEntries (tmp : Nat → Int) : Nat → Nat → Code Unit
  | 0, _ => return
  | n + 1, i =>
    if tmp i = -1 then return
    else do
      dropPage (← loadBitmap (tmp i))
      clearBlockBitmap (tmp i)
      freeEntries tmp n (i + 1)

def freeDataBlock (dataBlockPointer : Int) : Code Unit := do
  let r ← readBlock dataBlockPointer 0 zeroBlock
  freeEntries (ints r.2) 1024 0
  clearBlockBitmap dataBlockPointer

def freePointers (x : Nat) : Nat → Nat → Code Unit
  | 0, _ => return
  | n + 1, i => do
    if (← loadPointer x i) = -1 then return
    else
      freeDataBlock (← loadPointer x i)
      freePointers x n (i + 1)

def destroyObject (key : Key) : Code Int := do
  let id ← findObjectId key
  if id = -1 then return -1
  else if (← loadId (idToIndex id)) = 0 then return -1
  else
    freePointers (idToIndex id) 4 0
    storeId (idToIndex id) 0
    return 0

/-! ### Reading -/

def readEntries (block : Nat → Int) (blockOffset offset size : Nat) : Nat → Nat → Buffer → Code Buffer
  | 0, _, buf => return buf
  | n + 1, i, buf =>
    let pos := offset + (i - blockOffset) * 4096
    if size ≤ pos then return buf
    else if block i = -1 then return buf
    else do
      let r ← readBlock (block i) pos (buf.page pos)
      if r.1 < 0 then return buf
      else readEntries block blockOffset offset size n (i + 1) (buf.putPage pos r.2)

def readIndirectBlock (blockNum : Int) (blockOffset : Nat) (buf : Buffer) (offset size : Nat) : Code Buffer :=
  if blockNum < 0 then return buf
  else do
    let r ← readBlock blockNum 0 zeroBlock
    readEntries (ints r.2) blockOffset offset size (1024 - blockOffset) blockOffset buf

def readPointers (x : Nat) (size : Int) (cap first : Nat) : Nat → Nat → Nat → Buffer → Code Buffer
  | 0, _, _, buf => return buf
  | n + 1, i, blockOffset, buf =>
    let myOffset := (i - first) * 4194304
    if size ≤ myOffset then return buf
    else do
      let buf ← readIndirectBlock (← loadPointer x i) blockOffset buf myOffset cap
      readPointers x size cap first n (i + 1) 0 buf

def readObject (x : Nat) (size : Int) (offset : Nat) : Code (Int × List UInt8) :=
  match startBlock offset with
  | none => do
    note .fault
    return (-1, [])
  | some start => do
    let first := start / 1024
    let cap := (auxPages size * 4096).toNat
    let buf ← readPointers x size cap first (4 - first) first (start % 1024) zeroBuffer
    let bytes := (List.range size.toNat).map fun i => buf (i + offset % 4096)
    if 0 < size ∧ (cap : Int) < (offset % 4096 : Nat) + size then
      note .fault
      return (size, bytes)
    else return (size, bytes)

def objstoreRead (objid size : Int) (offset : Nat) : Code (Int × List UInt8) :=
  let x := idToIndex objid
  if objid < 2 then return (-1, [])
  else if 1000000 ≤ x then do
    note .fault
    return (-1, [])
  else do
    if (← loadId x) = 0 then return (-1, [])
    else if (← loadSize x) - offset < size then readObject x (int32 ((← loadSize x) - offset)) offset
    else readObject x size offset

/-! ### Writing -/

def entryBlock (block : Nat → Int) (i : Nat) : Code (Nat → Int) :=
  if block i = -1 then do
    let b ← getNewDatablock
    setBlockBitmap b
    return Function.update block i b
  else return block

def writeEntries (buf : Buffer) (blockOffset offset size : Nat) :
    Nat → Nat → (Nat → Int) → Code (Nat × (Nat → Int))
  | 0, i, block => return (i, block)
  | n + 1, i, block =>
    let pos := offset + (i - blockOffset) * 4096
    if size ≤ pos then return (i, block)
    else do
      let block ← entryBlock block i
      if (← writeBlock (block i) 0 (buf.page pos)) < 0 then return (i, block)
      else writeEntries buf blockOffset offset size n (i + 1) block

def indirectBlock (blockNum : Int) : Code Int :=
  if blockNum < 0 then do
    let b ← getNewDatablock
    setBlockBitmap b
    initializeBlock b
    return b
  else return blockNum

def writeIndirectBlock (blockNum : Int) (blockOffset : Nat) (buf : Buffer) (offset size : Nat) : Code Int := do
  let blockNum ← indirectBlock blockNum
  let t ← readBlock blockNum 0 zeroBlock
  let r ← writeEntries buf blockOffset offset size (1024 - blockOffset) blockOffset (ints t.2)
  let block := fun i => if r.1 ≤ i then -1 else r.2 i
  let _ ← writeBlock blockNum 0 (ofInts block)
  let _ ← readBlock blockNum 0 (ofInts block)
  return blockNum

def readIndirectHelper (blockNum : Int) (blockOffset : Nat) (buf : Buffer) (cap : Nat) : Code Buffer := do
  let r ← readBlock blockNum 0 zeroBlock
  let newBlockNum := charOf (r.2 (Fin.ofNat 4096 blockOffset))
  if newBlockNum < 0 then return buf
  else
    let q ← readBlock newBlockNum 0 (buf.page 0)
    if cap < 4096 then
      note .fault
      return buf.putPage 0 q.2
    else return buf.putPage 0 q.2

def writePointers (x : Nat) (buf : Buffer) (size : Int) (cap first : Nat) : Nat → Nat → Nat → Code Nat
  | 0, i, _ => return i
  | n + 1, i, blockOffset =>
    let myOffset := (i - first) * 4194304
    if size ≤ myOffset then return i
    else do
      storePointer x i (← writeIndirectBlock (← loadPointer x i) blockOffset buf myOffset cap)
      writePointers x buf size cap first n (i + 1) 0

/-- `while (i < 4) obj->data_block_pointers[i++] = -1`, for `m` more. -/
def cutPointers (x : Nat) : Nat → Nat → Code Unit
  | 0, _ => return
  | m + 1, i => do
    storePointer x i (-1)
    cutPointers x m (i + 1)

def oldBytes (x start offset cap : Nat) : Code Buffer :=
  if 0 < offset % 4096 then
    if 4 ≤ start / 1024 then do
      note .fault
      return zeroBuffer
    else do readIndirectHelper (← loadPointer x (start / 1024)) (start % 1024) zeroBuffer cap
  else return zeroBuffer

def fillBuffer (x : Nat) (buf : Buffer) (size : Int) (start offset cap : Nat) : Code Buffer := do
  let skip := offset % 4096
  let a ← oldBytes x start offset cap
  let filled : Buffer := fun k => if skip ≤ k ∧ k < skip + size.toNat then buf (k - skip) else a k
  if 0 < size ∧ (cap : Int) < skip + size then
    note .fault
    return filled
  else return filled

def writeObject (x : Nat) (buf : Buffer) (size : Int) (offset : Nat) : Code Int :=
  match startBlock offset with
  | none => do
    note .fault
    return -1
  | some start => do
    let first := start / 1024
    let cap := (auxPages size * 4096).toNat
    let aux ← fillBuffer x buf size start offset cap
    let i ← writePointers x aux size cap first (4 - first) first (start % 1024)
    cutPointers x (4 - i) i
    storeSize x (int32 (offset + size))
    return size

def objstoreWrite (objid : Int) (buf : Buffer) (size : Int) (offset : Nat) : Code Int :=
  let x := idToIndex objid
  if objid < 2 then return -1
  else if 1000000 ≤ x then do
    note .fault
    return -1
  else do
    if (← loadId x) = 0 then return -1
    else writeObject x buf (clipWrite size offset) offset

/-! ### Measuring -/

def calNumberBlocks (blockNum : Int) : Code Nat :=
  if blockNum < 0 then return 0
  else do return countEntries (ints (← readBlock blockNum 0 zeroBlock).2) 1024 0

def countPointers (x : Nat) : Nat → Nat → Nat → Code Nat
  | 0, _, numBlocks => return numBlocks
  | n + 1, i, numBlocks => do
    if (← loadPointer x i) < 0 then return numBlocks
    else countPointers x n (i + 1) (numBlocks + (← calNumberBlocks (← loadPointer x i)))

def fillupSizeDetails (id : Int) : Code (Int × Int × Nat) :=
  let x := idToIndex id
  if id < 2 then return (-1, 0, 0)
  else if 1000000 ≤ x then do
    note .fault
    return (-1, 0, 0)
  else do
    if (← loadId x) = 0 then return (-1, 0, 0)
    else
      let size ← loadSize x
      return (0, size, ← countPointers x 4 0 0)

end Atomic

end CS330.ObjStore

namespace CS330.Objfs
open ObjStore Bytes

/-- The callbacks. The file system is not unmounted while threads make calls: `remount` does not
come back. -/
def callback (objfs : Defaults) : Call → Code Reply
  | .getattr key =>
    if key.bytes = [] then return .attr 0 {objfs.dirstat with ino := rootObjid}
    else do
      let retval := int32 (← Atomic.findObjectId key)
      if retval < 0 then return .attr (-ENOENT) objfs.fstat
      else
        let r ← Atomic.fillupSizeDetails retval
        if r.1 < 0 then return .attr (-EBADF) {objfs.fstat with ino := retval}
        else return .attr 0 ⟨retval, r.2.1, r.2.2⟩
  | .unlink key => do
    let _ ← Atomic.destroyObject key
    return .code 0
  | .rename oldkey newkey => do
    return .code (if (← Atomic.renameObject oldkey newkey) < 0 then -EINVAL else 0)
  | .create key => do
    let retval ← Atomic.createObject key
    if retval < 0 then return .handle (-EEXIST) none else return .handle 0 (some retval.toNat)
  | .opens key => do
    let retval := int32 (← Atomic.findObjectId key)
    if retval < 0 then return .handle (-ENOENT) none else return .handle 0 (some retval.toNat)
  | .read fh size offset => do
    let r ← Atomic.objstoreRead (int32 fh) (int32 size) offset
    return .data (if int32 r.1 < 0 then -EINVAL else int32 r.1) r.2
  | .write fh data offset => do
    let retval := int32 (← Atomic.objstoreWrite (int32 fh) (bufferOf data) (int32 data.length) offset)
    return .code (if retval < 0 then -EINVAL else retval)
  | .release _ => return .code (-EINVAL)
  | .remount => Atomic.spin

end CS330.Objfs
