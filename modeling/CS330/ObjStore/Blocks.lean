import CS330.ObjStore.Cache
import CS330.ObjStore.Directory

/-! The block bitmap: taking, initialising and giving back blocks. -/
namespace CS330.ObjStore

def setBlockBitmap (blockNum : Int) (s : State) : State :=
  ((s.emit (.lock .blockBitmapMutex)).setBitmap blockNum 1).emit (.unlock .blockBitmapMutex)

def clearBlockBitmap (blockNum : Int) (s : State) : State :=
  ((s.emit (.lock .blockBitmapMutex)).setBitmap blockNum 0).emit (.unlock .blockBitmapMutex)

/-- The scan of `get_new_datablock`, `n` entries from `i` on. -/
def scanBitmap : Nat → Nat → State → Int × State
  | 0, _, s => (-1, s)
  | n + 1, i, s =>
    let s := s.emit (.bitmap i)
    if s.blockBitmap i = 0 then (i, s.setBitmap i 1) else scanBitmap n (i + 1) s

def getNewDatablock (s : State) : Int × State :=
  let r := scanBitmap (s.totalNumDiskBlocks - dataBlocksStart) dataBlocksStart
    (s.emit (.lock .blockBitmapMutex))
  (r.1, (r.2.emit (.unlock .blockBitmapMutex)).emit (.newDatablock r.1))

/-- A block of 1024 entries -1. It goes straight to the disk. -/
def initializeBlock (blockNum : Int) (s : State) : State :=
  (writeBlock blockNum 0 (ofInts fun _ => -1) s).2

/-- Gives up the page of a block that has one. -/
def dropPage (cacheIndex : Nat) (s : State) : State :=
  if 1 < cacheIndex then
    let s := s.emit (.lock .cacheBitmapMutex)
    ((s.setCacheBitmap cacheIndex 0).setDirty cacheIndex false).emit (.unlock .cacheBitmapMutex)
  else s

/-- One round of `free_data_block`'s loop, for an entry that is not -1. -/
def freeEntry (blockNum : Int) (s : State) : State :=
  let s := s.emit (.bitmap blockNum)
  clearBlockBitmap blockNum (dropPage (s.blockBitmap blockNum) s)

/-- The loop of `free_data_block` over the table `tmp`, `n` entries from `i` on. -/
def freeEntries (tmp : Nat → Int) : Nat → Nat → State → State
  | 0, _, s => s
  | n + 1, i, s => if tmp i = -1 then s else freeEntries tmp n (i + 1) (freeEntry (tmp i) s)

/-- The table is read from the disk, whatever the cache holds. -/
def freeDataBlock (dataBlockPointer : Int) (s : State) : State :=
  let tmp := ints (readBlock s dataBlockPointer 0 zeroBlock).2
  clearBlockBitmap dataBlockPointer (freeEntries tmp 1024 0 s)

/-- The loop of `destroy_object`, `n` pointers from `i` on. -/
def freePointers (pointers : Nat → Int) : Nat → Nat → State → State
  | 0, _, s => s
  | n + 1, i, s =>
    if pointers i = -1 then s else freePointers pointers n (i + 1) (freeDataBlock (pointers i) s)

def destroyObject (key : Key) (s : State) : Int × State :=
  let id := findObjectId key s
  if id = -1 then (-1, s)
  else
    let index := idToIndex id
    if (s.obj index).id = 0 then (-1, s)
    else
      let s := freePointers (s.obj index).dataBlockPointers 4 0 s
      (0, s.setObj index {s.obj index with id := 0})

end CS330.ObjStore
