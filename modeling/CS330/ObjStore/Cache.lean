import CS330.ObjStore.State

/-! The page cache, in both builds.

`Build.cached` is the program compiled with `-DCACHE`, `Build.uncached` the one
without it. -/
namespace CS330.ObjStore

inductive Build where
  | uncached | cached
  deriving DecidableEq, Repr

/-- Writes the page back and gives it up. The caller holds `cache_bitmap_mutex`. -/
def flushCache (cacheIndex : Nat) (s : State) : State :=
  let blockNum := s.cacheBitmap cacheIndex
  let s := if s.dirtyFlag cacheIndex
    then (writeBlock blockNum (cacheIndex <<< 12) (s.cache cacheIndex) s).2 else s
  let s := s.emit (.lock .cacheBitmapMutex)
  let s := s.setCacheBitmap cacheIndex 0
  let s := s.emit (.unlock .cacheBitmapMutex)
  s.setBitmap blockNum 1

/-- The page the cursor moves to. -/
def nextPage (last : Nat) : Nat :=
  let new := (last + 1) % cachePages
  if new < 2 then 2 else new

def getFreeCachePage (s : State) : Nat × State :=
  let s := s.emit (.lock .cacheBitmapMutex)
  let new := nextPage s.lastCacheIndex
  let s := (s.emit (.cachePage new)).setLast new
  let s := if s.cacheBitmap new ≠ 0 then flushCache new s else s
  (new, s.emit (.unlock .cacheBitmapMutex))

/-- A clean page for a block that has none. -/
def newCleanPage (blockNum : Int) (s : State) : Nat × State :=
  let page := getFreeCachePage s
  let s := page.2.setCacheBitmap page.1 blockNum
  let s := s.setBitmap blockNum page.1
  (page.1, s.setDirty page.1 false)

/-- Returns the status, the buffer and the state. -/
def readCached (build : Build) (blockNum : Int) (addr : Nat) (userBuf : Block) (s : State) :
    Int × Block × State :=
  match build with
  | .uncached => (-1, userBuf, s)
  | .cached =>
    let s := s.emit (.bitmap blockNum)
    if s.blockBitmap blockNum = 0 then (-1, userBuf, s)
    else if s.blockBitmap blockNum = 1 then
      let page := newCleanPage blockNum s
      let buf := (readBlock page.2 blockNum addr userBuf).2
      (0, buf, page.2.setPage page.1 buf)
    else (0, s.cache (s.blockBitmap blockNum), s)

/-- The page `write_cached` puts the block on. -/
def pageFor (blockNum : Int) (s : State) : Nat × State :=
  if 1 < s.blockBitmap blockNum then (s.blockBitmap blockNum, s)
  else
    let page := getFreeCachePage s
    (page.1, (page.2.setBitmap blockNum page.1).setCacheBitmap page.1 blockNum)

def writeCached (build : Build) (blockNum : Int) (userBuf : Block) (s : State) : Int × State :=
  match build with
  | .uncached => (-1, s)
  | .cached =>
    let s := s.emit (.bitmap blockNum)
    if s.blockBitmap blockNum = 0 then (-1, s)
    else
      let page := pageFor blockNum s
      (0, (page.2.setPage page.1 userBuf).setDirty page.1 true)

/-- One round of `cache_sync`'s loop. A clean page keeps its `cache_bitmap` entry. -/
def syncPage (i : Nat) (s : State) : State :=
  if s.cacheBitmap i = 0 then s
  else
    let blockNum := s.cacheBitmap i
    if s.dirtyFlag i = false then s.setBitmap blockNum 1
    else
      let s := (writeBlock blockNum (i <<< 12) (s.cache i) s).2
      ((s.setCacheBitmap i 0).setDirty i false).setBitmap blockNum 1

/-- The first `n` rounds. -/
def syncPages : Nat → State → State
  | 0, s => s
  | n + 1, s => syncPage n (syncPages n s)

def cacheSync (build : Build) (s : State) : State :=
  match build with
  | .uncached => s
  | .cached => syncPages cachePages s

/-- `if (read_cached(..) == -1) read_block(..)`: the status of the last call, the
buffer and the state. -/
def fetch (build : Build) (blockNum : Int) (addr : Nat) (buf : Block) (s : State) :
    Int × Block × State :=
  let r := readCached build blockNum addr buf s
  if r.1 ≠ -1 then r
  else
    let q := readBlock r.2.2 blockNum addr r.2.1
    (q.1, q.2, r.2.2)

/-- `if (write_cached(..) == -1) write_block(..)`: the status of the last call and
the state. -/
def store (build : Build) (blockNum : Int) (addr : Nat) (buf : Block) (s : State) : Int × State :=
  let r := writeCached build blockNum buf s
  if r.1 ≠ -1 then r else writeBlock blockNum addr buf r.2

end CS330.ObjStore
