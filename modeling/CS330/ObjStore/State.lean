import CS330.Lib.Bytes
import Mathlib.Logic.Function.Basic
import Mathlib.Tactic.Simps.Basic

/-! The object store's memory, disk and page cache.

An array of the source is a function of its index, and only the indices below
the array's length mean anything. `block_bitmap` is indexed by `Int`, because the
code does index it at -1: those are the two bytes in front of the array.

What a call does to the outside besides its result is kept in `log`, newest
first: the mutexes it takes and gives back, where it indexes `block_bitmap`, the
`write_block` calls it issues, what `get_new_datablock` returned, the pages
`get_free_cache_page` handed out, and accesses outside a buffer or a table. The
code never reads the log. -/
namespace CS330.ObjStore
open Bytes

/-- `CACHE_PAGES`: 128 MB of 4 KB pages. -/
def cachePages : Nat := 32768

/-- `BITMAP_SIZE`: the blocks of a 32 GB disk, the largest the store is made for. -/
def bitmapSize : Nat := 8388608

/-- `DATA_BLOCKS_START`, that is `sizeof(struct super_object)/BLOCK_SIZE`. -/
def dataBlocksStart : Nat := 17808

/-- A block has bytes. -/
@[instance] theorem blockSize_neZero : NeZero 4096 := ⟨by decide⟩

/-- The contents of one disk block or cache page: `BLOCK_SIZE` bytes. -/
def Block := Fin 4096 → UInt8

/-- Freshly mapped memory. -/
def zeroBlock : Block := fun _ => 0

/-- Entry `i` of a block read as an array of 1024 ints. -/
def ints (b : Block) (i : Nat) : Int :=
  if h : i < 1024 then
    le32 (b ⟨4 * i, by omega⟩) (b ⟨4 * i + 1, by omega⟩) (b ⟨4 * i + 2, by omega⟩)
      (b ⟨4 * i + 3, by omega⟩)
  else -1

/-- The block an array of 1024 ints is. -/
def ofInts (t : Nat → Int) : Block := fun k => byteOf (t (k.val / 4)) (k.val % 4)

theorem ints_ofInts (t : Nat → Int) {i : Nat} (h : i < 1024) : ints (ofInts t) i = int32 (t i) := by
  have h₀ : 4 * i / 4 = i := by omega
  have h₁ : (4 * i + 1) / 4 = i := by omega
  have h₂ : (4 * i + 2) / 4 = i := by omega
  have h₃ : (4 * i + 3) / 4 = i := by omega
  have m₀ : 4 * i % 4 = 0 := by omega
  have m₁ : (4 * i + 1) % 4 = 1 := by omega
  have m₂ : (4 * i + 2) % 4 = 2 := by omega
  have m₃ : (4 * i + 3) % 4 = 3 := by omega
  simp only [ints, h, dif_pos, ofInts, h₀, h₁, h₂, h₃, m₀, m₁, m₂, m₃, le32_byteOf]

/-- `struct object`. -/
structure Object where
  id : Int
  size : Int
  key : Nat → UInt8
  dataBlockPointers : Nat → Int

/-- `disk.img`: how many blocks it has and what they hold. -/
structure Disk where
  size : Nat
  blocks : Int → Block

inductive Mutex where
  | blockBitmapMutex | cacheBitmapMutex | createObjectLock
  deriving DecidableEq, Repr

inductive Event where
  | lock (m : Mutex)
  | unlock (m : Mutex)
  /-- `block_bitmap` was indexed. -/
  | bitmap (b : Int)
  /-- `write_block` was called on `b` while `block_bitmap[b]` was `mark`. -/
  | writeBlock (b : Int) (mark : Nat)
  /-- `get_new_datablock` returned `b`. -/
  | newDatablock (b : Int)
  /-- `get_free_cache_page` picked a page. -/
  | cachePage (page : Nat)
  /-- An access outside a buffer, a pointer array or the object table. -/
  | fault
  deriving DecidableEq, Repr

/-- The fields of `*sobject` but its mutexes, which are in the log, `objfs->cache`,
the disk, `total_num_disk_blocks`, and the log. -/
structure State where
  blockBitmap : Int → Nat
  dirtyFlag : Nat → Bool
  obj : Nat → Object
  cacheBitmap : Nat → Int
  lastCacheIndex : Nat
  cache : Nat → Block
  disk : Disk
  totalNumDiskBlocks : Nat
  log : List Event

namespace State

@[simps -fullyApplied]
def emit (e : Event) (s : State) : State := {s with log := e :: s.log}

@[simps -fullyApplied]
def setBitmap (b : Int) (v : Nat) (s : State) : State :=
  {s with blockBitmap := Function.update s.blockBitmap b v, log := .bitmap b :: s.log}

@[simps -fullyApplied]
def setObj (i : Nat) (o : Object) (s : State) : State :=
  {s with obj := Function.update s.obj i o}

@[simps -fullyApplied]
def setCacheBitmap (c : Nat) (b : Int) (s : State) : State :=
  {s with cacheBitmap := Function.update s.cacheBitmap c b}

@[simps -fullyApplied]
def setDirty (c : Nat) (d : Bool) (s : State) : State :=
  {s with dirtyFlag := Function.update s.dirtyFlag c d}

/-- `memcpy` to page `c` of the cache. -/
@[simps -fullyApplied]
def setPage (c : Nat) (b : Block) (s : State) : State :=
  {s with cache := Function.update s.cache c b}

@[simps -fullyApplied]
def setLast (c : Nat) (s : State) : State := {s with lastCacheIndex := c}

/-- `pwrite` of a block at or behind the start of the file. -/
@[simps -fullyApplied]
def setDisk (b : Int) (buf : Block) (s : State) : State :=
  {s with disk := ⟨max s.disk.size (b.toNat + 1), Function.update s.disk.blocks b buf⟩}

end State

/-- The mutexes one thread holds after a log, the mutexes being default ones:
`none` once it has tried to take one that it already held, for that call never
returns. -/
def held : List Event → Option (List Mutex)
  | [] => some []
  | .lock m :: log => (held log).bind fun h => if m ∈ h then none else some (m :: h)
  | .unlock m :: log => (held log).map fun h => h.erase m
  | _ :: log => held log

/-! ### Block I/O (lib.c)

Buffers are given by their distance `addr` from a page boundary of the mapping
they lie in. A `pread` past the end of the file returns 0 and leaves the buffer
alone; a `pwrite` there makes the file longer. -/

def readBlock (s : State) (blockOffset : Int) (addr : Nat) (buf : Block) : Int × Block :=
  if addr >>> 12 <<< 12 ≠ addr then (-1, buf)
  else if blockOffset < 0 then (-1, buf)
  else if (s.disk.size : Int) ≤ blockOffset then (0, buf)
  else (0, s.disk.blocks blockOffset)

def writeBlock (blockOffset : Int) (addr : Nat) (buf : Block) (s : State) : Int × State :=
  let s := s.emit (.writeBlock blockOffset (s.blockBitmap blockOffset))
  if addr >>> 12 <<< 12 ≠ addr then (-1, s)
  else if blockOffset < 0 then (-1, s)
  else (0, s.setDisk blockOffset buf)

end CS330.ObjStore
