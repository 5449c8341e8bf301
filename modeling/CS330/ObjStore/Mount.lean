import CS330.ObjStore.Files

/-! Mounting and unmounting.

The first `DATA_BLOCKS_START` blocks of the disk are the bytes of
`struct super_object` as the compiler lays it out: the bitmap after its 40-byte
mutex, the dirty flags, the slots of 56 bytes, the cache's mutex, its bitmap and
its cursor. The mutexes and the padding are written as zeros: nothing reads them
back. -/
namespace CS330.ObjStore
open Bytes

/-- Byte `a` of `*sobject`. -/
def State.superByte (o : State) (a : Nat) : UInt8 :=
  if a < 40 then 0
  else if a < 16777256 then byteOf (o.blockBitmap ((a - 40) / 2 : Nat)) ((a - 40) % 2)
  else if a < 16810024 then if o.dirtyFlag (a - 16777256) then 1 else 0
  else if a < 72810024 then (o.obj ((a - 16810024) / 56)).byte ((a - 16810024) % 56)
  else if a < 72810064 then 0
  else if a < 72941136 then byteOf (o.cacheBitmap ((a - 72810064) / 4)) ((a - 72810064) % 4)
  else if a < 72941140 then byteOf o.lastCacheIndex (a - 72941136)
  else 0

/-- The int at `a`. -/
def intAt (m : Nat → UInt8) (a : Nat) : Int := le32 (m a) (m (a + 1)) (m (a + 2)) (m (a + 3))

/-- The slot whose bytes start at `a`. -/
def Object.ofBytes (m : Nat → UInt8) (a : Nat) : Object where
  id := intAt m a
  size := intAt m (a + 4)
  key := fun n => m (a + 8 + n)
  dataBlockPointers := fun j => intAt m (a + 40 + 4 * j)

/-- A slot of freshly mapped memory. -/
def Object.zero : Object := ⟨0, 0, fun _ => 0, fun _ => 0⟩

/-- `block_bitmap`, from the bytes of the super object. -/
def bitmapOfBytes (m : Nat → UInt8) (b : Int) : Nat :=
  if 0 ≤ b ∧ b < bitmapSize then le16 (m (40 + 2 * b.toNat)) (m (40 + 2 * b.toNat + 1)) else 0

/-- The slots, from the bytes of the super object. -/
def objOfBytes (m : Nat → UInt8) (i : Nat) : Object :=
  if i < 1000000 then Object.ofBytes m (16810024 + 56 * i) else Object.zero

/-- Byte `a` of the super object after the loop of `objstore_init` has read all its
blocks into freshly mapped memory. -/
def superMemory (s : State) (a : Nat) : UInt8 :=
  (readBlock s (a / 4096 : Nat) (a / 4096 * 4096) zeroBlock).2 (Fin.ofNat 4096 a)

/-- The cache's fields are reset after they were read. The log starts anew: the
mutexes are initialised, and a mount session begins. -/
def objstoreInit (s : State) : State where
  blockBitmap := bitmapOfBytes (superMemory s)
  dirtyFlag := fun _ => false
  obj := objOfBytes (superMemory s)
  cacheBitmap := fun _ => 0
  lastCacheIndex := 1
  cache := s.cache
  disk := s.disk
  totalNumDiskBlocks := s.disk.size
  log := []

/-- The loop of `objstore_destroy`: the first `n` blocks of the super object. -/
def writeSuper : Nat → State → State
  | 0, s => s
  | n + 1, s =>
    let s := writeSuper n s
    (writeBlock n (n * 4096) (fun k => s.superByte (n * 4096 + k.val)) s).2

def objstoreDestroy (build : Build) (s : State) : State :=
  writeSuper dataBlocksStart (cacheSync build s)

/-- A disk of zeros, as `dd if=/dev/zero` makes it. -/
def zeroDisk (n : Nat) : Disk := ⟨n, fun _ => zeroBlock⟩

/-- The state of a new process that has mounted the disk. -/
def mount (d : Disk) : State :=
  objstoreInit
    { blockBitmap := fun _ => 0, dirtyFlag := fun _ => false, obj := fun _ => Object.zero
      cacheBitmap := fun _ => 0, lastCacheIndex := 0, cache := fun _ => zeroBlock, disk := d
      totalNumDiskBlocks := 0, log := [] }

end CS330.ObjStore
