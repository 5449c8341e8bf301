import CS330.ObjStore.Blocks

/-! Reading, writing and measuring an object.

An object's bytes lie in up to four indirect blocks of 1024 entries each. A
`char *` buffer is a function of the byte's position, freshly mapped memory being
zero. -/
namespace CS330.ObjStore
open Bytes

def Buffer := Nat → UInt8

def zeroBuffer : Buffer := fun _ => 0

/-- The `BLOCK_SIZE` bytes at `pos`. -/
def Buffer.page (buf : Buffer) (pos : Nat) : Block := fun k => buf (pos + k.val)

/-- The buffer after a block was copied to `pos`. -/
def Buffer.putPage (buf : Buffer) (pos : Nat) (b : Block) : Buffer := fun a =>
  if h : pos ≤ a ∧ a < pos + 4096 then b ⟨a - pos, by omega⟩ else buf a

/-- How many pages hold `size` bytes, with C's division. -/
def auxPages (size : Int) : Int :=
  if size.tmod 4096 ≠ 0 then size.tdiv 4096 + 1 else size.tdiv 4096

/-! ### Reading -/

/-- The loop of `read_indirect_block`, `n` entries from `i` on. -/
def readEntries (build : Build) (block : Nat → Int) (blockOffset offset size : Nat) :
    Nat → Nat → Buffer → State → Buffer × State
  | 0, _, buf, s => (buf, s)
  | n + 1, i, buf, s =>
    let pos := offset + (i - blockOffset) * 4096
    if size ≤ pos then (buf, s)
    else if block i = -1 then (buf, s)
    else
      let r := fetch build (block i) pos (buf.page pos) s
      if r.1 < 0 then (buf, r.2.2)
      else readEntries build block blockOffset offset size n (i + 1) (buf.putPage pos r.2.1) r.2.2

def readIndirectBlock (build : Build) (blockNum : Int) (blockOffset : Nat) (buf : Buffer)
    (offset size : Nat) (s : State) : Buffer × State :=
  if blockNum < 0 then (buf, s)
  else
    let r := fetch build blockNum 0 zeroBlock s
    readEntries build (ints r.2.1) blockOffset offset size (1024 - blockOffset) blockOffset buf r.2.2

/-- The loop of `objstore_read` over the indirect blocks, `n` of them from `i` on. -/
def readPointers (build : Build) (x : Nat) (size : Int) (cap first : Nat) :
    Nat → Nat → Nat → Buffer → State → Buffer × State
  | 0, _, _, buf, s => (buf, s)
  | n + 1, i, blockOffset, buf, s =>
    let myOffset := (i - first) * 4194304
    if size ≤ myOffset then (buf, s)
    else
      let r := readIndirectBlock build ((s.obj x).dataBlockPointers i) blockOffset buf myOffset cap s
      readPointers build x size cap first n (i + 1) 0 r.1 r.2

/-- `size`, cut down to what the object has from `offset` on. -/
def clipRead (o : Object) (size : Int) (offset : Nat) : Int :=
  if o.size - offset < size then int32 (o.size - offset) else size

/-- `int block_offset = offset/BLOCK_SIZE`, or `none` when the `int` comes out
negative. -/
def startBlock (offset : Nat) : Option Nat :=
  let start := offset / 4096 % 4294967296
  if start < 2147483648 then some start else none

/-- The rest of `objstore_read`, for the object in slot `x`. A negative start block
makes the code index in front of the pointer array: a fault, and what follows is
not modelled. -/
def readObject (build : Build) (x : Nat) (size : Int) (offset : Nat) (s : State) :
    Int × List UInt8 × State :=
  match startBlock offset with
  | none => (-1, [], s.emit .fault)
  | some start =>
    let first := start / 1024
    let cap := (auxPages size * 4096).toNat
    let r := readPointers build x size cap first (4 - first) first (start % 1024) zeroBuffer s
    (size, (List.range size.toNat).map fun i => r.1 (i + offset % 4096),
      if 0 < size ∧ (cap : Int) < (offset % 4096 : Nat) + size then r.2.emit .fault else r.2)

/-- Returns the value, the bytes put in the caller's buffer and the state. -/
def objstoreRead (build : Build) (objid size : Int) (offset : Nat) (s : State) :
    Int × List UInt8 × State :=
  let x := idToIndex objid
  if objid < 2 then (-1, [], s)
  else if 1000000 ≤ x then (-1, [], s.emit .fault)
  else if (s.obj x).id = 0 then (-1, [], s)
  else readObject build x (clipRead (s.obj x) size offset) offset s

/-! ### Writing -/

/-- The table and the state once entry `i` of the table has a block: a new one if it
was -1. -/
def entryBlock (block : Nat → Int) (i : Nat) (s : State) : (Nat → Int) × State :=
  if block i = -1 then
    let r := getNewDatablock s
    (Function.update block i r.1, setBlockBitmap r.1 r.2)
  else (block, s)

/-- The loop of `write_indirect_block`, `n` entries from `i` on: the index it
stops at, the table and the state. -/
def writeEntries (build : Build) (buf : Buffer) (blockOffset offset size : Nat) :
    Nat → Nat → (Nat → Int) → State → Nat × (Nat → Int) × State
  | 0, i, block, s => (i, block, s)
  | n + 1, i, block, s =>
    let pos := offset + (i - blockOffset) * 4096
    if size ≤ pos then (i, block, s)
    else
      let a := entryBlock block i s
      let r := store build (a.1 i) 0 (buf.page pos) a.2
      if r.1 < 0 then (i, a.1, r.2)
      else writeEntries build buf blockOffset offset size n (i + 1) a.1 r.2

/-- The indirect block an object's pointer gives, a new one if it gives none. -/
def indirectBlock (blockNum : Int) (s : State) : Int × State :=
  if blockNum < 0 then
    let r := getNewDatablock s
    (r.1, initializeBlock r.1 (setBlockBitmap r.1 r.2))
  else (blockNum, s)

def writeIndirectBlock (build : Build) (blockNum : Int) (blockOffset : Nat) (buf : Buffer)
    (offset size : Nat) (s : State) : Int × State :=
  let a := indirectBlock blockNum s
  let blockNum := a.1
  let t := fetch build blockNum 0 zeroBlock a.2
  let r := writeEntries build buf blockOffset offset size (1024 - blockOffset) blockOffset
    (ints t.2.1) t.2.2
  let block := fun i => if r.1 ≤ i then -1 else r.2.1 i
  let s := (store build blockNum 0 (ofInts block) r.2.2).2
  (blockNum, (fetch build blockNum 0 (ofInts block) s).2.2)

/-- Fetches the block an unaligned write starts in. The table is indexed as an
array of `char`, and the block goes to the start of the buffer of `cap` bytes. -/
def readIndirectHelper (build : Build) (blockNum : Int) (blockOffset : Nat) (buf : Buffer)
    (cap : Nat) (s : State) : Buffer × State :=
  let r := fetch build blockNum 0 zeroBlock s
  let newBlockNum := charOf (r.2.1 (Fin.ofNat 4096 blockOffset))
  if newBlockNum < 0 then (buf, r.2.2)
  else
    let q := fetch build newBlockNum 0 (buf.page 0) r.2.2
    (buf.putPage 0 q.2.1, if cap < 4096 then q.2.2.emit .fault else q.2.2)

def setPointer (x i : Nat) (p : Int) (s : State) : State :=
  s.setObj x {s.obj x with dataBlockPointers := Function.update (s.obj x).dataBlockPointers i p}

/-- The loop of `objstore_write` over the indirect blocks, `n` of them from `i`
on: the index it stops at and the state. -/
def writePointers (build : Build) (x : Nat) (buf : Buffer) (size : Int) (cap first : Nat) :
    Nat → Nat → Nat → State → Nat × State
  | 0, i, _, s => (i, s)
  | n + 1, i, blockOffset, s =>
    let myOffset := (i - first) * 4194304
    if size ≤ myOffset then (i, s)
    else
      let r := writeIndirectBlock build ((s.obj x).dataBlockPointers i) blockOffset buf myOffset cap s
      writePointers build x buf size cap first n (i + 1) 0 (setPointer x i r.1 r.2)

/-- `while (i < 4) obj->data_block_pointers[i++] = -1` and the new size. -/
def finishWrite (x i : Nat) (size : Int) (s : State) : State :=
  s.setObj x {s.obj x with
    size := size
    dataBlockPointers := fun j => if i ≤ j ∧ j < 4 then -1 else (s.obj x).dataBlockPointers j}

/-- The old bytes of the block a write starts inside. -/
def oldBytes (build : Build) (x start offset cap : Nat) (s : State) : Buffer × State :=
  if 0 < offset % 4096 then
    if 4 ≤ start / 1024 then (zeroBuffer, s.emit .fault)
    else readIndirectHelper build ((s.obj x).dataBlockPointers (start / 1024)) (start % 1024)
      zeroBuffer cap s
  else (zeroBuffer, s)

/-- The buffer to write out: the first block's old bytes if the write starts
inside it, and over them the caller's. -/
def fillBuffer (build : Build) (x : Nat) (buf : Buffer) (size : Int) (start offset cap : Nat)
    (s : State) : Buffer × State :=
  let skip := offset % 4096
  let a := oldBytes build x start offset cap s
  (fun k => if skip ≤ k ∧ k < skip + size.toNat then buf (k - skip) else a.1 k,
    if 0 < size ∧ (cap : Int) < skip + size then a.2.emit .fault else a.2)

/-- `size`, cut down to what an object can hold from `offset` on. -/
def clipWrite (size : Int) (offset : Nat) : Int :=
  if (16777216 : Int) - offset < size then int32 (16777216 - offset) else size

/-- The rest of `objstore_write`, for the object in slot `x`. -/
def writeObject (build : Build) (x : Nat) (buf : Buffer) (size : Int) (offset : Nat) (s : State) :
    Int × State :=
  match startBlock offset with
  | none => (-1, s.emit .fault)
  | some start =>
    let first := start / 1024
    let cap := (auxPages size * 4096).toNat
    let a := fillBuffer build x buf size start offset cap s
    let r := writePointers build x a.1 size cap first (4 - first) first (start % 1024) a.2
    (size, finishWrite x r.1 (int32 (offset + size)) r.2)

def objstoreWrite (build : Build) (objid : Int) (buf : Buffer) (size : Int) (offset : Nat)
    (s : State) : Int × State :=
  let x := idToIndex objid
  if objid < 2 then (-1, s)
  else if 1000000 ≤ x then (-1, s.emit .fault)
  else if (s.obj x).id = 0 then (-1, s)
  else writeObject build x buf (clipWrite size offset) offset s

/-! ### Measuring -/

/-- The loop of `cal_number_blocks`, `n` entries from `i` on. -/
def countEntries (block : Nat → Int) : Nat → Nat → Nat
  | 0, _ => 0
  | n + 1, i => if block i < 0 then 0 else countEntries block n (i + 1) + 1

def calNumberBlocks (build : Build) (blockNum : Int) (s : State) : Nat × State :=
  if blockNum < 0 then (0, s)
  else
    let r := fetch build blockNum 0 zeroBlock s
    (countEntries (ints r.2.1) 1024 0, r.2.2)

/-- The loop of `fillup_size_details`, `n` pointers from `i` on. -/
def countPointers (build : Build) (x : Nat) : Nat → Nat → Nat → State → Nat × State
  | 0, _, numBlocks, s => (numBlocks, s)
  | n + 1, i, numBlocks, s =>
    if (s.obj x).dataBlockPointers i < 0 then (numBlocks, s)
    else
      let r := calNumberBlocks build ((s.obj x).dataBlockPointers i) s
      countPointers build x n (i + 1) (numBlocks + r.1) r.2

/-- Returns the value, `st_size` and `st_blocks`, and the state. -/
def fillupSizeDetails (build : Build) (id : Int) (s : State) : Int × Int × Nat × State :=
  let x := idToIndex id
  if id < 2 then (-1, 0, 0, s)
  else if 1000000 ≤ x then (-1, 0, 0, s.emit .fault)
  else if (s.obj x).id = 0 then (-1, 0, 0, s)
  else
    let r := countPointers build x 4 0 0 s
    (0, (s.obj x).size, r.1, r.2)

end CS330.ObjStore
