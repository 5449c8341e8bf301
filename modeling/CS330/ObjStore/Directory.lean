import CS330.ObjStore.State

/-! The object directory: a table of 1,000,000 slots with linear probing.

A slot is free when its `id` is 0; the object in slot `i` has `id` `i + 2`. The
scans of the source stop on their own, or never do: `find_object_id` after one
round, `create_object` at a free slot or at the key. They are given one round's
worth of steps here, and `createProbe` is `none` when a whole round met neither,
for then the loop runs for ever. -/
namespace CS330.ObjStore
open Bytes

/-- A C string. -/
structure Key where
  bytes : List UInt8
  noNul : (0 : UInt8) ∉ bytes
  deriving DecidableEq

/-- A `char` is signed: bytes from 128 on are negative. -/
def charOf (b : UInt8) : Int := if b.toNat < 128 then b.toNat else b.toNat - 256

/-- The djb2 hash, in 32-bit unsigned arithmetic. -/
def hash (key : Key) : Nat :=
  key.bytes.foldl (fun h c => ((((h <<< 5) + h : Nat) + charOf c) % 4294967296).toNat) 5381 % 1000000

/-- Byte `a` of a `struct object` in memory. -/
def Object.byte (o : Object) (a : Nat) : UInt8 :=
  if a < 4 then byteOf o.id a
  else if a < 8 then byteOf o.size (a - 4)
  else if a < 40 then o.key (a - 8)
  else byteOf (o.dataBlockPointers ((a - 40) / 4)) ((a - 40) % 4)

/-- Byte `n` from `obj[i].key` on: past the 32 bytes of the field come the
pointers, and then the next slots. -/
def keyMemory (obj : Nat → Object) (i n : Nat) : UInt8 :=
  (obj ((56 * i + 8 + n) / 56)).byte ((56 * i + 8 + n) % 56)

/-- `!strcmp(mem, key)`, from position `n` of both on. -/
def strcmpEq (mem : Nat → UInt8) : Nat → List UInt8 → Bool
  | n, [] => mem n == 0
  | n, c :: rest => mem n == c && strcmpEq mem (n + 1) rest

/-- `obj->id && !strcmp(obj->key, key)` -/
def slotHolds (s : State) (key : Key) (i : Nat) : Bool :=
  (s.obj i).id != 0 && strcmpEq (keyMemory s.obj i) 0 key.bytes

def indexToID (i : Nat) : Int := i + 2

def idToIndex (id : Int) : Nat := (id - 2).toNat

/-- The `while` loop of `find_object_id`. -/
def findLoop (s : State) (key : Key) (previousIndex : Nat) : Nat → Nat → Int
  | 0, _ => -1
  | n + 1, index =>
    if previousIndex = index then -1
    else if slotHolds s key index then (s.obj index).id
    else findLoop s key previousIndex n ((index + 1) % 1000000)

def findObjectId (key : Key) (s : State) : Int :=
  let index := hash key
  if slotHolds s key index then (s.obj index).id
  else findLoop s key index 1000000 ((index + 1) % 1000000)

/-- The `while` loop of `create_object`: `some none` when it meets the key,
`some (some i)` when it meets the free slot `i`. -/
def createProbe (s : State) (key : Key) : Nat → Nat → Option (Option Nat)
  | 0, _ => none
  | n + 1, index =>
    if (s.obj index).id = 0 then some (some index)
    else if strcmpEq (keyMemory s.obj index) 0 key.bytes then some none
    else createProbe s key n ((index + 1) % 1000000)

/-- `strncpy(obj->key, key, 32)` -/
def strncpyKey (key : Key) : Nat → UInt8 := fun n => if n < 32 then key.bytes.getD n 0 else 0

/-- What `create_object` puts in a free slot. -/
def newObject (key : Key) (i : Nat) : Object :=
  ⟨indexToID i, 0, strncpyKey key, fun _ => -1⟩

/-- `none` when the call never returns. -/
def createObject (key : Key) (s : State) : Option (Int × State) :=
  let s := s.emit (.lock .createObjectLock)
  match createProbe s key 1000000 (hash key) with
  | none => none
  | some none => some (-1, s.emit (.unlock .createObjectLock))
  | some (some i) =>
    some (indexToID i, (s.setObj i (newObject key i)).emit (.unlock .createObjectLock))

def renameObject (key newname : Key) (s : State) : Option (Int × State) :=
  if 32 < newname.bytes.length then some (-1, s)
  else if findObjectId key s = -1 then some (-1, s)
  else
    let oldIndex := idToIndex (findObjectId key s)
    (createObject newname s).map fun r =>
      if r.1 = -1 then (-1, r.2)
      else
        let newIndex := idToIndex r.1
        let s := r.2
        let old := s.obj oldIndex
        let s := s.setObj newIndex {s.obj newIndex with
          size := old.size, dataBlockPointers := old.dataBlockPointers}
        let s := s.emit (.lock .createObjectLock)
        let s := s.setObj oldIndex {s.obj oldIndex with id := 0}
        (r.1, s.emit (.unlock .createObjectLock))

end CS330.ObjStore
