import CS330.ObjStore.Ops

/-! The file system's callbacks (`objfs.c`).

FUSE hands a callback the path of a file, a slash and a name: `key + 1` is the name, and the
path `/` alone has an empty one. A callback calls the store and turns what it returns into an
error number; the attributes it does not fill in are those of the working directory or of the
log file, taken at the start. `fi->fh` is 64-bit, ids and sizes are ints. -/
namespace CS330.Objfs
open ObjStore Bytes

def ENOENT : Int := 2

def EBADF : Int := 9

def EEXIST : Int := 17

def EINVAL : Int := 22

def rootObjid : Int := 1

/-- The fields of `struct stat` that the callbacks fill in. -/
structure Stat where
  ino : Int
  size : Int
  blocks : Nat
  deriving DecidableEq, Repr

/-- What `do_init` has found out about the working directory and the log file. -/
structure Defaults where
  dirstat : Stat
  fstat : Stat

section Callbacks
variable (build : Build) (objfs : Defaults)

def objfsGetattr (key : Key) (s : State) : Int × Stat × State :=
  if key.bytes = [] then (0, {objfs.dirstat with ino := rootObjid}, s)
  else
    let retval := int32 (findObjectId key s)
    if retval < 0 then (-ENOENT, objfs.fstat, s)
    else
      let r := fillupSizeDetails build retval s
      if r.1 < 0 then (-EBADF, {objfs.fstat with ino := retval}, r.2.2.2)
      else (0, ⟨retval, r.2.1, r.2.2.1⟩, r.2.2.2)

/-- What `destroy_object` returns is not looked at. -/
def objfsUnlink (key : Key) (s : State) : Int × State := (0, (destroyObject key s).2)

def objfsRenameKey (oldkey newkey : Key) (s : State) : Option (Int × State) :=
  (renameObject oldkey newkey s).map fun r => (if r.1 < 0 then -EINVAL else 0, r.2)

/-- The value and `fi->fh`, if it is set. -/
def objfsCreate (key : Key) (s : State) : Option (Int × Option Nat × State) :=
  (createObject key s).map fun r =>
    if r.1 < 0 then (-EEXIST, none, r.2) else (0, some r.1.toNat, r.2)

def objfsOpen (key : Key) (s : State) : Int × Option Nat × State :=
  let retval := int32 (findObjectId key s)
  if retval < 0 then (-ENOENT, none, s) else (0, some retval.toNat, s)

def objfsRead (fh size offset : Nat) (s : State) : Int × List UInt8 × State :=
  let r := objstoreRead build (int32 fh) (int32 size) offset s
  let retval := int32 r.1
  (if retval < 0 then -EINVAL else retval, r.2.1, r.2.2)

def objfsWrite (fh : Nat) (data : List UInt8) (offset : Nat) (s : State) : Int × State :=
  let r := objstoreWrite build (int32 fh) (bufferOf data) (int32 data.length) offset s
  let retval := int32 r.1
  (if retval < 0 then -EINVAL else retval, r.2)

/-- `release_object` does nothing, and FUSE ignores the value. -/
def objfsRelease (_fh : Nat) (s : State) : Int × State := (-EINVAL, s)

end Callbacks

/-! ### Runs -/

inductive Call where
  | getattr (key : Key)
  | unlink (key : Key)
  | rename (oldkey newkey : Key)
  | create (key : Key)
  | opens (key : Key)
  | read (fh size offset : Nat)
  | write (fh : Nat) (data : List UInt8) (offset : Nat)
  | release (fh : Nat)
  /-- What `objfs_destroy` and the next `objfs_init` do to the store. -/
  | remount

inductive Reply where
  | code (v : Int)
  | handle (v : Int) (fh : Option Nat)
  | attr (v : Int) (st : Stat)
  | data (v : Int) (bytes : List UInt8)
  deriving DecidableEq

def exec (build : Build) (objfs : Defaults) : Call → State → Option (Reply × State)
  | .getattr key, s =>
    let r := objfsGetattr build objfs key s
    some (.attr r.1 r.2.1, r.2.2)
  | .unlink key, s => some (.code (objfsUnlink key s).1, (objfsUnlink key s).2)
  | .rename oldkey newkey, s => (objfsRenameKey oldkey newkey s).map fun r => (.code r.1, r.2)
  | .create key, s => (objfsCreate key s).map fun r => (.handle r.1 r.2.1, r.2.2)
  | .opens key, s => some (.handle (objfsOpen key s).1 (objfsOpen key s).2.1, (objfsOpen key s).2.2)
  | .read fh size offset, s =>
    let r := objfsRead build fh size offset s
    some (.data r.1 r.2.1, r.2.2)
  | .write fh data offset, s =>
    let r := objfsWrite build fh data offset s
    some (.code r.1, r.2)
  | .release fh, s => some (.code (objfsRelease fh s).1, (objfsRelease fh s).2)
  | .remount, s => some (.code 0, objstoreInit (objstoreDestroy build s))

/-- As for the store: a call that takes a mutex twice or leaves its tables has no next state. -/
def step (build : Build) (objfs : Defaults) (call : Call) (s : State) : Option (Reply × State) :=
  (exec build objfs call s).filter fun r => Returned r.2

end CS330.Objfs
