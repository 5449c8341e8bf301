import CS330.ObjStore.Mount
import CS330.Lib.Machine

/-! The store's operations as the steps of one machine.

`exec` treats the mutex calls as no-ops that leave a mark in the log. `step` is
what one thread sees: a call that tries to take a mutex it holds never returns, a
call that leaves a buffer or a table has no meaning, and neither has a next
state. -/
namespace CS330.ObjStore
open Bytes

inductive Op where
  | create (key : Key)
  | find (key : Key)
  | destroy (key : Key)
  | rename (key newname : Key)
  | read (id size : Int) (offset : Nat)
  | write (id : Int) (data : List UInt8) (offset : Nat)
  | stat (id : Int)
  /-- `objstore_destroy`, then `objstore_init` on the same disk. -/
  | remount

inductive Ret where
  | val (v : Int)
  | data (v : Int) (bytes : List UInt8)
  | stat (v size : Int) (blocks : Nat)
  deriving DecidableEq

/-- The caller's buffer. -/
def bufferOf (data : List UInt8) : Buffer := fun i => data.getD i 0

def exec (build : Build) : Op → State → Option (Ret × State)
  | .create key, s => (createObject key s).map fun r => (.val r.1, r.2)
  | .find key, s => some (.val (findObjectId key s), s)
  | .destroy key, s => some (.val (destroyObject key s).1, (destroyObject key s).2)
  | .rename key newname, s => (renameObject key newname s).map fun r => (.val r.1, r.2)
  | .read id size offset, s =>
    let r := objstoreRead build id size offset s
    some (.data r.1 r.2.1, r.2.2)
  | .write id data offset, s =>
    let r := objstoreWrite build id (bufferOf data) (int32 data.length) offset s
    some (.val r.1, r.2)
  | .stat id, s =>
    let r := fillupSizeDetails build id s
    some (.stat r.1 r.2.1 r.2.2.1, r.2.2.2)
  | .remount, s => some (.val 0, objstoreInit (objstoreDestroy build s))

/-- The call came back, and stayed inside its buffers and tables. -/
def Returned (s : State) : Prop := held s.log ≠ none ∧ Event.fault ∉ s.log

instance (s : State) : Decidable (Returned s) := inferInstanceAs (Decidable (_ ∧ _))

def step (build : Build) (op : Op) (s : State) : Option (Ret × State) :=
  (exec build op s).filter fun r => Returned r.2

end CS330.ObjStore
