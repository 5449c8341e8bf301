import CS330.Lib.Probe
import CS330.Spec.Store

/-! The whole store as its callers see it: files in slots that have names.

The directory probes its slots from the name's hash on. A lookup takes the first slot with
the name, a new object the first slot that is free or has the name: `holder` and `place`.
`Store.step` is what every call returns and does, as a function; it knows nothing of blocks,
pages or builds. -/
namespace CS330.Spec
open ObjStore Probe

abbrev Names := Nat → Option Key

namespace Names

def holder (N : Names) (key : Key) : Option Nat :=
  probe (fun i => N i = some key) 1000000 1000000 (hash key)

def place (N : Names) (key : Key) : Option Nat :=
  probe (fun i => N i = none ∨ N i = some key) 1000000 1000000 (hash key)

/-- All that a call of the directory may do to the names. -/
inductive Step : Op → Names → Names → Prop
  | stay {op : Op} {N : Names} : Step op N N
  | put {key : Key} {N : Names} {x : Nat} : N x = none →
      Step (.create key) N (Function.update N x (some key))
  | drop {key : Key} {N : Names} {z : Nat} : N z = some key →
      Step (.destroy key) N (Function.update N z none)
  | move {key newname : Key} {N : Names} {x z : Nat} : N z = some key → N x = none →
      Step (.rename key newname) N (Function.update (Function.update N x (some newname)) z none)

end Names

/-- The calls of the directory. -/
def OfDirectory : Op → Prop
  | .create _ | .find _ | .destroy _ | .rename _ _ => True
  | _ => False

structure Store where
  files : Files
  names : Names

namespace Store

/-- A new file in the slot `x` that a probe for `key` found, unless it found the name. -/
def put (key : Key) (f : Option File) (x : Nat) (S : Store) : Option Store :=
  if S.names x = none then
    some ⟨Function.update S.files x f, Function.update S.names x (some key)⟩
  else none

def drop (x : Nat) (S : Store) : Store :=
  ⟨Function.update S.files x none, Function.update S.names x none⟩

/-- `none`: the call does not return, for the directory is full. -/
def step : Op → Store → Option (Ret × Store)
  | .create key, S => (S.names.place key).map fun x =>
    match S.put key (some File.new) x with
    | some S' => (.val (indexToID x), S')
    | none => (.val (-1), S)
  | .find key, S => some (.val ((S.names.holder key).elim (-1) indexToID), S)
  | .destroy key, S =>
    match S.names.holder key with
    | some x => some (.val 0, S.drop x)
    | none => some (.val (-1), S)
  | .rename key newname, S =>
    match S.names.holder key with
    | some z => (S.names.place newname).map fun x =>
      match S.put newname (S.files z) x with
      | some S' => (.val (indexToID x), S'.drop z)
      | none => (.val (-1), S)
    | none => some (.val (-1), S)
  | .read id size offset, S => some (S.files.read id size offset, S)
  | .write id data offset, S =>
    some ((S.files.write id data offset).1, {S with files := (S.files.write id data offset).2})
  | .stat id, S => some (S.files.stat id, S)
  | .remount, S => some (.val 0, S)

end Store

end CS330.Spec
