import CS330.Lib.TopBits

/-! The trie of `base/trie.hh`.

Values are stored under the first bits of a key. A node holds the bits it stands for and their
mask, and a node between values holds none itself. `Handle` is a pointer to a node: here the node's
key and mask, which no two nodes share. The parent pointers are the way back up a recursion. A
failed `assert` and a `panic` have no result. -/
namespace CS330.Gem5
open TopBits

inductive Node (n : Nat) (V : Type) where
  | null
  | node (key mask : BitVec n) (value : Option V) (kid0 kid1 : Node n V)

abbrev Handle (n : Nat) := BitVec n × BitVec n

namespace Node
variable {n : Nat} {V : Type}

/-- The node is not there. -/
def isNull : Node n V → Bool
  | null => true
  | node .. => false

/-- `kid && kid->matches(test)` -/
def matchesKey (test : BitVec n) : Node n V → Bool
  | null => false
  | node key mask .. => test &&& mask == key

/-- A node without kids. -/
def new (key mask : BitVec n) (val : V) : Node n V := node (key &&& mask) mask (some val) null null

def goesAfter (key newMask : BitVec n) (kid : Node n V) : Bool := match kid with
  | null => false
  | node _ mask .. => kid.matchesKey key && mask &&& newMask == mask

/-- The node `lookupHandle` returns, and its value. -/
def lookupNode (key : BitVec n) : Node n V → Option (Handle n × V)
  | null => none
  | node k mask value kid0 kid1 => match value with
    | some val => some ((k, mask), val)
    | none =>
      if kid0.matchesKey key then kid0.lookupNode key
      else if kid1.matchesKey key then kid1.lookupNode key
      else none

def lookupHandle (key : BitVec n) (head : Node n V) : Option (Handle n) := (head.lookupNode key).map Prod.fst

def lookup (key : BitVec n) (head : Node n V) : Option V := (head.lookupNode key).map Prod.snd

/-! ### `insert` -/

/-- The loop that walks down a leg until something does not match or the bits run out. -/
def walkDown (key newMask kidKey : BitVec n) : Nat → BitVec n → BitVec n
  | 0, curMask => curMask
  | fuel + 1, curMask =>
    let lastMask := curMask
    let curMask := extend curMask
    if key &&& curMask ≠ kidKey &&& curMask ∨ lastMask = newMask then lastMask
    else walkDown key newMask kidKey fuel curMask

/-- One pass of the loop over the kids of a node: the new kid, or none if this is not the right
leg to go down. -/
def addToLeg (key newMask : BitVec n) (val : V) (nodeMask : BitVec n) (kid : Node n V) : Option (Node n V) :=
  match kid with
  | null => some (new key newMask val)
  | node kidKey .. =>
    let curMask := walkDown key newMask kidKey (n + 1) nodeMask
    if curMask = nodeMask then none
    else if curMask = newMask then some (node (key &&& curMask) curMask (some val) kid null)
    else some (node (key &&& curMask) curMask none kid (new key newMask val))

/-- What `insert` does at the last node it goes after. -/
def place (key newMask : BitVec n) (val : V) : Node n V → Option (Node n V)
  | null => none
  | node k curMask value kid0 kid1 =>
    if curMask = newMask then
      if value.isSome then none else some (node k curMask (some val) kid0 kid1)
    else match addToLeg key newMask val curMask kid0 with
      | some kid => some (node k curMask value kid kid1)
      | none => (addToLeg key newMask val curMask kid1).map fun kid => node k curMask value kid0 kid

def insertBelow (key newMask : BitVec n) (val : V) : Node n V → Option (Node n V)
  | null => none
  | node k mask value kid0 kid1 =>
    if kid0.goesAfter key newMask then
      (kid0.insertBelow key newMask val).map fun kid => node k mask value kid kid1
    else if kid1.goesAfter key newMask then
      (kid1.insertBelow key newMask val).map fun kid => node k mask value kid0 kid
    else (node k mask value kid0 kid1).place key newMask val

/-- The handle of the new value, and the trie with it. -/
def insert (key : BitVec n) (width : Nat) (val : V) (head : Node n V) : Option (Handle n × Node n V) :=
  let newMask := TopBits.mask n width
  let key := key &&& newMask
  (head.insertBelow key newMask val).map fun head => ((key, newMask), head)

/-! ### `remove` -/

/-- The rest of `remove` at the parent of a node that was taken out: `true` if the parent went
as well, and the kid that stands in its place. -/
def tidy (root : Bool) (key mask : BitVec n) (value : Option V) (kid0 kid1 : Node n V) : Bool × Node n V :=
  let kids := if !kid1.isNull && kid0.isNull then (kid1, null) else (kid0, kid1)
  if kids.2.isNull && value.isNone && !root then (true, kids.1) else (false, node key mask value kids.1 kids.2)

/-- `remove(handle)`, where the handle is a node of this subtree: `true` if the subtree's own node
was taken out, and what stands in its place. -/
def removeBelow (handle : Handle n) (root : Bool) : Node n V → Option (Bool × Node n V)
  | null => none
  | node key mask value kid0 kid1 =>
    if (key, mask) = handle then
      if !kid1.isNull then
        if value.isSome then some (false, node key mask none kid0 kid1) else none
      else if root then none
      else some (true, kid0)
    else if kid0.goesAfter handle.1 handle.2 then
      (kid0.removeBelow handle false).map fun r =>
        if r.1 then tidy root key mask value r.2 kid1 else (false, node key mask value r.2 kid1)
    else if kid1.goesAfter handle.1 handle.2 then
      (kid1.removeBelow handle false).map fun r =>
        if r.1 then tidy root key mask value kid0 r.2 else (false, node key mask value kid0 r.2)
    else none

/-- `handle->value` -/
def valueAt (handle : Handle n) : Node n V → Option V
  | null => none
  | node key mask value kid0 kid1 =>
    if (key, mask) = handle then value
    else if kid0.goesAfter handle.1 handle.2 then kid0.valueAt handle
    else if kid1.goesAfter handle.1 handle.2 then kid1.valueAt handle
    else none

/-- The value that was there, and the trie without it. -/
def remove (handle : Handle n) (head : Node n V) : Option (Option V × Node n V) :=
  (head.removeBelow handle true).map fun r => (head.valueAt handle, r.2)

/-- `remove(key)` -/
def removeKey (key : BitVec n) (head : Node n V) : Option (Option V × Node n V) := match head.lookupHandle key with
  | none => some (none, head)
  | some handle => head.remove handle

/-! ### The whole trie -/

/-- `Trie()` -/
def head : Node n V := node 0 0 none null null

def clear : Node n V → Node n V
  | null => null
  | node key mask value _ _ => node key mask value null null

inductive Op (n : Nat) (V : Type) where
  | insert (key : BitVec n) (width : Nat) (val : V)
  | lookup (key : BitVec n)
  | remove (handle : Handle n)
  | removeKey (key : BitVec n)
  | clear

inductive Reply (n : Nat) (V : Type) where
  | handle (h : Handle n)
  | value (v : Option V)
  | done

def step : Op n V → Node n V → Option (Reply n V × Node n V)
  | .insert key width val, t => (t.insert key width val).map fun r => (.handle r.1, r.2)
  | .lookup key, t => some (.value (t.lookup key), t)
  | .remove handle, t => (t.remove handle).map fun r => (.value r.1, r.2)
  | .removeKey key, t => (t.removeKey key).map fun r => (.value r.1, r.2)
  | .clear, t => some (.done, t.clear)

end Node

end CS330.Gem5
