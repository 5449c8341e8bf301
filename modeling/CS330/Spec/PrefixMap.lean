import Mathlib.Logic.Function.Basic
import CS330.Gem5.Prefixes

/-! A map from prefixes to values.

This is what a trie is for: values are put under prefixes and taken away again, and a key finds the
value of the shortest prefix it starts with. -/
namespace CS330.Gem5

abbrev PrefixMap (n : Nat) (V : Type) := Handle n → Option V

namespace PrefixMap
open Node

variable {n : Nat} {V : Type}

def empty : PrefixMap n V := fun _ => none

/-- The first bits of a key. -/
def front (key : BitVec n) (width : Nat) : Handle n := (key &&& TopBits.mask n width, TopBits.mask n width)

/-- The shortest prefix of the key and its value, or nothing if no prefix of the key is there. -/
def Shortest (M : PrefixMap n V) (key : BitVec n) : Option (Handle n × V) → Prop
  | some (h, v) => M h = some v ∧ Covers h key ∧ ∀ h' v', M h' = some v' → Covers h' key → h.2 &&& h'.2 = h.2
  | none => ∀ h v, M h = some v → ¬ Covers h key

def Step : Op n V → PrefixMap n V → Reply n V → PrefixMap n V → Prop
  | .insert key width val, M, r, M' =>
    r = .handle (front key width) ∧ M' = Function.update M (front key width) (some val)
  | .lookup key, M, r, M' => ∃ found, Shortest M key found ∧ r = .value (found.map Prod.snd) ∧ M' = M
  | .remove h, M, r, M' => r = .value (M h) ∧ M' = Function.update M h none
  | .removeKey key, M, r, M' => ∃ found, Shortest M key found ∧ r = .value (found.map Prod.snd) ∧
      M' = match found with
        | some (h, _) => Function.update M h none
        | none => M
  | .clear, _, r, M' => r = .done ∧ M' = empty

/-- A prefix is inserted once before it is removed, and no prefix is empty. -/
def Permits : Op n V → PrefixMap n V → Prop
  | .insert key width _, M => 0 < width ∧ M (front key width) = none
  | .remove h, M => M h ≠ none
  | _, _ => True

end PrefixMap

end CS330.Gem5
