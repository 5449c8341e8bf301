import CS330.ObjStore.Files

/-! An object's contents, with no block numbers.

A tree has up to four tables of 1024 entries. An object's blocks are counted, read
and overwritten here as the store promises them, wherever it keeps them: `byte` is
one byte of a read, `write` the tree after a write that found all its blocks. -/
namespace CS330.Spec
open ObjStore

abbrev Table := Nat → Option Block

abbrev Tree := Nat → Option Table

/-! ### Where the bytes of a request lie -/

/-- The pointer and the entry a request at `offset` starts at. -/
def firstOf (offset : Nat) : Nat := offset / 4096 / 1024

def entryOf (offset : Nat) : Nat := offset / 4096 % 1024

/-- The entry a request starts from below pointer `j`, when it starts at pointer `i`. -/
def startAt (i entry j : Nat) : Nat := if j = i then entry else 0

/-- The bytes of the pages that hold `size` bytes. -/
def capOf (size : Int) : Nat := (auxPages size * 4096).toNat

/-- The caller's bytes, with zeros behind them. -/
def padded (buf : Buffer) (size : Int) : Buffer := fun k => if k < size.toNat then buf k else 0

theorem startBlock_small {offset : Nat} (h : offset ≤ 16777216) :
    startBlock offset = some (offset / 4096) := by
  unfold startBlock
  dsimp only
  rw [Nat.mod_eq_of_lt (by omega), if_pos (by omega)]

theorem startAt_self (i entry : Nat) : startAt i entry i = entry := if_pos rfl

theorem startAt_next {i entry j : Nat} (h : i + 1 ≤ j) : startAt (i + 1) 0 j = startAt i entry j := by
  unfold startAt
  rw [if_neg (show j ≠ i by omega)]
  split <;> rfl

theorem startAt_le {i entry : Nat} (h : entry ≤ 1024) (j : Nat) : startAt i entry j ≤ 1024 := by
  unfold startAt
  split <;> omega

theorem firstOf_eq (offset : Nat) : firstOf offset = offset / 4194304 := Nat.div_div_eq_div_mul ..

theorem entryOf_eq (offset : Nat) : entryOf offset = offset % 4194304 / 4096 := (Nat.mod_mul_right_div_self ..).symm

theorem firstOf_lt {offset : Nat} (h : offset < 16777216) : firstOf offset < 4 := by
  rw [firstOf_eq]
  omega

theorem entryOf_lt (offset : Nat) : entryOf offset < 1024 := Nat.mod_lt _ (by decide)

theorem capOf_spec {size : Int} (h : 0 ≤ size) :
    size ≤ capOf size ∧ (capOf size : Int) < size + 4096 ∧ capOf size % 4096 = 0 := by
  unfold capOf auxPages
  rw [Int.tmod_eq_emod_of_nonneg h, Int.tdiv_eq_ediv_of_nonneg h]
  split <;> omega

theorem capOf_le {size : Int} {m : Nat} (h₀ : 0 ≤ size) (hm : m % 4096 = 0) (h : size ≤ m) :
    capOf size ≤ m := by
  have := capOf_spec h₀
  omega

/-! ### Trees -/

namespace Tree

def empty : Tree := fun _ => none

def entry (T : Tree) (j k : Nat) : Option Block := (T j).bind fun t => t k

/-- A read stops at the first entry that is missing. -/
def Reads (T : Tree) (j start k : Nat) : Prop := ∀ i, i < k + 1 → start ≤ i → (T.entry j i).isSome

instance (T : Tree) (j start k : Nat) : Decidable (T.Reads j start k) :=
  inferInstanceAs (Decidable (∀ i, i < k + 1 → _))

/-- Byte `a` of a read of `size` bytes at `offset`. -/
def byte (T : Tree) (size : Int) (offset a : Nat) : UInt8 :=
  let j := firstOf offset + a / 4194304
  let start := startAt (firstOf offset) (entryOf offset) j
  let k := start + a % 4194304 / 4096
  if j < 4 ∧ k < 1024 ∧ a / 4096 * 4096 < capOf size ∧ T.Reads j start k then
    (T.entry j k).getD zeroBlock (Fin.ofNat 4096 a)
  else 0

def read (T : Tree) (size : Int) (offset : Nat) : List UInt8 :=
  (List.range size.toNat).map fun i => T.byte size offset (i + offset % 4096)

/-- What a read returns, the start block being an `int`. -/
def readAt (T : Tree) (size : Int) (offset : Nat) : Int × List UInt8 :=
  match startBlock offset with
  | none => (-1, [])
  | some start => (size, T.read size (start * 4096 + offset % 4096))

/-- How many of the `n` indices from `i` on satisfy `p` before the first that does not. -/
def prefixLength (p : Nat → Bool) : Nat → Nat → Nat
  | 0, _ => 0
  | n + 1, i => if p i then prefixLength p n (i + 1) + 1 else 0

/-- The blocks of the `n` tables from `j` on before the first that is missing. -/
def blocksFrom (T : Tree) : Nat → Nat → Nat
  | 0, _ => 0
  | n + 1, j =>
    if (T j).isSome then prefixLength (fun k => (T.entry j k).isSome) 1024 0 + blocksFrom T n (j + 1) else 0

def blocks (T : Tree) : Nat := T.blocksFrom 4 0

/-- The tree after a write of `size` bytes at `offset`: what lies behind is cut off. -/
def write (T : Tree) (buf : Buffer) (size : Int) (offset : Nat) : Tree := fun j =>
  let first := firstOf offset
  let start := startAt first (entryOf offset) j
  if j < first then T j
  else if 4 ≤ j ∨ size ≤ ((j - first) * 4194304 : Nat) then none
  else some fun k =>
    if k < start then T.entry j k
    else if k < 1024 ∧ (j - first) * 4194304 + (k - start) * 4096 < capOf size then
      some ((padded buf size).page ((j - first) * 4194304 + (k - start) * 4096))
    else none

end Tree

end CS330.Spec
