import CS330.ObjStore.Ops
import CS330.Spec.Tree

/-! The store as its callers see it: files in numbered slots.

`Files` says what reads, writes and measurements return and change, with no
blocks, pages or disk. It is the same for both builds. -/
namespace CS330.Spec
open ObjStore Bytes

structure File where
  size : Int
  tree : Tree

namespace File

def new : File := ⟨0, Tree.empty⟩

/-- A read is cut down to what the file has from `offset` on. -/
def read (f : File) (size : Int) (offset : Nat) : Int × List UInt8 :=
  f.tree.readAt (if f.size - offset < size then int32 (f.size - offset) else size) offset

/-- The file after a write that found all its blocks: it ends where the write ends. -/
def write (f : File) (buf : Buffer) (size : Int) (offset : Nat) : File :=
  ⟨offset + size, f.tree.write buf size offset⟩

end File

abbrev Files := Nat → Option File

namespace Files

def lookup (F : Files) (id : Int) : Option File := if id < 2 then none else F (idToIndex id)

def read (F : Files) (id size : Int) (offset : Nat) : Ret :=
  match F.lookup id with
  | none => .data (-1) []
  | some f => .data (f.read size offset).1 (f.read size offset).2

def stat (F : Files) (id : Int) : Ret :=
  match F.lookup id with
  | none => .stat (-1) 0 0
  | some f => .stat 0 f.size f.tree.blocks

/-- How many of the bytes a write takes. -/
def taken (data : List UInt8) (offset : Nat) : Int := clipWrite (int32 data.length) offset

def write (F : Files) (id : Int) (data : List UInt8) (offset : Nat) : Ret × Files :=
  match F.lookup id with
  | none => (.val (-1), F)
  | some f => (.val (taken data offset), Function.update F (idToIndex id)
      (some (f.write (bufferOf data) (taken data offset) offset)))

theorem lookup_eq_some {F : Files} {id : Int} {f : File} :
    F.lookup id = some f ↔ 2 ≤ id ∧ F (idToIndex id) = some f := by
  unfold lookup
  split
  · simp only [reduceCtorEq, false_iff]
    omega
  · exact (and_iff_right (by omega)).symm

section Live
variable {F : Files} {id : Int} {f : File} (hid : 2 ≤ id) (hf : F (idToIndex id) = some f)
include hid hf

theorem lookup_live : F.lookup id = some f := lookup_eq_some.mpr ⟨hid, hf⟩

theorem read_live (size : Int) (offset : Nat) :
    F.read id size offset = .data (f.read size offset).1 (f.read size offset).2 := by
  rw [read, lookup_live hid hf]

theorem stat_live : F.stat id = .stat 0 f.size f.tree.blocks := by
  rw [stat, lookup_live hid hf]

theorem write_live (data : List UInt8) (offset : Nat) : F.write id data offset =
    (.val (taken data offset), Function.update F (idToIndex id)
      (some (f.write (bufferOf data) (taken data offset) offset))) := by
  rw [write, lookup_live hid hf]

end Live

theorem taken_eq {data : List UInt8} {offset : Nat} (hlen : data.length < 2147483648)
    (hoff : offset ≤ 16777216) : taken data offset = min (data.length : Int) (16777216 - offset) := by
  unfold taken clipWrite
  rw [int32_eq (x := (data.length : Int)) (by omega) (by omega)]
  split
  · rw [int32_eq (by omega) (by omega)]
    omega
  · omega

/-- Every file is at most as large as its tree can hold. -/
def Bounded (F : Files) : Prop := ∀ x f, F x = some f → 0 ≤ f.size ∧ f.size ≤ 16777216

end Files

/-- What an operation may return and do to the files. Which slot a key has is left to
the directory. -/
inductive FileStep : Op → Files → Ret → Files → Prop
  | read (F : Files) (id size : Int) (offset : Nat) :
      FileStep (.read id size offset) F (F.read id size offset) F
  | stat (F : Files) (id : Int) : FileStep (.stat id) F (F.stat id) F
  | write (F : Files) (id : Int) (data : List UInt8) (offset : Nat) :
      FileStep (.write id data offset) F (F.write id data offset).1 (F.write id data offset).2
  | find (F : Files) (key : Key) (v : Int) : FileStep (.find key) F (.val v) F
  | createFails (F : Files) (key : Key) : FileStep (.create key) F (.val (-1)) F
  | create (F : Files) (key : Key) (x : Nat) : x < 1000000 → F x = none →
      FileStep (.create key) F (.val (indexToID x)) (Function.update F x (some File.new))
  | destroyFails (F : Files) (key : Key) : FileStep (.destroy key) F (.val (-1)) F
  | destroy (F : Files) (key : Key) (x : Nat) : F x ≠ none →
      FileStep (.destroy key) F (.val 0) (Function.update F x none)
  | renameFails (F : Files) (key newname : Key) : FileStep (.rename key newname) F (.val (-1)) F
  | rename (F : Files) (key newname : Key) (z x : Nat) : F z ≠ none → F x = none → x < 1000000 →
      FileStep (.rename key newname) F (.val (indexToID x))
        (Function.update (Function.update F x (F z)) z none)
  | remount (F : Files) : FileStep .remount F (.val 0) F

/-- A property of single files, kept by writes and true of new files, holds of all. -/
theorem FileStep.all {P : File → Prop} {op : Op} {r : Ret} {F G : Files} (h : FileStep op F r G)
    (hnew : P File.new) (hwrite : ∀ id data offset f, op = .write id data offset → F.lookup id = some f →
      P f → P (f.write (bufferOf data) (Files.taken data offset) offset))
    (hF : ∀ x f, F x = some f → P f) : ∀ x f, G x = some f → P f := by
  have hupdate : ∀ {F : Files} {x : Nat} {o : Option File}, (∀ y f, F y = some f → P f) →
      (∀ f, o = some f → P f) → ∀ y f, Function.update F x o y = some f → P f := by
    intro F x o hF ho y f hy
    by_cases hyx : y = x
    · rw [hyx, Function.update_self] at hy
      exact ho f hy
    · rw [Function.update_of_ne hyx] at hy
      exact hF y f hy
  cases h with
  | write _ id data offset =>
    unfold Files.write
    cases hl : F.lookup id with
    | none => exact hF
    | some f =>
      refine hupdate hF fun g hg => ?_
      rw [← Option.some.inj hg]
      exact hwrite id data offset f rfl hl (hF _ f (Files.lookup_eq_some.mp hl).2)
  | create _ key x _ _ => exact hupdate hF fun g hg => by cases hg; exact hnew
  | destroy _ key x _ => exact hupdate hF fun g hg => by cases hg
  | rename _ key newname z x _ _ _ =>
    exact hupdate (hupdate hF fun g hg => hF z g hg) fun g hg => by cases hg
  | _ => exact hF

end CS330.Spec
