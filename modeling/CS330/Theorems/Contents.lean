import CS330.ObjStore.Contents
import CS330.ObjStore.Offsets
import CS330.ObjStore.Standing
import CS330.ObjStore.Unaligned
import Mathlib.Data.List.GetD

/-! What writes leave in an object and what reads get out of it, wherever they start. -/
namespace CS330.ObjStore
open Bytes Machine Spec

/-! ### Writes that start on a block boundary -/

section Aligned
variable {build : Build} {x : Nat} {s t : State}

/-- A write at the start stores the whole object. -/
theorem step_write_zero {r : Ret} {V : List UInt8} (hs : Sound build s) (hcall : Calling s)
    (hx : LiveSlot s x) (hV : V.length ≤ 16777216)
    (hstep : step build (.write (indexToID x) V 0) s = some (r, t)) (hfound : Found s t) :
    filesOf t x = some ⟨V.length, Tree.ofBytes (bufferOf V) V.length⟩ := by
  obtain ⟨hlive, hsize, htree⟩ := step_write_tree hs hcall hx rfl (by omega) hstep hfound
  rw [filesOf_live hlive, hsize, htree, Tree.write_zero, Nat.zero_add]

end Aligned

/-- The object holds `V` as one write at the start of an object left it. -/
def StoredWhole (build : Build) (n : Nat) (s : State) (x : Nat) (V : List UInt8) : Prop :=
  ∃ s₀ x₀ r s₁, Reaches (step build) (Orderly build) (mount (zeroDisk n)) s₀ ∧ LiveSlot s₀ x₀ ∧
    step build (.write (indexToID x₀) V 0) s₀ = some (r, s₁) ∧ Found s₀ s₁ ∧ filesOf s x = filesOf s₁ x₀

theorem StoredWhole.file {build : Build} {n : Nat} (hn : n ≤ bitmapSize) {s : State} {x : Nat} {V : List UInt8}
    (h : StoredWhole build n s x V) (hV : V.length ≤ 16777216) :
    filesOf s x = some ⟨V.length, Tree.ofBytes (bufferOf V) V.length⟩ := by
  obtain ⟨s₀, x₀, r, s₁, hreach, hx₀, hstep, hfound, hfile⟩ := h
  have hs := reaches_standing hn hreach
  rw [hfile, step_write_zero hs.sound hs.calling hx₀ hV hstep hfound]

theorem StoredWhole.contains {build : Build} {n : Nat} (hn : n ≤ bitmapSize) {s : State} {x : Nat} {V : List UInt8}
    (h : StoredWhole build n s x V) (hV : V.length ≤ 16777216) : Contains s x V :=
  ⟨_, h.file hn hV, File.ofBytes_holds hV⟩

section Unaligned
variable {build : Build} {x : Nat} {s : State}

/-- Where there are bytes there is a table. -/
theorem Contains.pointer {V : List UInt8} (h : Contains s x V) {p : Nat} (hp : p < V.length) :
    pointer s x (p / 4194304) ≠ -1 := by
  have hblock := h.holds.present p hp
  intro hnone
  rw [Tree.HasBlock, treeOf_entry, if_neg fun hin => hin.2.2 (if_pos hnone)] at hblock
  cases hblock

end Unaligned

section Reads
variable {build : Build} {x : Nat} {s : State}

end Reads

end CS330.ObjStore
