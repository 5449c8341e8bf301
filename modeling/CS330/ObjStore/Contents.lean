import CS330.ObjStore.Beside
import CS330.ObjStore.Runs
import CS330.ObjStore.Turns
import CS330.Spec.Positions

/-! What an object holds, and calls that come back.

A call comes back when the pages it asks for lie unused ahead of the cursor (`Affords`), as
they always do in the uncached build, and stays inside its buffers. Its effect on the files
is told apart from the calls before it: a write that found its blocks changes them as `Files`
says, whatever failed earlier (`step_write_files`). -/
namespace CS330.ObjStore
open Bytes Spec

/-- The pages that the call asks for are unused: it takes no mutex twice. -/
def Affords (build : Build) (op : Op) (s : State) : Prop := Unused (demand build op s) s

/-- No allocation failed between the two states. -/
def Found (s t : State) : Prop := Emits (fun e => e ≠ .newDatablock (-1)) s t

section Calls
variable {build : Build} {op : Op} {r : Ret} {x : Nat} {s t : State}

theorem affords_uncached (hop : op ≠ .remount) (s : State) : Affords .uncached op s := by
  have hzero : demand .uncached op s = 0 := by
    unfold demand
    cases h : exec .uncached op s with
    | none => rfl
    | some q =>
      show pageCalls q.2.log - pageCalls s.log = 0
      rw [exec_uncached h hop, Nat.sub_self]
  intro i hi
  rw [hzero] at hi
  exact absurd hi (Nat.not_lt_zero i)

theorem Affords.step (h : Affords build op s) (hexec : exec build op s = some (r, t)) (hop : op ≠ .remount)
    (hreg : op.Regular) (hs : Calling s) : ObjStore.step build op s = some (r, t) ∧ Calling t := by
  have hheld := (exec_free_iff hexec hop hs.free).mpr h
  have hcall : Calling t := ⟨hheld, exec_noFault hexec hop hreg (.of_held hheld) hs.noFault⟩
  exact ⟨step_some.mpr ⟨hexec, hcall.returned⟩, hcall⟩

theorem Affords.step_read {id size : Int} {offset : Nat} (h : Affords build (.read id size offset) s)
    (hreg : (Op.read id size offset).Regular) (hs : Sound build s) (hcall : Calling s) :
    ∃ t, ObjStore.step build (.read id size offset) s = some ((filesOf s).read id size offset, t) := by
  obtain ⟨hstep, hret⟩ := h.step rfl nofun hreg hcall
  rw [(objstoreRead_spec hs hret.live).1] at hstep
  exact ⟨_, hstep⟩

theorem taken_whole {data : List UInt8} {offset : Nat} (hend : offset + data.length ≤ 16777216) :
    Files.taken data offset = data.length := by
  rw [Files.taken_eq (by omega) (by omega)]
  omega

theorem regular_write (hx : x < 1000000) {data : List UInt8} {offset : Nat} (ha : offset % 4096 = 0)
    (hend : offset + data.length ≤ 16777216) : (Op.write (indexToID x) data offset).Regular :=
  ⟨not_irregular.mpr ⟨ha, by omega⟩, by rwa [idToIndex_indexToID], by omega⟩

/-- A write to a block-aligned range comes back with its size. -/
theorem Affords.step_write {data : List UInt8} {offset : Nat}
    (h : Affords build (.write (indexToID x) data offset) s) (hs : Sound build s) (hcall : Calling s)
    (hx : LiveSlot s x) (ha : offset % 4096 = 0) (hend : offset + data.length ≤ 16777216) :
    ∃ t, ObjStore.step build (.write (indexToID x) data offset) s = some (.val data.length, t) ∧ Calling t := by
  obtain ⟨owner, hown⟩ := hs.owned
  have hreg := regular_write (hown.slot x hx).1 ha hend
  obtain ⟨hstep, hcall⟩ := h.step rfl nofun hreg hcall
  have hret := (objstoreWrite_ret hs hreg (two_le_indexToID x) (by rwa [idToIndex_indexToID]) hcall.live).1
  rw [hret, taken_whole hend] at hstep
  exact ⟨_, hstep, hcall⟩

theorem Found.of_grows (h : Emits (fun _ => True) s t) (hf : ¬ Failed t) : Found s t := by
  obtain ⟨new, hlog, -⟩ := h
  refine ⟨new, hlog, fun e he heq => hf ?_⟩
  rw [Failed, hlog, ← heq]
  exact List.mem_append_left _ he

theorem Found.of_step (h : step build op s = some (r, t)) (hop : op ≠ .remount) (hf : ¬ Failed t) : Found s t :=
  .of_grows (exec_steady (step_some.mp h).1 hop).grows hf

theorem emits_after {P : Event → Prop} {t₀ : State} : Emits P s (t₀.after s.log) ↔ ∀ e ∈ t₀.log, P e := by
  constructor
  · rintro ⟨new, hlog, hnew⟩
    obtain rfl : t₀.log = new := List.append_cancel_right hlog
    exact hnew
  · exact fun h => ⟨t₀.log, rfl, h⟩

theorem Found.forget {t₀ : State} (h : Found s (t₀.after s.log)) : ¬ Failed t₀ :=
  fun hmem => emits_after.mp h _ hmem rfl

/-- A write, and what it did to the files. -/
theorem step_write_files {id : Int} {data : List UInt8} {offset : Nat} (hs : Sound build s) (hcall : Calling s)
    (hreg : (Op.write id data offset).Regular) (hstep : step build (.write id data offset) s = some (r, t))
    (hfound : Found s t) : (r, filesOf t) = (filesOf s).write id data offset := by
  obtain ⟨t₀, hstep₀, rfl⟩ := step_write_forget s hcall hstep
  obtain ⟨hexec, hret⟩ := step_some.mp hstep₀
  obtain ⟨rfl, rfl⟩ := Prod.mk.inj (Option.some.inj hexec)
  obtain ⟨hinv, owner, hown⟩ := hs
  exact objstoreWrite_spec ⟨hinv.forget, owner, hown.forget⟩ hreg hret.1 hfound.forget

/-- A write that found its blocks, told by the object's size and tree. -/
theorem step_write_tree {r : Ret} {data : List UInt8} {offset : Nat} (hs : Sound build s) (hcall : Calling s)
    (hx : LiveSlot s x) (ha : offset % 4096 = 0) (hend : offset + data.length ≤ 16777216)
    (hstep : step build (.write (indexToID x) data offset) s = some (r, t)) (hfound : Found s t) :
    LiveSlot t x ∧ (t.obj x).size = (offset + data.length : Nat) ∧
      treeOf t x = (treeOf s x).write (bufferOf data) data.length offset := by
  obtain ⟨owner, hown⟩ := hs.owned
  have hfiles := congrArg Prod.snd
    (step_write_files hs hcall (regular_write (hown.slot x hx).1 ha hend) hstep hfound)
  rw [Files.write_live (two_le_indexToID x) (by rw [idToIndex_indexToID, filesOf_live hx]), taken_whole hend,
    idToIndex_indexToID] at hfiles
  have hfile : filesOf t x = _ := (congrFun hfiles x).trans (Function.update_self ..)
  have hlive := (filesOf_eq_some.mp hfile).1
  rw [filesOf_live hlive, Option.some.injEq, File.write, File.mk.injEq] at hfile
  exact ⟨hlive, hfile.1.trans (Int.natCast_add _ _).symm, hfile.2⟩

end Calls

/-! ### Reading an object back -/

/-- The object holds `V`, with no block missing. -/
def Contains (s : State) (x : Nat) (V : List UInt8) : Prop := ∃ f, filesOf s x = some f ∧ f.Holds V

section ReadsBack
variable {build : Build} {x : Nat} {V W : List UInt8} {s t : State}

theorem Contains.live (h : Contains s x V) : LiveSlot s x := by
  obtain ⟨f, hf, -⟩ := h
  exact (filesOf_eq_some.mp hf).1

theorem Contains.holds (h : Contains s x V) : File.Holds ⟨(s.obj x).size, treeOf s x⟩ V := by
  have hx := h.live
  obtain ⟨f, hf, hV⟩ := h
  rw [filesOf_live hx] at hf
  rwa [Option.some.inj hf]

end ReadsBack

end CS330.ObjStore
