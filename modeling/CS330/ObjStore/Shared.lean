import CS330.ObjStore.Atomic

/-! The memory that threads share.

The threads take their actions one after the other, in any order. A thread that asks for a mutex
which is taken waits; only the thread that holds a mutex gives it back. Beside the memory stand
the holder of every mutex, a log for each thread, and the deeds of all threads, newest first:
what they have seen free and taken, and what they have given back. The code reads neither the
logs nor the deeds. -/
namespace CS330.ObjStore
open Threads

inductive Deed where
  /-- `get_new_datablock` saw that the block is free. -/
  | took (b : Int)
  /-- The block's entry of the bitmap was set to 0. -/
  | cleared (b : Int)
  /-- `create_object` saw that the slot is free and will fill it for the key. -/
  | filled (x : Nat) (key : Key)
  /-- The slot's id was set to 0. -/
  | emptied (x : Nat)
  /-- `create_object` saw that the slot is taken. -/
  | passed (x : Nat)
  deriving DecidableEq

/-- The deed in an action and its result. -/
def deed : (a : Act) → a.Res → Option Deed
  | .probeBitmap b, (v : Nat) => if v = 0 then some (.took b) else none
  | .storeBitmap b v, _ => if v = 0 then some (.cleared b) else none
  | .probeId x key, (v : Int) => if v = 0 then some (.filled x key) else some (.passed x)
  | .storeId x v, _ => if v = 0 then some (.emptied x) else none
  | _, _ => none

structure Shared (ι : Type) where
  mem : State
  holder : Mutex → Option ι
  log : ι → List Event
  deeds : List (ι × Deed)

namespace Shared
variable {ι : Type}

/-- The threads start on a memory that no one holds a mutex of. -/
def start (s : State) : Shared ι := ⟨s, fun _ => none, fun _ => s.log, []⟩

/-- The memory with the log of one thread. -/
def seen (σ : Shared ι) (i : ι) : State := {σ.mem with log := σ.log i}

variable [DecidableEq ι]

/-- The mutexes after an action of thread `i`, or `none` if it has to wait. -/
def mutexes (i : ι) (holder : Mutex → Option ι) : Act → Option (Mutex → Option ι)
  | .lock m => if holder m = none then some (Function.update holder m (some i)) else none
  | .unlock m => if holder m = some i then some (Function.update holder m none) else none
  | _ => some holder

theorem mutexes_plain {i : ι} {holder : Mutex → Option ι} {a : Act} (hlock : ∀ m, a ≠ .lock m)
    (hunlock : ∀ m, a ≠ .unlock m) : mutexes i holder a = some holder := by
  cases a with
  | lock m => exact absurd rfl (hlock m)
  | unlock m => exact absurd rfl (hunlock m)
  | _ => rfl

/-- An action of thread `i`. -/
def act (i : ι) : Sem signature (Shared ι) := fun a σ =>
  (mutexes i σ.holder a).bind fun holder => (value a (σ.seen i)).map fun v =>
    (v, ⟨{effect a (σ.seen i) with log := σ.mem.log}, holder, Function.update σ.log i (effect a (σ.seen i)).log,
      ((deed a v).map (i, ·)).toList ++ σ.deeds⟩)

/-- What an action did. -/
structure Acted (i : ι) (a : Act) (b : a.Res) (σ τ : Shared ι) : Prop where
  holder : mutexes i σ.holder a = some τ.holder
  value : value a (σ.seen i) = some b
  mem : τ.mem = {effect a (σ.seen i) with log := σ.mem.log}
  log : τ.log = Function.update σ.log i (effect a (σ.seen i)).log
  deeds : τ.deeds = ((deed a b).map (i, ·)).toList ++ σ.deeds

theorem act_eq_some {i : ι} {a : Act} {b : a.Res} {σ τ : Shared ι} :
    act i a σ = some (b, τ) ↔ Acted i a b σ τ := by
  unfold act
  rw [Option.bind_eq_some_iff]
  constructor
  · rintro ⟨holder, hholder, h⟩
    obtain ⟨v, hv, heq⟩ := Option.map_eq_some_iff.mp h
    cases heq
    exact ⟨hholder, hv, rfl, rfl, rfl⟩
  · rintro ⟨hholder, hv, hmem, hlog, hdeeds⟩
    refine ⟨τ.holder, hholder, Option.map_eq_some_iff.mpr ⟨b, hv, ?_⟩⟩
    obtain ⟨mem, holder, log, deeds⟩ := τ
    cases hmem
    cases hlog
    cases hdeeds
    rfl

section Acted
variable {i j : ι} {a : Act} {b : a.Res} {σ τ : Shared ι} (h : Acted i a b σ τ)
include h

theorem Acted.seen_self : τ.seen i = effect a (σ.seen i) := by
  unfold seen
  rw [h.mem, h.log, Function.update_self]
  rfl

theorem Acted.seen_other (hj : j ≠ i) : τ.seen j = {effect a (σ.seen i) with log := σ.log j} := by
  have hlog : τ.log j = σ.log j := by rw [h.log, Function.update_of_ne hj]
  rw [seen, hlog, h.mem]

theorem Acted.mem_deeds {d : ι × Deed} : d ∈ τ.deeds ↔ (d.1 = i ∧ deed a b = some d.2) ∨ d ∈ σ.deeds := by
  obtain ⟨k, d⟩ := d
  rw [h.deeds, List.mem_append, Option.mem_toList, Option.map_eq_some_iff]
  refine or_congr_left ⟨?_, ?_⟩
  · rintro ⟨d', hd, heq⟩
    cases heq
    exact ⟨rfl, hd⟩
  · rintro ⟨rfl, hd⟩
    exact ⟨d, hd, rfl⟩

end Acted

end Shared

end CS330.ObjStore

namespace CS330.Objfs
open ObjStore Threads

/-- The calls as the actions of a client. -/
abbrev calls : Signature := ⟨Call, fun _ => Reply⟩

/-- A thread's program: it makes calls and looks at what they return. -/
abbrev Client := Prog calls

/-- Threads that start on a mounted store. -/
def threads {ι α : Type} (objfs : Defaults) (client : ι → Client α) (s : State) : Pool signature ι α (Shared ι) :=
  ⟨fun i => (client i).interp (callback objfs), Shared.start s⟩

end CS330.Objfs
