import CS330.ObjStore.Shared

/-! How the code uses its mutexes.

`Stage` is where a thread stands: the mutex it holds, and the block or slot that it has seen free
under that mutex and not marked yet. `Stage.Allows` is the discipline: a thread takes one mutex
at a time, it looks for a free block or slot with the right mutex in hand, it marks what it found
before it gives the mutex back, and it writes to the bitmap under the bitmap's mutex only. All
calls keep it, whatever their loads return. -/
namespace CS330.ObjStore
open Threads Prog

structure Stage where
  held : Option Mutex
  bit : Option Int
  slot : Option Nat
  deriving DecidableEq

namespace Stage

/-- Between calls. -/
def idle : Stage := ⟨none, none, none⟩

/-- With a mutex in hand and nothing seen. -/
def holding (m : Mutex) : Stage := ⟨some m, none, none⟩

def Allows (st : Stage) : Act → Prop
  | .lock _ => st.held = none
  | .unlock m => st = holding m
  | .probeId _ _ => st = holding .createObjectLock
  | .storeId x v => v = 0 ∨ st = ⟨some .createObjectLock, none, some x⟩
  | .probeBitmap _ => st = holding .blockBitmapMutex
  | .storeBitmap b v => st = holding .blockBitmapMutex ∨ st = ⟨some .blockBitmapMutex, some b, none⟩ ∧ v ≠ 0
  | _ => True

def after (st : Stage) : (a : Act) → a.Res → Stage
  | .lock m, _ => {st with held := some m}
  | .unlock _, _ => {st with held := none}
  | .probeId x _, (v : Int) => if v = 0 then {st with slot := some x} else st
  | .storeId _ v, _ => if v = 0 then st else {st with slot := none}
  | .probeBitmap b, (v : Nat) => if v = 0 then {st with bit := some b} else st
  | .storeBitmap _ _, _ => {st with bit := none}
  | _, _ => st

theorem after_held {st : Stage} {a : Act} {b : a.Res} (hlock : ∀ m, a ≠ .lock m) (hunlock : ∀ m, a ≠ .unlock m) :
    (st.after a b).held = st.held := by
  cases a with
  | lock m => exact absurd rfl (hlock m)
  | unlock m => exact absurd rfl (hunlock m)
  | probeId x key =>
    simp only [after]
    split_ifs <;> rfl
  | probeBitmap c =>
    simp only [after]
    split_ifs <;> rfl
  | storeId x v =>
    simp only [after]
    split_ifs <;> rfl
  | _ => rfl

/-- Whatever the action returns. -/
def rel : Rel signature Stage := fun a st b st' => st' = st.after a b

end Stage

/-- The program keeps the discipline from `st` on and returns with `Q`. -/
@[irreducible]
def Keeps {α : Type} (Q : α → Stage → Prop) (p : Code α) (st : Stage) : Prop :=
  p.wp Stage.rel (fun a st => st.Allows a) Q st

/-- It returns in the stage it was called in. -/
def Balanced {α : Type} (p : Code α) (st : Stage) : Prop := Keeps (fun _ st' => st' = st) p st

section Rules
variable {α β : Type} {p q : Code α} {f : α → Code β} {st : Stage}

theorem keeps_iff {Q : α → Stage → Prop} :
    Keeps Q p st ↔ p.wp Stage.rel (fun a st => st.Allows a) Q st := by
  rw [Keeps]

theorem Keeps.ret {Q : α → Stage → Prop} {a : α} (h : Q a st) : Keeps Q (pure a) st := keeps_iff.mpr h

theorem Keeps.act {a : Act} {Q : a.Res → Stage → Prop} (hok : st.Allows a) (hQ : ∀ b, Q b (st.after a b)) :
    Keeps Q (.act a .ret) st :=
  keeps_iff.mpr ⟨hok, fun b _ ht => by subst ht; exact hQ b⟩

theorem Keeps.after {P : α → Stage → Prop} {Q : β → Stage → Prop} (hp : Keeps P p st)
    (hf : ∀ a st', P a st' → Keeps Q (f a) st') : Keeps Q (p >>= f) st :=
  keeps_iff.mpr (wp_bind.mpr ((keeps_iff.mp hp).mono fun a st' h => keeps_iff.mp (hf a st' h)))

theorem Keeps.first {a : Act} {f : a.Res → Code β} {Q : β → Stage → Prop} (hok : st.Allows a)
    (hf : ∀ b, Keeps Q (f b) (st.after a b)) : Keeps Q ((Prog.act a .ret : Code a.Res) >>= f) st :=
  Keeps.after (Keeps.act (Q := fun b st' => st' = st.after a b) hok fun _ => rfl) fun b _ h => h ▸ hf b

/-- What comes after a balanced program. -/
theorem Balanced.then {Q : β → Stage → Prop} (hp : Balanced p st) (hf : ∀ a, Keeps Q (f a) st) : Keeps Q (p >>= f) st :=
  Keeps.after hp fun a _ hst => by subst hst; exact hf a

theorem Balanced.ret (a : α) : Balanced (pure a) st := Keeps.ret rfl

theorem Balanced.bind (hp : Balanced p st) (hf : ∀ a, Balanced (f a) st) : Balanced (p >>= f) st := hp.then hf

/-- An action that is allowed and changes nothing. -/
theorem Balanced.act (a : Act) (hok : st.Allows a) (hafter : ∀ b, st.after a b = st) : Balanced (.act a .ret : Code a.Res) st :=
  Keeps.act hok hafter

end Rules

namespace Atomic
open Stage

section Plain
variable {st : Stage}

end Plain

section Mutexes
variable {α β : Type} {Q : β → Stage → Prop} {m : Mutex}

end Mutexes

/-! ### The directory -/

section Directory
variable {st : Stage} {key : Key}

end Directory

/-! ### Blocks -/

section Files
variable {st : Stage}

end Files

end Atomic

end CS330.ObjStore

namespace CS330.Objfs
open ObjStore Atomic Threads Prog

end CS330.Objfs
