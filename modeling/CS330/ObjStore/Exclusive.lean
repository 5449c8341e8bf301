import CS330.ObjStore.Locks
import CS330.ObjStore.Owners

/-! What the mutexes protect.

Along every interleaving of threads that keep the discipline of `Stage`, a block or a slot that
is out, because it was in use at the start or because a thread has taken it since, is marked in
the memory, or the thread that has just taken it still holds the mutex. So no thread can see it
free. -/
namespace CS330.ObjStore
open Threads Prog

section Effect
variable (a : Act) (s : State)

/-- Only `storeBitmap` writes to the bitmap. -/
theorem effect_blockBitmap : (effect a s).blockBitmap = match a with
    | .storeBitmap b v => Function.update s.blockBitmap b v
    | _ => s.blockBitmap := by
  cases a with
  | writeBlock b addr buf =>
    unfold effect writeBlock
    dsimp only
    split_ifs <;> rfl
  | _ => rfl

/-- Only `storeId` writes to an id. -/
theorem effect_id (x : Nat) : ((effect a s).obj x).id = match a with
    | .storeId y v => if x = y then v else (s.obj x).id
    | _ => (s.obj x).id := by
  have hset : ∀ (y : Nat) (o : Object), o.id = (s.obj y).id → ((s.setObj y o).obj x).id = (s.obj x).id := by
    intro y o ho
    by_cases hx : x = y
    · subst hx
      rw [State.setObj_obj, Function.update_self, ho]
    · rw [State.setObj_obj, Function.update_of_ne hx]
  cases a with
  | storeId y v =>
    dsimp only [effect]
    split
    · rename_i hx
      subst hx
      rw [State.setObj_obj, Function.update_self]
    · rename_i hx
      rw [State.setObj_obj, Function.update_of_ne hx]
  | writeBlock b addr buf =>
    unfold effect writeBlock
    dsimp only
    split_ifs <;> rfl
  | storeSize y v => exact hset y _ rfl
  | storeKey y n c => exact hset y _ rfl
  | storePointer y j p => exact hset y _ rfl
  | resetPointer y j => exact hset y _ rfl
  | _ => rfl

end Effect

/-- Something that threads take and give back: the mutex that protects it, what a thread has seen
free and not marked yet, and the deeds in which it is given out and comes back. -/
structure Resource (K : Type) where
  mutex : Mutex
  pending : Stage → Option K
  InUse : State → K → Prop
  Gives : K → Deed → Prop
  Returns : K → Deed → Prop

namespace Resource

def blocks : Resource Int where
  mutex := .blockBitmapMutex
  pending := Stage.bit
  InUse s b := s.blockBitmap b ≠ 0
  Gives b d := d = .took b
  Returns b d := d = .cleared b

def slots : Resource Nat where
  mutex := .createObjectLock
  pending := Stage.slot
  InUse := LiveSlot
  Gives x d := ∃ key, d = .filled x key
  Returns x d := d = .emptied x

variable {ι K : Type}

/-- It is out: see `Threads.Out`. -/
abbrev Out (R : Resource K) (s₀ : State) (k : K) (deeds : List (ι × Deed)) : Prop :=
  Threads.Out (R.InUse s₀ k) (fun d => R.Gives k d.2) (fun d => R.Returns k d.2) deeds

abbrev Proper (R : Resource K) (s₀ : State) (k : K) (deeds : List (ι × Deed)) : Prop :=
  Threads.Proper (R.InUse s₀ k) (fun d => R.Gives k d.2) (fun d => R.Returns k d.2) deeds

end Resource

section Guarded
variable {ι K : Type}

/-- `s₀` is the memory at the start, `st` where the threads stand. -/
structure Guarded (R : Resource K) (s₀ : State) (st : ι → Stage) (σ : Shared ι) : Prop where
  pending : ∀ i k, R.pending (st i) = some k → (st i).held = some R.mutex
  marked : ∀ k, R.Out s₀ k σ.deeds → R.InUse σ.mem k ∨ ∃ i, R.pending (st i) = some k
  proper : ∀ k, R.Proper s₀ k σ.deeds

variable {R : Resource K} {s₀ : State} {st : ι → Stage} {σ τ : Shared ι} {i : ι} {k : K}

/-- The only thread with the mutex, if it has nothing pending, sees what is out as in use. -/
theorem Guarded.not_out (h : Guarded R s₀ st σ) (honly : ∀ j, (st j).held = some R.mutex → j = i)
    (hi : R.pending (st i) = none) (hfree : ¬ R.InUse σ.mem k) : ¬ R.Out s₀ k σ.deeds := by
  intro hout
  rcases h.marked k hout with hk | ⟨j, hj⟩
  · exact hfree hk
  · have hji := honly j (h.pending j k hj)
    subst hji
    rw [hi] at hj
    cases hj

variable [DecidableEq ι]

/-- What a step of thread `i` to stage `st'` has to keep to: with the mutex in hand it gives out
only what it sees free, and that is then pending; what is no longer pending is in use; and what
is no longer in use was given back. -/
theorem Guarded.step {st' : Stage} {new : Option Deed} (h : Guarded R s₀ st σ)
    (honly : (st i).held = some R.mutex → ∀ j, (st j).held = some R.mutex → j = i)
    (hdeeds : τ.deeds = (new.map (i, ·)).toList ++ σ.deeds)
    (hpending : ∀ k, R.pending st' = some k → st'.held = some R.mutex)
    (hmark : ∀ k, R.pending (st i) = some k → R.pending st' = some k ∨ R.InUse τ.mem k)
    (hgive : ∀ k d, new = some d → R.Gives k d → (st i).held = some R.mutex ∧ R.pending (st i) = none ∧
      ¬ R.InUse σ.mem k ∧ R.pending st' = some k)
    (hreturn : ∀ k, R.InUse σ.mem k → R.InUse τ.mem k ∨ ∃ d, new = some d ∧ R.Returns k d) :
    Guarded R s₀ (Function.update st i st') τ := by
  have hstill : ∀ k, R.Out s₀ k σ.deeds → (∀ d, new = some d → ¬ R.Returns k d) →
      R.InUse τ.mem k ∨ ∃ j, R.pending (Function.update st i st' j) = some k := by
    intro k hout hnot
    rcases h.marked k hout with hk | ⟨j, hj⟩
    · exact .inl ((hreturn k hk).resolve_right fun ⟨d, hd, hret⟩ => hnot d hd hret)
    · by_cases hji : j = i
      · subst hji
        rcases hmark k hj with hp | hu
        · exact .inr ⟨j, by rw [Function.update_self]; exact hp⟩
        · exact .inl hu
      · exact .inr ⟨j, by rw [Function.update_of_ne hji]; exact hj⟩
  refine ⟨fun j k hj => ?_, fun k hout => ?_, fun k => ?_⟩
  · by_cases hji : j = i
    · subst hji
      rw [Function.update_self] at hj ⊢
      exact hpending k hj
    · rw [Function.update_of_ne hji] at hj ⊢
      exact h.pending j k hj
  · cases new with
    | none =>
      rw [hdeeds] at hout
      exact hstill k hout fun d hd => by cases hd
    | some d =>
      rw [hdeeds] at hout
      rcases hout with hgives | ⟨hnot, hout⟩
      · exact .inr ⟨i, by rw [Function.update_self]; exact (hgive k d rfl hgives).2.2.2⟩
      · exact hstill k hout fun d' hd' => by cases hd'; exact hnot
  · rw [hdeeds]
    cases new with
    | none => exact h.proper k
    | some d =>
      refine ⟨fun hgives => ?_, h.proper k⟩
      obtain ⟨hheld, hnone, hfree, -⟩ := hgive k d rfl hgives
      exact h.not_out (honly hheld) hnone hfree

end Guarded

/-! ### The steps of the code -/

variable {ι : Type}

structure Exclusive (s₀ : State) (st : ι → Stage) (σ : Shared ι) : Prop where
  holder : ∀ m i, σ.holder m = some i ↔ (st i).held = some m
  blocks : Guarded .blocks s₀ st σ
  slots : Guarded .slots s₀ st σ

namespace Exclusive
variable {s₀ : State} {st : ι → Stage} {σ τ : Shared ι} {i : ι} {a : Act} {b : a.Res}

theorem start (s : State) : Exclusive s (fun _ : ι => Stage.idle) (Shared.start s) where
  holder _ _ := by simp [Shared.start, Stage.idle]
  blocks := ⟨fun _ _ h => by simp [Resource.blocks, Stage.idle] at h, fun _ h => .inl h, fun _ => trivial⟩
  slots := ⟨fun _ _ h => by simp [Resource.slots, Stage.idle] at h, fun _ h => .inl h, fun _ => trivial⟩

/-- One thread at a time holds a mutex. -/
theorem only (h : Exclusive s₀ st σ) {m : Mutex} (hi : (st i).held = some m) (j : ι) (hj : (st j).held = some m) :
    j = i :=
  Option.some.inj (((h.holder m j).mpr hj).symm.trans ((h.holder m i).mpr hi))

variable [DecidableEq ι]

theorem holder_step (h : Exclusive s₀ st σ) (hok : (st i).Allows a) (hact : Shared.Acted i a b σ τ) (m : Mutex)
    (j : ι) : τ.holder m = some j ↔ (Function.update st i ((st i).after a b) j).held = some m := by
  have hholder := hact.holder
  have plain : (∀ m', a ≠ .lock m') → (∀ m', a ≠ .unlock m') →
      (τ.holder m = some j ↔ (Function.update st i ((st i).after a b) j).held = some m) := by
    intro hlock hunlock
    rw [Shared.mutexes_plain hlock hunlock, Option.some.injEq] at hholder
    rw [← hholder, h.holder m j]
    by_cases hj : j = i
    · subst hj
      rw [Function.update_self, Stage.after_held hlock hunlock]
    · rw [Function.update_of_ne hj]
  have hother : j ≠ i → ((Function.update st i ((st i).after a b) j).held = some m ↔ σ.holder m = some j) := by
    intro hj
    rw [Function.update_of_ne hj]
    exact (h.holder m j).symm
  cases a with
  | lock m' =>
    simp only [Shared.mutexes, Option.ite_none_right_eq_some, Option.some.injEq] at hholder
    obtain ⟨hfree, hnew⟩ := hholder
    rw [← hnew]
    by_cases hj : j = i
    · subst hj
      have hnot : σ.holder m ≠ some j := by
        rw [Ne, h.holder m j, show (st j).held = none from hok]
        simp
      rw [Function.update_self]
      show _ ↔ some m' = some m
      by_cases hm : m = m'
      · subst hm
        simp
      · rw [Function.update_of_ne hm]
        simp [hnot, Ne.symm hm]
    · rw [hother hj]
      by_cases hm : m = m'
      · subst hm
        simp [hfree, Ne.symm hj]
      · rw [Function.update_of_ne hm]
  | unlock m' =>
    simp only [Shared.mutexes, Option.ite_none_right_eq_some, Option.some.injEq] at hholder
    obtain ⟨hmine, hnew⟩ := hholder
    rw [← hnew]
    by_cases hj : j = i
    · subst hj
      rw [Function.update_self]
      show _ ↔ none = some m
      by_cases hm : m = m'
      · subst hm
        simp
      · rw [Function.update_of_ne hm, h.holder m j, show st j = Stage.holding m' from hok]
        simp [Stage.holding, Ne.symm hm]
    · rw [hother hj]
      by_cases hm : m = m'
      · subst hm
        simp [hmine, Ne.symm hj]
      · rw [Function.update_of_ne hm]
  | _ => exact plain (by simp) (by simp)

/-- A resource that an action does not touch. -/
theorem Guarded.untouched {K : Type} {R : Resource K} {st' : Stage} {new : Option Deed} (h : Exclusive s₀ st σ)
    (hR : Guarded R s₀ st σ) (hdeeds : τ.deeds = (new.map (i, ·)).toList ++ σ.deeds)
    (hnew : ∀ k d, new = some d → ¬ R.Gives k d) (hpending : R.pending st' = R.pending (st i))
    (hheld : ∀ k, R.pending (st i) = some k → st'.held = (st i).held)
    (huse : ∀ k, R.InUse σ.mem k → R.InUse τ.mem k) : Guarded R s₀ (Function.update st i st') τ :=
  hR.step h.only hdeeds (fun k hk => (hheld k (hpending ▸ hk)).trans (hR.pending i k (hpending ▸ hk)))
    (fun _ hk => .inl (hpending.trans hk)) (fun k d hd hg => absurd hg (hnew k d hd)) fun k hk => .inl (huse k hk)

/-- What the code does to the bitmap. -/
theorem blocks_step (h : Exclusive s₀ st σ) (hok : (st i).Allows a) (hact : Shared.Acted i a b σ τ) :
    Guarded .blocks s₀ (Function.update st i ((st i).after a b)) τ := by
  have hbitmap := (congrArg State.blockBitmap hact.mem).trans (effect_blockBitmap a (σ.seen i))
  have huse : τ.mem.blockBitmap = σ.mem.blockBitmap → ∀ c, Resource.blocks.InUse σ.mem c → Resource.blocks.InUse τ.mem c := by
    intro heq c hc
    show τ.mem.blockBitmap c ≠ 0
    rw [heq]
    exact hc
  cases a with
  | lock m =>
    refine Guarded.untouched h h.blocks hact.deeds (fun c d hd => by cases hd) rfl (fun c hc => ?_) (huse hbitmap)
    cases (h.blocks.pending i c hc).symm.trans hok
  | unlock m =>
    refine Guarded.untouched h h.blocks hact.deeds (fun c d hd => by cases hd) rfl (fun c hc => ?_) (huse hbitmap)
    cases (congrArg Stage.bit hok).symm.trans hc
  | probeBitmap c =>
    have hst : st i = .holding .blockBitmapMutex := hok
    obtain rfl : σ.mem.blockBitmap c = b := Option.some.inj hact.value
    have hdeeds := hact.deeds
    simp only [deed, Stage.after] at hdeeds ⊢
    split_ifs at hdeeds ⊢ with hfree
    · refine h.blocks.step h.only hdeeds (fun _ _ => congrArg Stage.held hst) (fun d hd => ?_) (fun d e he hd => ?_)
        fun d hd => .inl (huse hbitmap d hd)
      · cases (congrArg Stage.bit hst).symm.trans hd
      · cases he
        cases hd
        exact ⟨congrArg Stage.held hst, congrArg Stage.bit hst, not_not.mpr hfree, rfl⟩
    · exact Guarded.untouched h h.blocks hdeeds (fun d e he => by cases he) rfl (fun _ _ => rfl) (huse hbitmap)
  | storeBitmap c v =>
    have hdeeds := hact.deeds
    simp only [deed] at hdeeds
    refine h.blocks.step h.only hdeeds (fun d hd => by cases hd) (fun d hd => .inr ?_) (fun d e he hd => ?_)
      fun d hd => ?_
    · rcases hok with hst | ⟨hst, hv⟩
      · cases (congrArg Stage.bit hst).symm.trans hd
      · obtain rfl : c = d := Option.some.inj ((congrArg Stage.bit hst).symm.trans hd)
        show τ.mem.blockBitmap c ≠ 0
        rw [hbitmap]
        simpa using hv
    · split_ifs at he
      cases he
      cases hd
    · by_cases hdc : d = c
      · subst hdc
        by_cases hv : v = 0
        · exact .inr ⟨.cleared d, if_pos hv, rfl⟩
        · refine .inl ?_
          show τ.mem.blockBitmap d ≠ 0
          rw [hbitmap]
          simpa using hv
      · refine .inl ?_
        show τ.mem.blockBitmap d ≠ 0
        rw [hbitmap]
        dsimp only
        rw [Function.update_of_ne hdc]
        exact hd
  | probeId x key =>
    have hdeeds := hact.deeds
    simp only [deed, Stage.after] at hdeeds ⊢
    split_ifs at hdeeds ⊢ <;>
      exact Guarded.untouched h h.blocks hdeeds (fun c d hd hg => by cases hd; cases hg) rfl (fun _ _ => rfl) (huse hbitmap)
  | storeId x v =>
    have hdeeds := hact.deeds
    simp only [deed, Stage.after] at hdeeds ⊢
    split_ifs at hdeeds ⊢ <;>
      exact Guarded.untouched h h.blocks hdeeds (fun c d hd hg => by cases hd <;> cases hg) rfl (fun _ _ => rfl) (huse hbitmap)
  | _ => exact Guarded.untouched h h.blocks hact.deeds (fun c d hd => by cases hd) rfl (fun _ _ => rfl) (huse hbitmap)

/-- What the code does to the ids. -/
theorem slots_step (h : Exclusive s₀ st σ) (hok : (st i).Allows a) (hact : Shared.Acted i a b σ τ) :
    Guarded .slots s₀ (Function.update st i ((st i).after a b)) τ := by
  have hid : ∀ x, (τ.mem.obj x).id = _ := fun x => (congrArg (fun s : State => (s.obj x).id) hact.mem).trans
    (effect_id a (σ.seen i) x)
  have huse : (∀ x, (τ.mem.obj x).id = (σ.mem.obj x).id) → ∀ x, Resource.slots.InUse σ.mem x →
      Resource.slots.InUse τ.mem x := by
    intro heq x hx
    show (τ.mem.obj x).id ≠ 0
    rw [heq]
    exact hx
  cases a with
  | lock m =>
    refine Guarded.untouched h h.slots hact.deeds (fun c d hd => by cases hd) rfl (fun c hc => ?_) (huse hid)
    cases (h.slots.pending i c hc).symm.trans hok
  | unlock m =>
    refine Guarded.untouched h h.slots hact.deeds (fun c d hd => by cases hd) rfl (fun c hc => ?_) (huse hid)
    cases (congrArg Stage.slot hok).symm.trans hc
  | probeId x key =>
    have hst : st i = .holding .createObjectLock := hok
    obtain rfl : (σ.mem.obj x).id = b := Option.some.inj hact.value
    have hdeeds := hact.deeds
    simp only [deed, Stage.after] at hdeeds ⊢
    split_ifs at hdeeds ⊢ with hfree
    · refine h.slots.step h.only hdeeds (fun _ _ => congrArg Stage.held hst) (fun d hd => ?_) (fun d e he hd => ?_)
        fun d hd => .inl (huse hid d hd)
      · cases (congrArg Stage.slot hst).symm.trans hd
      · cases he
        obtain ⟨key', hd⟩ := hd
        cases hd
        exact ⟨congrArg Stage.held hst, congrArg Stage.slot hst, not_not.mpr hfree, rfl⟩
    · refine Guarded.untouched h h.slots hdeeds (fun d e he hg => ?_) rfl (fun _ _ => rfl) (huse hid)
      cases he
      obtain ⟨key', hg⟩ := hg
      cases hg
  | storeId x v =>
    have hdeeds := hact.deeds
    simp only [deed, Stage.after] at hdeeds ⊢
    split_ifs at hdeeds ⊢ with hv
    · refine h.slots.step h.only hdeeds (h.slots.pending i) (fun d hd => .inl hd) (fun d e he hg => ?_) fun d hd => ?_
      · cases he
        cases hg.choose_spec
      · by_cases hdx : d = x
        · subst hdx
          exact .inr ⟨.emptied d, rfl, rfl⟩
        · refine .inl ?_
          show (τ.mem.obj d).id ≠ 0
          rw [hid]
          dsimp only
          rw [if_neg hdx]
          exact hd
    · have hst := hok.resolve_left hv
      refine h.slots.step h.only hdeeds (fun d hd => by cases hd) (fun d hd => .inr ?_) (fun d e he => by cases he)
        fun d hd => .inl ?_
      · obtain rfl : x = d := Option.some.inj ((congrArg Stage.slot hst).symm.trans hd)
        show (τ.mem.obj x).id ≠ 0
        rw [hid]
        simpa using hv
      · show (τ.mem.obj d).id ≠ 0
        rw [hid]
        by_cases hdx : d = x
        · simpa [hdx] using hv
        · dsimp only
          rw [if_neg hdx]
          exact hd
  | probeBitmap c =>
    have hdeeds := hact.deeds
    simp only [deed, Stage.after] at hdeeds ⊢
    split_ifs at hdeeds ⊢ <;>
      exact Guarded.untouched h h.slots hdeeds (fun c d hd hg => by cases hd <;> cases hg.choose_spec) rfl (fun _ _ => rfl) (huse hid)
  | storeBitmap c v =>
    have hdeeds := hact.deeds
    simp only [deed, Stage.after] at hdeeds ⊢
    split_ifs at hdeeds ⊢ <;>
      exact Guarded.untouched h h.slots hdeeds (fun c d hd hg => by cases hd <;> cases hg.choose_spec) rfl (fun _ _ => rfl) (huse hid)
  | _ => exact Guarded.untouched h h.slots hact.deeds (fun c d hd => by cases hd) rfl (fun _ _ => rfl) (huse hid)

theorem step (h : Exclusive s₀ st σ) (hok : (st i).Allows a) (hact : Shared.act i a σ = some (b, τ)) :
    Exclusive s₀ (Function.update st i ((st i).after a b)) τ :=
  have hacted := Shared.act_eq_some.mp hact
  ⟨h.holder_step hok hacted, h.blocks_step hok hacted, h.slots_step hok hacted⟩

/-- In every interleaving of threads that keep the discipline. -/
theorem reaches {α : Type} {P₀ P : Pool signature ι α (Shared ι)} {s : State} (hstart : P₀.mem = Shared.start s)
    (hcode : ∀ i, Balanced (P₀.threads i) .idle)
    (h : Machine.Reaches (Pool.step Shared.act) (fun _ _ _ => True) P₀ P) :
    ∃ st, Exclusive s st P.mem ∧ ∀ i, Keeps (fun _ st' => st' = .idle) (P.threads i) (st i) := by
  have hstep : ∀ (st : ι → Stage) (σ : Shared ι) (i : ι) (a : Act) (b : a.Res) (τ : Shared ι), Exclusive s st σ →
      (st i).Allows a → Shared.act i a σ = some (b, τ) → True →
      ∃ st', Stage.rel a (st i) b st' ∧ Exclusive s (Function.update st i st') τ :=
    fun st σ i a b τ hσ hok hact _ => ⟨_, rfl, hσ.step hok hact⟩
  have h₀ : Exclusive s (fun _ : ι => Stage.idle) P₀.mem := hstart ▸ start s
  obtain ⟨st, hst, hwp⟩ := Pool.modular hstep h₀ (fun i => keeps_iff.mp (hcode i)) h
  exact ⟨st, hst, fun i => keeps_iff.mpr (hwp i)⟩

end Exclusive

end CS330.ObjStore
