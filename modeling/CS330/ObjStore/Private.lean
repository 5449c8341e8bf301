import CS330.ObjStore.Exclusive
import CS330.ObjStore.Keys

/-! What a thread may think of the memory it shares, when no thread gives anything back.

A `Plan` says which thread fills a slot in the whole run, and which takes a block. `Plan.mask i`
is the memory with the slots and blocks of the other threads as if they had had them from the
start, the slots named and empty. To a thread that touches only what is its own, and looks at a
slot of another only once it has seen it taken, the shared memory is the masked one, and the
masked one changes by its own actions only. `Within` is that footprint; a thread's `Account` is
its masked memory and its deeds. -/
namespace CS330.ObjStore
open Threads Prog

structure Plan (ι : Type) where
  slot : Nat → Option (ι × Key)
  block : Int → Option ι

/-- The slot has its number and its name. -/
def Object.Named (key : Key) (x : Nat) (o : Object) : Prop := o.id = indexToID x ∧ o.key = strncpyKey key

namespace Plan
variable {ι : Type} (plan : Plan ι)

def Follows : ι × Deed → Prop
  | (i, .took b) => plan.block b = some i
  | (i, .filled x key) => plan.slot x = some (i, key)
  | (_, .cleared _) | (_, .emptied _) => False
  | (_, .passed _) => True

/-- The two states differ in places of thread `i` only, and in the log. -/
structure Frame (i : ι) (s t : State) : Prop where
  obj : ∀ x, t.obj x = s.obj x ∨ ∃ key, plan.slot x = some (i, key)
  bitmap : ∀ b, t.blockBitmap b = s.blockBitmap b ∨ plan.block b = some i
  blocks : ∀ b, t.disk.blocks b = s.disk.blocks b ∨ plan.block b = some i
  rest : t = {s with obj := t.obj, blockBitmap := t.blockBitmap, disk := ⟨s.disk.size, t.disk.blocks⟩, log := t.log}

variable [DecidableEq ι]

/-- A block that no other thread takes. -/
def Open (i : ι) (b : Int) : Prop := plan.block b = none ∨ plan.block b = some i

instance (i : ι) (b : Int) : Decidable (plan.Open i b) := inferInstanceAs (Decidable (_ ∨ _))

def maskSlot (i : ι) (s : State) (x : Nat) : Object := match plan.slot x with
  | none => s.obj x
  | some (j, key) => if j = i then s.obj x else newObject key x

def mask (i : ι) (s : State) : State := {s with
  obj := plan.maskSlot i s
  blockBitmap := fun b => if plan.Open i b then s.blockBitmap b else 1
  disk := ⟨s.disk.size, fun b => if plan.Open i b then s.disk.blocks b else zeroBlock⟩}

section Mask
variable {plan} {i j : ι} {s t : State} {x : Nat} {b : Int} {key : Key}

theorem mask_own (hx : plan.slot x = some (i, key)) : (plan.mask i s).obj x = s.obj x := by
  simp [mask, maskSlot, hx]

theorem mask_other (hx : plan.slot x = some (j, key)) (hji : j ≠ i) : (plan.mask i s).obj x = newObject key x := by
  simp [mask, maskSlot, hx, hji]

/-- A slot of any thread, once it has its name. -/
theorem mask_named (hx : plan.slot x = some (j, key)) (hnamed : (s.obj x).Named key x) :
    ((plan.mask i s).obj x).id = (s.obj x).id ∧ ((plan.mask i s).obj x).key = (s.obj x).key := by
  by_cases hji : j = i
  · subst hji
    rw [mask_own hx]
    exact ⟨rfl, rfl⟩
  · rw [mask_other hx hji]
    exact ⟨hnamed.1.symm, hnamed.2.symm⟩

theorem mask_bitmap (hb : plan.block b = some i) : (plan.mask i s).blockBitmap b = s.blockBitmap b :=
  if_pos (.inr hb)

theorem mask_block (hb : plan.block b = some i) : (plan.mask i s).disk.blocks b = s.disk.blocks b :=
  if_pos (.inr hb)

theorem mask_emit (e : Event) : plan.mask i (s.emit e) = (plan.mask i s).emit e := rfl

theorem mask_setObj {o : Object} (hx : plan.slot x = some (i, key)) :
    plan.mask i (s.setObj x o) = (plan.mask i s).setObj x o := by
  have hobj : plan.maskSlot i (s.setObj x o) = Function.update (plan.maskSlot i s) x o := by
    funext y
    by_cases hy : y = x
    · rw [hy, Function.update_self]
      simp [maskSlot, hx]
    · rw [Function.update_of_ne hy]
      simp [maskSlot, Function.update_of_ne hy]
  unfold mask
  rw [hobj]
  rfl

theorem mask_setBitmap {v : Nat} (hb : plan.block b = some i) :
    plan.mask i (s.setBitmap b v) = (plan.mask i s).setBitmap b v := by
  have hbitmap : (fun c => if plan.Open i c then Function.update s.blockBitmap b v c else 1) =
      Function.update (fun c => if plan.Open i c then s.blockBitmap c else 1) b v := by
    funext c
    by_cases hc : c = b
    · rw [hc, Function.update_self, Function.update_self, if_pos (.inr hb)]
    · rw [Function.update_of_ne hc, Function.update_of_ne hc]
  unfold mask
  simp only [State.setBitmap]
  rw [hbitmap]
  rfl

theorem mask_setDisk {buf : Block} (hb : plan.block b = some i) :
    plan.mask i (s.setDisk b buf) = (plan.mask i s).setDisk b buf := by
  have hblocks : (fun c => if plan.Open i c then Function.update s.disk.blocks b buf c else zeroBlock) =
      Function.update (fun c => if plan.Open i c then s.disk.blocks c else zeroBlock) b buf := by
    funext c
    by_cases hc : c = b
    · rw [hc, Function.update_self, Function.update_self, if_pos (.inr hb)]
    · rw [Function.update_of_ne hc, Function.update_of_ne hc]
  unfold mask
  simp only [State.setDisk]
  rw [hblocks]
  rfl

theorem mask_writeBlock {addr : Nat} {buf : Block} (hb : plan.block b = some i) :
    writeBlock b addr buf (plan.mask i s) = ((writeBlock b addr buf s).1, plan.mask i (writeBlock b addr buf s).2) := by
  unfold writeBlock
  simp only [mask_bitmap hb]
  split_ifs
  · rfl
  · rfl
  · rw [mask_setDisk hb]
    rfl

/-- What the others do in their places. -/
theorem Frame.mask_eq (h : plan.Frame i s t) (hji : j ≠ i) (log : List Event) :
    plan.mask j {t with log := log} = plan.mask j {s with log := log} := by
  have hobj : plan.maskSlot j {t with log := log} = plan.maskSlot j {s with log := log} := by
    funext x
    unfold maskSlot
    rcases h.obj x with hx | ⟨key, hx⟩
    · dsimp only
      rw [hx]
    · simp [hx, Ne.symm hji]
  have hclosed : ∀ c, plan.block c = some i → ¬ plan.Open j c := by
    rintro c hc (hnone | hj)
    · cases hc.symm.trans hnone
    · exact hji (Option.some.inj (hj.symm.trans hc))
  have hbitmap : (fun c => if plan.Open j c then t.blockBitmap c else 1) =
      fun c => if plan.Open j c then s.blockBitmap c else 1 := by
    funext c
    rcases h.bitmap c with hc | hc
    · rw [hc]
    · rw [if_neg (hclosed c hc), if_neg (hclosed c hc)]
  have hblocks : (fun c => if plan.Open j c then t.disk.blocks c else zeroBlock) =
      fun c => if plan.Open j c then s.disk.blocks c else zeroBlock := by
    funext c
    rcases h.blocks c with hc | hc
    · rw [hc]
    · rw [if_neg (hclosed c hc), if_neg (hclosed c hc)]
  have hrest := h.rest
  unfold mask
  dsimp only at hobj ⊢
  rw [hobj, hbitmap, hblocks, hrest]

end Mask

end Plan

/-! ### Accounts -/

structure Account where
  view : State
  deeds : List Deed

namespace Account

/-- A slot the thread has filled. -/
def Mine (p : Account) (x : Nat) : Prop := ∃ key, .filled x key ∈ p.deeds

/-- A slot it has filled or has seen taken. -/
def Seen (p : Account) (x : Nat) : Prop := p.Mine x ∨ .passed x ∈ p.deeds

/-- The slots it has filled have their names. -/
def Complete (p : Account) : Prop := ∀ x key, .filled x key ∈ p.deeds → (p.view.obj x).Named key x

/-- A thread's own action, where blocks last. -/
def rel : Rel signature Account := fun a p b q =>
  perform a p.view = some (b, q.view) ∧ q.deeds = (deed a b).toList ++ p.deeds ∧ ¬ Failed q.view

/-- What a thread may do that creates the files `names`. -/
def Within (names : Set Key) : Act → Account → Prop
  | .unlock m, p => m = .createObjectLock → p.Complete
  | .probeId x key, p => x < 1000000 ∧ key ∈ names ∧ key.bytes.length ≤ 31 ∧ (∀ y, .filled y key ∉ p.deeds) ∧ p.Complete
  | .storeId x v, p => v = indexToID x ∧ p.Mine x
  | .storeKey x n c, p => n < 32 ∧ ∃ key, .filled x key ∈ p.deeds ∧ c = key.bytes.getD n 0
  | .loadSize x, p | .storeSize x _, p | .loadPointer x _, p | .storePointer x _ _, p | .resetPointer x _, p => p.Mine x
  | .loadId x, p => p.Seen x
  | .loadKey x n, p => n < 32 ∧ p.Seen x
  | .probeBitmap b, p => DataBlock p.view b
  | .storeBitmap b v, p => v = 1 ∧ .took b ∈ p.deeds
  | .readBlock b _ _, p | .writeBlock b _ _, p => .took b ∈ p.deeds
  | .loadBitmap _, _ | .storeCacheBitmap _ _, _ | .storeDirty _ _, _ => False
  | .lock _, _ | .loadTotal, _ | .note _, _ | .spin, _ => True

/-- A slot keeps its name. -/
theorem Within.named {names : Set Key} {a : Act} {p : Account} {s : State} {x : Nat} {key : Key}
    (hok : p.Within names a) (hkey : ∀ key', .filled x key' ∈ p.deeds → strncpyKey key' = strncpyKey key)
    (hnamed : (s.obj x).Named key x) : ((effect a s).obj x).Named key x := by
  have hset : ∀ y o, (y = x → o.Named key x) → ((s.setObj y o).obj x).Named key x := by
    intro y o ho
    by_cases hy : x = y
    · subst hy
      rw [State.setObj_obj, Function.update_self]
      exact ho rfl
    · rw [State.setObj_obj, Function.update_of_ne hy]
      exact hnamed
  cases a with
  | storeId y v =>
    refine hset y _ fun hy => ⟨?_, hy ▸ hnamed.2⟩
    rw [← hy]
    exact hok.1
  | storeSize y v => exact hset y _ fun hy => hy ▸ hnamed
  | storeKey y n c =>
    obtain ⟨hn, key', hfilled, rfl⟩ := hok
    refine hset y _ fun hy => ?_
    subst hy
    have hsame := hkey key' hfilled
    refine ⟨hnamed.1, funext fun m => ?_⟩
    show (if m = n then key'.bytes.getD n 0 else if m < 32 then (s.obj y).key m else 0) = _
    rw [hnamed.2, ← hsame]
    unfold strncpyKey
    split_ifs with h₁ h₂
    · rw [h₁]
    · omega
    · rfl
    · rfl
  | storePointer y k q => exact hset y _ fun hy => hy ▸ hnamed
  | resetPointer y k => exact hset y _ fun hy => hy ▸ hnamed
  | writeBlock c addr buf =>
    simp only [effect, writeBlock]
    split_ifs <;> exact hnamed
  | _ => exact hnamed

end Account

section Accounts
variable {ι : Type} [DecidableEq ι]

/-- How the threads' accounts stand to the memory. -/
structure Accounts (plan : Plan ι) (s₀ : State) (st : ι → Stage × Account) (σ : Shared ι) : Prop where
  exclusive : Exclusive s₀ (fun i => (st i).1) σ
  view : ∀ i, (st i).2.view = plan.mask i (σ.seen i)
  deeds : ∀ i d, d ∈ (st i).2.deeds ↔ (i, d) ∈ σ.deeds
  follows : ∀ d ∈ σ.deeds, plan.Follows d
  live : ∀ x, LiveSlot σ.mem x → ∃ i key, (i, .filled x key) ∈ σ.deeds
  complete : ∀ i, (st i).1.held ≠ some .createObjectLock → (st i).2.Complete
  passed : ∀ i x, (i, .passed x) ∈ σ.deeds → ∃ j key, plan.slot x = some (j, key) ∧ (σ.mem.obj x).Named key x
  bitmap : ∀ b, σ.mem.blockBitmap b ≤ 1
  took : ∀ i b, (i, .took b) ∈ σ.deeds → DataBlock σ.mem b
  total : σ.mem.totalNumDiskBlocks ≤ σ.mem.disk.size
  size : σ.mem.totalNumDiskBlocks = s₀.totalNumDiskBlocks

namespace Accounts
variable {plan : Plan ι} {s₀ : State} {st : ι → Stage × Account} {σ τ : Shared ι} {names : Set Key} {i j : ι} {a : Act}
  {b : a.Res} {x : Nat} {key : Key}

section Facts
variable (h : Accounts plan s₀ st σ)
include h

theorem filled (hx : .filled x key ∈ (st i).2.deeds) : plan.slot x = some (i, key) :=
  h.follows _ ((h.deeds i _).mp hx)

theorem mine (hx : (st i).2.Mine x) : ∃ key, plan.slot x = some (i, key) := hx.imp fun _ hkey => h.filled hkey

theorem taken {c : Int} (hc : .took c ∈ (st i).2.deeds) : plan.block c = some i := h.follows _ ((h.deeds i _).mp hc)

/-- A slot of a thread that is not about to fill one. -/
theorem named (hheld : (st j).1.held ≠ some .createObjectLock) (hx : (j, .filled x key) ∈ σ.deeds) :
    (σ.mem.obj x).Named key x := by
  have hown := (h.deeds j _).mpr hx
  have hnamed := h.complete j hheld x key hown
  rw [h.view j, Plan.mask_own (h.filled hown)] at hnamed
  exact hnamed

theorem seen (hx : (st i).2.Seen x) : ((plan.mask i (σ.seen i)).obj x).id = (σ.mem.obj x).id ∧
    ((plan.mask i (σ.seen i)).obj x).key = (σ.mem.obj x).key := by
  rcases hx with hx | hx
  · obtain ⟨key, hslot⟩ := h.mine hx
    rw [Plan.mask_own hslot]
    exact ⟨rfl, rfl⟩
  · obtain ⟨j, key, hslot, hnamed⟩ := h.passed i x ((h.deeds i _).mp hx)
    exact Plan.mask_named (s := σ.seen i) hslot hnamed

/-- While a thread holds `create_object_lock`, a slot that is taken has its name. -/
theorem probed (hst : (st i).1 = .holding .createObjectLock) (hcomplete : (st i).2.Complete) (hx : LiveSlot σ.mem x) :
    ∃ j key, plan.slot x = some (j, key) ∧ (σ.mem.obj x).Named key x := by
  obtain ⟨j, key, hdeed⟩ := h.live x hx
  have hslot : plan.slot x = some (j, key) := h.follows _ hdeed
  refine ⟨j, key, hslot, ?_⟩
  by_cases hji : j = i
  · subst hji
    have hnamed := hcomplete x key ((h.deeds j _).mpr hdeed)
    rw [h.view j, Plan.mask_own hslot] at hnamed
    exact hnamed
  · exact h.named (fun hheld => hji (h.exclusive.only (congrArg Stage.held hst) j hheld)) hdeed

end Facts

/-- The thread's masked memory returns what the memory returns. -/
theorem value_eq (h : Accounts plan s₀ st σ) (hall : (st i).1.Allows a) (hok : (st i).2.Within names a)
    (hact : Shared.Acted i a b σ τ) (hfollows : ∀ d ∈ τ.deeds, plan.Follows d) :
    value a (plan.mask i (σ.seen i)) = some b := by
  have hvalue := hact.value
  have hnew : ∀ d, deed a b = some d → plan.Follows (i, d) := by
    intro d hd
    refine hfollows _ ?_
    rw [hact.deeds, hd]
    simp
  cases a with
  | loadId x => exact (congrArg some (h.seen hok).1).trans hvalue
  | probeId x key =>
    obtain rfl : (σ.mem.obj x).id = b := Option.some.inj hvalue
    refine congrArg some ?_
    by_cases hfree : (σ.mem.obj x).id = 0
    · have hslot := hnew (.filled x key) (if_pos hfree)
      rw [Plan.mask_own hslot]
      rfl
    · obtain ⟨j, key', hslot, hnamed⟩ := h.probed hall hok.2.2.2.2 hfree
      exact (Plan.mask_named (s := σ.seen i) hslot hnamed).1
  | loadKey x n =>
    have hkey := congrFun (h.seen hok.2).2 n
    rw [← keyMemory_key _ x hok.1, ← keyMemory_key _ x hok.1] at hkey
    exact (congrArg some hkey).trans hvalue
  | loadSize x =>
    obtain ⟨key, hslot⟩ := h.mine hok
    exact (congrArg (fun o : Object => some o.size) (Plan.mask_own hslot)).trans hvalue
  | loadPointer x k =>
    obtain ⟨key, hslot⟩ := h.mine hok
    exact (congrArg (fun o : Object => some (o.dataBlockPointers k)) (Plan.mask_own hslot)).trans hvalue
  | probeBitmap c =>
    obtain rfl : σ.mem.blockBitmap c = b := Option.some.inj hvalue
    refine congrArg some ?_
    by_cases hfree : σ.mem.blockBitmap c = 0
    · exact Plan.mask_bitmap (hnew (.took c) (if_pos hfree))
    · have hone := h.bitmap c
      show (if plan.Open i c then σ.mem.blockBitmap c else 1) = σ.mem.blockBitmap c
      split_ifs
      · rfl
      · omega
  | readBlock c addr buf =>
    have hblock := Plan.mask_block (s := σ.seen i) (h.taken hok)
    refine Eq.trans (congrArg some ?_) hvalue
    unfold readBlock
    rw [hblock]
    rfl
  | writeBlock c addr buf =>
    refine Eq.trans (congrArg some ?_) hvalue
    rw [Plan.mask_writeBlock (h.taken hok)]
  | loadBitmap c => exact hok.elim
  | spin => cases hvalue
  | _ => exact hvalue

/-- And it changes as the memory does. -/
theorem effect_eq (h : Accounts plan s₀ st σ) (hok : (st i).2.Within names a) :
    effect a (plan.mask i (σ.seen i)) = plan.mask i (effect a (σ.seen i)) := by
  have hset : ∀ x (f : Object → Object), (st i).2.Mine x →
      (plan.mask i (σ.seen i)).setObj x (f ((plan.mask i (σ.seen i)).obj x)) =
        plan.mask i ((σ.seen i).setObj x (f ((σ.seen i).obj x))) := by
    intro x f hx
    obtain ⟨key, hslot⟩ := h.mine hx
    rw [Plan.mask_setObj hslot, Plan.mask_own hslot]
  cases a with
  | storeId x v => exact hset x (fun o => {o with id := v}) hok.2
  | storeSize x v => exact hset x (fun o => {o with size := v}) hok
  | storeKey x n c =>
    exact hset x (fun o => {o with key := fun m => if m = n then c else if m < 32 then o.key m else 0})
      (hok.2.imp fun _ hkey => hkey.1)
  | storePointer x k q =>
    exact hset x (fun o => {o with dataBlockPointers := Function.update o.dataBlockPointers k q}) hok
  | resetPointer x k =>
    exact hset x (fun o => {o with dataBlockPointers := fun m => if m = k ∨ 4 ≤ m then -1 else o.dataBlockPointers m}) hok
  | storeBitmap c v => exact (Plan.mask_setBitmap (h.taken hok.2)).symm
  | writeBlock c addr buf =>
    simp only [effect, Plan.mask_writeBlock (h.taken hok)]
  | loadBitmap c => exact hok.elim
  | storeCacheBitmap c d => exact hok.elim
  | storeDirty c d => exact hok.elim
  | _ => rfl

/-- What the others see of it. -/
theorem frame (h : Accounts plan s₀ st σ) (hok : (st i).2.Within names a) :
    plan.Frame i (σ.seen i) (effect a (σ.seen i)) := by
  have hset : ∀ x o, (st i).2.Mine x → plan.Frame i (σ.seen i) ((σ.seen i).setObj x o) := by
    intro x o hx
    refine ⟨fun y => ?_, fun _ => .inl rfl, fun _ => .inl rfl, rfl⟩
    by_cases hy : y = x
    · rw [hy]
      exact .inr (h.mine hx)
    · exact .inl (Function.update_of_ne hy ..)
  have hlog : ∀ e, plan.Frame i (σ.seen i) ((σ.seen i).emit e) :=
    fun e => ⟨fun _ => .inl rfl, fun _ => .inl rfl, fun _ => .inl rfl, rfl⟩
  cases a with
  | storeId x v => exact hset x _ hok.2
  | storeSize x v => exact hset x _ hok
  | storeKey x n c => exact hset x _ (hok.2.imp fun _ hkey => hkey.1)
  | storePointer x k q => exact hset x _ hok
  | resetPointer x k => exact hset x _ hok
  | storeBitmap c v =>
    refine ⟨fun _ => .inl rfl, fun d => ?_, fun _ => .inl rfl, rfl⟩
    by_cases hd : d = c
    · rw [hd]
      exact .inr (h.taken hok.2)
    · exact .inl (Function.update_of_ne hd ..)
  | writeBlock c addr buf =>
    show plan.Frame i (σ.seen i) (writeBlock c addr buf (σ.seen i)).2
    unfold writeBlock
    dsimp only
    split_ifs
    · exact hlog _
    · exact hlog _
    · have hdata := h.took i c ((h.deeds i _).mp hok)
      have hsize : max (σ.seen i).disk.size (c.toNat + 1) = (σ.seen i).disk.size := by
        have h₁ := hdata.2
        have h₂ := h.total
        show max σ.mem.disk.size (c.toNat + 1) = σ.mem.disk.size
        omega
      refine ⟨fun _ => .inl rfl, fun _ => .inl rfl, fun d => ?_, ?_⟩
      · by_cases hd : d = c
        · rw [hd]
          exact .inr (h.taken hok)
        · exact .inl (Function.update_of_ne hd ..)
      · simp only [State.setDisk, State.emit, hsize]
  | lock m => exact hlog _
  | unlock m => exact hlog _
  | probeBitmap c => exact hlog _
  | note e => exact hlog e
  | loadBitmap c => exact hok.elim
  | storeCacheBitmap c d => exact hok.elim
  | storeDirty c d => exact hok.elim
  | _ => exact ⟨fun _ => .inl rfl, fun _ => .inl rfl, fun _ => .inl rfl, rfl⟩

/-- A slot keeps its name. -/
theorem named_step (h : Accounts plan s₀ st σ) (hok : (st i).2.Within names a) (hslot : plan.slot x = some (j, key))
    (hnamed : (σ.mem.obj x).Named key x) : ((effect a (σ.seen i)).obj x).Named key x := by
  refine hok.named (s := σ.seen i) (fun key' hfilled => ?_) hnamed
  obtain ⟨-, rfl⟩ := Prod.mk.inj (Option.some.inj (hslot.symm.trans (h.filled hfilled)))
  rfl

/-- What a deed says about the memory. -/
theorem deed_spec (h : Accounts plan s₀ st σ) (hall : (st i).1.Allows a) (hok : (st i).2.Within names a)
    (hact : Shared.Acted i a b σ τ) {d : Deed} (hd : deed a b = some d) :
    (∃ c, d = .took c ∧ DataBlock σ.mem c) ∨
      (∃ x key, d = .filled x key ∧ ((st i).1.after a b).held = some .createObjectLock) ∨
      ∃ x, d = .passed x ∧ LiveSlot σ.mem x ∧ (st i).1 = .holding .createObjectLock ∧ (st i).2.Complete := by
  have hvalue := hact.value
  cases a with
  | probeBitmap c =>
    simp only [deed] at hd
    split_ifs at hd
    cases hd
    refine .inl ⟨c, rfl, ?_⟩
    have hdata : DataBlock (st i).2.view c := hok
    rw [h.view i] at hdata
    exact hdata
  | storeBitmap c v =>
    simp only [deed, if_neg (show v ≠ 0 by rw [hok.1]; decide)] at hd
    cases hd
  | probeId x key =>
    obtain rfl : (σ.mem.obj x).id = b := Option.some.inj hvalue
    simp only [deed] at hd
    split_ifs at hd with hfree
    · cases hd
      have hheld := @Stage.after_held (st i).1 (.probeId x key) (σ.mem.obj x).id (by simp) (by simp)
      exact .inr (.inl ⟨x, key, rfl, hheld.trans (congrArg Stage.held hall)⟩)
    · cases hd
      exact .inr (.inr ⟨x, rfl, hfree, hall, hok.2.2.2.2⟩)
  | storeId x v =>
    simp only [deed, if_neg (show v ≠ 0 by rw [hok.1]; unfold indexToID; omega)] at hd
    cases hd
  | _ => cases hd

theorem live_step (h : Accounts plan s₀ st σ) (hok : (st i).2.Within names a) (hact : Shared.Acted i a b σ τ)
    (hx : LiveSlot τ.mem x) : ∃ j key, (j, .filled x key) ∈ τ.deeds := by
  have hkeep : (∃ j key, (j, .filled x key) ∈ σ.deeds) → ∃ j key, (j, .filled x key) ∈ τ.deeds :=
    fun ⟨j, key, hd⟩ => ⟨j, key, hact.mem_deeds.mpr (.inr hd)⟩
  have hid : (τ.mem.obj x).id = _ := (congrArg (fun s : State => (s.obj x).id) hact.mem).trans (effect_id a (σ.seen i) x)
  rw [LiveSlot, hid] at hx
  cases a with
  | storeId y v =>
    dsimp only at hx
    split_ifs at hx with hxy
    · subst hxy
      obtain ⟨key, hkey⟩ := hok.2
      exact hkeep ⟨i, key, (h.deeds i _).mp hkey⟩
    · exact hkeep (h.live x hx)
  | _ => exact hkeep (h.live x hx)

/-- A thread that goes on without `create_object_lock` has no slot half filled. -/
theorem complete_before (h : Accounts plan s₀ st σ) (hall : (st i).1.Allows a) (hok : (st i).2.Within names a)
    (hheld : ((st i).1.after a b).held ≠ some .createObjectLock) : (st i).2.Complete := by
  cases a with
  | lock m =>
    refine h.complete i ?_
    rw [show (st i).1.held = none from hall]
    simp
  | unlock m =>
    by_cases hm : m = .createObjectLock
    · exact hok hm
    · refine h.complete i ?_
      rw [congrArg Stage.held hall]
      simpa [Stage.holding] using hm
  | _ =>
    rw [Stage.after_held (by simp) (by simp)] at hheld
    exact h.complete i hheld

theorem complete_step (h : Accounts plan s₀ st σ) (hall : (st i).1.Allows a) (hok : (st i).2.Within names a)
    (hact : Shared.Acted i a b σ τ) (hheld : ((st i).1.after a b).held ≠ some .createObjectLock) :
    Account.Complete ⟨plan.mask i (τ.seen i), (deed a b).toList ++ (st i).2.deeds⟩ := by
  intro x key hx
  have hold : .filled x key ∈ (st i).2.deeds := by
    rcases List.mem_append.mp hx with hnew | hold
    · rcases h.deed_spec hall hok hact (Option.mem_toList.mp hnew) with ⟨c, hc, -⟩ | ⟨y, k, -, hlock⟩ | ⟨y, hy, -⟩
      · cases hc
      · exact absurd hlock hheld
      · cases hy
    · exact hold
  have hslot := h.filled hold
  have hnamed := h.complete_before hall hok hheld x key hold
  rw [h.view i, Plan.mask_own hslot] at hnamed
  show ((plan.mask i (τ.seen i)).obj x).Named key x
  rw [Plan.mask_own hslot, hact.seen_self]
  exact h.named_step hok hslot hnamed

/-- An action inside the thread's footprint. -/
theorem step (h : Accounts plan s₀ st σ) (hall : (st i).1.Allows a) (hok : (st i).2.Within names a)
    (hact : Shared.act i a σ = some (b, τ)) (hfollows : ∀ d ∈ τ.deeds, plan.Follows d)
    (hlast : ∀ j, Event.newDatablock (-1) ∉ τ.log j) :
    ∃ u, (Stage.rel a (st i).1 b u.1 ∧ Account.rel a (st i).2 b u.2) ∧ Accounts plan s₀ (Function.update st i u) τ := by
  have hacted := Shared.act_eq_some.mp hact
  have hview : ∀ j, j ≠ i → plan.mask j (τ.seen j) = plan.mask j (σ.seen j) := fun j hj => by
    rw [hacted.seen_other hj]
    exact (h.frame hok).mask_eq hj (σ.log j)
  have hmem : τ.mem.obj = (effect a (σ.seen i)).obj ∧ τ.mem.blockBitmap = (effect a (σ.seen i)).blockBitmap := by
    rw [hacted.mem]
    exact ⟨rfl, rfl⟩
  have hdisk : τ.mem.totalNumDiskBlocks = σ.mem.totalNumDiskBlocks ∧ τ.mem.disk.size = σ.mem.disk.size := by
    rw [hacted.mem]
    have hrest := (h.frame hok).rest
    exact ⟨(congrArg State.totalNumDiskBlocks hrest).trans rfl, (congrArg (fun s : State => s.disk.size) hrest).trans rfl⟩
  refine ⟨((st i).1.after a b, ⟨plan.mask i (τ.seen i), (deed a b).toList ++ (st i).2.deeds⟩), ⟨rfl, ?_, rfl, hlast i⟩, ?_⟩
  · rw [h.view i, perform_eq_some]
    refine ⟨h.value_eq hall hok hacted hfollows, ?_⟩
    show plan.mask i (τ.seen i) = _
    rw [h.effect_eq hok, hacted.seen_self]
  have hstages : (fun j => (Function.update st i ((st i).1.after a b, (⟨plan.mask i (τ.seen i),
      (deed a b).toList ++ (st i).2.deeds⟩ : Account)) j).1) = Function.update (fun j => (st j).1) i ((st i).1.after a b) := by
    funext j
    by_cases hj : j = i
    · subst hj
      simp
    · simp [Function.update_of_ne hj]
  have hnamed : ∀ {x j key}, plan.slot x = some (j, key) → (σ.mem.obj x).Named key x → (τ.mem.obj x).Named key x := by
    intro x j key hslot hx
    rw [hmem.1]
    exact h.named_step hok hslot hx
  refine ⟨hstages ▸ h.exclusive.step hall hact, fun j => ?_, fun j d => ?_, hfollows, fun x hx => ?_, fun j hheld => ?_,
    fun j x hx => ?_, fun c => ?_, fun j c hc => ?_, by rw [hdisk.1, hdisk.2]; exact h.total, hdisk.1.trans h.size⟩
  · by_cases hj : j = i
    · subst hj
      rw [Function.update_self]
    · rw [Function.update_of_ne hj, h.view j, hview j hj]
  · rw [hacted.mem_deeds]
    by_cases hj : j = i
    · subst hj
      rw [Function.update_self, List.mem_append, Option.mem_toList, h.deeds j d]
      simp
    · rw [Function.update_of_ne hj, h.deeds j d]
      simp [hj]
  · exact h.live_step hok hacted hx
  · by_cases hj : j = i
    · subst hj
      rw [Function.update_self] at hheld ⊢
      exact h.complete_step hall hok hacted hheld
    · rw [Function.update_of_ne hj] at hheld ⊢
      exact h.complete j hheld
  · rcases hacted.mem_deeds.mp hx with ⟨rfl, hd⟩ | hold
    · rcases h.deed_spec hall hok hacted hd with ⟨c, hc, -⟩ | ⟨y, key, hy, -⟩ | ⟨y, hy, hlive, hst, hcomplete⟩
      · cases hc
      · cases hy
      · cases hy
        obtain ⟨k, key, hslot, hk⟩ := h.probed hst hcomplete hlive
        exact ⟨k, key, hslot, hnamed hslot hk⟩
    · obtain ⟨k, key, hslot, hk⟩ := h.passed j x hold
      exact ⟨k, key, hslot, hnamed hslot hk⟩
  · rw [hmem.2, effect_blockBitmap]
    cases a with
    | storeBitmap d v =>
      dsimp only
      by_cases hc : c = d
      · rw [hc, Function.update_self, hok.1]
      · rw [Function.update_of_ne hc]
        exact h.bitmap c
    | _ => exact h.bitmap c
  · unfold DataBlock
    rw [hdisk.1]
    rcases hacted.mem_deeds.mp hc with ⟨-, hd⟩ | hold
    · rcases h.deed_spec hall hok hacted hd with ⟨d, hd, hdata⟩ | ⟨y, key, hy, -⟩ | ⟨y, hy, -⟩
      · cases hd
        exact hdata
      · cases hy
      · cases hy
    · exact h.took j c hold

theorem start (plan : Plan ι) {s : State} (hlive : ∀ x, ¬ LiveSlot s x) (hbitmap : ∀ b, s.blockBitmap b ≤ 1)
    (htotal : s.totalNumDiskBlocks ≤ s.disk.size) :
    Accounts plan s (fun i => (.idle, ⟨plan.mask i s, []⟩)) (Shared.start s) where
  exclusive := .start s
  view _ := rfl
  deeds _ _ := by simp [Shared.start]
  follows _ h := by simp [Shared.start] at h
  live x hx := absurd hx (hlive x)
  complete _ _ x key h := by simp at h
  passed _ _ h := by simp [Shared.start] at h
  bitmap := hbitmap
  took _ _ h := by simp [Shared.start] at h
  total := htotal
  size := rfl

/-- In every interleaving that follows the plan and in which blocks last, every thread goes on as
it would alone on its masked memory. -/
theorem reaches {α : Type} {names : ι → Set Key} {Q : ι → α → Account → Prop} {s : State}
    {P₀ P : Pool signature ι α (Shared ι)} (h₀ : Accounts plan s (fun i => (.idle, ⟨plan.mask i s, []⟩)) P₀.mem)
    (hcode : ∀ i, Balanced (P₀.threads i) .idle)
    (hsafe : ∀ i, (P₀.threads i).wp Account.rel (Account.Within (names i)) (Q i) ⟨plan.mask i s, []⟩)
    (h : Machine.Reaches (Pool.step Shared.act) (fun _ _ P' => (∀ d ∈ P'.mem.deeds, plan.Follows d) ∧
      ∀ i, Event.newDatablock (-1) ∉ P'.mem.log i) P₀ P) :
    ∃ st, Accounts plan s st P.mem ∧ ∀ i, (P.threads i).wp (fun a u b v => Stage.rel a u.1 b v.1 ∧ Account.rel a u.2 b v.2)
      (fun a u => u.1.Allows a ∧ u.2.Within (names i) a) (fun a u => u.1 = .idle ∧ Q i a u.2) (st i) := by
  have hstep : ∀ (st : ι → Stage × Account) (σ : Shared ι) (i : ι) (a : Act) (b : a.Res) (τ : Shared ι),
      Accounts plan s st σ → (st i).1.Allows a ∧ (st i).2.Within (names i) a → Shared.act i a σ = some (b, τ) →
      (∀ d ∈ τ.deeds, plan.Follows d) ∧ (∀ i, Event.newDatablock (-1) ∉ τ.log i) →
      ∃ u, (Stage.rel a (st i).1 b u.1 ∧ Account.rel a (st i).2 b u.2) ∧ Accounts plan s (Function.update st i u) τ :=
    fun st σ i a b τ hσ hok hact hadm => hσ.step hok.1 hok.2 hact hadm.1 hadm.2
  exact Pool.modular hstep h₀ (fun i => (keeps_iff.mp (hcode i)).prod (hsafe i)) h

end Accounts

end Accounts

end CS330.ObjStore
