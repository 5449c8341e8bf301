import CS330.ObjStore.Private

/-! The plan that a run follows.

No plan is known when threads start. But what threads have taken, and never give back, is a plan:
the run up to any moment follows the plan of its own deeds. By the invariant `Clean` that plan
fits, so each thread is as it would be alone, and so its next deed is clean, too. -/
namespace CS330.ObjStore
open Threads Prog

/-- A plan that threads can follow: a slot of the table and a block of the disk each go to one
thread, and no two slots get the same name. -/
structure Plan.Fits {ι : Type} (plan : Plan ι) (names : ι → Set Key) (s : State) : Prop where
  slot : ∀ x i key, plan.slot x = some (i, key) → x < 1000000 ∧ key ∈ names i ∧ key.bytes.length ≤ 31
  once : ∀ x y i j key, plan.slot x = some (i, key) → plan.slot y = some (j, key) → x = y
  block : ∀ b i, plan.block b = some i → DataBlock s b

section Clean
variable {ι : Type}

/-- The threads have given nothing back, have created files of their own names, each once, and
have taken nothing twice. -/
structure Clean (names : ι → Set Key) (s : State) (deeds : List (ι × Deed)) : Prop where
  cleared : ∀ i b, (i, .cleared b) ∉ deeds
  emptied : ∀ i x, (i, .emptied x) ∉ deeds
  filled : ∀ i x key, (i, .filled x key) ∈ deeds → x < 1000000 ∧ key ∈ names i ∧ key.bytes.length ≤ 31
  took : ∀ i b, (i, .took b) ∈ deeds → DataBlock s b
  slots : ∀ (x : Nat) (v w : ι × Key), (v.1, .filled x v.2) ∈ deeds → (w.1, .filled x w.2) ∈ deeds → v = w
  keys : ∀ x y i j key, (i, .filled x key) ∈ deeds → (j, .filled y key) ∈ deeds → x = y
  blocks : ∀ b i j, (i, .took b) ∈ deeds → (j, .took b) ∈ deeds → i = j

/-- A relation under which each thing has at most one other. -/
theorem exists_option {α β : Type} {R : α → β → Prop} (h : ∀ a b c, R a b → R a c → b = c) :
    ∃ f : α → Option β, ∀ a b, f a = some b ↔ R a b := by
  classical
  refine ⟨fun a => if hb : ∃ b, R a b then some hb.choose else none, fun a b => ?_⟩
  by_cases hb : ∃ b, R a b
  · simp only [dif_pos hb, Option.some.injEq]
    exact ⟨fun heq => heq ▸ hb.choose_spec, h a _ b hb.choose_spec⟩
  · simp only [dif_neg hb, reduceCtorEq, false_iff]
    exact fun hR => hb ⟨b, hR⟩

variable {names : ι → Set Key} {s : State} {deeds : List (ι × Deed)} {i : ι}

theorem Clean.plan (h : Clean names s deeds) : ∃ plan : Plan ι, plan.Fits names s ∧ ∀ d ∈ deeds, plan.Follows d := by
  obtain ⟨slot, hslot⟩ := exists_option h.slots
  obtain ⟨block, hblock⟩ := exists_option h.blocks
  refine ⟨⟨slot, block⟩, ⟨fun x i key hx => ?_, fun x y i j key hx hy => ?_, fun b i hb => ?_⟩, fun d hd => ?_⟩
  · exact h.filled i x key ((hslot x (i, key)).mp hx)
  · exact h.keys x y i j key ((hslot x (i, key)).mp hx) ((hslot y (j, key)).mp hy)
  · exact h.took i b ((hblock b i).mp hb)
  · obtain ⟨i, d⟩ := d
    cases d with
    | took b => exact (hblock b i).mpr hd
    | filled x key => exact (hslot x (i, key)).mpr hd
    | cleared b => exact absurd hd (h.cleared i b)
    | emptied x => exact absurd hd (h.emptied i x)
    | passed x => trivial

theorem Clean.start (names : ι → Set Key) (s : State) : Clean names s [] := by
  constructor <;> simp

theorem Clean.passed_cons (h : Clean names s deeds) (x : Nat) : Clean names s ((i, .passed x) :: deeds) := by
  obtain ⟨h₁, h₂, h₃, h₄, h₅, h₆, h₇⟩ := h
  exact ⟨by simpa, by simpa, by simpa, by simpa, by simpa using h₅, by simpa, by simpa⟩

theorem Clean.took_cons (h : Clean names s deeds) {c : Int} (hc : DataBlock s c) (hnew : ∀ j, (j, .took c) ∉ deeds) :
    Clean names s ((i, .took c) :: deeds) := by
  have hmem : ∀ {j b}, (j, .took b) ∈ (i, .took c) :: deeds → (j = i ∧ b = c) ∨ (j, .took b) ∈ deeds := by
    intro j b hb
    simpa using hb
  obtain ⟨h₁, h₂, h₃, h₄, h₅, h₆, h₇⟩ := h
  refine ⟨by simpa, by simpa, by simpa, fun j b hb => ?_, by simpa using h₅, by simpa, fun b j k hj hk => ?_⟩
  · rcases hmem hb with ⟨-, rfl⟩ | hb
    · exact hc
    · exact h₄ j b hb
  · rcases hmem hj with ⟨rfl, rfl⟩ | hj'
    · exact ((hmem hk).resolve_right (hnew k)).1.symm
    · rcases hmem hk with ⟨-, rfl⟩ | hk'
      · exact absurd hj' (hnew j)
      · exact h₇ b j k hj' hk'

theorem Clean.filled_cons (h : Clean names s deeds) {x : Nat} {key : Key} (hx : x < 1000000) (hkey : key ∈ names i)
    (hk : key.bytes.length ≤ 31) (hnew : ∀ j k, (j, .filled x k) ∉ deeds) (honce : ∀ j y, (j, .filled y key) ∉ deeds) :
    Clean names s ((i, .filled x key) :: deeds) := by
  have hmem : ∀ {j y k}, (j, .filled y k) ∈ (i, .filled x key) :: deeds →
      (j = i ∧ y = x ∧ k = key) ∨ (j, .filled y k) ∈ deeds := by
    intro j y k hy
    simpa using hy
  obtain ⟨h₁, h₂, h₃, h₄, h₅, h₆, h₇⟩ := h
  refine ⟨by simpa, by simpa, fun j y k hy => ?_, by simpa, fun y v w hv hw => ?_, fun y z j j' k hy hz => ?_, by simpa⟩
  · rcases hmem hy with ⟨rfl, rfl, rfl⟩ | hy
    · exact ⟨hx, hkey, hk⟩
    · exact h₃ j y k hy
  · rcases hmem hv with ⟨hv₁, rfl, hv₂⟩ | hv'
    · obtain ⟨hw₁, -, hw₂⟩ := (hmem hw).resolve_right (hnew _ _)
      exact Prod.ext (hv₁.trans hw₁.symm) (hv₂.trans hw₂.symm)
    · rcases hmem hw with ⟨-, rfl, -⟩ | hw'
      · exact absurd hv' (hnew _ _)
      · exact h₅ y v w hv' hw'
  · rcases hmem hy with ⟨-, rfl, rfl⟩ | hy'
    · exact ((hmem hz).resolve_right (honce _ _)).2.1.symm
    · rcases hmem hz with ⟨-, -, rfl⟩ | hz'
      · exact absurd hy' (honce _ _)
      · exact h₆ y z j j' k hy' hz'

end Clean

section Runs
variable {ι : Type} [DecidableEq ι] {names : ι → Set Key} {s : State} {plan : Plan ι} {st : ι → Stage × Account}
  {σ τ : Shared ι} {i : ι} {a : Act} {b : a.Res}

/-- An action inside the footprint is a clean deed. -/
theorem Clean.step (h : Clean names s σ.deeds) (hapart : ∀ i j key, key ∈ names i → key ∈ names j → i = j)
    (hst : Accounts plan s st σ) (hall : (st i).1.Allows a) (hok : (st i).2.Within (names i) a)
    (hact : Shared.act i a σ = some (b, τ)) : Clean names s τ.deeds := by
  have hexcl := hst.exclusive.step hall hact
  have hdeeds := (Shared.act_eq_some.mp hact).deeds
  cases a with
  | probeBitmap c =>
    simp only [deed] at hdeeds
    split_ifs at hdeeds
    · rw [hdeeds]
      refine h.took_cons ?_ fun j hj => ?_
      · have hdata : DataBlock (st i).2.view c := hok
        rw [hst.view i] at hdata
        exact ⟨hdata.1, hst.size ▸ hdata.2⟩
      · have hproper := hexcl.blocks.proper c
        rw [hdeeds] at hproper
        refine hproper.fresh rfl (fun r hr hret => ?_) hj rfl
        obtain ⟨k, d⟩ := r
        cases hret
        exact h.cleared k c hr
    · rw [hdeeds]
      exact h
  | storeBitmap c v =>
    rw [hdeeds, deed, if_neg (by rw [hok.1]; decide)]
    exact h
  | probeId x key =>
    obtain ⟨hx, hkey, hk, hnew, -⟩ := hok
    simp only [deed] at hdeeds
    split_ifs at hdeeds
    · rw [hdeeds]
      refine h.filled_cons hx hkey hk (fun j k hj => ?_) fun j y hj => ?_
      · have hproper := hexcl.slots.proper x
        rw [hdeeds] at hproper
        refine hproper.fresh ⟨key, rfl⟩ (fun r hr hret => ?_) hj ⟨k, rfl⟩
        obtain ⟨k, d⟩ := r
        cases hret
        exact h.emptied k x hr
      · by_cases hji : j = i
        · subst hji
          exact hnew y ((hst.deeds j _).mpr hj)
        · exact hji (hapart j i key (h.filled j y key hj).2.1 hkey)
    · rw [hdeeds]
      exact h.passed_cons x
  | storeId x v =>
    rw [hdeeds, deed, if_neg (by rw [hok.1]; exact (indexToID_ne x).1)]
    exact h
  | _ =>
    rw [hdeeds]
    exact h

theorem effect_log {e : Event} (a : Act) (s : State) (he : e ∈ s.log) : e ∈ (effect a s).log := by
  cases a with
  | lock m => exact List.mem_cons_of_mem _ he
  | unlock m => exact List.mem_cons_of_mem _ he
  | loadBitmap b => exact List.mem_cons_of_mem _ he
  | probeBitmap b => exact List.mem_cons_of_mem _ he
  | storeBitmap b v => exact List.mem_cons_of_mem _ he
  | note e' => exact List.mem_cons_of_mem _ he
  | writeBlock b addr buf =>
    simp only [effect, writeBlock]
    split_ifs
    · exact List.mem_cons_of_mem _ he
    · exact List.mem_cons_of_mem _ he
    · exact List.mem_cons_of_mem _ he
  | _ => exact he

/-- Deeds and logs only grow. -/
def Shared.Extends (σ τ : Shared ι) : Prop := (∀ d ∈ σ.deeds, d ∈ τ.deeds) ∧ ∀ i, ∀ e ∈ σ.log i, e ∈ τ.log i

theorem step_extends {α : Type} {P P' : Pool signature ι α (Shared ι)} {u : Unit}
    (h : Pool.step Shared.act i P = some (u, P')) : P.mem.Extends P'.mem := by
  obtain ⟨a, k, b, -, hact, -⟩ := Pool.step_eq_some.mp h
  have hacted := Shared.act_eq_some.mp hact
  refine ⟨fun d hd => hacted.mem_deeds.mpr (.inr hd), fun j e he => ?_⟩
  rw [hacted.log]
  by_cases hj : j = i
  · subst hj
    rw [Function.update_self]
    exact effect_log a (P.mem.seen j) he
  · rw [Function.update_of_ne hj]
    exact he

end Runs

section Reaches
variable {ι α : Type} [DecidableEq ι] {names : ι → Set Key} {s : State} {Q : ι → α → Account → Prop}
  {code : ι → Code α} {P : Pool signature ι α (Shared ι)}
  (hlive : ∀ x, ¬ LiveSlot s x) (hbitmap : ∀ b, s.blockBitmap b ≤ 1) (htotal : s.totalNumDiskBlocks ≤ s.disk.size)
  (hcode : ∀ i, Balanced (code i) .idle)
  (hsafe : ∀ plan : Plan ι, plan.Fits names s →
    ∀ i, (code i).wp Account.rel (Account.Within (names i)) (Q i) ⟨plan.mask i s, []⟩)
  (h : Machine.Reaches (Pool.step Shared.act) (fun _ _ _ => True) ⟨code, Shared.start s⟩ P)
  (hlast : ∀ i, Event.newDatablock (-1) ∉ P.mem.log i)
include hlive hbitmap htotal hcode hsafe h hlast

/-- A run whose deeds are clean has followed their plan. -/
theorem Clean.planned (hclean : Clean names s P.mem.deeds) :
    ∃ (plan : Plan ι) (st : ι → Stage × Account), Accounts plan s st P.mem ∧
      ∀ i, (P.threads i).wp (fun a u b v => Stage.rel a u.1 b v.1 ∧ Account.rel a u.2 b v.2)
        (fun a u => u.1.Allows a ∧ u.2.Within (names i) a) (fun a u => u.1 = .idle ∧ Q i a u.2) (st i) := by
  obtain ⟨plan, hfits, hfollows⟩ := hclean.plan
  have hbounded := h.bounded (R := fun P P' => P.mem.Extends P'.mem) (fun _ => ⟨fun _ hd => hd, fun _ _ he => he⟩)
    (fun _ _ _ h₁ h₂ => ⟨fun d hd => h₂.1 d (h₁.1 d hd), fun i e he => h₂.2 i e (h₁.2 i e he)⟩)
    fun _ _ _ _ hst => step_extends hst
  refine ⟨plan, Accounts.reaches (.start plan hlive hbitmap htotal) hcode (hsafe plan hfits)
    (hbounded.mono (fun _ _ _ _ h => h) fun _ _ P' hP' => ⟨fun d hd => ?_, fun i hi => ?_⟩)⟩
  · exact hfollows d (hP'.2.1 d hd)
  · exact hlast i (hP'.2.2 i _ hi)

/-- In every interleaving of threads that keep to their footprint on any plan that fits, and in
which blocks last, the deeds are clean. -/
theorem Clean.reaches (hapart : ∀ i j key, key ∈ names i → key ∈ names j → i = j) : Clean names s P.mem.deeds := by
  induction h with
  | start => exact .start names s
  | @step P P' i u hP hst _ ih =>
    have hlast' : ∀ j, Event.newDatablock (-1) ∉ P.mem.log j := fun j hj => hlast j ((step_extends hst).2 j _ hj)
    obtain ⟨plan, st, hcons, hwp⟩ := Clean.planned hlive hbitmap htotal hcode hsafe hP hlast' (ih hlast')
    obtain ⟨a, k, b, hact, hsem, -⟩ := Pool.step_eq_some.mp hst
    have hi := hwp i
    rw [hact] at hi
    exact (ih hlast').step hapart hcons hi.1.1 hi.1.2 hsem

end Reaches

end CS330.ObjStore
