import CS330.Sched.Roles

/-! A process that sleeps.

While it is WAITING the swapper is current, so only ticks happen. Each tick changes nothing of
it but its count, until the tick that finds the count at 0 and returns into it. -/
namespace CS330.Sched
open Machine

/-! ### What a tick leaves alone -/

/-- The contexts are equal but for their states. -/
def ExecContext.SameBut (c d : ExecContext) : Prop := d = {c with state := d.state}

theorem ExecContext.SameBut.trans {c d e : ExecContext} (h : c.SameBut d) (h' : d.SameBut e) : c.SameBut e := by
  rw [SameBut, h', h]

section
variable {s : State} {i : Nat}

theorem saveCurrentContext_other (h : i ≠ s.current) : (saveCurrentContext s).list i = s.list i := by
  unfold saveCurrentContext
  dsimp only
  split
  · rfl
  · exact modify_other (s := s.emit (.save s.current)) h _

theorem mark_sameBut (j : Nat) (x : ProcessState) (s : State) : (s.list i).SameBut ((s.mark j x).list i) := by
  rw [State.mark, modify_list]
  split
  · rename_i h
    rw [h]
    rfl
  · rfl

theorem countAlarm_other (frame : Regs) (h : i ≠ s.current) : (countAlarm frame s).2.2.list i = s.list i := by
  unfold countAlarm
  split
  · dsimp only
    exact modify_other h _
  · split
    · obtain ⟨frame', t, ht, hcalm, hlist, -⟩ := invokeSyncSignal_alarm frame s
      have hcur : t.current = s.current := congrArg Roles.current hcalm.roles
      rw [ht, ← hlist]
      dsimp only
      exact modify_other (hcur ▸ h) _
    · rfl

theorem accounted_other (frame : Regs) (h : i ≠ s.current) :
    (accounted frame s).list i = (doSleepAndAlarmAccount s).list i :=
  countAlarm_other (s := doSleepAndAlarmAccount s) frame h

theorem wake_sameBut (next : Nat) (h : i ≠ s.current) : (s.list i).SameBut ((wake next s).list i) := by
  have hsave := saveCurrentContext_other (s := s.emit (.switch s.cur.pid (s.list next).pid)) h
  rw [show s.list i = _ from hsave.symm]
  exact (mark_sameBut ..).trans (mark_sameBut ..)

/-- A tick does to a context that is not current what its accounting does, but for the state. -/
theorem handleTimerTick_other (frame : Regs) (h : i ≠ s.current) :
    ((doSleepAndAlarmAccount s).list i).SameBut ((handleTimerTick frame s).2.list i) := by
  rw [← accounted_other frame h]
  cases hp : (sleepers frame s).1 with
  | none =>
    obtain ⟨frame', heq⟩ := handleTimerTick_none hp
    rw [heq]
    rfl
  | some next =>
    have hcur : (sleepers frame s).2.current = s.current := congrArg Roles.current (sleepers_calm frame s).roles
    rw [handleTimerTick_some hp]
    exact wake_sameBut next (hcur ▸ h)

theorem saveCurrentContext_up (s : State) : (saveCurrentContext s).up = s.up := by
  unfold saveCurrentContext
  dsimp only
  split <;> rfl

theorem accounted_up (frame : Regs) (s : State) : (accounted frame s).up = s.up := by
  unfold accounted countAlarm
  split
  · rfl
  · split
    · obtain ⟨frame', t, ht, -, -, hup⟩ := invokeSyncSignal_alarm frame (doSleepAndAlarmAccount s)
      rw [ht]
      exact hup
    · rfl

theorem handleTimerTick_up (frame : Regs) (s : State) : (handleTimerTick frame s).2.up = s.up := by
  rw [← accounted_up frame s]
  cases hp : (sleepers frame s).1 with
  | none =>
    obtain ⟨frame', heq⟩ := handleTimerTick_none hp
    rw [heq]
    rfl
  | some next =>
    rw [handleTimerTick_some hp]
    exact saveCurrentContext_up _

end

/-! ### Falling asleep -/

/-- Each register is saved from the word the entry code left it in. -/
theorem entryWord_savedWord {r : Reg} (hr : r ≠ .rax) : ∃ w, savedWord r = some w ∧ entryWord w = some r := by
  cases r <;> first | exact absurd rfl hr | exact ⟨_, rfl, rfl⟩

section
variable {s : State}

theorem saveCurrentContext_cur (hpid : s.cur.pid ≠ 0) (hlive : s.cur.state ≠ .unused) :
    (saveCurrentContext s).list s.current = {s.cur with
      regs := fun r => ((savedWord r).map (s.stack s.cur.osStackPfn)).getD (s.cur.regs r)} := by
  have hsave : ¬ ((s.emit (.save s.current)).cur.pid = 0 ∨ (s.emit (.save s.current)).cur.state = .unused) :=
    not_or.mpr ⟨hpid, hlive⟩
  unfold saveCurrentContext
  dsimp only
  rw [if_neg hsave]
  exact (modify_list ..).trans (if_pos rfl)

/-- What a sleep makes of the context that calls it. -/
theorem doSleep_cur (hcur : s.current ≠ 0) (hpid : s.cur.pid ≠ 0) (n : Nat) :
    (doSleep n s).2.list s.current = {s.cur with
      ticksToSleep := n
      state := .waiting
      regs := fun r => ((savedWord r).map (s.stack s.cur.osStackPfn)).getD (s.cur.regs r)} := by
  let u := s.modify s.current fun c => {c with ticksToSleep := n, state := .waiting}
  have hu : u.cur = {s.cur with ticksToSleep := n, state := .waiting} := (modify_list ..).trans (if_pos rfl)
  have hsave := @saveCurrentContext_cur (u.emit (.switch u.cur.pid (u.list 0).pid))
    (show u.cur.pid ≠ 0 by rw [hu]; exact hpid) (show u.cur.state ≠ .unused by rw [hu]; simp)
  have hmark : (doSleep n s).2.list s.current =
      (saveCurrentContext (u.emit (.switch u.cur.pid (u.list 0).pid))).list s.current :=
    @modify_other (saveCurrentContext (u.emit (.switch u.cur.pid (u.list 0).pid))) s.current 0 hcur
      fun c => {c with state := .running}
  rw [hmark, show s.current = (u.emit (.switch u.cur.pid (u.list 0).pid)).current from rfl, hsave,
    show (u.emit (.switch u.cur.pid (u.list 0).pid)).cur = u.cur from rfl, hu]
  rfl

theorem expired_sleep (hs : Orderly s.roles) {i : Nat} (hin : i < maxProcesses) :
    Expired s i ↔ (s.list i).state = .waiting ∧ (s.list i).ticksToSleep ≤ 1 := by
  refine and_congr_right fun hwait => ?_
  have hne : i ≠ s.current := by
    rintro rfl
    have hcur : s.current = 0 := hs.waiting _ hin hwait
    have hswap := hs.swapper
    rw [roles_current, if_pos hcur, ← hcur, roles_state, hwait] at hswap
    cases hswap
  simp only [doSleepAndAlarmAccount]
  split <;> grind

end

/-! ### Asleep -/

/-- The user context `p` is WAITING, with these registers saved. -/
structure Asleep (p : Nat) (regs : Regs) (s : State) : Prop where
  orderly : Orderly s.roles
  up : s.up = true
  inList : p < maxProcesses
  user : p ≠ 0
  waiting : (s.list p).state = .waiting
  regs : (s.list p).regs = regs

section
variable {p : Nat} {regs : Regs} {s t : State}

theorem Asleep.current (h : Asleep p regs s) : s.current = 0 := h.orderly.waiting p h.inList h.waiting

theorem Asleep.pid (h : Asleep p regs s) : (s.list p).pid = p :=
  h.orderly.numbered p h.inList (.inl (by rw [roles_state, h.waiting]; simp))

theorem Asleep.expired (h : Asleep p regs s) : Expired s p ↔ (s.list p).ticksToSleep ≤ 1 := by
  rw [expired_sleep h.orderly h.inList, and_iff_right h.waiting]

/-- The accounting of a tick lowers the count of a sleeper. -/
theorem Asleep.account (h : Asleep p regs s) : (doSleepAndAlarmAccount s).list p =
    {s.list p with ticksToSleep := (s.list p).ticksToSleep - 1} := by
  unfold doSleepAndAlarmAccount
  dsimp only
  split
  · rfl
  · rename_i hnot
    have hzero : (s.list p).ticksToSleep = 0 := by
      by_contra hne
      exact hnot ⟨h.inList, by rw [h.current]; exact h.user, by omega⟩
    rw [hzero]
    cases hp : s.list p
    simp_all

/-- What a tick makes of a sleeper, but for its state. -/
theorem Asleep.counted (h : Asleep p regs s) (frame : Regs) :
    ((handleTimerTick frame s).2.list p).ticksToSleep = (s.list p).ticksToSleep - 1 ∧
      ((handleTimerTick frame s).2.list p).regs = regs ∧ ((handleTimerTick frame s).2.list p).pid = p := by
  have hother := @handleTimerTick_other s p frame (by rw [h.current]; exact h.user)
  rw [hother, h.account]
  exact ⟨rfl, h.regs, h.pid⟩

/-- Nothing that a sleeper is depends on the stack and the log. -/
theorem Asleep.ticking (h : Asleep p regs s) (user : Regs) (scratch : Nat → Nat) :
    Asleep p regs (ticking user scratch s) :=
  ⟨h.orderly, h.up, h.inList, h.user, h.waiting, h.regs⟩

/-- A tick that leaves the sleeper asleep, or wakes it and nobody else. -/
theorem Asleep.tick (h : Asleep p regs s) (user : Regs) (scratch : Nat → Nat) :
    ∃ r t, step (.tick user scratch) s = some (r, t) ∧
      ((1 < (s.list p).ticksToSleep ∧ t.roles = s.roles ∧ Asleep p regs t ∧
          (t.list p).ticksToSleep = (s.list p).ticksToSleep - 1) ∨
        ((s.list p).ticksToSleep ≤ 1 ∧ r = .leave (.iretq (restored (t.list p))) ∧ (t.list p).regs = regs ∧
          (t.list p).pid = p ∧ t.roles = {s.roles with
            current := p
            state := Function.update (Function.update s.roles.state 0 .ready) p .running})) := by
  have h' := h.ticking user scratch
  obtain ⟨hcount, hregs, hpid⟩ := h'.counted user
  have hup := (handleTimerTick_up user (Sched.ticking user scratch s)).trans h'.up
  refine ⟨(handleTimerTick user (Sched.ticking user scratch s)).1,
    (handleTimerTick user (Sched.ticking user scratch s)).2, if_pos h.up, ?_⟩
  rcases handleTimerTick_cases user (Sched.ticking user scratch s) with ⟨hnone, hcalm⟩ |
    ⟨next, hin, hexp, hroles, hret, -⟩
  · refine .inl ⟨?_, hcalm.roles, ⟨?_, hup, h.inList, h.user, ?_, hregs⟩, hcount⟩
    · by_contra hle
      exact hnone p h.inList (h'.expired.mpr (Nat.le_of_not_lt hle))
    · rw [hcalm.roles]
      exact h.orderly
    · exact (congrFun (congrArg Roles.state hcalm.roles) p).trans h.waiting
  · obtain rfl : next = p := h'.orderly.alone next p hin h.inList hexp.1 h'.waiting
    refine .inr ⟨h'.expired.mp hexp, hret, hregs, hpid, hroles.trans ?_⟩
    rw [h'.current]
    rfl

/-- Ticks, each with the registers it interrupts and what its handler leaves on the stack. -/
def ticks (inputs : List (Regs × (Nat → Nat))) : List Op := inputs.map fun q => .tick q.1 q.2

/-- As long as the count has not run out, ticks change nothing but the count. -/
theorem Asleep.ticks (h : Asleep p regs s) (inputs : List (Regs × (Nat → Nat)))
    (hlt : inputs.length < max (s.list p).ticksToSleep 1) :
    ∃ rs t, runAll step (ticks inputs) s = some (rs, t) ∧ t.roles = s.roles ∧ Asleep p regs t ∧
      (t.list p).ticksToSleep = (s.list p).ticksToSleep - inputs.length := by
  induction inputs generalizing s with
  | nil => exact ⟨[], s, rfl, rfl, h, rfl⟩
  | cons q inputs ih =>
    rw [List.length_cons] at hlt
    obtain ⟨r, t, hstep, ⟨-, hroles, ht, hcount⟩ | ⟨hle, -⟩⟩ := h.tick q.1 q.2
    · obtain ⟨rs, u, hrun, hroles', hu, hcount'⟩ := ih ht (by omega)
      refine ⟨r :: rs, u, runAll_cons.mpr ⟨r, t, rs, hstep, hrun, rfl⟩, hroles'.trans hroles, hu, ?_⟩
      rw [hcount', hcount, List.length_cons]
      omega
    · omega

/-- Ticks that run the count out wake the sleeper. -/
theorem Asleep.ticks_wake (h : Asleep p regs s) (inputs : List (Regs × (Nat → Nat)))
    (hlen : inputs.length = max (s.list p).ticksToSleep 1) :
    ∃ rs t, runAll step (Sched.ticks inputs) s = some (rs, t) ∧ t.roles = {s.roles with
      current := p, state := Function.update (Function.update s.roles.state 0 .ready) p .running} := by
  rcases List.eq_nil_or_concat inputs with rfl | ⟨inputs, q, rfl⟩
  · simp at hlen
    omega
  rw [List.concat_eq_append] at hlen ⊢
  rw [List.length_append, List.length_singleton] at hlen
  obtain ⟨rs, t, hrun, hroles, ht, hcount⟩ := h.ticks inputs (by omega)
  obtain ⟨r, u, hstep, ⟨hlt, -⟩ | ⟨-, -, -, -, hwake⟩⟩ := ht.tick q.1 q.2
  · omega
  · have hlast : runAll step (Sched.ticks [q]) t = some ([r], u) := runAll_cons.mpr ⟨r, u, [], hstep, rfl, rfl⟩
    refine ⟨rs ++ [r], u, ?_, by rw [hwake, hroles]⟩
    rw [Sched.ticks, List.map_append]
    exact runAll_append hrun hlast

/-- The current user context falls asleep. -/
theorem sleep_asleep (hs : Orderly s.roles) (hup : s.up = true) (huser : s.current ≠ 0) (user : Regs) (n : Nat) :
    ∃ r t regs, step (.syscall user (.sleep n)) s = some (r, t) ∧ Asleep s.current regs t ∧
      (t.list s.current).ticksToSleep = n ∧ (∀ reg, reg ≠ .rax → regs reg = user reg) ∧
      t.roles = {s.roles with
        current := 0
        state := Function.update (Function.update s.roles.state s.current .waiting) 0 .running} := by
  have hroles := doSleep_roles n (calling user s)
  have hpid : s.cur.pid = s.current := hs.numbered _ hs.inList (.inr rfl)
  have hcur := @doSleep_cur (calling user s) huser (show s.cur.pid ≠ 0 by rw [hpid]; exact huser) n
  refine ⟨_, _, _, if_pos hup, ⟨?_, ?_, hs.inList, huser, congrArg ExecContext.state hcur,
    congrArg ExecContext.regs hcur⟩, congrArg ExecContext.ticksToSleep hcur, fun reg hreg => ?_, hroles⟩
  · have hmove : Move s.roles (doSleep n (calling user s)).2.roles := by
      rw [hroles]
      exact .sleep huser
    exact hs.move hmove
  · exact (saveCurrentContext_up _).trans hup
  · obtain ⟨w, hsaved, hentry⟩ := entryWord_savedWord hreg
    simp [hsaved, calling, State.enter, State.cur, hentry]

end

end CS330.Sched
