import CS330.Sched.Schedule

/-! Who runs, who waits: the part of the scheduler's state that decides about switches.

`Roles` keeps the current context and the `state` and `pid` of every context, `Move` says all
that one event can do to them, and `Orderly` is what holds of them in every run. -/
namespace CS330.Sched
open Machine

structure Roles where
  current : Nat
  state : Nat → ProcessState
  pid : Nat → Nat

/-- What one event does to the roles. -/
inductive Move : Roles → Roles → Prop
  | stay {r : Roles} : Move r r
  | clone {r : Roles} {slot : Nat} : slot < maxProcesses → r.state slot = .unused →
      Move r {r with state := Function.update r.state slot .ready, pid := Function.update r.pid slot slot}
  | sleep {r : Roles} : r.current ≠ 0 →
      Move r {r with
        current := 0, state := Function.update (Function.update r.state r.current .waiting) 0 .running}
  | wake {r : Roles} {next : Nat} : next < maxProcesses → r.state next = .waiting →
      Move r {r with
        current := next, state := Function.update (Function.update r.state r.current .ready) next .running}
  /-- an exit without a successor -/
  | strand {r : Roles} : r.current ≠ 0 →
      Move r {r with state := Function.update r.state r.current .unused}
  | pass {r : Roles} {next : Nat} : r.current ≠ 0 → r.pid r.current < next → next < maxProcesses →
      Function.update r.state r.current .unused next = .ready →
      Move r {r with
        current := next, state := Function.update (Function.update r.state r.current .unused) next .running}

/-- One context is current. Only it can be RUNNING, and while it is a user context nobody is
WAITING. -/
structure Orderly (r : Roles) : Prop where
  inList : r.current < maxProcesses
  numbered : ∀ i, i < maxProcesses → r.state i ≠ .unused ∨ i = r.current → r.pid i = i
  swapper : r.state 0 = if r.current = 0 then .running else .ready
  running : ∀ i, i < maxProcesses → r.state i = .running → i = r.current
  waiting : ∀ i, i < maxProcesses → r.state i = .waiting → r.current = 0
  alone : ∀ i j, i < maxProcesses → j < maxProcesses → r.state i = .waiting → r.state j = .waiting → i = j
  settled : ∀ i, i < maxProcesses → r.state i ≠ .new ∧ r.state i ≠ .exiting

theorem Orderly.move {r r' : Roles} (h : Orderly r) (hm : Move r r') : Orderly r' := by
  obtain ⟨hin, hnum, hswap, hrun, hwait, halone, hset⟩ := h
  cases hm with
  | stay => exact ⟨hin, hnum, hswap, hrun, hwait, halone, hset⟩
  | clone hslot hfree => constructor <;> grind [Function.update_apply]
  | sleep hcur => constructor <;> grind [Function.update_apply]
  | wake hnext hst => constructor <;> grind [Function.update_apply]
  | strand hcur => constructor <;> grind [Function.update_apply]
  | pass hcur hpid hnext hst => constructor <;> grind [Function.update_apply]

/-! ### The code's moves -/

def State.roles (s : State) : Roles where
  current := s.current
  state := fun i => (s.list i).state
  pid := fun i => (s.list i).pid

@[simp] theorem roles_emit (e : Event) (s : State) : (s.emit e).roles = s.roles := rfl

@[simp] theorem roles_current (s : State) : s.roles.current = s.current := rfl

@[simp] theorem roles_state (s : State) (i : Nat) : s.roles.state i = (s.list i).state := rfl

@[simp] theorem emit_list (e : Event) (s : State) : (s.emit e).list = s.list := rfl

@[simp] theorem emit_current (e : Event) (s : State) : (s.emit e).current = s.current := rfl

@[simp] theorem emit_cur (e : Event) (s : State) : (s.emit e).cur = s.cur := rfl

@[simp] theorem modify_current (i : Nat) (f : ExecContext → ExecContext) (s : State) :
    (s.modify i f).current = s.current := rfl

theorem modify_list (i j : Nat) (f : ExecContext → ExecContext) (s : State) :
    (s.modify i f).list j = if j = i then f (s.list i) else s.list j :=
  Function.update_apply s.list i (f (s.list i)) j

theorem modify_self (i : Nat) (f : ExecContext → ExecContext) (s : State) : (s.modify i f).list i = f (s.list i) :=
  Function.update_self ..

theorem modify_other {s : State} {i j : Nat} (h : i ≠ j) (f : ExecContext → ExecContext) :
    (s.modify j f).list i = s.list i := Function.update_of_ne h ..

/-- The roles after one context changes. -/
theorem roles_modify (i : Nat) (f : ExecContext → ExecContext) (s : State) :
    (s.modify i f).roles = {s.roles with
      state := Function.update s.roles.state i (f (s.list i)).state
      pid := Function.update s.roles.pid i (f (s.list i)).pid} := by
  have hfield : ∀ {α : Type} (g : ExecContext → α), (fun j => g ((s.modify i f).list j)) =
      Function.update (fun j => g (s.list j)) i (g (f (s.list i))) :=
    fun g => Function.comp_update g s.list i (f (s.list i))
  simp only [State.roles, hfield, modify_current]

theorem roles_modify_same {f : ExecContext → ExecContext} (hstate : ∀ c, (f c).state = c.state)
    (hpid : ∀ c, (f c).pid = c.pid) (i : Nat) (s : State) : (s.modify i f).roles = s.roles := by
  rw [roles_modify, hstate, hpid]
  simp [State.roles]

theorem roles_mark (i : Nat) (x : ProcessState) (s : State) :
    (s.mark i x).roles = {s.roles with state := Function.update s.roles.state i x} := by
  rw [State.mark, roles_modify]
  simp [State.roles]

theorem saveCurrentContext_roles (s : State) : (saveCurrentContext s).roles = s.roles := by
  unfold saveCurrentContext
  dsimp only
  split
  · rfl
  · rw [roles_modify_same (by intro c; rfl) (by intro c; rfl), roles_emit]

theorem saveCurrentContext_log (s : State) : (saveCurrentContext s).log = s.log ++ [.save s.current] := by
  unfold saveCurrentContext
  dsimp only
  split <;> rfl

theorem saveCurrentContext_current (s : State) : (saveCurrentContext s).current = s.current :=
  congrArg Roles.current (saveCurrentContext_roles s)

theorem scheduleContext_roles (next : Nat) (s : State) :
    (scheduleContext next s).2.roles = {s.roles with
      current := next, state := Function.update s.roles.state next .running} := by
  have h : ((saveCurrentContext (s.emit (.switch s.cur.pid (s.list next).pid))).mark next .running).roles =
      {s.roles with state := Function.update s.roles.state next .running} := by
    rw [roles_mark, saveCurrentContext_roles]
    rfl
  exact congrArg (fun r => {r with current := next}) h

theorem scheduleContext_log (next : Nat) (s : State) :
    (scheduleContext next s).2.log = s.log ++ [.switch s.cur.pid (s.list next).pid, .save s.current] := by
  have h := saveCurrentContext_log (s.emit (.switch s.cur.pid (s.list next).pid))
  exact h.trans (List.append_assoc s.log [_] [_])

theorem doSleep_roles (ticks : Nat) (s : State) :
    (doSleep ticks s).2.roles = {s.roles with
      current := 0
      state := Function.update (Function.update s.roles.state s.current .waiting) 0 .running} := by
  rw [doSleep, scheduleContext_roles, roles_modify]
  simp [State.roles]

/-- What `pick_next_context` picks is READY, in the list and behind the current context. -/
theorem pickNextContext_some {s : State} {next : Nat} (h : (pickNextContext s).1 = some next) :
    s.cur.pid < next ∧ next < maxProcesses ∧ (s.list next).state = .ready := by
  obtain ⟨k, hk, hnext⟩ := Option.bind_eq_some_iff.mp h
  obtain ⟨hlow, -, hready, -⟩ := Probe.scan_eq_some.mp hk
  obtain ⟨hin, hsome⟩ := Option.ite_none_right_eq_some.mp hnext
  cases hsome
  exact ⟨by omega, hin, by simpa using hready⟩

theorem schedule_none {s : State} (h : (pickNextContext s).1 = none) : schedule s = (none, (pickNextContext s).2) := by
  unfold schedule
  split
  · rename_i next t hp
    simp [hp] at h
  · rename_i t hp
    simp [hp]

theorem schedule_some {s : State} {next : Nat} (h : (pickNextContext s).1 = some next) :
    schedule s = (some (scheduleContext next (pickNextContext s).2).1, (scheduleContext next (pickNextContext s).2).2) := by
  unfold schedule
  split
  · rename_i n t hp
    simp only [hp, Option.some.injEq] at h
    subst h
    simp [hp]
  · rename_i t hp
    simp [hp] at h

/-! ### Exit -/

/-- The state in which `do_exit` looks for another live context. -/
def leaving (s : State) : State :=
  let s := s.mark s.current .unused
  s.emit (.free s.cur.osStackPfn)

/-- The state in which it looks for a successor. -/
def parting (s : State) : State :=
  (search (fun c => c.pid > 0 ∧ c.state ≠ .unused) (maxProcesses - 1) 1 (leaving s)).2

/-- The `flag` of `do_exit`. -/
def Flagged (s : State) : Prop :=
  ∃ q, 0 < q ∧ q < maxProcesses ∧ q ≠ s.current ∧ (s.list q).pid > 0 ∧ (s.list q).state ≠ .unused

theorem leaving_list (s : State) (i : Nat) :
    (leaving s).list i = if i = s.current then {s.cur with state := .unused} else s.list i :=
  modify_list s.current i (fun c => {c with state := .unused}) s

theorem leaving_roles (s : State) :
    (leaving s).roles = {s.roles with state := Function.update s.roles.state s.current .unused} := by
  rw [leaving, roles_emit, roles_mark]

theorem flagged_iff (s : State) :
    (search (fun c => c.pid > 0 ∧ c.state ≠ .unused) (maxProcesses - 1) 1 (leaving s)).1.isSome ↔ Flagged s := by
  rw [search, Option.isSome_iff_ne_none, Ne, Probe.scan_eq_none]
  simp only [leaving_list, Flagged, maxProcesses]
  push Not
  constructor
  · intro ⟨q, hq, hlt, hlive⟩
    split at hlive
    · simp at hlive
    · exact ⟨q, by omega, by omega, ‹_›, by simpa using hlive⟩
  · intro ⟨q, hq, hlt, hne, hlive⟩
    exact ⟨q, by omega, by omega, by simpa [hne] using hlive⟩

theorem doExit_flagged {s : State} (h : Flagged s) : doExit s = schedule (parting s) :=
  if_pos ((flagged_iff s).mpr h)

theorem doExit_unflagged {s : State} (h : ¬ Flagged s) :
    doExit s = (some .cleanup, {(parting s).emit .cleanup with up := false}) :=
  if_neg fun hc => h ((flagged_iff s).mp hc)

theorem doExit_move {s : State} (hcur : s.current ≠ 0) : Move s.roles (doExit s).2.roles := by
  have hstrand : Move s.roles (leaving s).roles := by
    rw [leaving_roles]
    exact .strand hcur
  by_cases hc : Flagged s
  · rw [doExit_flagged hc]
    cases hp : (pickNextContext (parting s)).1 with
    | none =>
      rw [schedule_none hp]
      exact hstrand
    | some next =>
      obtain ⟨hpid, hin, hready⟩ := pickNextContext_some hp
      rw [schedule_some hp, scheduleContext_roles]
      have hroles : (pickNextContext (parting s)).2.roles =
          {s.roles with state := Function.update s.roles.state s.current .unused} := leaving_roles s
      have hstate : (leaving s).roles.state next = .ready := hready
      have hpid' : (leaving s).roles.pid s.current < next := hpid
      rw [leaving_roles] at hstate hpid'
      rw [hroles]
      exact .pass hcur hpid' hin hstate
  · rw [doExit_unflagged hc]
    exact hstrand

theorem invokeSyncSignal_move {s : State} (hcur : s.current ≠ 0) (signo : Signal) (frame : Regs) :
    Move s.roles (invokeSyncSignal signo frame s).2.2.roles := by
  unfold invokeSyncSignal
  dsimp only
  split
  · split <;> exact .stay
  · split
    · exact .stay
    · exact doExit_move (s := s.emit (.signal signo)) hcur

/-! ### Clone -/

theorem setByte_same (i v : Nat) (c : ExecContext) :
    (c.setByte i v).state = c.state ∧ (c.setByte i v).pid = c.pid := by
  unfold ExecContext.setByte
  repeat' split
  all_goals exact ⟨rfl, rfl⟩

theorem writeName_roles (slot : Nat) (vs : List Nat) (index : Nat) (s : State) :
    (writeName slot vs index s).roles = s.roles := by
  induction vs generalizing index s with
  | nil => rfl
  | cons v vs ih =>
    rw [writeName, ih]
    exact roles_modify_same (fun c => (setByte_same index v c).1) (fun c => (setByte_same index v c).2) ..

theorem newContext_roles (slot pfn : Nat) (s : State) : (newContext slot pfn s).roles = {s.roles with
    state := Function.update s.roles.state slot .new, pid := Function.update s.roles.pid slot slot} := by
  rw [newContext, roles_modify_same (by intro c; rfl) (by intro c; rfl),
    roles_modify_same (by intro c; rfl) (by intro c; rfl), roles_emit, getNewCtx, roles_modify]

theorem doClone_roles {thFunc userStack slot pfn : Nat} {s t : State}
    (h : doClone thFunc userStack slot pfn s = some t) : t.roles = {s.roles with
      state := Function.update s.roles.state slot .ready, pid := Function.update s.roles.pid slot slot} := by
  obtain ⟨index, -, rfl⟩ := Option.map_eq_some_iff.mp h
  have hinherit : ∀ (p : ExecContext) (u : State),
      (u.modify slot (inherit thFunc userStack p)).roles =
        {u.roles with state := Function.update u.roles.state slot .ready} := by
    intro p u
    rw [roles_modify]
    simp [inherit, State.roles]
  dsimp only
  rw [hinherit, writeName_roles, newContext_roles]
  simp

theorem doSleepAndAlarmAccount_list (s : State) (i : Nat) : ∃ n ≤ (s.list i).ticksToSleep,
    (doSleepAndAlarmAccount s).list i = {s.list i with ticksToSleep := n} := by
  unfold doSleepAndAlarmAccount
  dsimp only
  split
  · exact ⟨_, Nat.sub_le .., rfl⟩
  · exact ⟨_, Nat.le_refl _, rfl⟩

theorem doSleepAndAlarmAccount_roles (s : State) : (doSleepAndAlarmAccount s).roles = s.roles := by
  have hlist := doSleepAndAlarmAccount_list s
  unfold State.roles
  congr 1
  · funext i
    obtain ⟨n, -, h⟩ := hlist i
    rw [h]
  · funext i
    obtain ⟨n, -, h⟩ := hlist i
    rw [h]

/-! ### The tick -/

/-- The events of a context switch. -/
def Event.isSwitch : Event → Bool
  | .save _ | .switch .. => true
  | _ => false

/-- From `s` to `t` no context is switched, saved or marked. -/
structure Calm (s t : State) : Prop where
  roles : t.roles = s.roles
  log : ∀ e ∈ t.log, e.isSwitch = true → e ∈ s.log

theorem Calm.refl (s : State) : Calm s s := ⟨rfl, fun _ h _ => h⟩

theorem Calm.trans {s t u : State} (h : Calm s t) (h' : Calm t u) : Calm s u :=
  ⟨h'.roles.trans h.roles, fun e he hs => h.log e (h'.log e he hs) hs⟩

theorem Calm.emit {s : State} {e : Event} (he : e.isSwitch = false) : Calm s (s.emit e) := by
  refine ⟨rfl, fun e' hmem hs => ?_⟩
  rcases List.mem_append.mp hmem with h | h
  · exact h
  · simp [List.mem_singleton.mp h, he] at hs

theorem Calm.modify {s : State} {i : Nat} {f : ExecContext → ExecContext} (hstate : ∀ c, (f c).state = c.state)
    (hpid : ∀ c, (f c).pid = c.pid) : Calm s (s.modify i f) :=
  ⟨roles_modify_same hstate hpid i s, fun _ h _ => h⟩

theorem search_calm (P : ExecContext → Bool) (n i : Nat) (s : State) : Calm s (search P n i s).2 := by
  refine ⟨rfl, fun e he hs => ?_⟩
  rcases List.mem_append.mp he with h | h
  · exact h
  · obtain ⟨k, -, rfl⟩ := List.mem_map.mp h
    cases hs

theorem invokeSyncSignal_alarm (frame : Regs) (s : State) :
    ∃ frame' t, invokeSyncSignal .sigalrm frame s = (none, frame', t) ∧ Calm s t ∧ t.list = s.list ∧ t.up = s.up := by
  unfold invokeSyncSignal
  simp only [if_true]
  split
  · exact ⟨_, _, rfl, .emit rfl, rfl, rfl⟩
  · exact ⟨_, _, rfl, (Calm.emit rfl).trans (.emit rfl), rfl, rfl⟩

theorem modify_sleep {f : ExecContext → ExecContext} (hf : ∀ c, (f c).ticksToSleep = c.ticksToSleep)
    (i j : Nat) (s : State) : ((s.modify i f).list j).ticksToSleep = (s.list j).ticksToSleep := by
  rw [modify_list]
  split
  · rename_i h
    rw [hf, h]
  · rfl

/-- An alarm neither leaves the handler nor switches, and it counts no sleep. -/
theorem countAlarm_calm (frame : Regs) (s : State) :
    ∃ frame' t, countAlarm frame s = (none, frame', t) ∧ Calm s t ∧
      ∀ i, (t.list i).ticksToSleep = (s.list i).ticksToSleep := by
  unfold countAlarm
  split
  · exact ⟨_, _, rfl, .modify (fun _ => rfl) (fun _ => rfl), fun i => modify_sleep (by intro c; rfl) _ i s⟩
  · split
    · obtain ⟨frame', t, h, hcalm, hlist, -⟩ := invokeSyncSignal_alarm frame s
      rw [h]
      refine ⟨_, _, rfl, hcalm.trans (.modify (fun _ => rfl) (fun _ => rfl)), fun i => ?_⟩
      rw [← hlist]
      exact modify_sleep (by intro c; rfl) _ i t
    · exact ⟨_, _, rfl, .refl s, fun _ => rfl⟩

/-- The state in which a tick has accounted for sleeps and alarms. -/
def accounted (frame : Regs) (s : State) : State := (countAlarm frame (doSleepAndAlarmAccount s)).2.2

/-- The tick's search for a context whose sleep is over. -/
def sleepers (frame : Regs) (s : State) : Option Nat × State :=
  search (fun c => c.state = .waiting ∧ c.ticksToSleep = 0) maxProcesses 0 (accounted frame s)

/-- What the tick makes of `s` when it switches to `next`. -/
def wake (next : Nat) (s : State) : State :=
  let s := saveCurrentContext (s.emit (.switch s.cur.pid (s.list next).pid))
  let s := (s.mark s.current .ready).mark next .running
  {s with current := next}

theorem handleTimerTick_none {frame : Regs} {s : State} (h : (sleepers frame s).1 = none) :
    ∃ frame', handleTimerTick frame s = (.back frame', (sleepers frame s).2) := by
  obtain ⟨frame', t, halarm, -⟩ := countAlarm_calm frame (doSleepAndAlarmAccount s)
  simp only [sleepers, accounted, halarm] at h ⊢
  unfold handleTimerTick
  rw [halarm]
  dsimp only
  split
  · rename_i next u hfound
    rw [hfound] at h
    cases h
  · rename_i u hfound
    exact ⟨frame', by rw [hfound]⟩

theorem handleTimerTick_some {frame : Regs} {s : State} {next : Nat} (h : (sleepers frame s).1 = some next) :
    handleTimerTick frame s =
      (.leave (.iretq (restored ((wake next (sleepers frame s).2).list next))), wake next (sleepers frame s).2) := by
  obtain ⟨frame', t, halarm, -⟩ := countAlarm_calm frame (doSleepAndAlarmAccount s)
  simp only [sleepers, accounted, halarm] at h ⊢
  unfold handleTimerTick
  rw [halarm]
  dsimp only
  split
  · rename_i n u hfound
    rw [hfound] at h
    cases h
    rw [hfound]
    rfl
  · rename_i u hfound
    rw [hfound] at h
    cases h

theorem wake_roles (next : Nat) (s : State) : (wake next s).roles = {s.roles with
    current := next, state := Function.update (Function.update s.roles.state s.current .ready) next .running} := by
  have h : (((saveCurrentContext (s.emit (.switch s.cur.pid (s.list next).pid))).mark
      s.current .ready).mark next .running).roles = {s.roles with
        state := Function.update (Function.update s.roles.state s.current .ready) next .running} := by
    rw [roles_mark, roles_mark, saveCurrentContext_roles, roles_emit]
  unfold wake
  dsimp only
  rw [saveCurrentContext_current]
  exact congrArg (fun r => {r with current := next}) h

theorem wake_log (next : Nat) (s : State) :
    (wake next s).log = s.log ++ [.switch s.cur.pid (s.list next).pid, .save s.current] := by
  have h := saveCurrentContext_log (s.emit (.switch s.cur.pid (s.list next).pid))
  exact h.trans (List.append_assoc s.log [_] [_])

/-- The context at `i` is WAITING and the tick's accounting finds its sleep over. -/
def Expired (s : State) (i : Nat) : Prop :=
  (s.list i).state = .waiting ∧ ((doSleepAndAlarmAccount s).list i).ticksToSleep = 0

theorem accounted_calm (frame : Regs) (s : State) : Calm s (accounted frame s) := by
  obtain ⟨frame', t, halarm, hcalm, -⟩ := countAlarm_calm frame (doSleepAndAlarmAccount s)
  rw [accounted, halarm]
  exact Calm.trans ⟨doSleepAndAlarmAccount_roles s, fun _ h _ => h⟩ hcalm

theorem sleepers_calm (frame : Regs) (s : State) : Calm s (sleepers frame s).2 :=
  (accounted_calm frame s).trans (search_calm ..)

theorem accounted_expired (frame : Regs) (s : State) (i : Nat) :
    (((accounted frame s).list i).state = .waiting ∧ ((accounted frame s).list i).ticksToSleep = 0) ↔ Expired s i := by
  have hstate : ((accounted frame s).list i).state = (s.list i).state :=
    congrFun (congrArg Roles.state (accounted_calm frame s).roles) i
  obtain ⟨frame', t, halarm, -, hsleep⟩ := countAlarm_calm frame (doSleepAndAlarmAccount s)
  rw [hstate, accounted, halarm, hsleep, Expired]

/-- A tick leaves every role as it is when no sleep is over, or else wakes the first context
whose sleep is over in place of the current one. -/
theorem handleTimerTick_cases (frame : Regs) (s : State) :
    (∀ i, i < maxProcesses → ¬ Expired s i) ∧ Calm s (handleTimerTick frame s).2 ∨
    ∃ next, next < maxProcesses ∧ Expired s next ∧
      (handleTimerTick frame s).2.roles = {s.roles with
        current := next
        state := Function.update (Function.update s.roles.state s.current .ready) next .running} ∧
      (handleTimerTick frame s).1 = .leave (.iretq (restored ((handleTimerTick frame s).2.list next))) ∧
      ∀ e ∈ (handleTimerTick frame s).2.log, e.isSwitch = true →
        e ∈ s.log ∨ e = .save s.current ∨ e = .switch s.cur.pid (s.list next).pid := by
  have hcalm := sleepers_calm frame s
  cases hp : (sleepers frame s).1 with
  | none =>
    left
    obtain ⟨frame', heq⟩ := handleTimerTick_none hp
    rw [heq]
    refine ⟨fun i hi hexp => ?_, hcalm⟩
    have := Probe.scan_eq_none.mp hp i (Nat.zero_le i) (by omega)
    exact of_decide_eq_false this ((accounted_expired frame s i).mpr hexp)
  | some next =>
    right
    rw [handleTimerTick_some hp]
    obtain ⟨-, hin, hwait, -⟩ := Probe.scan_eq_some.mp hp
    have hcur : (sleepers frame s).2.current = s.current := congrArg Roles.current hcalm.roles
    have hpid : ∀ i, ((sleepers frame s).2.list i).pid = (s.list i).pid :=
      fun i => congrFun (congrArg Roles.pid hcalm.roles) i
    refine ⟨next, by omega, (accounted_expired frame s next).mp (by simpa using hwait), ?_, rfl, fun e he hs => ?_⟩
    · rw [wake_roles, hcalm.roles, hcur]
    · rw [wake_log, List.mem_append, List.mem_cons, List.mem_singleton] at he
      rcases he with h | h | h
      · exact .inl (hcalm.log e h hs)
      · right; right
        rw [h, State.cur, hcur, hpid, hpid]
        rfl
      · right; left
        rw [h, hcur]

/-! ### Runs -/

theorem doSyscall_move (user : Regs) {call : Call} {s t : State} {r : Ret}
    (h : doSyscall call s = some (r, t)) (hok : Allowed (.syscall user call) s) : Move s.roles t.roles := by
  cases call with
  | sleep ticks =>
    have ht : (doSleep ticks s).2 = t := congrArg Prod.snd (Option.some.inj h)
    rw [← ht, doSleep_roles]
    exact .sleep hok
  | clone thFunc userStack slot pfn =>
    obtain ⟨u, hu, hr⟩ := Option.map_eq_some_iff.mp h
    cases hr
    rw [doClone_roles hu]
    exact .clone hok.2.1 hok.2.2
  | exit =>
    have ht : (doExit s).2 = t := congrArg Prod.snd (Option.some.inj h)
    rw [← ht]
    exact doExit_move hok
  | alarm ticks =>
    cases h
    rw [doAlarm, roles_modify_same (by intro c; rfl) (by intro c; rfl)]
    exact .stay
  | signal signo handler =>
    obtain ⟨u, hu, hr⟩ := Option.map_eq_some_iff.mp h
    cases hr
    obtain ⟨n, -, rfl⟩ := Option.map_eq_some_iff.mp hu
    rw [roles_modify_same (by intro c; rfl) (by intro c; rfl)]
    exact .stay

theorem handleTimerTick_move (frame : Regs) (s : State) : Move s.roles (handleTimerTick frame s).2.roles := by
  rcases handleTimerTick_cases frame s with ⟨-, hcalm⟩ | ⟨next, hin, hexp, hroles, -, -⟩
  · rw [hcalm.roles]
    exact .stay
  · rw [hroles]
    exact .wake hin hexp.1

/-- The state a tick's handler starts from. -/
def ticking (user : Regs) (scratch : Nat → Nat) (s : State) : State :=
  State.interrupt user scratch {s with log := []}

/-- The state a system call starts from. -/
def calling (user : Regs) (s : State) : State := State.enter user {s with log := []}

theorem step_tick {user : Regs} {scratch : Nat → Nat} {s t : State} {r : Ret}
    (h : step (.tick user scratch) s = some (r, t)) : (handleTimerTick user (ticking user scratch s)).2 = t :=
  congrArg Prod.snd (Option.some.inj (Option.ite_none_right_eq_some.mp h).2)

theorem step_move {op : Op} {s t : State} {r : Ret} (h : step op s = some (r, t)) (hok : Allowed op s) :
    Move s.roles t.roles := by
  cases op with
  | tick user scratch =>
    rw [← step_tick h]
    exact handleTimerTick_move user (ticking user scratch s)
  | fault signo user scratch =>
    have ht : (invokeSyncSignal signo user (ticking user scratch s)).2.2 = t :=
      congrArg Prod.snd (Option.some.inj (Option.ite_none_right_eq_some.mp h).2)
    rw [← ht]
    exact invokeSyncSignal_move (s := ticking user scratch s) hok signo user
  | syscall user call =>
    have hok' : Allowed (.syscall user call) (calling user s) := by cases call <;> exact hok
    exact doSyscall_move user (s := calling user s) (Option.ite_none_right_eq_some.mp h).2 hok'

/-- How the system starts: `init` is RUNNING, the swapper READY and every other context
UNUSED. -/
structure Start (s : State) : Prop where
  inList : s.current < maxProcesses
  user : s.current ≠ 0
  pid : s.cur.pid = s.current
  init : s.cur.state = .running
  swapper : (s.list 0).state = .ready
  swapperPid : (s.list 0).pid = 0
  others : ∀ i, i < maxProcesses → i ≠ 0 → i ≠ s.current → (s.list i).state = .unused

theorem Start.orderly {s : State} (h : Start s) : Orderly s.roles := by
  obtain ⟨hin, huser, hpid, hinit, hswap, hswapPid, hothers⟩ := h
  unfold State.cur at hpid hinit
  constructor <;> grind [State.roles]

theorem reaches_orderly {s₀ s : State} (h₀ : Start s₀)
    (h : Reaches step (fun op s _ => Allowed op s) s₀ s) : Orderly s.roles :=
  h.invariant (fun s => Orderly s.roles) h₀.orderly fun _ _ _ _ hs hst hok => hs.move (step_move hst hok)

end CS330.Sched
