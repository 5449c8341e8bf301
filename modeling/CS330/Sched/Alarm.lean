import CS330.Sched.Clone
import CS330.Sched.Keeps
import CS330.Sched.Sleep

/-! The alarm of the current context.

A tick lowers `ticks_to_alarm`, or, when it is 0, delivers SIGALRM and sets it to
`alarm_config_time` again. Nothing else that happens while the context stays current touches the
two, but for another `do_alarm`. -/
namespace CS330.Sched
open Machine

/-- The alarm of the context at `i` is the same, and no SIGALRM is delivered. -/
structure KeepsAlarm (i : Nat) (s t : State) : Prop where
  ticksToAlarm : (t.list i).ticksToAlarm = (s.list i).ticksToAlarm
  alarmConfigTime : (t.list i).alarmConfigTime = (s.list i).alarmConfigTime
  delivered : .signal .sigalrm ∈ t.log ↔ .signal .sigalrm ∈ s.log

theorem alarm_bystander :
    Bystander (fun c => (c.ticksToAlarm, c.alarmConfigTime)) (· = .signal .sigalrm) :=
  ⟨fun _ _ => rfl, fun _ _ => rfl, by simp, by simp, by simp⟩

theorem Keeps.alarm {s t : State}
    (h : Keeps (fun c => (c.ticksToAlarm, c.alarmConfigTime)) (· = .signal .sigalrm) s t) (i : Nat) :
    KeepsAlarm i s t :=
  ⟨congrArg Prod.fst (h.list i), congrArg Prod.snd (h.list i), h.log _ rfl⟩

/-- What a tick does to the alarm of the current context. -/
structure CountsAlarm (s t : State) : Prop where
  ticksToAlarm : (t.list s.current).ticksToAlarm =
    if 0 < s.cur.ticksToAlarm then s.cur.ticksToAlarm - 1 else s.cur.alarmConfigTime
  alarmConfigTime : (t.list s.current).alarmConfigTime = s.cur.alarmConfigTime
  delivered : .signal .sigalrm ∈ t.log ↔
    .signal .sigalrm ∈ s.log ∨ s.cur.ticksToAlarm = 0 ∧ s.cur.alarmConfigTime ≠ 0

section
variable {s t : State}

theorem CountsAlarm.trans {u : State} (h : CountsAlarm s t) (h' : KeepsAlarm s.current t u) : CountsAlarm s u :=
  ⟨h'.ticksToAlarm.trans h.ticksToAlarm, h'.alarmConfigTime.trans h.alarmConfigTime, h'.delivered.trans h.delivered⟩

theorem invokeSyncSignal_alarm_log (frame : Regs) (s : State) :
    .signal .sigalrm ∈ (invokeSyncSignal .sigalrm frame s).2.2.log := by
  unfold invokeSyncSignal
  simp only [if_true]
  split <;> simp [State.emit, redirect]

theorem countAlarm_counts (frame : Regs) (s : State) : CountsAlarm s (countAlarm frame s).2.2 := by
  unfold countAlarm
  split
  · rename_i hpos
    have hne : s.cur.ticksToAlarm ≠ 0 := by omega
    dsimp only
    refine ⟨?_, ?_, (or_iff_left fun h => hne h.1).symm⟩
    · rw [if_pos hpos, modify_self]
      rfl
    · rw [modify_self]
      rfl
  · rename_i hzero
    split
    · rename_i hconfig
      have hlog := invokeSyncSignal_alarm_log frame s
      obtain ⟨frame', t, ht, hcalm, hlist, -⟩ := invokeSyncSignal_alarm frame s
      have hcur : t.current = s.current := congrArg Roles.current hcalm.roles
      rw [ht] at hlog ⊢
      dsimp only
      rw [hcur]
      refine ⟨?_, ?_, iff_of_true hlog (.inr ⟨by omega, hconfig⟩)⟩
      · rw [if_neg hzero, modify_self, hlist]
        rfl
      · rw [modify_self, hlist]
        rfl
    · rename_i hconfig
      have hconfig : s.cur.alarmConfigTime = 0 := not_not.mp hconfig
      refine ⟨?_, rfl, by simp [hconfig]⟩
      rw [if_neg hzero, hconfig]
      show s.cur.ticksToAlarm = 0
      omega

/-- The accounting of sleeps leaves the current context alone. -/
theorem doSleepAndAlarmAccount_cur (s : State) : (doSleepAndAlarmAccount s).cur = s.cur :=
  if_neg fun h => h.2.1 rfl

theorem handleTimerTick_counts (frame : Regs) (s : State) : CountsAlarm s (handleTimerTick frame s).2 := by
  have h := countAlarm_counts frame (doSleepAndAlarmAccount s)
  have haccounted : CountsAlarm s (accounted frame s) := by
    obtain ⟨hticks, hconfig, hdelivered⟩ := h
    rw [doSleepAndAlarmAccount_cur] at hticks hconfig hdelivered
    exact ⟨hticks, hconfig, hdelivered⟩
  exact haccounted.trans ((alarm_bystander.handleTimerTick frame s).alarm _)

end

/-! ### A process that stays current -/

/-- What a process may do between ticks, without setting an alarm or giving up the CPU. -/
def Quiet : Op → State → Prop
  | .syscall _ (.clone _ _ slot _), s => slot ≠ s.current
  | .syscall _ (.signal ..), _ => True
  | .fault signo .., s => s.cur.sighandlers signo ≠ 0
  | _, _ => False

/-- From `s` to `t` the same context is current, with the same alarm. -/
structure SameAlarm (s t : State) : Prop where
  current : t.current = s.current
  ticksToAlarm : t.cur.ticksToAlarm = s.cur.ticksToAlarm
  alarmConfigTime : t.cur.alarmConfigTime = s.cur.alarmConfigTime

theorem step_quiet {op : Op} {r : Ret} {s t : State} (h : step op s = some (r, t)) (hop : Quiet op s) :
    SameAlarm s t := by
  cases op with
  | tick => exact hop.elim
  | fault signo user scratch =>
    have ht : (invokeSyncSignal signo user (ticking user scratch s)).2.2 = t :=
      congrArg Prod.snd (Option.some.inj (Option.ite_none_right_eq_some.mp h).2)
    have hhandler : ((ticking user scratch s).emit (.signal signo)).cur.sighandlers signo ≠ 0 := hop
    rw [← ht]
    unfold invokeSyncSignal
    dsimp only
    simp only [if_neg hhandler, if_pos hhandler, ite_self]
    exact ⟨rfl, rfl, rfl⟩
  | syscall user call =>
    cases call with
    | clone thFunc userStack slot pfn =>
      obtain ⟨u, hu, hr⟩ := Option.map_eq_some_iff.mp (Option.ite_none_right_eq_some.mp h).2
      cases hr
      obtain ⟨index, -, hclone⟩ := doClone_cloned hu
      have hcur : t.cur = s.cur := by
        rw [State.cur, hclone.current]
        exact hclone.other _ (Ne.symm hop)
      exact ⟨hclone.current, by rw [hcur], by rw [hcur]⟩
    | signal signo handler =>
      obtain ⟨u, hu, hr⟩ := Option.map_eq_some_iff.mp (Option.ite_none_right_eq_some.mp h).2
      cases hr
      obtain ⟨n, -, rfl⟩ := Option.map_eq_some_iff.mp hu
      have hkeep := (Keeps.modify (f := fun c => {c with sighandlers := Function.update c.sighandlers n handler})
        (by intro c; rfl) s.current (calling user s)).alarm s.current
      exact ⟨rfl, hkeep.ticksToAlarm, hkeep.alarmConfigTime⟩
    | _ => exact hop.elim

end CS330.Sched
