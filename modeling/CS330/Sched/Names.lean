import CS330.Sched.Clone
import CS330.Sched.Keeps

/-! Who writes names.

Only a clone does, into its own slot. Every other event keeps all names (`KeepsNames`). -/
namespace CS330.Sched

/-- No name changes from `s` to `t`, none is written, and the current context stays in the list. -/
structure KeepsNames (s t : State) : Prop where
  name : ∀ i, (t.list i).name = (s.list i).name
  writes : ∀ k, .nameWrite k ∈ t.log → .nameWrite k ∈ s.log
  inList : s.current < maxProcesses → t.current < maxProcesses

section
variable {s t u : State}

theorem KeepsNames.refl (s : State) : KeepsNames s s := ⟨fun _ => rfl, fun _ h => h, id⟩

theorem KeepsNames.trans (h : KeepsNames s t) (h' : KeepsNames t u) : KeepsNames s u :=
  ⟨fun i => (h'.name i).trans (h.name i), fun k hk => h.writes k (h'.writes k hk), fun hs => h'.inList (h.inList hs)⟩

theorem name_bystander : Bystander ExecContext.name (fun e => ∃ k, e = .nameWrite k) :=
  ⟨fun _ _ => rfl, fun _ _ => rfl, by simp, by simp, by simp⟩

theorem Keeps.names (h : Keeps ExecContext.name (fun e => ∃ k, e = .nameWrite k) s t)
    (hin : s.current < maxProcesses → t.current < maxProcesses) : KeepsNames s t :=
  ⟨h.list, fun k => (h.log _ ⟨k, rfl⟩).mp, hin⟩

theorem KeepsNames.emit {e : Event} (he : ∀ k, e ≠ .nameWrite k) (s : State) : KeepsNames s (s.emit e) :=
  (Keeps.emit (not_exists.mpr he) s).names id

theorem KeepsNames.modify {f : ExecContext → ExecContext} (hf : ∀ c, (f c).name = c.name) (i : Nat) (s : State) :
    KeepsNames s (s.modify i f) :=
  (Keeps.modify hf i s).names id

theorem search_keepsNames (P : ExecContext → Bool) (n i : Nat) (s : State) : KeepsNames s (search P n i s).2 :=
  (name_bystander.search P n i s).names id

theorem scheduleContext_keepsNames {next : Nat} (hnext : next < maxProcesses) (s : State) :
    KeepsNames s (scheduleContext next s).2 :=
  (name_bystander.scheduleContext next s).names fun _ => hnext

theorem schedule_keepsNames (s : State) : KeepsNames s (schedule s).2 := by
  have hsearch : KeepsNames s (pickNextContext s).2 :=
    search_keepsNames (fun c => c.state = .ready) (maxProcesses - 1) (1 + s.cur.pid) s
  cases hp : (pickNextContext s).1 with
  | none =>
    rw [schedule_none hp]
    exact hsearch
  | some next =>
    rw [schedule_some hp]
    exact hsearch.trans (scheduleContext_keepsNames (pickNextContext_some hp).2.1 _)

theorem doExit_keepsNames (s : State) : KeepsNames s (doExit s).2 := by
  have hparting : KeepsNames s (parting s) :=
    ((name_bystander.mark .. |>.names id).trans (.emit (by simp) _)).trans (search_keepsNames ..)
  by_cases hc : Flagged s
  · rw [doExit_flagged hc]
    exact hparting.trans (schedule_keepsNames _)
  · rw [doExit_unflagged hc]
    have hcleanup := hparting.trans (KeepsNames.emit (e := .cleanup) (by simp) _)
    exact ⟨hcleanup.name, hcleanup.writes, hcleanup.inList⟩

theorem doSleep_keepsNames (n : Nat) (s : State) : KeepsNames s (doSleep n s).2 :=
  (KeepsNames.modify (f := fun c => {c with ticksToSleep := n, state := .waiting}) (by intro c; rfl) s.current s).trans
    (scheduleContext_keepsNames (by decide) _)

theorem invokeSyncSignal_keepsNames (signo : Signal) (frame : Regs) (s : State) :
    KeepsNames s (invokeSyncSignal signo frame s).2.2 := by
  have hsignal := KeepsNames.emit (e := .signal signo) (by simp) s
  have hredirect : ∀ handler, KeepsNames s (redirect handler frame (s.emit (.signal signo))).2 :=
    fun _ => hsignal.trans (.emit (by simp) _)
  unfold invokeSyncSignal
  dsimp only
  split
  · split
    · exact hsignal
    · exact hredirect _
  · split
    · exact hredirect _
    · exact hsignal.trans (doExit_keepsNames _)

theorem doSleepAndAlarmAccount_keepsNames (s : State) : KeepsNames s (doSleepAndAlarmAccount s) := by
  refine ⟨fun i => ?_, fun _ h => h, id⟩
  obtain ⟨n, -, h⟩ := doSleepAndAlarmAccount_list s i
  rw [h]

theorem countAlarm_keepsNames (frame : Regs) (s : State) : KeepsNames s (countAlarm frame s).2.2 := by
  unfold countAlarm
  split
  · dsimp only
    exact .modify (by intro c; rfl) ..
  · split
    · have hsignal := invokeSyncSignal_keepsNames .sigalrm frame s
      obtain ⟨frame', t, ht, -⟩ := invokeSyncSignal_alarm frame s
      rw [ht] at hsignal ⊢
      dsimp only
      exact hsignal.trans (.modify (by intro c; rfl) ..)
    · exact .refl s

theorem handleTimerTick_keepsNames (frame : Regs) (s : State) : KeepsNames s (handleTimerTick frame s).2 := by
  have haccounted : KeepsNames s (accounted frame s) :=
    (doSleepAndAlarmAccount_keepsNames s).trans (countAlarm_keepsNames frame _)
  refine haccounted.trans ((name_bystander.handleTimerTick frame s).names fun hin => ?_)
  cases hp : (sleepers frame s).1 with
  | none =>
    obtain ⟨frame', heq⟩ := handleTimerTick_none hp
    rw [heq]
    exact hin
  | some next =>
    obtain ⟨-, hlt, -⟩ := Probe.scan_eq_some.mp hp
    rw [handleTimerTick_some hp]
    show next < maxProcesses
    omega

/-! ### Events -/

/-- The event is a clone. -/
def Op.IsClone : Op → Prop
  | .syscall _ (.clone ..) => True
  | _ => False

theorem step_keepsNames {op : Op} {r : Ret} (h : step op s = some (r, t)) (hop : ¬ op.IsClone) :
    (∀ i, (t.list i).name = (s.list i).name) ∧ (∀ k, .nameWrite k ∉ t.log) ∧
      (s.current < maxProcesses → t.current < maxProcesses) := by
  have hperform := (Option.ite_none_right_eq_some.mp h).2
  have hkeep : ∀ u : State, u.list = s.list → u.current = s.current → u.log = [] → KeepsNames u t →
      (∀ i, (t.list i).name = (s.list i).name) ∧ (∀ k, .nameWrite k ∉ t.log) ∧
        (s.current < maxProcesses → t.current < maxProcesses) := by
    intro u hlist hcur hlog hu
    refine ⟨fun i => by rw [hu.name, hlist], fun k hk => ?_, fun hs => hu.inList (by rwa [hcur])⟩
    have := hu.writes k hk
    rw [hlog] at this
    cases this
  cases op with
  | tick user scratch =>
    refine hkeep (ticking user scratch s) rfl rfl rfl ?_
    rw [← step_tick h]
    exact handleTimerTick_keepsNames ..
  | fault signo user scratch =>
    refine hkeep (ticking user scratch s) rfl rfl rfl ?_
    have ht : (invokeSyncSignal signo user (ticking user scratch s)).2.2 = t :=
      congrArg Prod.snd (Option.some.inj hperform)
    rw [← ht]
    exact invokeSyncSignal_keepsNames ..
  | syscall user call =>
    refine hkeep (calling user s) rfl rfl rfl ?_
    cases call with
    | sleep ticks =>
      have ht : (doSleep ticks (calling user s)).2 = t := congrArg Prod.snd (Option.some.inj hperform)
      rw [← ht]
      exact doSleep_keepsNames ..
    | clone => exact absurd trivial hop
    | exit =>
      have ht : (doExit (calling user s)).2 = t := congrArg Prod.snd (Option.some.inj hperform)
      rw [← ht]
      exact doExit_keepsNames _
    | alarm ticks =>
      cases hperform
      exact .modify (by intro c; rfl) ..
    | signal signo handler =>
      obtain ⟨u, hu, hr⟩ := Option.map_eq_some_iff.mp hperform
      cases hr
      obtain ⟨n, -, rfl⟩ := Option.map_eq_some_iff.mp hu
      exact .modify (by intro c; rfl) ..

end

end CS330.Sched
