import CS330.Sched.Alarm
import CS330.Theorems.Scheduler

/-! Sleeps and alarms: when they end, and what a process that has slept comes back to. -/
namespace CS330.Sched
open Machine

/-! ### Sleep -/

/-- **A sleep lasts the requested ticks.** In every run, a sleep of the current user context for
`n` ticks gives the CPU to the swapper. The context is WAITING after each of the following
`max n 1 - 1` ticks, and the next tick makes it current again. No other context changes state. -/
theorem sleep_lasts {s₀ s : State} (h₀ : Start s₀) (hrun : Runs s₀ s) (hup : s.up = true) (huser : s.current ≠ 0)
    (user : Regs) (n : Nat) : ∃ r t, step (.syscall user (.sleep n)) s = some (r, t) ∧
      ∀ inputs : List (Regs × (Nat → Nat)), inputs.length ≤ max n 1 →
        ∃ rs u, runAll step (ticks inputs) t = some (rs, u) ∧
          (∀ i, i ≠ 0 → i ≠ s.current → (u.list i).state = (s.list i).state) ∧
          if inputs.length < max n 1 then
            u.current = 0 ∧ (u.list s.current).state = .waiting ∧ (u.list 0).state = .running
          else u.current = s.current ∧ (u.list s.current).state = .running ∧ (u.list 0).state = .ready := by
  obtain ⟨r, t, regs, hstep, hasleep, hcount, -, hroles⟩ := sleep_asleep (reaches_orderly h₀ hrun) hup huser user n
  refine ⟨r, t, hstep, fun inputs hle => ?_⟩
  rw [← hcount] at hle ⊢
  have hothers : ∀ i, i ≠ 0 → i ≠ s.current → t.roles.state i = (s.list i).state := by
    intro i hi hi'
    rw [hroles]
    exact (Function.update_of_ne hi ..).trans (Function.update_of_ne hi' ..)
  by_cases hlt : inputs.length < max (t.list s.current).ticksToSleep 1
  · obtain ⟨rs, u, hticks, hu, hasleep', -⟩ := hasleep.ticks inputs hlt
    have hstate : ∀ i, (u.list i).state = t.roles.state i := fun i => congrFun (congrArg Roles.state hu) i
    refine ⟨rs, u, hticks, fun i hi hi' => (hstate i).trans (hothers i hi hi'), ?_⟩
    rw [if_pos hlt]
    exact ⟨hasleep'.current, hasleep'.waiting, hasleep'.orderly.swapper.trans (if_pos hasleep'.current)⟩
  · obtain ⟨rs, u, hticks, hu⟩ := hasleep.ticks_wake inputs (by omega)
    have hstate : ∀ i, (u.list i).state =
        Function.update (Function.update t.roles.state 0 .ready) s.current .running i :=
      fun i => congrFun (congrArg Roles.state hu) i
    refine ⟨rs, u, hticks, fun i hi hi' => ?_, ?_⟩
    · rw [hstate, Function.update_of_ne hi', Function.update_of_ne hi, hothers i hi hi']
    · rw [if_neg hlt]
      refine ⟨congrArg Roles.current hu, ?_, ?_⟩
      · rw [hstate, Function.update_self]
      · rw [hstate, Function.update_of_ne huser.symm, Function.update_self]

/-- `init` sleeps for two ticks. -/
theorem sleep_lasts_two : ∃ r t rs u, step (.syscall idle (.sleep 2)) boot = some (r, t) ∧
    runAll step (ticks [(idle, fun _ => 0), (idle, fun _ => 0)]) t = some (rs, u) ∧ u.current = 1 ∧
      (u.list 1).state = .running := by
  obtain ⟨r, t, hstep, h⟩ := sleep_lasts boot_start .start rfl (by decide) idle 2
  obtain ⟨rs, u, hticks, -, hend⟩ := h [(idle, fun _ => 0), (idle, fun _ => 0)] (by decide)
  exact ⟨r, t, rs, u, hstep, hticks, hend.1, hend.2.1⟩

/-- **A process that slept resumes with its registers.** In every run, whatever the registers of
the current user context at its sleep, and whatever happens while it is WAITING, the tick that
makes it current again returns into it with these registers, all but `rax`. -/
theorem sleep_resumes {s₀ s t u v : State} (h₀ : Start s₀) (hrun : Runs s₀ s) (huser : s.current ≠ 0)
    {user user' : Regs} {scratch : Nat → Nat} {n : Nat} {r r' : Ret}
    (hsleep : step (.syscall user (.sleep n)) s = some (r, t))
    (hasleep : Reaches step (fun op a b => Allowed op a ∧ (b.list s.current).state = .waiting) t u)
    (hwake : step (.tick user' scratch) u = some (r', v)) (hcur : v.current = s.current) :
    ∃ regs, r' = .leave (.iretq regs) ∧ ∀ reg, reg ≠ .rax → regs reg = some (user reg) := by
  have hup : s.up = true := (Option.ite_none_right_eq_some.mp hsleep).1
  obtain ⟨r₁, t₁, regs, hstep, hstart, -, hregs, -⟩ := sleep_asleep (reaches_orderly h₀ hrun) hup huser user n
  obtain ⟨rfl, rfl⟩ : r = r₁ ∧ t = t₁ := by simpa using hsleep.symm.trans hstep
  have hu : Asleep s.current regs u := by
    refine hasleep.invariant (Asleep s.current regs) hstart fun op a r b ha hab ⟨hok, hwait⟩ => ?_
    -- the swapper is current, so the event is a tick
    cases op with
    | tick user scratch =>
      obtain ⟨r₂, b₂, hstep₂, ⟨-, -, hb, -⟩ | ⟨-, -, -, -, hroles⟩⟩ := ha.tick user scratch
      · obtain ⟨-, rfl⟩ : r = r₂ ∧ b = b₂ := by simpa using hab.symm.trans hstep₂
        exact hb
      · obtain ⟨-, rfl⟩ : r = r₂ ∧ b = b₂ := by simpa using hab.symm.trans hstep₂
        have hrunning : (b.list s.current).state = .running :=
          (congrFun (congrArg Roles.state hroles) s.current).trans (Function.update_self ..)
        rw [hwait] at hrunning
        cases hrunning
    | fault signo user scratch => exact absurd ha.current hok
    | syscall user call =>
      have : a.current ≠ 0 := by
        cases call with
        | clone => exact hok.1
        | _ => exact hok
      exact absurd ha.current this
  obtain ⟨r₂, v₂, hstep₂, hcases⟩ := hu.tick user' scratch
  obtain ⟨rfl, rfl⟩ : r' = r₂ ∧ v = v₂ := by simpa using hwake.symm.trans hstep₂
  rcases hcases with ⟨-, hroles, hv, -⟩ | ⟨-, hret, hregs', hpid, -⟩
  · exact absurd (hv.current ▸ hcur).symm huser
  · refine ⟨_, hret, fun reg hreg => ?_⟩
    rw [restored, if_neg fun h => huser (hpid.symm.trans h.1), hregs', hregs reg hreg]

theorem sleep_resumes_once : ∃ r t r' v regs, step (.syscall (fun _ => 7) (.sleep 1)) boot = some (r, t) ∧
    step (.tick idle fun _ => 0) t = some (r', v) ∧ v.current = 1 ∧ r' = .leave (.iretq regs) ∧
      regs .rbx = some 7 := by
  have hsleep : step (.syscall (fun _ => 7) (.sleep 1)) boot = some (_, _) := rfl
  obtain ⟨regs, hret, hregs⟩ :=
    @sleep_resumes boot boot _ _ _ boot_start .start (by decide) (fun _ => 7) idle (fun _ => 0) 1 _ _ hsleep .start rfl rfl
  exact ⟨_, _, _, _, regs, hsleep, rfl, rfl, hret, hregs .rbx (by decide)⟩

/-! ### Alarms -/

/-- The context that is current in `t` stays so for ever: `after j` is the state after `j` ticks,
`before j` the one that the next tick interrupts. -/
structure StaysCurrent (t : State) (before after : Nat → State) : Prop where
  start : after 0 = t
  calls : ∀ j, Reaches step (fun op s _ => Quiet op s) (after j) (before j)
  ticks : ∀ j, ∃ user scratch r, step (.tick user scratch) (before j) = some (r, after (j + 1))
  current : ∀ j, (after j).current = t.current

/-- SIGALRM is delivered at the `j`-th tick. -/
def DeliveredAt (after : Nat → State) (j : Nat) : Prop := .signal .sigalrm ∈ (after j).log

section
variable {t : State} {before after : Nat → State} {n : Nat}

theorem StaysCurrent.same (h : StaysCurrent t before after) (j : Nat) : SameAlarm (after j) (before j) :=
  (h.calls j).invariant (SameAlarm (after j)) ⟨rfl, rfl, rfl⟩ fun _ _ _ _ hs hst hop =>
    have hq := step_quiet hst hop
    ⟨hq.current.trans hs.current, hq.ticksToAlarm.trans hs.ticksToAlarm, hq.alarmConfigTime.trans hs.alarmConfigTime⟩

/-- One tick, with the calls in front of it. -/
theorem StaysCurrent.tick (h : StaysCurrent t before after) (j : Nat) :
    (after (j + 1)).cur.ticksToAlarm = (if 0 < (after j).cur.ticksToAlarm then (after j).cur.ticksToAlarm - 1
      else (after j).cur.alarmConfigTime) ∧
    (after (j + 1)).cur.alarmConfigTime = (after j).cur.alarmConfigTime ∧
    (DeliveredAt after (j + 1) ↔ (after j).cur.ticksToAlarm = 0 ∧ (after j).cur.alarmConfigTime ≠ 0) := by
  obtain ⟨hcur, hticks, hconfig⟩ := h.same j
  obtain ⟨user, scratch, r, hstep⟩ := h.ticks j
  obtain ⟨hticks', hconfig', hdelivered⟩ := handleTimerTick_counts user (ticking user scratch (before j))
  have hstay : (after (j + 1)).current = (before j).current := by rw [h.current, hcur, h.current]
  have hcur' : (after (j + 1)).cur = (after (j + 1)).list (before j).current := by rw [State.cur, hstay]
  rw [step_tick hstep] at hticks' hconfig' hdelivered
  have hempty : .signal .sigalrm ∉ (ticking user scratch (before j)).log := List.not_mem_nil
  rw [hcur', ← hticks, ← hconfig]
  exact ⟨hticks', hconfig', hdelivered.trans (or_iff_right hempty)⟩

/-- The count after `j` ticks: it comes back to `n` every `n + 1` ticks. -/
theorem StaysCurrent.count (h : StaysCurrent t before after) (hn : 1 ≤ n) (hticks : t.cur.ticksToAlarm = n)
    (hconfig : t.cur.alarmConfigTime = n) (j : Nat) :
    (after j).cur.ticksToAlarm = n - j % (n + 1) ∧ (after j).cur.alarmConfigTime = n := by
  induction j with
  | zero =>
    rw [h.start, hticks, hconfig]
    exact ⟨rfl, rfl⟩
  | succ j ih =>
    obtain ⟨hcount, hsame, -⟩ := h.tick j
    refine ⟨?_, hsame.trans ih.2⟩
    have hlt : j % (n + 1) < n + 1 := Nat.mod_lt j (Nat.succ_pos n)
    rw [hcount, ih.1, ih.2, Nat.add_mod_eq_ite, Nat.mod_eq_of_lt (show 1 < n + 1 by omega)]
    generalize j % (n + 1) = k at hlt
    split_ifs <;> omega

theorem StaysCurrent.delivered (h : StaysCurrent t before after) (hn : 1 ≤ n) (hticks : t.cur.ticksToAlarm = n)
    (hconfig : t.cur.alarmConfigTime = n) {j : Nat} (hj : 1 ≤ j) : DeliveredAt after j ↔ n + 1 ∣ j := by
  obtain ⟨j, rfl⟩ := Nat.exists_eq_add_one.mpr hj
  obtain ⟨hcount, hsame⟩ := h.count hn hticks hconfig j
  rw [(h.tick j).2.2, hcount, hsame, and_iff_left (by omega), Nat.dvd_iff_mod_eq_zero, Nat.succ_mod_succ_eq_zero_iff]
  have hlt : j % (n + 1) < n + 1 := Nat.mod_lt j (Nat.succ_pos n)
  omega

end

/-- **An alarm of `n` ticks has the period `n + 1`.** Whatever else a process does between ticks
while it stays current, after `do_alarm(n)` SIGALRM is delivered to it at the ticks that are
multiples of `n + 1`, and so never at exactly the multiples of `n`: the tick that finds the count
at 0 sets it to `n` again, and `n` more ticks bring it to 0. -/
theorem alarm_period {s t : State} {user : Regs} {n : Nat} {r : Ret} {before after : Nat → State} (hn : 1 ≤ n)
    (hcall : step (.syscall user (.alarm n)) s = some (r, t)) (hstay : StaysCurrent t before after) :
    (∀ j, 1 ≤ j → (DeliveredAt after j ↔ n + 1 ∣ j)) ∧ ¬ ∀ j, 1 ≤ j → (DeliveredAt after j ↔ n ∣ j) := by
  have ht : doAlarm n (calling user s) = t := congrArg Prod.snd (Option.some.inj (Option.ite_none_right_eq_some.mp hcall).2)
  have hcur : t.cur = {s.cur with ticksToAlarm := n, alarmConfigTime := n} := by
    rw [← ht]
    exact modify_self ..
  have hperiod : ∀ j, 1 ≤ j → (DeliveredAt after j ↔ n + 1 ∣ j) :=
    fun j hj => hstay.delivered hn (by rw [hcur]) (by rw [hcur]) hj
  refine ⟨hperiod, fun h => ?_⟩
  have hdvd := (hperiod n hn).mp ((h n hn).mpr (Nat.dvd_refl n))
  exact absurd (Nat.le_of_dvd hn hdvd) (by omega)

/-- A user context keeps the CPU at a tick. -/
theorem handleTimerTick_user {s : State} (hs : Orderly s.roles) (huser : s.current ≠ 0) (frame : Regs) :
    (handleTimerTick frame s).2.roles = s.roles := by
  rcases handleTimerTick_cases frame s with ⟨-, hcalm⟩ | ⟨next, hin, hexp, -⟩
  · exact hcalm.roles
  · exact absurd (hs.waiting next hin hexp.1) huser

/-- So it stays current for ever if it makes no calls. -/
theorem exists_staysCurrent {t : State} (hs : Orderly t.roles) (hup : t.up = true) (huser : t.current ≠ 0) :
    ∃ after, StaysCurrent t after after := by
  let next (s : State) : State := (handleTimerTick idle (ticking idle (fun _ => 0) s)).2
  have hnext : ∀ j, (next^[j] t).roles = t.roles ∧ (next^[j] t).up = true := by
    intro j
    induction j with
    | zero => exact ⟨rfl, hup⟩
    | succ j ih =>
      rw [Function.iterate_succ_apply']
      have hcur : (next^[j] t).current = t.current := congrArg Roles.current ih.1
      refine ⟨(handleTimerTick_user ?_ ?_ idle).trans ih.1, (handleTimerTick_up ..).trans ih.2⟩
      · exact ih.1 ▸ hs
      · exact hcur ▸ huser
  refine ⟨fun j => next^[j] t, rfl, fun _ => .start, fun j => ⟨idle, fun _ => 0,
    (handleTimerTick idle (ticking idle (fun _ => 0) (next^[j] t))).1, ?_⟩, fun j => congrArg Roles.current (hnext j).1⟩
  rw [Function.iterate_succ_apply']
  exact if_pos (hnext j).2

/-- `init` registers a handler and sets an alarm of one tick: it comes at the second. -/
theorem alarm_period_one : ∃ s r t after, Runs boot s ∧ s.cur.sighandlers .sigalrm = 5 ∧
    step (.syscall idle (.alarm 1)) s = some (r, t) ∧ StaysCurrent t after after ∧
      ¬ DeliveredAt after 1 ∧ DeliveredAt after 2 := by
  obtain ⟨s, hrun, hhandler, hup, hcur⟩ : ∃ s, Runs boot s ∧ s.cur.sighandlers .sigalrm = 5 ∧ s.up = true ∧ s.current = 1 :=
    ⟨_, .step .start (show step (.syscall idle (.signal 2 5)) boot = some (_, _) from rfl) (by decide), rfl, rfl, rfl⟩
  have huser : s.current ≠ 0 := by omega
  have hcall : step (.syscall idle (.alarm 1)) s = some (.value (some 0), doAlarm 1 (calling idle s)) := if_pos hup
  obtain ⟨after, hstay⟩ := exists_staysCurrent (reaches_orderly boot_start (.step hrun hcall huser)) hup huser
  have hperiod := (alarm_period (Nat.le_refl 1) hcall hstay).1
  exact ⟨s, _, _, after, hrun, hhandler, hcall, hstay, fun h => absurd ((hperiod 1 (by decide)).mp h) (by decide),
    (hperiod 2 (by decide)).mpr (by decide)⟩

theorem alarm_period_late : ∃ s r t r₁ u r₂ v, Runs boot s ∧ s.cur.sighandlers .sigalrm = 5 ∧
    step (.syscall idle (.alarm 1)) s = some (r, t) ∧
    step (.tick idle fun _ => 0) t = some (r₁, u) ∧ u.current = s.current ∧ .signal .sigalrm ∉ u.log ∧
    step (.tick idle fun _ => 0) u = some (r₂, v) ∧ v.current = s.current ∧ .signal .sigalrm ∈ v.log := by
  have hsignal : Runs boot _ :=
    .step .start (show step (.syscall idle (.signal 2 5)) boot = some (_, _) from rfl) (by decide)
  exact ⟨_, _, _, _, _, _, _, hsignal, rfl, rfl, rfl, rfl, by decide, rfl, rfl, by decide⟩

end CS330.Sched
