import CS330.Sched.Sleep

/-! Runs of the scheduler: who may be RUNNING or WAITING, and where an exit and a tick lead. -/
namespace CS330.Sched
open Machine

/-- The system as it boots: the swapper in slot 0 and `init` in slot 1. -/
def boot : State where
  list := fun i => {
    pid := if i < 2 then i else 0
    type := 2
    state := if i = 0 then .ready else if i = 1 then .running else .unused
    usedMem := 0
    pgd := 0
    osStackPfn := 100 + i
    osRsp := 0
    mms := fun _ => ⟨0, 0, 0, 0⟩
    name := fun k => (['i', 'n', 'i', 't'].map Char.toNat).getD k 0
    regs := fun _ => 0
    pendingSignalBitmap := 0
    sighandlers := fun _ => 0
    ticksToSleep := 0
    alarmConfigTime := 0
    ticksToAlarm := 0 }
  current := 1
  stack := fun _ _ => 0
  up := true
  log := []

theorem boot_start : Start boot where
  inList := by decide
  user := by decide
  pid := rfl
  init := rfl
  swapper := rfl
  swapperPid := rfl
  others := fun i _ h0 h1 => by simp_all [boot]

/-- The registers of a process that has done nothing. -/
def idle : Regs := fun _ => 0

/-- Runs in which the swapper makes no call and clones get UNUSED slots. -/
abbrev Runs (s₀ s : State) : Prop := Reaches step (fun op s _ => Allowed op s) s₀ s

/-- **Only the swapper is ever preempted.** In every run at most one context is WAITING, and
then the swapper is current; only the current context is RUNNING; and a tick that switches or
saves a context does so for the swapper. -/
theorem tick_preempts_swapper {s₀ s : State} (h₀ : Start s₀) (hrun : Runs s₀ s) :
    (∀ i j, i < maxProcesses → j < maxProcesses →
      (s.list i).state = .waiting → (s.list j).state = .waiting → i = j) ∧
    (∀ i, i < maxProcesses → (s.list i).state = .waiting → s.current = 0) ∧
    (∀ i, i < maxProcesses → (s.list i).state = .running → i = s.current) ∧
    ∀ user scratch r t, step (.tick user scratch) s = some (r, t) →
      (t.current ≠ s.current → s.current = 0) ∧
      (∀ old new, .switch old new ∈ t.log → s.current = 0 ∧ old = 0) ∧
      ∀ i, .save i ∈ t.log → i = 0 := by
  have hs := reaches_orderly h₀ hrun
  refine ⟨hs.alone, hs.waiting, hs.running, fun user scratch r t hstep => ?_⟩
  rw [← step_tick hstep]
  rcases handleTimerTick_cases user (ticking user scratch s) with ⟨-, hcalm⟩ | ⟨next, hin, hexp, hroles, -, hlog⟩
  · have hnone : ∀ e ∈ (handleTimerTick user (ticking user scratch s)).2.log, e.isSwitch = true → False :=
      fun e he hsw => List.not_mem_nil (hcalm.log e he hsw)
    refine ⟨fun hne => absurd (congrArg Roles.current hcalm.roles) hne, ?_, ?_⟩
    · intro old new hmem
      exact (hnone _ hmem rfl).elim
    · intro i hmem
      exact (hnone _ hmem rfl).elim
  · have hcur : s.current = 0 := hs.waiting next hin hexp.1
    have hpid : (s.list s.current).pid = s.current := hs.numbered _ hs.inList (.inr rfl)
    refine ⟨fun _ => hcur, ?_, ?_⟩
    · intro old new hmem
      rcases hlog _ hmem rfl with h | h | h
      · cases h
      · cases h
      · injection h with hold
        exact ⟨hcur, hold.trans (hpid.trans hcur)⟩
    · intro i hmem
      rcases hlog _ hmem rfl with h | h | h
      · cases h
      · injection h with hi
        exact hi.trans hcur
      · cases h

theorem tick_preempts_swapper_asleep : ∃ s, Runs boot s ∧ (s.list 1).state = .waiting ∧
    ∀ i, i < maxProcesses → (s.list i).state = .waiting → i = 1 := by
  have hrun : Runs boot (doSleep 1 (calling idle boot)).2 :=
    .step .start (show step (.syscall idle (.sleep 1)) boot = some (_, _) from rfl) (by decide)
  have hwait : ((doSleep 1 (calling idle boot)).2.list 1).state = .waiting := by decide
  exact ⟨_, hrun, hwait, fun i hi h => (tick_preempts_swapper boot_start hrun).1 i 1 hi (by decide) h hwait⟩

/-! ### Exit -/

/-- Some other user context is live. -/
def Company (s : State) : Prop :=
  ∃ q, 0 < q ∧ q < maxProcesses ∧ q ≠ s.current ∧ (s.list q).state ≠ .unused

/-- The first READY user context after the current one in circular order, or else the swapper. -/
def successor (s : State) : Nat :=
  (Probe.probe (fun i => 0 < i ∧ (s.list i).state = .ready) maxProcesses (maxProcesses - 1)
    ((s.current + 1) % maxProcesses)).getD 0

/-- What an exit of the current context from `s` to `t` is for. -/
structure HandsOver (s t : State) : Prop where
  cleanup : .cleanup ∈ t.log ↔ ¬ Company s
  next : Company s → t.current = successor s ∧ t.current ≠ s.current
  unused : (t.list s.current).state = .unused
  freed : .free s.cur.osStackPfn ∈ t.log
  reads : ∀ i, .read i ∈ t.log → i < maxProcesses

/-- Some READY context has a larger pid than the current one. -/
def Follower (s : State) : Prop := ∃ q, s.current < q ∧ q < maxProcesses ∧ (s.list q).state = .ready

section
variable {s : State}

theorem flagged_iff_company (hs : Orderly s.roles) : Flagged s ↔ Company s := by
  constructor
  · intro ⟨q, hpos, hin, hne, _, hlive⟩
    exact ⟨q, hpos, hin, hne, hlive⟩
  · intro ⟨q, hpos, hin, hne, hlive⟩
    have hpid : (s.list q).pid = q := hs.numbered q hin (.inl hlive)
    exact ⟨q, hpos, hin, hne, by omega, hlive⟩

theorem Follower.company (h : Follower s) : Company s := by
  obtain ⟨q, hlt, hin, hready⟩ := h
  exact ⟨q, by omega, hin, by omega, by simp [hready]⟩

/-- The search of `pick_next_context`, called from an exit. -/
def pick (s : State) : Option Nat :=
  Probe.scan (fun k => (s.list k).state = .ready) (maxProcesses - 1) (1 + s.current)

/-- The exit's own mark does not matter to a search behind the current context. -/
theorem pickNextContext_parting (hs : Orderly s.roles) : (pickNextContext (parting s)).1 = (pick s).bind getCtxByPid ∧
    (pickNextContext (parting s)).2.log = (parting s).log ++
      (Probe.visits (fun k => (s.list k).state = .ready) (maxProcesses - 1) (1 + s.current)).map .read := by
  have hpid : (parting s).cur.pid = s.current := by
    have h : (leaving s).roles.pid s.current = s.roles.pid s.current := by rw [leaving_roles]
    exact h.trans (hs.numbered _ hs.inList (.inr rfl))
  have hready : ∀ k, 1 + s.current ≤ k →
      decide (((parting s).list k).state = .ready) = decide ((s.list k).state = .ready) := by
    intro k hk
    rw [show (parting s).list k = (leaving s).list k from rfl, leaving_list, if_neg (by omega)]
  constructor
  · simp only [pickNextContext, search, hpid, pick]
    rw [Probe.scan_congr hready]
  · simp only [pickNextContext, search, hpid]
    rw [Probe.visits_congr hready]

theorem pick_follower (h : Follower s) : ∃ q, pick s = some q ∧ q < maxProcesses := by
  obtain ⟨q, hlt, hin, hready⟩ := h
  cases hp : pick s with
  | none =>
    have := Probe.scan_eq_none.mp hp q (by omega) (by omega)
    simp [hready] at this
  | some k =>
    refine ⟨k, rfl, ?_⟩
    by_contra hk
    obtain ⟨-, -, -, hall⟩ := Probe.scan_eq_some.mp hp
    have := hall q (by omega) (by omega)
    simp [hready] at this

theorem pick_none (h : ¬ Follower s) : (pick s).bind getCtxByPid = none := by
  rw [Option.bind_eq_none_iff]
  intro k hk
  obtain ⟨hlow, -, hready, -⟩ := Probe.scan_eq_some.mp hk
  exact if_neg fun hin => h ⟨k, by omega, hin, by simpa using hready⟩

/-- The search finds the successor if it finds anything in the list. -/
theorem pick_successor {q : Nat} (h : pick s = some q) (hin : q < maxProcesses) : successor s = q := by
  have hscan : Probe.scan (fun i => 0 < i ∧ (s.list i).state = .ready) (maxProcesses - 1) (1 + s.current) = some q := by
    rw [← h]
    apply Probe.scan_congr
    intro k hk
    simp [show 0 < k by omega]
  have hlow := (Probe.scan_eq_some.mp h).1
  rw [successor, Nat.mod_eq_of_lt (by omega), Nat.add_comm s.current 1,
    Probe.probe_of_scan hscan (Nat.le_refl _) hin]
  rfl

theorem leaving_log (s : State) : (leaving s).log = s.log ++ [.free s.cur.osStackPfn] := by
  have hcur : (s.mark s.current .unused).cur = {s.cur with state := .unused} :=
    (leaving_list s s.current).trans (if_pos rfl)
  simp only [leaving, State.emit, hcur]
  rfl

/-- Up to the search for a successor an exit frees the stack and looks at entries of the list. -/
theorem mem_parting_log {e : Event} (h : e ∈ (parting s).log) : e ∈ s.log ∨ e = .free s.cur.osStackPfn ∨
    ∃ i, i < maxProcesses ∧ e = .read i := by
  rcases List.mem_append.mp h with h | h
  · rw [leaving_log] at h
    rcases List.mem_append.mp h with h | h
    · exact .inl h
    · exact .inr (.inl (List.mem_singleton.mp h))
  · obtain ⟨i, hi, rfl⟩ := List.mem_map.mp h
    obtain ⟨-, hlt, -⟩ := Probe.mem_visits.mp hi
    exact .inr (.inr ⟨i, hlt, rfl⟩)

theorem free_mem_parting_log (s : State) : .free s.cur.osStackPfn ∈ (parting s).log := by
  apply List.mem_append_left
  rw [leaving_log]
  simp

/-- The last process cleans up. -/
theorem doExit_alone (hs : Orderly s.roles) (hlog : s.log = []) (h : ¬ Company s) : HandsOver s (doExit s).2 := by
  rw [doExit_unflagged fun hf => h ((flagged_iff_company hs).mp hf)]
  refine ⟨iff_of_true (by simp [State.emit]) h, fun hc => absurd hc h, ?_, ?_, fun i hi => ?_⟩
  · exact congrArg ExecContext.state ((leaving_list s s.current).trans (if_pos rfl))
  · exact List.mem_append_left _ (free_mem_parting_log s)
  · rcases List.mem_append.mp hi with hi | hi
    · rcases mem_parting_log hi with hi | hi | ⟨k, hk, hi⟩
      · simp [hlog] at hi
      · cases hi
      · cases hi
        exact hk
    · simp at hi

/-- An exit with a READY context behind it goes to the first one. -/
theorem doExit_follower (hs : Orderly s.roles) (hlog : s.log = []) (h : Follower s) : HandsOver s (doExit s).2 := by
  obtain ⟨q, hq, hin⟩ := pick_follower h
  obtain ⟨hpick, hreads⟩ := pickNextContext_parting hs
  have hnext : (pickNextContext (parting s)).1 = some q := by
    rw [hpick, hq, Option.bind_some, getCtxByPid, if_pos hin]
  have hlow := (Probe.scan_eq_some.mp hq).1
  rw [doExit_flagged ((flagged_iff_company hs).mpr h.company), schedule_some hnext]
  have hroles := scheduleContext_roles q (pickNextContext (parting s)).2
  have hevents := scheduleContext_log q (pickNextContext (parting s)).2
  rw [hreads] at hevents
  have hmem : ∀ e ∈ (scheduleContext q (pickNextContext (parting s)).2).2.log,
      e ∈ (parting s).log ∨ (∃ i, i < maxProcesses ∧ e = .read i) ∨ e.isSwitch = true := by
    intro e he
    rw [hevents] at he
    rcases List.mem_append.mp he with he | he
    · rcases List.mem_append.mp he with he | he
      · exact .inl he
      · obtain ⟨i, hi, rfl⟩ := List.mem_map.mp he
        exact .inr (.inl ⟨i, lt_of_le_of_lt (Probe.le_of_mem_visits hq hi) hin, rfl⟩)
    · rcases List.mem_cons.mp he with rfl | he
      · exact .inr (.inr rfl)
      · rw [List.mem_singleton.mp he]
        exact .inr (.inr rfl)
  refine ⟨?_, fun _ => ⟨(pick_successor hq hin).symm, ?_⟩, ?_, ?_, fun i hi => ?_⟩
  · refine iff_of_false (fun hi => ?_) (not_not_intro h.company)
    rcases hmem _ hi with hi | ⟨i, -, hi⟩ | hi
    · rcases mem_parting_log hi with hi | hi | ⟨k, -, hi⟩
      · simp [hlog] at hi
      · cases hi
      · cases hi
    · cases hi
    · cases hi
  · show q ≠ s.current
    omega
  · have hstate := congrFun (congrArg Roles.state hroles) s.current
    have hne : s.current ≠ q := by omega
    exact (hstate.trans (Function.update_of_ne hne _ _)).trans (congrArg ExecContext.state ((leaving_list s s.current).trans (if_pos rfl)))
  · rw [hevents]
    exact List.mem_append_left _ (List.mem_append_left _ (free_mem_parting_log s))
  · rcases hmem _ hi with hi | ⟨k, hk, hi⟩ | hi
    · rcases mem_parting_log hi with hi | hi | ⟨k, hk, hi⟩
      · simp [hlog] at hi
      · cases hi
      · cases hi
        exact hk
    · cases hi
      exact hk
    · cases hi

theorem doExit_stranded (hs : Orderly s.roles) (hc : Company s) (h : ¬ Follower s) :
    (doExit s).2.current = s.current := by
  have hnext : (pickNextContext (parting s)).1 = none := (pickNextContext_parting hs).1.trans (pick_none h)
  rw [doExit_flagged ((flagged_iff_company hs).mpr hc), schedule_none hnext]
  rfl

end

theorem handsOver_calling {user : Regs} {s t : State} : HandsOver (calling user s) t ↔ HandsOver s t :=
  ⟨fun h => ⟨h.cleanup, h.next, h.unused, h.freed, h.reads⟩, fun h => ⟨h.cleanup, h.next, h.unused, h.freed, h.reads⟩⟩

/-- **An exit hands over the CPU exactly when a READY context follows.** In every run, the exit
of the current user context does what it is for if no other user context is live or some READY
context has a larger pid, and only then: otherwise the exited context stays current. -/
theorem exit_hands_over {s₀ s : State} (h₀ : Start s₀) (hrun : Runs s₀ s) (hup : s.up = true)
    (user : Regs) : ∃ r t, step (.syscall user .exit) s = some (r, t) ∧
      (HandsOver s t ↔ ¬ Company s ∨ Follower s) := by
  have hs := reaches_orderly h₀ hrun
  refine ⟨orElse (.value none) (doExit (calling user s)).1, (doExit (calling user s)).2, if_pos hup, ?_⟩
  constructor
  · intro h
    by_contra hc
    push Not at hc
    exact (h.next hc.1).2 (doExit_stranded (s := calling user s) hs hc.1 hc.2)
  · intro h
    rw [← @handsOver_calling user]
    rcases h with h | h
    · exact doExit_alone (s := calling user s) hs rfl h
    · exact doExit_follower (s := calling user s) hs rfl h

/-- `init` clones and exits: its clone runs. -/
theorem exit_hands_over_clone : ∃ s r t, Runs boot s ∧ step (.syscall idle .exit) s = some (r, t) ∧
    HandsOver s t ∧ t.current = 2 := by
  have hrun : Runs boot _ :=
    .step .start (show step (.syscall idle (.clone 0 0 2 200)) boot = some (_, _) from rfl) (by decide)
  obtain ⟨r, t, hstep, hiff⟩ := exit_hands_over boot_start hrun rfl idle
  have hover := hiff.mpr (.inr ⟨2, by decide, by decide, rfl⟩)
  have hnext := (hover.next ⟨2, by decide, by decide, by decide, by decide⟩).1
  exact ⟨_, r, t, hrun, hstep, hover, hnext.trans (by decide)⟩

/-- `init` clones and exits, and its clone clones into slot 1 and exits: it stays current,
UNUSED, with its child READY, and the search has read behind the list. -/
theorem exit_hands_over_stranded : ∃ s r t, Runs boot s ∧ step (.syscall idle .exit) s = some (r, t) ∧
    s.current = 2 ∧ (s.list 1).state = .ready ∧ t.current = 2 ∧ .read 17 ∈ t.log ∧ ¬ HandsOver s t := by
  have hclone : Runs boot _ :=
    .step .start (show step (.syscall idle (.clone 0 0 2 200)) boot = some (_, _) from rfl) (by decide)
  have hexit : Runs boot _ := .step hclone (show step (.syscall idle .exit) _ = some (_, _) from rfl) (by decide)
  have hrun : Runs boot _ :=
    .step hexit (show step (.syscall idle (.clone 0 0 1 201)) _ = some (_, _) from rfl) (by decide)
  refine ⟨_, _, _, hrun, rfl, rfl, rfl, rfl, by decide, fun h => ?_⟩
  exact (h.next ⟨1, by decide, by decide, by decide, by decide⟩).2 rfl

/-! ### The tick -/

/-- The context at `i` is READY, or its sleep has just expired. -/
def Wants (s : State) (i : Nat) : Prop :=
  0 < i ∧ ((s.list i).state = .ready ∨ (s.list i).state = .waiting ∧ (s.list i).ticksToSleep ≤ 1)

instance (s : State) (i : Nat) : Decidable (Wants s i) := inferInstanceAs (Decidable (_ ∧ _))

/-- The first user context that wants the CPU after the current one, in circular order. -/
def rotation (s : State) : Option Nat :=
  Probe.probe (fun i => Wants s i) maxProcesses (maxProcesses - 1) ((s.current + 1) % maxProcesses)

/-- What a tick from `s` to `t` is for. -/
structure TakesTurns (s t : State) : Prop where
  next : ∀ q, rotation s = some q → t.current = q ∧
    (s.current ≠ 0 → s.cur.state ≠ .unused → (t.list s.current).state = .ready)
  stay : rotation s = none → t.current = s.current

/-- No READY context is passed over: each other one has a larger pid than a context whose sleep
has just expired. -/
def NobodyPassed (s : State) : Prop :=
  ∀ q, 0 < q → q < maxProcesses → q ≠ s.current → (s.list q).state = .ready →
    ∃ p, p < q ∧ (s.list p).state = .waiting ∧ (s.list p).ticksToSleep ≤ 1

section
variable {s : State}

theorem rotation_none (hs : Orderly s.roles) : rotation s = none ↔
    ∀ q, q < maxProcesses → q ≠ s.current → ¬ Wants s q := by
  have hin : s.current < maxProcesses := hs.inList
  rw [rotation, Probe.probe_eq_none (Nat.mod_lt _ (by decide))]
  simp only [Nat.mod_add_mod, decide_eq_false_iff_not]
  constructor
  · intro h q hq hne
    have hd : Probe.dist maxProcesses s.current q ≠ 0 := by
      intro h0
      have := Probe.add_dist hin hq
      rw [h0, Nat.add_zero, Nat.mod_eq_of_lt hin] at this
      exact hne this.symm
    have hlt := Probe.dist_lt (i := s.current) (j := q) (show 0 < maxProcesses by decide)
    have := h (Probe.dist maxProcesses s.current q - 1) (by omega)
    rwa [show s.current + 1 + (Probe.dist maxProcesses s.current q - 1) =
      s.current + Probe.dist maxProcesses s.current q by omega, Probe.add_dist hin hq] at this
  · intro h d hd
    refine h _ (Nat.mod_lt _ (by decide)) fun heq => ?_
    have := Probe.dist_add hin (show d + 1 < maxProcesses by omega)
    rw [show s.current + (d + 1) = s.current + 1 + d by omega, heq, Probe.dist,
      Nat.add_sub_cancel_left, Nat.mod_self] at this
    omega

/-- From the swapper the rotation is the first context of the list that wants the CPU. -/
theorem rotation_swapper {q : Nat} (hcur : s.current = 0) : rotation s = some q ↔
    q < maxProcesses ∧ Wants s q ∧ ∀ p, p < q → ¬ Wants s p := by
  have hone : (s.current + 1) % maxProcesses = 1 := by rw [hcur]; rfl
  rw [rotation, hone, Probe.probe_eq_some (by decide)]
  simp only [decide_eq_true_eq, decide_eq_false_iff_not]
  constructor
  · rintro ⟨d, hd, rfl, hw, hall⟩
    rw [Nat.mod_eq_of_lt (by omega)] at hw ⊢
    refine ⟨by omega, hw, fun p hp hwant => ?_⟩
    have hpos := hwant.1
    have := hall (p - 1) (by omega)
    rw [show 1 + (p - 1) = p by omega, Nat.mod_eq_of_lt (by omega)] at this
    exact this hwant
  · intro ⟨hq, hw, hall⟩
    have hpos := hw.1
    have hmod : (1 + (q - 1)) % maxProcesses = q := by
      rw [show 1 + (q - 1) = q by omega, Nat.mod_eq_of_lt hq]
    refine ⟨q - 1, by omega, hmod.symm, hw, fun e he => ?_⟩
    rw [Nat.mod_eq_of_lt (by omega)]
    exact hall _ (by omega)

theorem rotation_ne (hs : Orderly s.roles) {q : Nat} (h : rotation s = some q) : q ≠ s.current := by
  have hin : s.current < maxProcesses := hs.inList
  obtain ⟨d, hd, rfl, -, -⟩ := (Probe.probe_eq_some (Nat.mod_lt _ (by decide))).mp h
  rw [Nat.mod_add_mod, show s.current + 1 + d = s.current + (d + 1) by omega]
  intro heq
  have := Probe.dist_add hin (show d + 1 < maxProcesses by omega)
  rw [heq, Probe.dist, Nat.add_sub_cancel_left, Nat.mod_self] at this
  omega

/-- With nobody woken, turns are taken when nobody else wants the CPU. -/
theorem takesTurns_idle (hs : Orderly s.roles) {t : State} (ht : t.current = s.current)
    (hnone : ∀ i, i < maxProcesses → ¬ Expired s i) : TakesTurns s t ↔ NobodyPassed s := by
  have hasleep : ∀ i, i < maxProcesses → ¬ ((s.list i).state = .waiting ∧ (s.list i).ticksToSleep ≤ 1) :=
    fun i hi h => hnone i hi ((expired_sleep hs hi).mpr h)
  constructor
  · intro h q hpos hq hne hready
    cases hrot : rotation s with
    | none => exact absurd ⟨hpos, .inl hready⟩ ((rotation_none hs).mp hrot q hq hne)
    | some q' => exact absurd ((h.next q' hrot).1.symm.trans ht) (rotation_ne hs hrot)
  · intro h
    have hrot : rotation s = none := (rotation_none hs).mpr fun q hq hne ⟨hpos, hwant⟩ => by
      rcases hwant with hready | hwait
      · obtain ⟨p, hp, hover⟩ := h q hpos hq hne hready
        exact hasleep p (by omega) hover
      · exact hasleep q hq hwait
    refine ⟨fun q hq => ?_, fun _ => ht⟩
    rw [hrot] at hq
    cases hq

/-- With `next` woken from the swapper, turns are taken when it is the first that wants the CPU. -/
theorem takesTurns_woken (hs : Orderly s.roles) {t : State} {next : Nat} (hin : next < maxProcesses)
    (hexp : Expired s next) (ht : t.current = next) : TakesTurns s t ↔ NobodyPassed s := by
  have hcur : s.current = 0 := hs.waiting next hin hexp.1
  have hover := (expired_sleep hs hin).mp hexp
  have hpos : 0 < next := by
    by_contra h
    have hswap : (s.list 0).state = .running := hs.swapper.trans (if_pos hcur)
    rw [show next = 0 by omega, hswap] at hover
    cases hover.1
  have hrot : rotation s = some next ↔ NobodyPassed s := by
    rw [rotation_swapper hcur]
    constructor
    · intro ⟨_, _, hfirst⟩ q hq hlt hne hready
      have hnot : ¬ q < next := fun h => hfirst q h ⟨hq, .inl hready⟩
      have hne' : q ≠ next := by
        rintro rfl
        rw [hover.1] at hready
        cases hready
      exact ⟨next, by omega, hover⟩
    · intro h
      refine ⟨hin, ⟨hpos, .inr hover⟩, fun p hp ⟨hp0, hwant⟩ => ?_⟩
      rcases hwant with hready | hwait
      · obtain ⟨k, hk, hkover⟩ := h p hp0 (by omega) (by omega) hready
        have := hs.alone k next (by omega) hin hkover.1 hover.1
        omega
      · have := hs.alone p next (by omega) hin hwait.1 hover.1
        omega
  rw [← hrot]
  constructor
  · intro h
    cases hq : rotation s with
    | none => exact absurd ⟨hpos, .inr hover⟩ ((rotation_none hs).mp hq next hin (by omega))
    | some q => rw [← (h.next q hq).1, ht]
  · intro h
    refine ⟨fun q hq => ⟨?_, fun hne => absurd hcur hne⟩, fun hnone => ?_⟩
    · rw [ht]
      exact Option.some.inj (h.symm.trans hq)
    · rw [h] at hnone
      cases hnone

end

/-- **A tick takes turns exactly when it passes nobody over.** In every run, a tick moves the
CPU to the first user context that is READY or whose sleep has just expired, in circular order
after the current one, if every other READY context has a larger pid than one whose sleep has
just expired, and only then: a tick looks for expired sleeps alone. -/
theorem tick_takes_turns {s₀ s : State} (h₀ : Start s₀) (hrun : Runs s₀ s) (hup : s.up = true)
    (user : Regs) (scratch : Nat → Nat) : ∃ r t, step (.tick user scratch) s = some (r, t) ∧
      (TakesTurns s t ↔ NobodyPassed s) := by
  have hs := reaches_orderly h₀ hrun
  refine ⟨_, _, if_pos hup, ?_⟩
  rcases handleTimerTick_cases user (ticking user scratch s) with ⟨hnone, hcalm⟩ | ⟨next, hin, hexp, hroles, -, -⟩
  · exact takesTurns_idle hs (congrArg Roles.current hcalm.roles) hnone
  · exact takesTurns_woken hs hin hexp (congrArg Roles.current hroles)

/-- `init` clones and sleeps for one tick: the tick wakes it, and its clone waits. -/
theorem tick_takes_turns_woken : ∃ s r t, Runs boot s ∧ step (.tick idle fun _ => 0) s = some (r, t) ∧
    TakesTurns s t ∧ (s.list 2).state = .ready ∧ t.current = 1 := by
  have hclone : Runs boot _ :=
    .step .start (show step (.syscall idle (.clone 0 0 2 200)) boot = some (_, _) from rfl) (by decide)
  have hrun : Runs boot _ :=
    .step hclone (show step (.syscall idle (.sleep 1)) _ = some (_, _) from rfl) (by decide)
  obtain ⟨r, t, hstep, hiff⟩ := tick_takes_turns boot_start hrun rfl idle fun _ => 0
  have hturns := hiff.mpr fun q hpos hlt hne hready => by
    have hsleep : 1 < q := by
      by_contra h
      rw [show q = 1 by omega] at hready
      cases hready
    exact ⟨1, hsleep, rfl, by decide⟩
  exact ⟨_, r, t, hrun, hstep, hturns, rfl, (hturns.next 1 (by decide)).1⟩

/-- `init` clones and sleeps for two ticks: at the next tick its clone is READY and the swapper
keeps the CPU. -/
theorem tick_takes_turns_passed : ∃ s r t, Runs boot s ∧ step (.tick idle fun _ => 0) s = some (r, t) ∧
    (s.list 2).state = .ready ∧ rotation s = some 2 ∧ t.current = 0 ∧ ¬ TakesTurns s t := by
  have hclone : Runs boot _ :=
    .step .start (show step (.syscall idle (.clone 0 0 2 200)) boot = some (_, _) from rfl) (by decide)
  have hrun : Runs boot _ :=
    .step hclone (show step (.syscall idle (.sleep 2)) _ = some (_, _) from rfl) (by decide)
  refine ⟨_, _, _, hrun, rfl, rfl, by decide, by decide, fun h => ?_⟩
  have := (h.next 2 (by decide)).1
  revert this
  decide

end CS330.Sched
