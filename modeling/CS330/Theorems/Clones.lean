import CS330.Sched.Names
import CS330.Theorems.Scheduler

/-! Clones: what the child takes over from its parent, and how long its name grows. -/
namespace CS330.Sched
open Machine

/-! ### The child -/

/-- The registers `do_clone` copies from the parent, but for `rax`. -/
def Reg.isCopied : Reg → Bool
  | .entryRip | .entryCs | .entryRsp | .entrySs | .rax => false
  | _ => true

/-- The context that a clone from `s` to `t` made in `slot` is its parent as it was at the call,
with the registers `user`. -/
structure CopiesParent (user : Regs) (thFunc userStack slot pfn : Nat) (s t : State) : Prop where
  ready : (t.list slot).state = .ready
  entryRip : (t.list slot).regs .entryRip = thFunc
  entryRsp : (t.list slot).regs .entryRsp = userStack
  entryCs : (t.list slot).regs .entryCs = 0x23
  entrySs : (t.list slot).regs .entrySs = 0x2b
  regs : ∀ r, r.isCopied = true → (t.list slot).regs r = user r
  osStackPfn : (t.list slot).osStackPfn = pfn ∧ .alloc pfn ∈ t.log
  pgd : (t.list slot).pgd = s.cur.pgd
  mms : (t.list slot).mms = s.cur.mms
  sighandlers : (t.list slot).sighandlers = s.cur.sighandlers
  ticks : (t.list slot).ticksToSleep = 0 ∧ (t.list slot).alarmConfigTime = 0 ∧ (t.list slot).ticksToAlarm = 0
  others : ∀ i, i ≠ slot ∨ i = s.current → t.list i = s.list i

/-- A clone that comes back. -/
theorem step_clone {user : Regs} {thFunc userStack slot pfn : Nat} {s t : State} {r : Ret}
    (h : step (.syscall user (.clone thFunc userStack slot pfn)) s = some (r, t)) :
    doClone thFunc userStack slot pfn (calling user s) = some t := by
  obtain ⟨u, hu, hr⟩ := Option.map_eq_some_iff.mp (Option.ite_none_right_eq_some.mp h).2
  cases hr
  exact hu

/-- **A clone copies its parent exactly when the parent's record is up to date.** Whatever the
state, a clone into an UNUSED slot that comes back has made the parent as it is at the call, and
changed nothing else, if the slot is not the parent's own, the registers saved in the parent's
record are the ones it has now, and the slot happens to have the parent's signal handlers, and
only then: `do_clone` reads the record and not the stack, and sets no handler. -/
theorem clone_copies_iff {user : Regs} {thFunc userStack slot pfn : Nat} {s t : State} {r : Ret}
    (hok : Allowed (.syscall user (.clone thFunc userStack slot pfn)) s)
    (h : step (.syscall user (.clone thFunc userStack slot pfn)) s = some (r, t)) :
    CopiesParent user thFunc userStack slot pfn s t ↔
      slot ≠ s.current ∧ (∀ r, r.isCopied = true → s.cur.regs r = user r) ∧
        (s.list slot).sighandlers = s.cur.sighandlers := by
  obtain ⟨index, -, hclone⟩ := doClone_cloned (step_clone h)
  have hregs : slot ≠ s.current → ∀ r, r.isCopied = true → (t.list slot).regs r = s.cur.regs r := by
    intro hne r hr
    obtain ⟨name, hslot⟩ := hclone.inherits hne
    rw [hslot]
    cases r <;> first | rfl | cases hr
  constructor
  · intro hcopy
    have hne : slot ≠ s.current := by
      rintro rfl
      have hunused : s.cur.state = .unused := hok.2.2
      have := hcopy.ready
      rw [hcopy.others _ (.inr rfl), show (s.list s.current).state = _ from hunused] at this
      cases this
    obtain ⟨name, hslot⟩ := hclone.inherits hne
    refine ⟨hne, fun r hr => (hregs hne r hr).symm.trans (hcopy.regs r hr), ?_⟩
    have := hcopy.sighandlers
    rw [hslot] at this
    exact this
  · intro ⟨hne, huser, hhandlers⟩
    obtain ⟨name, hslot⟩ := hclone.inherits hne
    have hlog : .alloc pfn ∈ t.log := by
      rw [hclone.log]
      simp
    refine ⟨hclone.ready, ?_, ?_, ?_, ?_, fun r hr => (hregs hne r hr).trans (huser r hr), ⟨?_, hlog⟩, ?_, ?_, ?_,
      ?_, fun i hi => ?_⟩
    all_goals try rw [hslot]
    · rfl
    · rfl
    · rfl
    · rfl
    · rfl
    · rfl
    · rfl
    · exact hhandlers
    · exact ⟨rfl, rfl, rfl⟩
    · refine hclone.other i ?_
      rcases hi with hi | rfl
      · exact hi
      · exact hne.symm

/-- Every register holds 7. -/
def sevens : Regs := fun _ => 7

/-- `init` sleeps for one tick, which saves its registers, and clones with the same registers. -/
theorem clone_copies_iff_woken : ∃ s r t, Runs boot s ∧
    step (.syscall sevens (.clone 1 2 2 200)) s = some (r, t) ∧ CopiesParent sevens 1 2 2 200 s t := by
  have hsleep : Runs boot _ :=
    .step .start (show step (.syscall sevens (.sleep 1)) boot = some (_, _) from rfl) (by decide)
  have hrun : Runs boot _ :=
    .step hsleep (show step (.tick idle fun _ => 0) _ = some (_, _) from rfl) (by decide)
  refine ⟨_, _, _, hrun, rfl, (clone_copies_iff (by decide) rfl).mpr ⟨by decide, fun r hr => ?_, rfl⟩⟩
  cases r <;> first | rfl | cases hr

/-- `init` registers a handler and clones: the child has the registers of a process that has done
nothing, and no handler. -/
theorem clone_copies_iff_stale : ∃ s r t, Runs boot s ∧
    step (.syscall sevens (.clone 1 2 2 200)) s = some (r, t) ∧ s.cur.sighandlers .sigalrm = 5 ∧
      (t.list 2).sighandlers .sigalrm = 0 ∧ (t.list 2).regs .rbx = 0 ∧ (t.list 2).regs .entryRflags = 0 ∧
      ¬ CopiesParent sevens 1 2 2 200 s t := by
  have hrun : Runs boot _ :=
    .step .start (show step (.syscall idle (.signal 2 5)) boot = some (_, _) from rfl) (by decide)
  refine ⟨_, _, _, hrun, rfl, rfl, rfl, rfl, rfl, fun h => ?_⟩
  have : 0 = 7 := h.regs .rbx rfl
  cases this

/-! ### Its name -/

/-- The name of every context ends inside its field, and none was written outside. -/
structure InField (s : State) : Prop where
  ends : ∀ i, i < maxProcesses → ∃ k, k < cnameMax ∧ (s.list i).name k = 0
  writes : ∀ k, .nameWrite k ∈ s.log → k < cnameMax

/-- The length of a name that ends inside its field. -/
def nameLength (c : ExecContext) : Nat := (Probe.scan (fun k => c.name k = 0) cnameMax 0).getD cnameMax

/-- A clone's suffix, with its NUL, fits behind the parent's name. -/
def NameFits : Op → State → Prop
  | .syscall _ (.clone _ _ slot _), s => nameLength s.cur + (suffix slot).length ≤ cnameMax
  | _, _ => True

section
variable {s t : State} {op : Op} {r : Ret}

/-- The scan of `do_clone` stops at the end of the parent's name. -/
theorem newContext_scan {slot pfn k : Nat} (hk : k < cnameMax) (hnul : s.cur.name k = 0) :
    Probe.scan (fun i => ((newContext slot pfn s).list slot).byte i = some 0) 228 0 = some (nameLength s.cur) := by
  obtain ⟨n, hn⟩ : ∃ n, Probe.scan (fun k => s.cur.name k = 0) cnameMax 0 = some n := by
    rw [← Option.ne_none_iff_exists', Ne, Probe.scan_eq_none]
    intro h
    have := h k (Nat.zero_le k) (by omega)
    simp [hnul] at this
  obtain ⟨-, hlt, hend, hbefore⟩ := Probe.scan_eq_some.mp hn
  have hbyte : ∀ i, i < 64 → ((newContext slot pfn s).list slot).byte i = some (s.cur.name i) := by
    intro i hi
    rw [newContext_slot, ExecContext.byte, if_pos hi]
  rw [cnameMax] at hlt
  rw [nameLength, hn, Option.getD_some, Probe.scan_eq_some]
  refine ⟨Nat.zero_le n, by omega, ?_, fun i hi hin => ?_⟩
  · rw [hbyte n (by omega)]
    simpa using hend
  · rw [hbyte i (by omega)]
    simpa using hbefore i hi hin

theorem step_inField (hcur : s.current < maxProcesses) (hs : InField s) (h : step op s = some (r, t)) :
    t.current < maxProcesses ∧ (InField t ↔ NameFits op s) := by
  by_cases hop : op.IsClone
  · obtain ⟨user, thFunc, userStack, slot, pfn, rfl⟩ : ∃ user thFunc userStack slot pfn,
        op = .syscall user (.clone thFunc userStack slot pfn) := by
      cases op with
      | syscall user call =>
        cases call with
        | clone thFunc userStack slot pfn => exact ⟨_, _, _, _, _, rfl⟩
        | _ => exact hop.elim
      | _ => exact hop.elim
    obtain ⟨k, hk, hnul⟩ := hs.ends _ hcur
    obtain ⟨index, hscan, hclone⟩ := doClone_cloned (step_clone h)
    obtain rfl : nameLength s.cur = index :=
      Option.some.inj ((@newContext_scan (calling user s) slot pfn k hk hnul).symm.trans hscan)
    have hmem : ∀ k, .nameWrite k ∈ t.log ↔
        nameLength s.cur ≤ k ∧ k < nameLength s.cur + (suffix slot).length := by
      intro k
      rw [hclone.log]
      simp [calling, State.enter, List.mem_range'_1]
    have hpos : 0 < (suffix slot).length := by
      obtain ⟨digits, hsuffix⟩ := suffix_nul slot
      simp [hsuffix]
    refine ⟨hclone.current.symm ▸ hcur, fun ht => ?_, fun hfits => ⟨fun i hi => ?_, fun k hk => ?_⟩⟩
    · have := ht.writes (nameLength s.cur + (suffix slot).length - 1) ((hmem _).mpr (by omega))
      show _ ≤ _
      omega
    · by_cases his : i = slot
      · rw [his]
        exact hclone.ends hfits
      · rw [hclone.other i his]
        exact hs.ends i hi
    · have hle : nameLength s.cur + (suffix slot).length ≤ cnameMax := hfits
      have := (hmem k).mp hk
      omega
  · obtain ⟨hname, hwrites, hin⟩ := step_keepsNames h hop
    refine ⟨hin hcur, iff_of_true ⟨fun i hi => ?_, fun k hk => absurd hk (hwrites k)⟩ ?_⟩
    · rw [hname]
      exact hs.ends i hi
    · unfold NameFits
      split
      · exact absurd trivial hop
      · trivial

end

/-- **Names stay within their field exactly as long as every suffix fits.** In every run of any
calls from a state whose names end inside their fields, every name goes on doing so and no byte is
written behind a field if each clone has room for the digits of the new pid and a NUL behind its
parent's name, and only then. -/
theorem names_in_field_iff {s₀ s : State} (h₀ : s₀.current < maxProcesses) (hnames : InField s₀) {ops : List Op}
    {rs : List Ret} (hrun : runAll step ops s₀ = some (rs, s)) :
    Along step InField ops s₀ ↔ Each step NameFits ops s₀ :=
  along_iff_each (I := fun s => s.current < maxProcesses)
    (fun _ _ _ _ _ hcur hs hst => step_inField hcur hs hst) h₀ hnames hrun

theorem boot_inField : InField boot :=
  ⟨fun _ _ => ⟨4, by decide, rfl⟩, fun _ hk => absurd hk List.not_mem_nil⟩

theorem names_in_field_iff_clone : Along step InField [.syscall idle (.clone 0 0 2 200)] boot :=
  (names_in_field_iff (by decide) boot_inField rfl).mpr
    ⟨show nameLength boot.cur + (suffix 2).length ≤ cnameMax by decide, fun _ _ _ => trivial⟩

/-- The system as it boots, with a name of 63 bytes. -/
def longNamed : State := {boot with list := fun i => {boot.list i with name := fun k => if k < 63 then 97 else 0}}

/-- `init` has a name of 63 bytes and clones: the NUL of its child's name is written behind the
field, and no byte of the field is 0. -/
theorem names_in_field_iff_long : ∃ r t, Start longNamed ∧ InField longNamed ∧
    step (.syscall idle (.clone 0 0 2 200)) longNamed = some (r, t) ∧ .nameWrite 64 ∈ t.log ∧
      ∀ k, k < cnameMax → (t.list 2).name k ≠ 0 := by
  have hstart : Start longNamed := by
    obtain ⟨hin, huser, hpid, hinit, hswap, hswapPid, hothers⟩ := boot_start
    exact ⟨hin, huser, hpid, hinit, hswap, hswapPid, hothers⟩
  have hrun : (step (.syscall idle (.clone 0 0 2 200)) longNamed).map (fun q =>
      (decide (.nameWrite 64 ∈ q.2.log), (List.range cnameMax).all fun k => (q.2.list 2).name k != 0)) =
      some (true, true) := by decide +kernel
  obtain ⟨⟨r, t⟩, hstep, hval⟩ := Option.map_eq_some_iff.mp hrun
  obtain ⟨hwrite, hname⟩ := Prod.mk.inj hval
  refine ⟨r, t, hstart, ⟨fun _ _ => ⟨63, by decide, rfl⟩, fun _ hk => absurd hk List.not_mem_nil⟩, hstep,
    of_decide_eq_true hwrite, fun k hk => ?_⟩
  simpa using List.all_eq_true.mp hname k (List.mem_range.mpr hk)

end CS330.Sched
