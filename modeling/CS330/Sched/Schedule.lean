import Mathlib.Logic.Function.Basic
import CS330.Lib.Machine
import CS330.Lib.Probe

/-! The scheduler of assignment 3 (`schedule.c`).

`ctx_list` is `list`; its entries from `MAX_PROCESSES` on are the memory behind it, which the
code reads and never writes. `current` is the index of the current context, as the pointer
`get_current_ctx` returns. `context.c` and the entry code are linked as objects:
`get_new_ctx` and `os_pfn_alloc` are parameters of a clone, and the registers that the entry
code and the interrupt leave on the OS stack are parameters of a call and a tick. The log
holds what the last call did besides changing the state. -/
namespace CS330.Sched

def maxProcesses : Nat := 16

def cnameMax : Nat := 64

inductive ProcessState where
  | unused | new | ready | running | waiting | exiting
  deriving DecidableEq, Repr

inductive Signal where
  | sigsegv | sigfpe | sigalrm
  deriving DecidableEq, Repr

inductive MmSeg where
  | code | rodata | data | stack
  deriving DecidableEq, Repr

structure MmSegment where
  start : Nat
  end_ : Nat
  nextFree : Nat
  accessFlags : Nat
  deriving DecidableEq, Repr

/-- The fields of `user_regs`. -/
inductive Reg where
  | r15 | r14 | r13 | r12 | r11 | r10 | r9 | r8 | rbp | rdi | rsi | rdx | rcx | rbx | rax
  | entryRip | entryCs | entryRflags | entryRsp | entrySs
  deriving DecidableEq, Repr

/-- `user_regs` in memory order. -/
def Reg.layout : List Reg :=
  [.r15, .r14, .r13, .r12, .r11, .r10, .r9, .r8, .rbp, .rdi, .rsi, .rdx, .rcx, .rbx, .rax,
    .entryRip, .entryCs, .entryRflags, .entryRsp, .entrySs]

/-- The registers `iretq` loads. -/
def Reg.isEntry : Reg → Bool
  | .entryRip | .entryCs | .entryRflags | .entryRsp | .entrySs => true
  | _ => false

abbrev Regs := Reg → Nat

structure ExecContext where
  pid : Nat
  type : Nat
  state : ProcessState
  usedMem : Nat
  pgd : Nat
  osStackPfn : Nat
  osRsp : Nat
  mms : MmSeg → MmSegment
  name : Nat → Nat
  regs : Regs
  pendingSignalBitmap : Nat
  sighandlers : Signal → Nat
  ticksToSleep : Nat
  alarmConfigTime : Nat
  ticksToAlarm : Nat

inductive Event where
  /-- `list[i]` is looked at by a search -/
  | read (i : Nat)
  /-- `save_current_context` runs for the context at `i` -/
  | save (i : Nat)
  /-- the line "scheduling: old pid = .. new pid = .." -/
  | switch (old new : Nat)
  | alloc (pfn : Nat)
  | free (pfn : Nat)
  | signal (signo : Signal)
  /-- `*(u64 *)(*ustackp) = prev_urip` -/
  | push (addr value : Nat)
  /-- `new_ctx->name[i]` is assigned -/
  | nameWrite (i : Nat)
  | cleanup
  deriving DecidableEq, Repr

structure State where
  list : Nat → ExecContext
  current : Nat
  /-- the words of the OS stack pages, by frame -/
  stack : Nat → Nat → Nat
  /-- `do_cleanup` has not been called -/
  up : Bool
  log : List Event

/-- `get_current_ctx()` -/
def State.cur (s : State) : ExecContext := s.list s.current

def State.emit (e : Event) (s : State) : State := {s with log := s.log ++ [e]}

def State.modify (i : Nat) (f : ExecContext → ExecContext) (s : State) : State :=
  {s with list := Function.update s.list i (f (s.list i))}

/-- Set the state of one context. -/
def State.mark (i : Nat) (x : ProcessState) (s : State) : State :=
  s.modify i fun c => {c with state := x}

/-- A loop over `n` entries of the list from entry `i` on, left at the first that satisfies `P`. -/
def search (P : ExecContext → Bool) (n i : Nat) (s : State) : Option Nat × State :=
  (Probe.scan (fun k => P (s.list k)) n i,
    {s with log := s.log ++ (Probe.visits (fun k => P (s.list k)) n i).map .read})

/-- `get_ctx_by_pid`: null from `MAX_PROCESSES` on. -/
def getCtxByPid (pid : Nat) : Option Nat := if pid < maxProcesses then some pid else none

/-! ### Switching -/

/-- How the kernel is left other than by returning to the caller: into the context switched
to, with the registers its return loads, or for good. -/
inductive Leave where
  | iretq (regs : Reg → Option Nat)
  | cleanup

/-- The word of the OS stack page that `save_current_context` copies into a register. -/
def savedWord : Reg → Option Nat
  | .entryRip => some 507
  | .entryCs => some 508
  | .entryRflags => some 509
  | .entryRsp => some 510
  | .entrySs => some 511
  | .r15 => some 493
  | .r14 => some 494
  | .r13 => some 495
  | .r12 => some 496
  | .r11 => some 497
  | .r10 => some 498
  | .r9 => some 499
  | .r8 => some 500
  | .rbp => some 501
  | .rdi => some 502
  | .rsi => some 503
  | .rdx => some 504
  | .rcx => some 505
  | .rbx => some 506
  | .rax => none

def saveCurrentContext (s : State) : State :=
  let s := s.emit (.save s.current)
  if s.cur.pid = 0 ∨ s.cur.state = .unused then s
  else
    let addr := s.stack s.cur.osStackPfn
    s.modify s.current fun c => {c with regs := fun r => ((savedWord r).map addr).getD (c.regs r)}

/-- The registers loaded on the way into a context: all of them, or for the swapper only the
frame of its `iretq`. -/
def restored (next : ExecContext) (r : Reg) : Option Nat :=
  if next.pid = 0 ∧ r.isEntry = false then none else some (next.regs r)

def scheduleContext (next : Nat) (s : State) : Leave × State :=
  let s := s.emit (.switch s.cur.pid (s.list next).pid)
  let s := (saveCurrentContext s).mark next .running
  (.iretq (restored (s.list next)), {s with current := next})

def pickNextContext (s : State) : Option Nat × State :=
  let pid := s.cur.pid
  let (found, s) := search (fun c => c.state = .ready) (maxProcesses - 1) (1 + pid) s
  (found.bind getCtxByPid, s)

/-- `none`: it returns. -/
def schedule (s : State) : Option Leave × State :=
  match pickNextContext s with
  | (some next, s) => let (l, s) := scheduleContext next s; (some l, s)
  | (none, s) => (none, s)

/-! ### System calls and signals -/

def doExit (s : State) : Option Leave × State :=
  let s := s.mark s.current .unused
  let s := s.emit (.free s.cur.osStackPfn)
  let (flag, s) := search (fun c => c.pid > 0 ∧ c.state ≠ .unused) (maxProcesses - 1) 1 s
  if flag.isSome then schedule s
  else (some .cleanup, {s.emit .cleanup with up := false})

def doSleep (ticks : Nat) (s : State) : Leave × State :=
  let s := s.modify s.current fun c => {c with ticksToSleep := ticks, state := .waiting}
  scheduleContext 0 s

def Signal.ofInt : Int → Option Signal
  | 0 => some .sigsegv
  | 1 => some .sigfpe
  | 2 => some .sigalrm
  | _ => none

/-- No result outside `sighandlers`, where the assignment lands in other memory. -/
def doSignal (signo : Int) (handler : Nat) (s : State) : Option State :=
  (Signal.ofInt signo).map fun n =>
    s.modify s.current fun c => {c with sighandlers := Function.update c.sighandlers n handler}

def doAlarm (ticks : Nat) (s : State) : State :=
  s.modify s.current fun c => {c with ticksToAlarm := ticks, alarmConfigTime := ticks}

/-- The interrupt frame with the handler's address in place of RIP, which is pushed on the
user stack. -/
def redirect (handler : Nat) (frame : Regs) (s : State) : Regs × State :=
  let ustackp := (frame .entryRsp + 2 ^ 64 - 8) % 2 ^ 64
  (Function.update (Function.update frame .entryRip handler) .entryRsp ustackp,
    s.emit (.push ustackp (frame .entryRip)))

/-- `frame` holds the registers of the interrupted code, of which `*urip` and `*ustackp` are
two. -/
def invokeSyncSignal (signo : Signal) (frame : Regs) (s : State) : Option Leave × Regs × State :=
  let s := s.emit (.signal signo)
  let handler := s.cur.sighandlers signo
  if signo = .sigalrm then
    if handler = 0 then (none, frame, s) else (none, redirect handler frame s)
  else if handler ≠ 0 then (none, redirect handler frame s)
  else
    let (l, s) := doExit s
    (l, frame, s)

/-! ### `do_clone` -/

/-- Byte `i` from the start of `name` on. `regs` and `pending_signal_bitmap` follow `name`
without padding. -/
def ExecContext.byte (c : ExecContext) (i : Nat) : Option Nat :=
  if i < 64 then some (c.name i)
  else if i < 224 then
    (Reg.layout[(i - 64) / 8]?).map fun r => c.regs r / 256 ^ ((i - 64) % 8) % 256
  else if i < 228 then some (c.pendingSignalBitmap / 256 ^ (i - 224) % 256)
  else none

/-- The word `w` with byte `k` set to `v`. -/
def withByte (w k v : Nat) : Nat := w - w / 256 ^ k % 256 * 256 ^ k + v * 256 ^ k

/-- Assign byte `i` from the start of `name` on. Four bytes of padding follow
`pending_signal_bitmap`. -/
def ExecContext.setByte (i v : Nat) (c : ExecContext) : ExecContext :=
  if i < 64 then {c with name := Function.update c.name i v}
  else if i < 224 then
    match Reg.layout[(i - 64) / 8]? with
    | some r => {c with regs := Function.update c.regs r (withByte (c.regs r) ((i - 64) % 8) v)}
    | none => c
  else if i < 228 then {c with pendingSignalBitmap := withByte c.pendingSignalBitmap (i - 224) v}
  else c

/-- What is written behind the parent's name. -/
def suffix (pid : Nat) : List Nat :=
  if pid < 10 then [pid + '0'.toNat, 0] else ['1'.toNat, pid % 10 + '0'.toNat, 0]

def writeName (slot : Nat) : List Nat → Nat → State → State
  | [], _, s => s
  | v :: vs, index, s =>
    writeName slot vs (index + 1) ((s.emit (.nameWrite index)).modify slot (·.setByte index v))

/-- `get_new_ctx`, when it returns `slot`. -/
def getNewCtx (slot : Nat) (s : State) : State :=
  s.modify slot fun c => {c with pid := slot, state := .new}

/-- The new context's fields, from those of the parent. -/
def inherit (thFunc userStack : Nat) (parent new : ExecContext) : ExecContext :=
  { new with
    regs := fun r => match r with
      | .entryRip => thFunc
      | .entryCs => 0x23
      | .entryRsp => userStack
      | .entrySs => 0x2b
      | r => parent.regs r
    type := parent.type
    usedMem := 0
    pgd := parent.pgd
    osRsp := parent.osRsp
    mms := parent.mms
    pendingSignalBitmap := parent.pendingSignalBitmap
    ticksToSleep := 0
    alarmConfigTime := 0
    ticksToAlarm := 0
    state := .ready }

/-- `do_clone` up to the copy of the parent's name. -/
def newContext (slot pfn : Nat) (s : State) : State :=
  let s := (getNewCtx slot s).emit (.alloc pfn)
  let s := s.modify slot fun c => {c with osStackPfn := pfn}
  s.modify slot fun c => {c with name := s.cur.name}

/-- No result when no byte up to the end of `pending_signal_bitmap` is NUL: the name is then
written over other memory. -/
def doClone (thFunc userStack slot pfn : Nat) (s : State) : Option State :=
  let s := newContext slot pfn s
  let pid := (s.list slot).pid
  (Probe.scan (fun i => (s.list slot).byte i = some 0) 228 0).map fun index =>
    let s := writeName slot (suffix pid) index s
    s.modify slot (inherit thFunc userStack s.cur)

/-! ### The timer tick -/

/-- Every context but the current one has its sleep count lowered. The statement on
`ticks_to_alarm` has no effect. -/
def doSleepAndAlarmAccount (s : State) : State :=
  { s with list := fun i =>
      if i < maxProcesses ∧ i ≠ s.current ∧ (s.list i).ticksToSleep > 0 then
        {s.list i with ticksToSleep := (s.list i).ticksToSleep - 1}
      else s.list i }

/-- The alarm of the current context. -/
def countAlarm (frame : Regs) (s : State) : Option Leave × Regs × State :=
  if s.cur.ticksToAlarm > 0 then
    (none, frame, s.modify s.current fun c => {c with ticksToAlarm := c.ticksToAlarm - 1})
  else if s.cur.alarmConfigTime ≠ 0 then
    match invokeSyncSignal .sigalrm frame s with
    | (none, frame, s) =>
      (none, frame, s.modify s.current fun c => {c with ticksToAlarm := c.alarmConfigTime})
    | left => left
  else (none, frame, s)

/-- What a handler does last: return to the caller or to the interrupted code with these
registers, or leave. A call of a function without a `return` has no value. -/
inductive Ret where
  | value (v : Option Nat)
  | back (frame : Regs)
  | leave (l : Leave)

def handleTimerTick (frame : Regs) (s : State) : Ret × State :=
  match countAlarm frame (doSleepAndAlarmAccount s) with
  | (some l, _, s) => (.leave l, s)
  | (none, frame, s) =>
    match search (fun c => c.state = .waiting ∧ c.ticksToSleep = 0) maxProcesses 0 s with
    | (some next, s) =>
      let s := saveCurrentContext (s.emit (.switch s.cur.pid (s.list next).pid))
      let s := (s.mark s.current .ready).mark next .running
      (.leave (.iretq (restored (s.list next))), {s with current := next})
    | (none, s) => (.back frame, s)

/-! ### Runs -/

/-- The register the system-call entry leaves in a word of the caller's OS stack page. -/
def entryWord : Nat → Option Reg
  | 511 => some .entrySs
  | 510 => some .entryRsp
  | 509 => some .entryRflags
  | 508 => some .entryCs
  | 507 => some .entryRip
  | 506 => some .rbx
  | 505 => some .rcx
  | 504 => some .rdx
  | 503 => some .rsi
  | 502 => some .rdi
  | 501 => some .rbp
  | 500 => some .r8
  | 499 => some .r9
  | 498 => some .r10
  | 497 => some .r11
  | 496 => some .r12
  | 495 => some .r13
  | 494 => some .r14
  | 493 => some .r15
  | _ => none

def State.enter (user : Regs) (s : State) : State :=
  { s with stack := Function.update s.stack s.cur.osStackPfn fun w =>
      ((entryWord w).map user).getD (s.stack s.cur.osStackPfn w) }

/-- An interrupt pushes SS to RIP; what the handler leaves below them is `scratch`. -/
def State.interrupt (user : Regs) (scratch : Nat → Nat) (s : State) : State :=
  { s with stack := Function.update s.stack s.cur.osStackPfn fun w =>
      if w < 507 then scratch w else ((entryWord w).map user).getD 0 }

inductive Call where
  | sleep (ticks : Nat)
  | clone (thFunc userStack slot pfn : Nat)
  | exit
  | alarm (ticks : Nat)
  | signal (signo : Int) (handler : Nat)
  deriving DecidableEq, Repr

inductive Op where
  | tick (user : Regs) (scratch : Nat → Nat)
  /-- a division by zero or a bad access, with its signal -/
  | fault (signo : Signal) (user : Regs) (scratch : Nat → Nat)
  | syscall (user : Regs) (call : Call)

/-- A `Leave` if there is one, or what is returned. -/
def orElse (r : Ret) : Option Leave → Ret
  | some l => .leave l
  | none => r

def doSyscall : Call → State → Option (Ret × State)
  | .sleep ticks, s => let (l, s) := doSleep ticks s; some (.leave l, s)
  | .clone thFunc userStack slot pfn, s =>
    (doClone thFunc userStack slot pfn s).map fun s => (.value none, s)
  | .exit, s => let (l, s) := doExit s; some (orElse (.value none) l, s)
  | .alarm ticks, s => some (.value (some 0), doAlarm ticks s)
  | .signal signo handler, s => (doSignal signo handler s).map fun s => (.value (some 0), s)

def perform : Op → State → Option (Ret × State)
  | .tick user scratch, s => some (handleTimerTick user (s.interrupt user scratch))
  | .fault signo user scratch, s =>
    let (l, frame, s) := invokeSyncSignal signo user (s.interrupt user scratch)
    some (orElse (.back frame) l, s)
  | .syscall user call, s => doSyscall call (s.enter user)

/-- One event, unless the system has been cleaned up. -/
def step (op : Op) (s : State) : Option (Ret × State) :=
  if s.up then perform op {s with log := []} else none

/-- What runs may contain: the swapper only ticks, and `get_new_ctx` returns an UNUSED slot. -/
def Allowed : Op → State → Prop
  | .tick .., _ => True
  | .fault .., s => s.current ≠ 0
  | .syscall _ (.clone _ _ slot _), s =>
    s.current ≠ 0 ∧ slot < maxProcesses ∧ (s.list slot).state = .unused
  | .syscall .., s => s.current ≠ 0

instance : (op : Op) → (s : State) → Decidable (Allowed op s)
  | .tick .., _ => inferInstanceAs (Decidable True)
  | .fault .., s => inferInstanceAs (Decidable (s.current ≠ 0))
  | .syscall _ (.clone _ _ slot _), s =>
    inferInstanceAs (Decidable (s.current ≠ 0 ∧ slot < maxProcesses ∧ (s.list slot).state = .unused))
  | .syscall _ (.sleep _), s | .syscall _ .exit, s | .syscall _ (.alarm _), s | .syscall _ (.signal ..), s =>
    inferInstanceAs (Decidable (s.current ≠ 0))

end CS330.Sched
