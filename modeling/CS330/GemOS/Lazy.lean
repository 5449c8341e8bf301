import CS330.GemOS.Paging

/-! Lazy allocation (assignment 2): the page-fault handler and the two system calls
that move a segment's `next_free`.

Addresses and `next_free` are 64-bit, `size` and `size << 12` are 32-bit. A call with
flags that select no segment dereferences a null pointer and has no result. -/
namespace CS330.GemOS.Lazy

inductive MmSeg where
  | code | rodata | data | stack
  deriving DecidableEq, Repr

structure MmSegment where
  start : Nat
  end_ : Nat
  nextFree : Nat
  accessFlags : Nat

structure ExecContext where
  pgd : Nat
  mms : MmSeg → MmSegment

structure State where
  current : ExecContext
  mem : Memory

def State.seg (s : State) (k : MmSeg) : MmSegment := s.current.mms k

def State.setNextFree (s : State) (k : MmSeg) (v : Nat) : State :=
  {s with current := {s.current with
    mms := Function.update s.current.mms k {s.current.mms k with nextFree := v}}}

def mapRd : Nat := 0

def mapWr : Nat := 1

/-- `memory_segment`: null unless the flags are `MAP_RD` or `MAP_WR`. -/
def memorySegment (flags : Nat) : Option MmSeg :=
  if flags = mapWr then some .data else if flags = mapRd then some .rodata else none

/-- A 64-bit word as a `long`. -/
def toLong (v : Nat) : Int := if v < 2 ^ 63 then v else (v : Int) - 2 ^ 64

/-! ### `do_syscall` -/

/-- `size << 12` on a `u32` -/
def shifted (size : Nat) : Nat := size <<< 12 % 2 ^ 32

def syscallExpand (param1 param2 : Nat) (s : State) : Option (Int × State) :=
  let size := param1 % 2 ^ 32
  let flags := param2 % 2 ^ 32
  (memorySegment flags).map fun k =>
    let res := toLong (s.seg k).nextFree
    let nextFree := ((s.seg k).nextFree + shifted size) % 2 ^ 64
    if nextFree > (s.seg k).end_ then
      (0, s.setNextFree k ((nextFree + 2 ^ 64 - shifted size) % 2 ^ 64))
    else (res, s.setNextFree k nextFree)

/-- The loop of `SYSCALL_SHRINK`. -/
def shrinkLoop (k : MmSeg) : Nat → State → State
  | 0, s => s
  | size + 1, s =>
    let nextFree := ((s.seg k).nextFree + 2 ^ 64 - 1 <<< 12) % 2 ^ 64
    let s := s.setNextFree k nextFree
    shrinkLoop k size {s with mem := freeDataPage nextFree s.current.pgd s.mem}

def syscallShrink (param1 param2 : Nat) (s : State) : Option (Int × State) :=
  let size := param1 % 2 ^ 32
  let flags := param2 % 2 ^ 32
  (memorySegment flags).map fun k =>
    if ((s.seg k).nextFree + 2 ^ 64 - shifted size) % 2 ^ 64 < (s.seg k).start then (0, s)
    else
      let t := shrinkLoop k size s
      (toLong (t.seg k).nextFree, t)

/-! ### `handle_page_fault` -/

section Fault
variable (alloc : Allocator)

/-- The body that the handlers of the three segments share. -/
def handleMmSegPageFault (segment : MmSegment) (addr : Nat) (s : State) : Option State :=
  (assignPage alloc s.current.pgd addr segment.accessFlags 0 s.mem).map fun m => {s with mem := m}

def handleMmSegDataPageFault := handleMmSegPageFault alloc

def handleMmSegRodataPageFault := handleMmSegPageFault alloc

def handleMmSegStackPageFault := handleMmSegPageFault alloc

inductive Outcome where
  | iretq | doExit
  deriving DecidableEq, Repr

def handlePageFault (cr2 errorCode : Nat) (s : State) : Option (Outcome × State) :=
  let dataMm := s.seg .data
  let roDataMm := s.seg .rodata
  let stackMm := s.seg .stack
  if cr2 ≥ dataMm.start ∧ cr2 < dataMm.nextFree ∧ errorCode &&& 1 = 0 then
    (handleMmSegDataPageFault alloc dataMm cr2 s).map (.iretq, ·)
  else if cr2 ≥ roDataMm.start ∧ cr2 < roDataMm.nextFree then
    (handleMmSegRodataPageFault alloc roDataMm cr2 s).map (.iretq, ·)
  else if cr2 ≥ stackMm.start ∧ cr2 < stackMm.end_ then
    (handleMmSegStackPageFault alloc stackMm cr2 s).map (.iretq, ·)
  else some (.doExit, s)

/-! ### Runs -/

inductive Op where
  | fault (cr2 errorCode : Nat)
  | expand (param1 param2 : Nat)
  | shrink (param1 param2 : Nat)
  deriving DecidableEq, Repr

inductive Ret where
  | fault (outcome : Outcome)
  | value (v : Int)
  deriving DecidableEq, Repr

/-- One event: a fault or a system call of the process. `do_exit` leaves its memory as it is. -/
def step : Op → State → Option (Ret × State)
  | .fault cr2 errorCode, s => (handlePageFault alloc cr2 errorCode s).map fun r => (.fault r.1, r.2)
  | .expand param1 param2, s => (syscallExpand param1 param2 s).map fun r => (.value r.1, r.2)
  | .shrink param1 param2, s => (syscallShrink param1 param2 s).map fun r => (.value r.1, r.2)

end Fault

/-- A process laid out as in `context.h`, with one page of RODATA and one of DATA. -/
def onePage : State where
  current := {
    pgd := 0
    mms := fun k => match k with
      | .code => ⟨0x100000000, 0x100008000, 0x100008000, 5⟩
      | .rodata => ⟨0x140000000, 0x140001000, 0x140001000, 1⟩
      | .data => ⟨0x180000000, 0x180001000, 0x180001000, 3⟩
      | .stack => ⟨0x7FF000000, 0x800000000, 0x800000000, 3⟩ }
  mem := Memory.bare 0

end CS330.GemOS.Lazy
