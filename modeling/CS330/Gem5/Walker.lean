import CS330.GemOS.Tables
import CS330.Gem5.Tlb

/-! The page table walker and the paging part of a translation.

`stepWalk` is one step of `arch/x86/pagetable_walker.cc` in long mode: it takes the entry that was
read and says what to read next. Physical memory is gemOS's frames, and a pointer to a word is a frame
and an index. `translate` is what `arch/x86/tlb.cc` does with an address once segmentation is
done: it asks the TLB, walks the tables on a miss, and checks the permissions. -/
namespace CS330.Gem5
open GemOS

inductive Mode where
  | read | write | execute
deriving DecidableEq

inductive WalkState where
  | longPML4 | longPDP | longPD | longPTE

/-- What a step ends with. -/
inductive Walked where
  /-- `pageFault(pte.p)` -/
  | fault (present : Bool)
  /-- The walk is over and the entry goes into the TLB. -/
  | found (entry : Page)
  /-- Another read, and what is written back to the place of the last one. -/
  | next (state : WalkState) (read : EntryPtr) (entry : Page) (write : Option Nat)

def stepWalk (enableNX : Bool) (mode : Mode) (state : WalkState) (pte : Nat) (entry : Page) : Walked :=
  let vaddr := entry.vaddr.toNat
  let uncacheable := pte.testBit 4
  -- `doWrite` and the entry with its accessed bit
  let write := if pte.testBit 5 then none else some (pte ||| 32)
  let badNX := pte.testBit 63 && mode == .execute && enableNX
  match state with
  | .longPML4 =>
    let entry := {entry with writable := isWritable pte, user := isUser pte}
    if badNX || !isPresent pte then .fault (isPresent pte)
    else .next .longPDP (extractAddrFromPageEntry pte, l3Index vaddr) {entry with noExec := pte.testBit 63} write
  | .longPDP =>
    let entry := {entry with writable := entry.writable && isWritable pte, user := entry.user && isUser pte}
    if badNX || !isPresent pte then .fault (isPresent pte)
    else .next .longPD (extractAddrFromPageEntry pte, l2Index vaddr) entry write
  | .longPD =>
    let entry := {entry with writable := entry.writable && isWritable pte, user := entry.user && isUser pte}
    if badNX || !isPresent pte then .fault (isPresent pte)
    else if !pte.testBit 7 then
      .next .longPTE (extractAddrFromPageEntry pte, l1Index vaddr) {entry with logBytes := 12} write
    else .found
      {entry with
        logBytes := 21
        paddr := BitVec.ofNat 64 (pte &&& 0x7fffffff <<< 21)
        uncacheable := uncacheable
        global := pte.testBit 8
        patBit := pte.testBit 12
        vaddr := entry.vaddr &&& ~~~0x1fffff#64}
  | .longPTE =>
    let entry := {entry with writable := entry.writable && isWritable pte, user := entry.user && isUser pte}
    if badNX || !isPresent pte then .fault (isPresent pte)
    else .found
      {entry with
        paddr := BitVec.ofNat 64 (pte &&& 0xffffffffff <<< 12)
        uncacheable := uncacheable
        global := pte.testBit 8
        patBit := pte.testBit 12
        vaddr := entry.vaddr &&& ~~~0xfff#64}

/-- `if (write) walker->port.sendAtomic(write)` -/
def writeBack (read : EntryPtr) (write : Option Nat) (m : Memory) : Memory := match write with
  | none => m
  | some pte => m.write read pte

/-- The loop of an atomic walk: the fault or the entry it ends with. -/
def walkLoop (enableNX : Bool) (mode : Mode) : Nat → WalkState → EntryPtr → Page → Memory → Option
    (Except Bool Page × Memory)
  | 0, _, _, _, _ => none
  | fuel + 1, state, read, entry, m =>
    match stepWalk enableNX mode state (m.words read.1 read.2) entry with
    | .fault present => some (.error present, m)
    | .found entry => some (.ok entry, m)
    | .next state read' entry write => walkLoop enableNX mode fuel state read' entry (writeBack read write m)

/-- `startWalk`, after `setupWalk` in long mode; there are four levels. -/
def startWalk (enableNX : Bool) (mode : Mode) (pgd : Nat) (va : BitVec 64) (m : Memory) : Option
    (Except Bool Page × Memory) :=
  walkLoop enableNX mode 4 .longPML4 (pgd, l4Index va.toNat) {Tlb.emptyEntry.toPage with vaddr := va} m

/-! ### Translation -/

/-- What the processor is doing: the mode of the access, whether it runs user code, the write
protection of CR0 and the no-execute flag of EFER. -/
structure Access where
  mode : Mode
  storeCheck : Bool
  inUser : Bool
  wp : Bool
  nxe : Bool

inductive Translation where
  | fault (present : Bool)
  | paddr (addr : BitVec 64)
deriving DecidableEq

/-- The protection checks on the entry that was found. -/
def Access.denied (a : Access) (writable user : Bool) : Bool :=
  let badWrite := !writable && (a.inUser || a.wp)
  a.inUser && !user || a.mode == .write && badWrite || a.storeCheck && badWrite

def Access.finish (a : Access) (va : BitVec 64) (page : Page) : Translation :=
  if a.denied page.writable page.user then .fault true
  else .paddr (page.paddr ||| va &&& BitVec.ofNat 64 (1 <<< page.logBytes - 1))

def translate (a : Access) (pgd : Nat) (va : BitVec 64) (t : Tlb) (m : Memory) : Option (Translation × Tlb × Memory) :=
  match t.lookup va true with
  | (some i, t) => some (a.finish va (t.page i), t, m)
  | (none, t) => (startWalk a.nxe a.mode pgd va m).bind fun r => match r with
    | (.error present, m) => some (.fault present, t, m)
    | (.ok entry, m) => (t.insert entry.vaddr entry).bind fun r => match r.2.lookup va true with
      | (some i, t) => some (a.finish va (t.page i), t, m)
      | (none, _) => none

end CS330.Gem5
