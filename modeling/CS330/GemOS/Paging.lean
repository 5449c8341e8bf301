import CS330.Lib.Radix
import Mathlib.Algebra.Group.Int.Defs
import Mathlib.Algebra.GroupWithZero.Nat

/-! Page tables in gemOS.

The functions that assignments 1 and 2 share: walking a 4-level table, growing it
and giving a data page back. Frames are numbered, and `osmap` gives their 512
words. A pointer to an entry is a frame and an index. The frame allocator is not
in the repository: it is any function of what is allocated, and a call that
returns a frame in use, or one of 40 bits or more, has no result here. -/
namespace CS330.GemOS

/-- A table has entries. -/
@[instance] theorem tableSize_neZero : NeZero 512 := ⟨by decide⟩

inductive Region where
  | osDsReg | osPtReg | userReg
  deriving DecidableEq, Repr

abbrev EntryPtr := Nat × Fin 512

inductive Event where
  /-- `os_pfn_alloc(region)` returned `pfn`. -/
  | alloc (region : Region) (pfn : Nat)
  /-- `os_pfn_free(region, pfn)` was called on a frame allocated to `was`. -/
  | free (region : Region) (pfn : Nat) (was : Option Region)
  /-- `assign_data_page` made the entry map `pfn`. -/
  | leaf (entry : EntryPtr) (pfn : Nat)
  /-- `free_data_page` cleared the entry. -/
  | clear (entry : EntryPtr)
  /-- `free_data_page` was called on the address. -/
  | freePage (addr : Nat)
  deriving DecidableEq, Repr

structure Memory where
  words : Nat → Fin 512 → Nat
  /-- The region each frame in use was allocated from. -/
  owner : Nat → Option Region
  log : List Event

namespace Memory

@[simps -fullyApplied]
def emit (e : Event) (m : Memory) : Memory := {m with log := e :: m.log}

/-- `*next_entry_ptr = entry` -/
@[simps -fullyApplied]
def write (ptr : EntryPtr) (entry : Nat) (m : Memory) : Memory :=
  {m with words := Radix.put m.words ptr.1 ptr.2 entry}

@[simps -fullyApplied]
def initializePage (pfn : Nat) (m : Memory) : Memory :=
  {m with words := Function.update m.words pfn fun _ => 0}

/-- A root table without entries, and nothing else allocated. -/
def bare (pgd : Nat) : Memory where
  words := fun _ _ => 0
  owner := Function.update (fun _ => none) pgd (some .osPtReg)
  log := []

end Memory

/-- What `os_pfn_alloc` returns when the frames are allocated as given. -/
abbrev Allocator := Region → (Nat → Option Region) → Nat

def osPfnAlloc (alloc : Allocator) (region : Region) (m : Memory) : Option (Nat × Memory) :=
  let pfn := alloc region m.owner
  if m.owner pfn = none ∧ pfn < 2 ^ 40 then
    some (pfn, {m with owner := Function.update m.owner pfn (some region), log := .alloc region pfn :: m.log})
  else none

def osPfnFree (region : Region) (pfn : Nat) (m : Memory) : Memory :=
  {m with owner := Function.update m.owner pfn none, log := .free region pfn (m.owner pfn) :: m.log}

/-! ### Addresses and entries -/

def l4Index (addr : Nat) : Fin 512 := Fin.ofNat 512 ((addr &&& 0xff8000000000) >>> 39)

def l3Index (addr : Nat) : Fin 512 := Fin.ofNat 512 ((addr &&& 0x007fc0000000) >>> 30)

def l2Index (addr : Nat) : Fin 512 := Fin.ofNat 512 ((addr &&& 0x00003fe00000) >>> 21)

def l1Index (addr : Nat) : Fin 512 := Fin.ofNat 512 ((addr &&& 0x0000001ff000) >>> 12)

def extractAddrFromPageEntry (entry : Nat) : Nat := (entry >>> 12) &&& 0xFFFFFFFFFF

/-- `*next_entry_ptr & 0x1` -/
def isPresent (entry : Nat) : Bool := entry &&& 1 != 0

def mmWr : Nat := 2

/-- The entry for a frame, put together in 64-bit arithmetic: the frame number, nine
zeros, the user bit, the write bit of the flags and the present bit. -/
def makeEntry (frameNumber flags : Nat) : Nat :=
  let entry := frameNumber
  let entry := entry <<< 9 % 2 ^ 64
  let entry := (entry <<< 1 + 1) % 2 ^ 64
  let entry := (entry <<< 1 + ((flags &&& mmWr) >>> 1)) % 2 ^ 64
  (entry <<< 1 + 1) % 2 ^ 64

/-! ### Walking, growing and freeing -/

def isValidVirtualAddr (addr pgd : Nat) (m : Memory) : Int :=
  let entry := m.words pgd (l4Index addr)
  if !isPresent entry then 0
  else
    let entry := m.words (extractAddrFromPageEntry entry) (l3Index addr)
    if !isPresent entry then 0
    else
      let entry := m.words (extractAddrFromPageEntry entry) (l2Index addr)
      if !isPresent entry then 0
      else
        let entry := m.words (extractAddrFromPageEntry entry) (l1Index addr)
        if !isPresent entry then 0 else 1

def freeDataPage (addr pgd : Nat) (m : Memory) : Memory :=
  let m := m.emit (.freePage addr)
  let entry := m.words pgd (l4Index addr)
  if !isPresent entry then m
  else
    let entry := m.words (extractAddrFromPageEntry entry) (l3Index addr)
    if !isPresent entry then m
    else
      let entry := m.words (extractAddrFromPageEntry entry) (l2Index addr)
      if !isPresent entry then m
      else
        let nextEntryPtr := (extractAddrFromPageEntry entry, l1Index addr)
        let entry := m.words nextEntryPtr.1 nextEntryPtr.2
        if !isPresent entry then m
        else
          let pfn := extractAddrFromPageEntry entry
          ((osPfnFree .userReg pfn m).write nextEntryPtr 0).emit (.clear nextEntryPtr)

section Assign
variable (alloc : Allocator)

/-- The table below an entry, a new one if there is none. -/
def assignPageTablePage (nextEntryPtr : EntryPtr) (flags : Nat) (m : Memory) : Option (Nat × Memory) :=
  let entry := m.words nextEntryPtr.1 nextEntryPtr.2
  if isPresent entry then some (entry >>> 12, m)
  else (osPfnAlloc alloc .osPtReg m).map fun r =>
    (r.1, (r.2.write nextEntryPtr (makeEntry r.1 flags)).initializePage r.1)

def assignDataPage (nextEntryPtr : EntryPtr) (flags pfn : Nat) (m : Memory) : Option Memory :=
  if isPresent (m.words nextEntryPtr.1 nextEntryPtr.2) then some m
  else if pfn = 0 then (osPfnAlloc alloc .userReg m).map fun r =>
    (r.2.write nextEntryPtr (makeEntry r.1 flags)).emit (.leaf nextEntryPtr r.1)
  else some ((m.write nextEntryPtr (makeEntry pfn flags)).emit (.leaf nextEntryPtr pfn))

/-- The leaf entry of an address, the tables on the way to it being made. -/
def assignPageTablePages (l4 startAddr flags : Nat) (m : Memory) : Option (EntryPtr × Memory) :=
  (assignPageTablePage alloc (l4, l4Index startAddr) flags m).bind fun l3 =>
  (assignPageTablePage alloc (l3.1, l3Index startAddr) flags l3.2).bind fun l2 =>
  (assignPageTablePage alloc (l2.1, l2Index startAddr) flags l2.2).map fun l1 =>
  ((l1.1, l1Index startAddr), l1.2)

/-- `assign_page_table_pages`, then `assign_data_page`, as both assignments call them. -/
def assignPage (pgd addr flags pfn : Nat) (m : Memory) : Option Memory :=
  (assignPageTablePages alloc pgd addr flags m).bind fun r => assignDataPage alloc r.1 flags pfn r.2

end Assign

end CS330.GemOS
