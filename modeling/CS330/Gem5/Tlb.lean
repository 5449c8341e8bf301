import Mathlib.Logic.Function.Basic
import CS330.Gem5.Trie

/-! The translation lookaside buffer of `arch/x86/tlb.cc`.

The entries stand in an array. Those in use are in the trie, which finds them by address, and
the others are in the free list. A pointer to an entry is its index. A failed assertion and a panic of
the trie have no result. -/
namespace CS330.Gem5

/-- What a `TlbEntry` says of its page. -/
structure Page where
  paddr : BitVec 64
  vaddr : BitVec 64
  logBytes : Nat
  writable : Bool
  user : Bool
  uncacheable : Bool
  global : Bool
  patBit : Bool
  noExec : Bool
deriving DecidableEq

structure TlbEntry extends Page where
  lruSeq : Nat
  trieHandle : Option (Handle 64)

structure Tlb where
  size : Nat
  tlb : Nat → TlbEntry
  freeList : List Nat
  trie : Node 64 Nat
  lruSeq : Nat

namespace Tlb

/-- `TlbEntry()`, with no handle. -/
def emptyEntry : TlbEntry := ⟨⟨0, 0, 0, false, true, false, false, false, false⟩, 0, none⟩

/-- `TLB(p)` -/
def new (size : Nat) : Tlb := ⟨size, fun _ => emptyEntry, List.range size, .head, 0⟩

/-- `lruSeq` has 64 bits. -/
def seqRange : Nat := 18446744073709551616

def nextSeq (t : Tlb) : Nat := (t.lruSeq + 1) % seqRange

/-- The entry has left the trie and goes to the end of the free list. -/
def giveBack (i : Nat) (trie : Node 64 Nat) (t : Tlb) : Tlb :=
  {t with
    trie := trie
    tlb := Function.update t.tlb i {t.tlb i with trieHandle := none}
    freeList := t.freeList ++ [i]}

/-- `trie.remove(entry->trieHandle)`, after which the entry is free. -/
def release (i : Nat) (t : Tlb) : Option Tlb := match (t.tlb i).trieHandle with
  | none => none
  | some handle => (t.trie.remove handle).map fun r => t.giveBack i r.2

/-- The entry with the lowest sequence number. -/
def lru (t : Tlb) : Nat := (List.range' 1 (t.size - 1)).foldl
  (fun lru i => if (t.tlb i).lruSeq < (t.tlb lru).lruSeq then i else lru) 0

def evictLRU (t : Tlb) : Option Tlb := t.release t.lru

/-- The entry is filled and has entered the trie. -/
def occupy (i : Nat) (rest : List Nat) (page : Page) (handle : Handle 64) (trie : Node 64 Nat) (t : Tlb) : Tlb :=
  {t with
    freeList := rest
    lruSeq := t.nextSeq
    trie := trie
    tlb := Function.update t.tlb i ⟨page, t.nextSeq, some handle⟩}

/-- The entry from the front of the free list takes the page. -/
def fill (vpn : BitVec 64) (entry : Page) (t : Tlb) : Option (Nat × Tlb) := match t.freeList with
  | [] => none
  | i :: rest => (t.trie.insert vpn (64 - entry.logBytes) i).map fun r =>
    (i, t.occupy i rest {entry with vaddr := vpn} r.1 r.2)

def insert (vpn : BitVec 64) (entry : Page) (t : Tlb) : Option (Nat × Tlb) := match t.trie.lookup vpn with
  | some i => if (t.tlb i).vaddr = vpn then some (i, t) else none
  | none => (if t.freeList.isEmpty then t.evictLRU else some t).bind (fill vpn entry)

/-- `entry->lruSeq = nextSeq()` -/
def touch (i : Nat) (t : Tlb) : Tlb :=
  {t with lruSeq := t.nextSeq, tlb := Function.update t.tlb i {t.tlb i with lruSeq := t.nextSeq}}

def lookup (va : BitVec 64) (updateLru : Bool) (t : Tlb) : Option Nat × Tlb := match t.trie.lookup va with
  | none => (none, t)
  | some i => (some i, if updateLru then t.touch i else t)

/-- The loop of the two flushes. -/
def flushLoop (which : Page → Bool) : List Nat → Tlb → Option Tlb
  | [], t => some t
  | i :: rest, t =>
    (if (t.tlb i).trieHandle.isSome && which (t.tlb i).toPage then t.release i else some t).bind (flushLoop which rest)

def flushAll (t : Tlb) : Option Tlb := flushLoop (fun _ => true) (List.range t.size) t

def flushNonGlobal (t : Tlb) : Option Tlb := flushLoop (fun page => !page.global) (List.range t.size) t

def demapPage (va : BitVec 64) (t : Tlb) : Option Tlb := match t.trie.lookup va with
  | none => some t
  | some i => t.release i

inductive Op where
  | insert (vpn : BitVec 64) (entry : Page)
  | lookup (va : BitVec 64) (updateLru : Bool)
  | demapPage (va : BitVec 64)
  | flushAll
  | flushNonGlobal

/-- The entry that is returned, as the caller reads it. -/
inductive Reply where
  | entry (page : Option Page)
  | done
deriving DecidableEq

def page (t : Tlb) (i : Nat) : Page := (t.tlb i).toPage

def step : Op → Tlb → Option (Reply × Tlb)
  | .insert vpn entry, t => (t.insert vpn entry).map fun r => (.entry (some (r.2.page r.1)), r.2)
  | .lookup va updateLru, t =>
    let r := t.lookup va updateLru
    some (.entry (r.1.map r.2.page), r.2)
  | .demapPage va, t => (t.demapPage va).map fun t' => (.done, t')
  | .flushAll, t => t.flushAll.map fun t' => (.done, t')
  | .flushNonGlobal, t => t.flushNonGlobal.map fun t' => (.done, t')

section
variable {t : Tlb} {i j : Nat} {rest : List Nat} {p : Page} {handle : Handle 64} {trie : Node 64 Nat}

theorem giveBack_other (h : j ≠ i) : (t.giveBack i trie).tlb j = t.tlb j := Function.update_of_ne h _ _

theorem occupy_other (h : j ≠ i) : (t.occupy i rest p handle trie).tlb j = t.tlb j := Function.update_of_ne h _ _

theorem touch_other (h : j ≠ i) : (t.touch i).tlb j = t.tlb j := Function.update_of_ne h _ _

@[simp]
theorem giveBack_self : (t.giveBack i trie).tlb i = {t.tlb i with trieHandle := none} := Function.update_self ..

@[simp]
theorem occupy_self : (t.occupy i rest p handle trie).tlb i = ⟨p, t.nextSeq, some handle⟩ := Function.update_self ..

@[simp]
theorem touch_self : (t.touch i).tlb i = {t.tlb i with lruSeq := t.nextSeq} := Function.update_self ..

@[simp]
theorem giveBack_page : (t.giveBack i trie).page = t.page := by
  funext j
  by_cases h : j = i
  · subst h
    simp [page]
  · simp only [page, giveBack_other h]

@[simp]
theorem touch_page : (t.touch i).page = t.page := by
  funext j
  by_cases h : j = i
  · subst h
    simp [page]
  · simp only [page, touch_other h]

end

end Tlb

end CS330.Gem5
