import CS330.GemOS.Ledger
import CS330.Gem5.Cached
import CS330.Gem5.Walks

/-! gemOS and the processor's TLBs at work on one memory.

The kernel maps pages on faults and gives them back, with an `invlpg` for each. In between the
processor translates addresses in any order, through the instruction TLB or the data TLB, and its
walker writes to the tables. `Coherent` says that the TLBs show nothing but what the tables grant now, and
every step keeps it. -/
namespace CS330.Gem5
open GemOS TopBits

structure Mmu where
  mem : Memory
  itb : Tlb
  dtb : Tlb

namespace Mmu

inductive Op where
  /-- A page fault is served: `assign_page_table_pages`, then `assign_data_page`. -/
  | assign (addr flags : Nat)
  /-- `free_data_page` -/
  | free (addr : Nat)
  | access (a : Access) (va : BitVec 64)

inductive Reply where
  | done
  | translated (t : Translation)
deriving DecidableEq

/-- `demapPage` in both TLBs, as `invlpg` and the entry into the page fault handler do. -/
def demap (va : BitVec 64) (s : Mmu) : Option Mmu :=
  (s.itb.demapPage va).bind fun itb => (s.dtb.demapPage va).map fun dtb => {s with itb := itb, dtb := dtb}

/-- A translation through the TLB of its mode. -/
def lookUp (a : Access) (pgd : Nat) (va : BitVec 64) (s : Mmu) : Option (Translation × Mmu) :=
  if a.mode = .execute then
    (translate a pgd va s.itb s.mem).map fun r => (r.1, {s with itb := r.2.1, mem := r.2.2})
  else (translate a pgd va s.dtb s.mem).map fun r => (r.1, {s with dtb := r.2.1, mem := r.2.2})

def step (alloc : Allocator) (pgd : Nat) : Op → Mmu → Option (Reply × Mmu)
  | .assign addr flags, s => (assignPage alloc pgd addr flags 0 s.mem).map fun m => (.done, {s with mem := m})
  | .free addr, s =>
    let freed := {s with mem := freeDataPage addr pgd s.mem}
    -- the function returns early where the page is not mapped
    if isValidVirtualAddr addr pgd s.mem = 0 then some (.done, freed)
    else (freed.demap (BitVec.ofNat 64 addr)).map fun s => (.done, s)
  | .access a va, s => (s.lookUp a pgd va).bind fun r => match r.1 with
    | .paddr _ => some (.translated r.1, r.2)
    | .fault _ => (r.2.demap va).map fun s => (.translated r.1, s)

end Mmu

/-- What the tables say of an access, without any TLB. -/
def direct (a : Access) (pgd : Nat) (va : BitVec 64) (m : Memory) : Translation := match grant m pgd va.toNat with
  | none => .fault false
  | some r => if a.denied r.writable r.user then .fault true else .paddr
    (BitVec.ofNat 64 (r.frame * 4096) ||| va &&& 0xfff#64)

/-! ### Cached pages -/

/-- The page says what the tables grant. -/
structure Shows (m : Memory) (pgd : Nat) (p : Page) : Prop where
  log : p.logBytes = 12
  low : p.vaddr.toNat < 281474976710656
  granted : ∃ r, grant m pgd p.vaddr.toNat = some r ∧ p.writable = r.writable ∧ p.user = r.user ∧
    p.paddr = BitVec.ofNat 64 (r.frame * 4096)

/-- All cached pages show what the tables grant. -/
def Reflects (m : Memory) (pgd : Nat) (t : Tlb) : Prop :=
  ∃ used, Tlb.Tracks t used ∧ 0 < t.size ∧ ∀ p ∈ Tlb.pages t used, Shows m pgd p

section Pages
variable {m m' : Memory} {pgd : Nat} {t : Tlb} {va : BitVec 64} {p : Page} {pages : List Page} {a : Access}

theorem pageOf_toNat (va : BitVec 64) : (pageOf va).toNat = va.toNat / 4096 * 4096 := by
  have hshift : pageOf va = va >>> 12 <<< 12 := by
    rw [pageOf]
    apply BitVec.eq_of_getMsbD_eq
    intro i hi
    rw [BitVec.getMsbD_and, getMsbD_mask, BitVec.getMsbD_shiftLeft, BitVec.getMsbD_ushiftRight]
    by_cases h : i < 52
    · simp [h, hi, show i + 12 < 64 by omega]
    · simp [h]
      omega
  rw [hshift, BitVec.toNat_shiftLeft, BitVec.toNat_ushiftRight, Nat.shiftRight_eq_div_pow, Nat.shiftLeft_eq]
  have := va.isLt
  omega

theorem pageOf_pageOf (va : BitVec 64) : pageOf (pageOf va) = pageOf va := by
  rw [pageOf, pageOf, BitVec.and_assoc, BitVec.and_self]

theorem grant_congr {a b : Nat} (h : a / 4096 = b / 4096) : grant m pgd a = grant m pgd b := by
  rw [grant, path_congr h, grant]

theorem grant_pageOf (m : Memory) (pgd : Nat) (va : BitVec 64) : grant m pgd (pageOf va).toNat = grant m pgd va.toNat :=
  grant_congr (by rw [pageOf_toNat]; omega)

/-- The grant is read off the walk. -/
theorem grant_of_walk {b : Nat} (h : m'.walk pgd b = m.walk pgd b) : grant m' pgd b = grant m pgd b := by
  simp only [grant, rightsFrom]
  rw [show Radix.entries format m'.words pgd (path b) = Radix.entries format m.words pgd (path b) from h]

theorem walk_of_grant {b : Nat} {r : Rights} (h : grant m pgd b = some r) : m.walk pgd b ≠ none := by
  intro hnone
  simp only [grant, rightsFrom] at h
  rw [show Radix.entries format m.words pgd (path b) = none from hnone] at h
  cases h

theorem Shows.of_grant (h : Shows m pgd p) (he : grant m' pgd p.vaddr.toNat = grant m pgd p.vaddr.toNat) :
    Shows m' pgd p :=
  ⟨h.log, h.low, by rw [he]; exact h.granted⟩

theorem Reflects.mono (h : Reflects m pgd t) (hshow : ∀ p, Shows m pgd p → Shows m' pgd p) : Reflects m' pgd t := by
  obtain ⟨used, htracks, hpos, hall⟩ := h
  exact ⟨used, htracks, hpos, fun p hp => hshow p (hall p hp)⟩

theorem Reflects.stamped (h : Reflects m pgd t) (hm : Stamped m m') : Reflects m' pgd t :=
  h.mono fun _ hp => hp.of_grant (hm.grant pgd _)

/-- The answer of a page that shows what is granted. -/
theorem Shows.finish (h : Shows m pgd p) (hva : p.vaddr = pageOf va) : a.finish va p = direct a pgd va m := by
  obtain ⟨r, hr, hw, hu, hpaddr⟩ := h.granted
  rw [hva, grant_pageOf] at hr
  simp only [Access.finish, direct, hr, hw, hu, hpaddr, h.log]
  rfl

theorem mem_lookup {update : Bool} (hp : p ∈ (LruPages.lookup va update pages).2) : p ∈ pages := by
  simp only [LruPages.lookup] at hp
  split at hp
  · exact hp
  · rename_i page hfind
    split at hp
    · rcases List.mem_cons.mp hp with rfl | hp
      · exact List.mem_of_find?_eq_some hfind
      · exact List.mem_of_mem_filter hp
    · exact hp

theorem lookup_fst {update : Bool} : (LruPages.lookup va update pages).1 = LruPages.find (pageOf va) pages := by
  simp only [LruPages.lookup]
  split <;> simp [*]

theorem find_vaddr {vpn : BitVec 64} (h : LruPages.find vpn pages = some p) : p ∈ pages ∧ p.vaddr = vpn :=
  ⟨List.mem_of_find?_eq_some h, by simpa using List.find?_some h⟩

/-! ### Translating -/

/-- A page that is cached is found, and answers for the tables. -/
theorem Reflects.hit {used : List Nat} (htracks : Tlb.Tracks t used) (hpos : 0 < t.size)
    (hall : ∀ p ∈ Tlb.pages t used, Shows m pgd p) (hseq : t.lruSeq + 1 < Tlb.seqRange)
    (hfind : LruPages.find (pageOf va) (Tlb.pages t used) = some p) :
    ∃ i t', t.lookup va true = (some i, t') ∧ Reflects m pgd t' ∧ a.finish va (t'.page i) = direct a pgd va m := by
  obtain ⟨r, t', used', hstep, htracks', hsize, -, hspec⟩ := htracks.lookup hseq va true
  simp only [Tlb.step, Option.some.injEq, Prod.mk.injEq] at hstep
  simp only [LruPages.step, lookup_fst, hfind, Prod.mk.injEq] at hspec
  obtain ⟨hreply, hnext⟩ := hstep
  obtain ⟨hfound, hpages⟩ := hspec
  rw [← hreply, hnext, Tlb.Reply.entry.injEq, eq_comm, Option.map_eq_some_iff] at hfound
  obtain ⟨i, hi, hpage⟩ := hfound
  refine ⟨i, t', Prod.ext hi hnext, ⟨used', htracks', by omega, fun p' hp' => hall p' ?_⟩, ?_⟩
  · rw [← hpages] at hp'
    exact mem_lookup hp'
  · obtain ⟨hmem, hva⟩ := find_vaddr hfind
    rw [hpage]
    exact (hall p hmem).finish hva

/-- The walker's page is taken in and found. -/
theorem Reflects.insert {used : List Nat} {entry : Page} (htracks : Tlb.Tracks t used) (hpos : 0 < t.size)
    (hall : ∀ p ∈ Tlb.pages t used, Shows m pgd p) (hseq : t.lruSeq + 1 < Tlb.seqRange)
    (hfind : LruPages.find (pageOf va) (Tlb.pages t used) = none) (hentry : Shows m pgd entry)
    (hva : entry.vaddr = pageOf va) :
    ∃ i t' used', t.insert entry.vaddr entry = some (i, t') ∧ Tlb.Tracks t' used' ∧ 0 < t'.size ∧
      t'.lruSeq ≤ t.lruSeq + 1 ∧
      (∀ p ∈ Tlb.pages t' used', Shows m pgd p) ∧ LruPages.find (pageOf va) (Tlb.pages t' used') = some entry := by
  have haligned : pageOf entry.vaddr = entry.vaddr := by rw [hva, pageOf_pageOf]
  obtain ⟨r, t', used', hstep, htracks', hsize, hseq', hspec⟩ := htracks.insert hpos hseq haligned hentry.log
  obtain ⟨⟨i, t''⟩, hins, heq⟩ := Option.map_eq_some_iff.mp hstep
  obtain ⟨-, rfl⟩ := Prod.mk.inj heq
  simp only [LruPages.step, LruPages.insert, hva, hfind, Prod.mk.injEq] at hspec
  have hsame : {entry with vaddr := pageOf va} = entry := by rw [← hva]
  rw [hsame] at hspec
  obtain ⟨-, hpages⟩ := hspec
  refine ⟨i, t'', used', hins, htracks', by simp only at hsize; omega, hseq', fun p hp => ?_, ?_⟩
  · rw [← hpages] at hp
    rcases List.mem_cons.mp hp with rfl | hp
    · exact hentry
    · refine hall p ?_
      split at hp
      · exact List.dropLast_subset _ hp
      · exact hp
  · rw [← hpages, LruPages.find, List.find?_cons_of_pos]
    exact beq_iff_eq.mpr hva

theorem Answers.shows {page : Page} (hans : Answers va (grant m pgd va.toNat) (.ok page))
    (hlow : va.toNat < 281474976710656) :
    Shows m pgd page := by
  obtain ⟨hlog, hva, hgranted⟩ := hans
  refine ⟨hlog, ?_, ?_⟩
  · rw [hva, pageOf_toNat]
    omega
  · rw [hva, grant_pageOf]
    exact hgranted

/-- **A translation answers for the tables**, whatever was cached. -/
theorem translate_direct (hplain : Plain m pgd) (h : Reflects m pgd t) (hlow : va.toNat < 281474976710656)
    (hseq : t.lruSeq + 2 < Tlb.seqRange) :
    ∃ t' m', translate a pgd va t m = some (direct a pgd va m, t', m') ∧ Stamped m m' ∧ Reflects m' pgd t' := by
  obtain ⟨used, htracks, hpos, hall⟩ := h
  cases hfind : LruPages.find (pageOf va) (Tlb.pages t used) with
  | some p =>
    obtain ⟨i, t', hlookup, hreflects, hfinish⟩ := Reflects.hit (a := a) htracks hpos hall (by omega) hfind
    exact ⟨t', m, by simp only [translate, hlookup, hfinish], .refl m, hreflects⟩
  | none =>
    have hmiss : t.trie.lookup va = none := by
      rw [Option.eq_none_iff_forall_ne_some]
      intro i hi
      rw [htracks.find_some hi] at hfind
      cases hfind
    have hlookup : t.lookup va true = (none, t) := by simp only [Tlb.lookup, hmiss]
    obtain ⟨res, m', hwalk, hstamped, hans⟩ := @startWalk_ends a.nxe a.mode pgd m hplain va
    cases res with
    | error present =>
      obtain ⟨hnone, hpresent⟩ := hans
      refine ⟨t, m', ?_, hstamped, Reflects.stamped ⟨used, htracks, hpos, hall⟩ hstamped⟩
      simp only [translate, hlookup, hwalk, Option.bind_some, direct, hnone, hpresent]
    | ok entry =>
      obtain ⟨i, t₁, used₁, hins, htracks₁, hpos₁, hseq₁, hall₁, hfind₁⟩ :=
        Reflects.insert htracks hpos hall (by omega) hfind (hans.shows hlow) hans.2.1
      obtain ⟨j, t₂, hlookup₂, hreflects, hfinish⟩ := Reflects.hit (a := a) htracks₁ hpos₁ hall₁ (by omega) hfind₁
      refine ⟨t₂, m', ?_, hstamped, hreflects.stamped hstamped⟩
      simp only [translate, hlookup, hwalk, Option.bind_some, hins, hlookup₂, hfinish]

theorem Reflects.demapPage (h : Reflects m pgd t) (va : BitVec 64) : ∃ t', t.demapPage va = some t' ∧
    ∃ used, Tlb.Tracks t' used ∧
    0 < t'.size ∧ ∀ p ∈ Tlb.pages t' used, Shows m pgd p ∧ p.vaddr ≠ pageOf va := by
  obtain ⟨used, htracks, hpos, hall⟩ := h
  obtain ⟨r, t', used', hstep, htracks', hsize, -, hspec⟩ := htracks.demapPage va
  obtain ⟨t'', hdemap, heq⟩ := Option.map_eq_some_iff.mp hstep
  obtain ⟨-, rfl⟩ := Prod.mk.inj heq
  refine ⟨t'', hdemap, used', htracks', by omega, fun p hp => ?_⟩
  rw [← (Prod.mk.inj hspec).2] at hp
  obtain ⟨hmem, hne⟩ := List.mem_filter.mp hp
  exact ⟨hall p hmem, bne_iff_ne.mp hne⟩

end Pages

/-! ### The kernel's steps -/

section Kernel
variable {m m' : Memory} {pgd addr flags : Nat} {t : Tlb}

theorem Stamped.ledger (h : Stamped m m') (hm : Ledger m pgd) : Ledger m' pgd := by
  have hnode := h.node pgd
  refine ⟨⟨fun p q f hp hq hf hf' => ?_, fun q f hq hf => ?_, fun q i e' hq he' => ?_⟩, fun q q' f hq hq' hf hf' => ?_,
    fun f => ?_, fun r pfn was hmem => ?_⟩
  · exact hm.tree.tree p q f hp hq ((hnode p).symm.trans hf) ((hnode q).symm.trans hf')
  · rw [h.owner]
    exact hm.tree.used q f hq ((hnode q).symm.trans hf)
  · obtain ⟨e, he, heq⟩ := h.entry he'
    have htop : e' >>> 52 = e >>> 52 := congrArg Traits.top heq
    have hlt := hm.tree.clear q i e hq he
    rw [Nat.shiftRight_eq_div_pow, Nat.shiftRight_eq_div_pow] at htop
    omega
  · exact hm.inj q q' f hq hq' ((hnode q).symm.trans hf) ((hnode q').symm.trans hf')
  · simp only [MadeFor, hnode, h.log]
    exact hm.held f
  · rw [h.log] at hmem
    exact hm.once r pfn was hmem

theorem makeEntry_plain {g : Nat} (hg : g < 1099511627776) :
    (makeEntry g flags).testBit 7 = false ∧ (makeEntry g flags).testBit 63 = false := by
  have heq := @makeEntry_eq g flags hg
  rw [Nat.testBit_eq_decide_div_mod_eq, Nat.testBit_eq_decide_div_mod_eq, decide_eq_false_iff_not,
    decide_eq_false_iff_not, heq]
  omega

theorem Grows.plain (h : Grows pgd addr flags 0 m m') (hplain : Plain m pgd) : Plain m' pgd := by
  induction h with
  | refl => exact hplain
  | tail _ hgrow ih =>
    obtain ⟨p, j, g, hg, -, hattach⟩ := hgrow.attached
    intro q i e hq he
    rw [Memory.entry, hattach.entry q i hq] at he
    split at he
    · cases he
      exact makeEntry_plain hg
    · exact ih q i e hq he

theorem FreePage.plain (h : FreePage pgd addr m m') (hplain : Plain m pgd) : Plain m' pgd := by
  cases h with
  | unmapped _ h =>
    subst h
    exact hplain
  | freed _ _ hclear _ _ =>
    intro q i e hq he
    rw [Memory.entry, hclear.entry q i hq] at he
    split at he
    · cases he
    · exact hplain q i e hq he

/-- Serving a fault leaves every page that was mapped as it was. -/
theorem Shows.grows {p : Page} (hshow : Shows m pgd p) (h : Grows pgd addr flags 0 m m') : Shows m' pgd p := by
  obtain ⟨r, hr, -⟩ := hshow.granted
  apply hshow.of_grant
  by_cases hpath : path p.vaddr.toNat = path addr
  · have hmapped : m.walk pgd addr ≠ none := by
      have := walk_of_grant hr
      rwa [Memory.walk, hpath] at this
    rw [h.eq_of_mapped hmapped]
  · exact grant_of_walk (h.walk hpath)

/-- Giving a page back changes nothing for the pages that stay cached. -/
theorem Shows.free {p : Page} (hshow : Shows m pgd p) (haligned : pageOf p.vaddr = p.vaddr) (h : FreePage pgd addr m m')
    (haddr : addr < 281474976710656) (hne : p.vaddr ≠ pageOf (BitVec.ofNat 64 addr)) : Shows m' pgd p := by
  apply hshow.of_grant
  apply grant_of_walk
  apply h.walk
  intro hpath
  apply hne
  have hpage := path_inj hshow.low haddr hpath
  rw [← haligned]
  apply BitVec.eq_of_toNat_eq
  rw [pageOf_toNat, pageOf_toNat, hpage, BitVec.toNat_ofNat, Nat.mod_eq_of_lt (by omega)]

theorem Tlb.Tracks.pages_aligned {used : List Nat} {p : Page} (h : Tlb.Tracks t used) (hp : p ∈ Tlb.pages t used) :
    pageOf p.vaddr = p.vaddr := by
  obtain ⟨i, hi, rfl⟩ := List.mem_map.mp hp
  exact h.aligned i hi

end Kernel

/-! ### Runs -/

namespace Mmu

/-- The tables are in order, and both TLBs show what they grant. -/
structure Coherent (pgd : Nat) (s : Mmu) : Prop where
  ledger : Ledger s.mem pgd
  plain : Plain s.mem pgd
  itb : Reflects s.mem pgd s.itb
  dtb : Reflects s.mem pgd s.dtb

/-- Addresses that are read or given back have 48 bits, and the sequence numbers do not wrap around. -/
def Fits : Op → Mmu → Prop
  | .assign .., _ => True
  | .free addr, _ => addr < 281474976710656
  | .access _ va, s => va.toNat < 281474976710656 ∧ s.itb.lruSeq + 2 < Tlb.seqRange ∧ s.dtb.lruSeq + 2 < Tlb.seqRange

section
variable {alloc : Allocator} {pgd : Nat} {s s' : Mmu} {op : Op} {r : Reply} {a : Access} {va : BitVec 64}

theorem Coherent.demap (h : Coherent pgd s) (va : BitVec 64) : ∃ s', s.demap va = some s' ∧ Coherent pgd s' := by
  obtain ⟨itb, hitb, used, htracks, hpos, hall⟩ := h.itb.demapPage va
  obtain ⟨dtb, hdtb, used', htracks', hpos', hall'⟩ := h.dtb.demapPage va
  have hrun : s.demap va = some {s with itb := itb, dtb := dtb} := by
    simp only [Mmu.demap, hitb, hdtb, Option.bind_some, Option.map_some]
  exact ⟨_, hrun, h.ledger, h.plain, ⟨used, htracks, hpos, fun p hp => (hall p hp).1⟩,
    ⟨used', htracks', hpos', fun p hp => (hall' p hp).1⟩⟩

/-- An access, before a fault is delivered. -/
theorem Coherent.lookUp (h : Coherent pgd s) (hva : Fits (.access a va) s) :
    ∃ s', s.lookUp a pgd va = some (direct a pgd va s.mem, s') ∧ Coherent pgd s' := by
  obtain ⟨hlow, hi, hd⟩ := hva
  simp only [Mmu.lookUp]
  split
  · obtain ⟨t', m', htr, hm', hreflects⟩ := translate_direct (a := a) h.plain h.itb hlow hi
    rw [htr]
    exact ⟨_, rfl, hm'.ledger h.ledger, hm'.plain h.plain, hreflects, h.dtb.stamped hm'⟩
  · obtain ⟨t', m', htr, hm', hreflects⟩ := translate_direct (a := a) h.plain h.dtb hlow hd
    rw [htr]
    exact ⟨_, rfl, hm'.ledger h.ledger, hm'.plain h.plain, h.itb.stamped hm', hreflects⟩

/-- An access comes back with what the tables say. -/
theorem Coherent.access (h : Coherent pgd s) (hva : Fits (.access a va) s) :
    ∃ s', step alloc pgd (.access a va) s = some (.translated (direct a pgd va s.mem), s') ∧ Coherent pgd s' := by
  obtain ⟨s₁, hlookUp, h₁⟩ := h.lookUp hva
  simp only [Mmu.step, hlookUp, Option.bind_some]
  cases direct a pgd va s.mem with
  | paddr x => exact ⟨s₁, rfl, h₁⟩
  | fault present =>
    obtain ⟨s₂, hdemap, h₂⟩ := h₁.demap va
    exact ⟨s₂, by simp only [hdemap, Option.map_some], h₂⟩

/-- Both TLBs after the page was given back. -/
theorem Coherent.free {addr : Nat} (h : Coherent pgd s) (haddr : addr < 281474976710656)
    (hst : step alloc pgd (.free addr) s = some (r, s')) : Coherent pgd s' := by
  have hfree := @freeDataPage_spec s.mem pgd addr h.ledger.tree.tree
  have hledger := hfree.ledger h.ledger
  have hplain := FreePage.plain hfree h.plain
  simp only [Mmu.step] at hst
  split at hst
  · rename_i hinvalid
    cases hst
    -- nothing is cached of a page that is not mapped
    have hshow : ∀ p, Shows s.mem pgd p → Shows (freeDataPage addr pgd s.mem) pgd p := by
      intro p hp
      obtain ⟨g, hg, -⟩ := hp.granted
      refine hp.of_grant (grant_of_walk (hfree.walk fun hpath => walk_of_grant hg ?_))
      rw [Memory.walk, hpath]
      exact invalid_iff.mp hinvalid
    exact ⟨hledger, hplain, h.itb.mono hshow, h.dtb.mono hshow⟩
  · obtain ⟨s₁, hdemap, heq⟩ := Option.map_eq_some_iff.mp hst
    obtain ⟨-, rfl⟩ := Prod.mk.inj heq
    obtain ⟨itb, hitb, used, htracks, hpos, hall⟩ := h.itb.demapPage (BitVec.ofNat 64 addr)
    obtain ⟨dtb, hdtb, used', htracks', hpos', hall'⟩ := h.dtb.demapPage (BitVec.ofNat 64 addr)
    simp only [Mmu.demap, hitb, hdtb, Option.bind_some, Option.map_some, Option.some.injEq] at hdemap
    subst hdemap
    refine ⟨hledger, hplain, ⟨used, htracks, hpos, fun p hp => ?_⟩, ⟨used', htracks', hpos', fun p hp => ?_⟩⟩
    · exact (hall p hp).1.free (htracks.pages_aligned hp) hfree haddr (hall p hp).2
    · exact (hall' p hp).1.free (htracks'.pages_aligned hp) hfree haddr (hall' p hp).2

/-- **Every step keeps the TLBs coherent.** -/
theorem Coherent.step (h : Coherent pgd s) (hst : Mmu.step alloc pgd op s = some (r, s')) (hop : Fits op s) :
    Coherent pgd s' := by
  cases op with
  | assign addr flags =>
    obtain ⟨m, hm, heq⟩ := Option.map_eq_some_iff.mp hst
    obtain ⟨-, rfl⟩ := Prod.mk.inj heq
    obtain ⟨-, hgrows, -⟩ := assignPage_spec h.ledger.tree (Spare.zero pgd s.mem) hm
    exact ⟨hgrows.ledger h.ledger, Grows.plain hgrows h.plain, h.itb.mono fun p hp => hp.grows hgrows,
      h.dtb.mono fun p hp => hp.grows hgrows⟩
  | free addr => exact h.free hop hst
  | access a va =>
    obtain ⟨s₁, hst₁, h₁⟩ := @Coherent.access alloc pgd s a va h hop
    rw [hst₁] at hst
    cases hst
    exact h₁

end

end Mmu

end CS330.Gem5
