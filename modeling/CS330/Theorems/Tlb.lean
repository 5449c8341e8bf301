import CS330.Lib.Machine
import CS330.Gem5.Cached

/-! The TLB caches the pages used last.

Each operation of the TLB agrees with the list of cached pages, so that a run of the TLB answers as the
list does. -/
namespace CS330.Gem5.Tlb
open Machine TopBits

variable {t : Tlb} {used : List Nat}

/-- The page walker inserts pages of 4 KB under their first address. -/
def Op.Small : Op → Prop
  | .insert vpn entry => pageOf vpn = vpn ∧ entry.logBytes = 12
  | _ => True

instance (op : Op) : Decidable op.Small := match op with
  | .insert vpn entry => inferInstanceAs (Decidable (pageOf vpn = vpn ∧ entry.logBytes = 12))
  | .lookup .. | .demapPage _ | .flushAll | .flushNonGlobal => .isTrue trivial

theorem Tracks.step {op : Op} (h : Tracks t used) (hpos : 0 < t.size) (hseq : t.lruSeq + 1 < seqRange)
    (hop : op.Small) :
    Agrees op t used := by
  cases op with
  | insert vpn entry => exact h.insert hpos hseq hop.1 hop.2
  | lookup va update => exact h.lookup hseq va update
  | demapPage va => exact h.demapPage va
  | flushAll =>
    obtain ⟨t', used', hflush, h', hsize, hseq', hpages⟩ := h.flush fun _ => true
    refine ⟨.done, t', used', by simp only [Tlb.step, flushAll, hflush]; rfl, h', hsize, by omega, ?_⟩
    rw [hpages]
    simp [LruPages.step]
  | flushNonGlobal =>
    obtain ⟨t', used', hflush, h', hsize, hseq', hpages⟩ := h.flush fun page => !page.global
    refine ⟨.done, t', used', by simp only [Tlb.step, flushNonGlobal, hflush]; rfl, h', hsize, by omega, ?_⟩
    rw [hpages]
    simp [LruPages.step]

/-- A run, by induction on the operations that are left. -/
theorem Tracks.run {ops : List Op} (h : Tracks t used) (hpos : 0 < t.size) (hops : ∀ op ∈ ops, op.Small)
    (hlen : t.lruSeq + ops.length < seqRange) : ∃ replies t' used', runAll Tlb.step ops t = some (replies, t') ∧
      Tracks t' used' ∧ t'.size = t.size ∧
      runAll (fun op pages => some (LruPages.step t.size op pages)) ops (pages t used) =
        some (replies, pages t' used') := by
  induction ops generalizing t used with
  | nil => exact ⟨[], t, used, rfl, h, rfl, rfl⟩
  | cons op ops ih =>
    rw [List.length_cons] at hlen
    obtain ⟨r, t₁, used₁, hstep, h₁, hsize, hseq, hspec⟩ := h.step hpos (by omega) (hops op (List.mem_cons_self ..))
    obtain ⟨replies, t', used', hrun, h', hsize', hrest⟩ := ih h₁ (by omega)
      (fun op hop => hops op (List.mem_cons_of_mem _ hop)) (by omega)
    rw [hsize] at hrest
    exact ⟨r :: replies, t', used', runAll_cons.mpr ⟨r, t₁, replies, hstep, hrun, rfl⟩, h', hsize'.trans hsize,
      runAll_cons.mpr ⟨r, _, replies, by rw [hspec], hrest, rfl⟩⟩

/-- **The TLB caches the pages used last.** Whatever is inserted, looked up, demapped and flushed, in
any order, fewer than 2^64 times and with pages of 4 KB, no assertion of the TLB or of its trie fails, and
every answer is the one of a list of at most `size` pages in the order of their last use. -/
theorem tlb_is_lru {size : Nat} (hpos : 0 < size) {ops : List Op} (hops : ∀ op ∈ ops, op.Small)
    (hlen : ops.length < seqRange) :
    ∃ replies t pages, runAll step ops (new size) = some (replies, t) ∧
      runAll (fun op pages => some (LruPages.step size op pages)) ops [] = some (replies, pages) ∧
        pages.length ≤ size := by
  obtain ⟨replies, t, used, hrun, h, hsize, hspec⟩ := (new_tracks size).run hpos hops (by simpa [new] using hlen)
  refine ⟨replies, t, pages t used, hrun, hspec, ?_⟩
  have hlength := h.length
  rw [hsize] at hlength
  rw [pages, List.length_map]
  exact Nat.le_of_add_right_le (Nat.le_of_eq hlength)

/-- A page of user memory. -/
def userPage (vaddr paddr : BitVec 64) : Page := ⟨paddr, vaddr, 12, true, true, false, false, false, false⟩

/-- The first of two pages is used again before a third comes. -/
def threePages : List Op := [.insert 0x1000 (userPage 0 0x7000), .insert 0x2000 (userPage 0 0x8000),
  .lookup 0x1abc true, .insert 0x3000 (userPage 0 0x9000), .lookup 0x2000 true, .lookup 0x1000 true]

/-- With two entries, the second page has to go. -/
theorem tlb_is_lru_three : ∃ replies t pages, runAll step threePages (new 2) = some (replies, t) ∧
    runAll (fun op pages => some (LruPages.step 2 op pages)) threePages [] = some (replies, pages) ∧ pages.length ≤ 2 ∧
    replies[4]? = some (.entry none) ∧ replies[5]? = some (.entry (some (userPage 0x1000 0x7000))) := by
  obtain ⟨replies, t, pages, hrun, hspec, hlen⟩ := @tlb_is_lru 2 (by decide) threePages (by decide) (by decide)
  have hreplies : (runAll step threePages (new 2)).map (fun r => (r.1[4]?, r.1[5]?)) =
      some (some (.entry none), some (.entry (some (userPage 0x1000 0x7000)))) := by
    decide +kernel
  rw [hrun, Option.map_some, Option.some_inj, Prod.mk.injEq] at hreplies
  exact ⟨replies, t, pages, hrun, hspec, hlen, hreplies⟩

end CS330.Gem5.Tlb
