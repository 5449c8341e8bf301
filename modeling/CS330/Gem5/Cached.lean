import CS330.Gem5.Recency

/-! The operations of the TLB on the pages it caches.

One operation of the TLB does to its entries what it does to the list of cached pages, and no
assertion on the way fails. -/
namespace CS330.Gem5.Tlb
open TopBits

variable {t : Tlb} {used : List Nat}

theorem new_tracks (size : Nat) : Tracks (new size) [] where
  whole := Node.head_whole
  holds h i := iff_of_false Node.not_holds_head (by simp)
  handle i hi := absurd hi (List.not_mem_nil)
  aligned i hi := absurd hi (List.not_mem_nil)
  unused i _ := rfl
  perm := List.Perm.refl _
  sorted := List.Pairwise.nil
  bound i hi := absurd hi (List.not_mem_nil)

/-- What an operation leaves and returns, against the list of pages. -/
def Agrees (op : Op) (t : Tlb) (used : List Nat) : Prop :=
  ∃ r t' used', step op t = some (r, t') ∧ Tracks t' used' ∧ t'.size = t.size ∧ t'.lruSeq ≤ t.lruSeq + 1 ∧
    LruPages.step t.size op (pages t used) = (r, pages t' used')

/-! ### Inserting -/

section Insert
variable {vpn : BitVec 64} {entry : Page}

/-- Somebody beat us to it. -/
theorem Tracks.insert_hit {i : Nat} (h : Tracks t used) (hvpn : pageOf vpn = vpn) (hr : t.trie.lookup vpn = some i) :
    Agrees (.insert vpn entry) t used := by
  have hva : (t.tlb i).vaddr = vpn := (h.lookup_iff.mp hr).2.trans hvpn
  have hfind := h.find_some hr
  rw [hvpn] at hfind
  refine ⟨.entry (some (t.page i)), t, used, ?_, h, rfl, Nat.le_succ _, ?_⟩
  · simp only [step, Tlb.insert, hr, hva, if_true, Option.map_some]
  · simp only [LruPages.step, LruPages.insert, hfind]

/-- There is a free entry. -/
theorem Tracks.insert_room (h : Tracks t used) (hseq : t.lruSeq + 1 < seqRange) (hvpn : pageOf vpn = vpn)
    (hlog : entry.logBytes = 12) (hr : t.trie.lookup vpn = none) (hroom : t.freeList ≠ []) :
    Agrees (.insert vpn entry) t used := by
  have hfind := h.find_none hr
  rw [hvpn] at hfind
  obtain ⟨i, t', hfill, h', hp, hpages, hsize, hseq'⟩ := h.fill hroom hseq hvpn hlog hr
  have hused : (pages t used).length ≠ t.size := by
    have hlen := h.length
    have := List.length_pos_iff.mpr hroom
    rw [pages, List.length_map]
    omega
  refine ⟨.entry (some (t'.page i)), t', _, ?_, h', hsize, by omega, ?_⟩
  · simp only [step, Tlb.insert, hr, List.isEmpty_eq_false_iff.mpr hroom, Bool.false_eq_true, if_false,
      Option.bind_some, hfill, Option.map_some]
  · simp only [LruPages.step, LruPages.insert, hfind, hused, if_false, ← hp]
    rw [← hpages]
    rfl

/-- The page used the longest time ago makes room. -/
theorem Tracks.insert_full (h : Tracks t used) (hpos : 0 < t.size) (hseq : t.lruSeq + 1 < seqRange)
    (hvpn : pageOf vpn = vpn) (hlog : entry.logBytes = 12) (hr : t.trie.lookup vpn = none) (hfull : t.freeList = []) :
    Agrees (.insert vpn entry) t used := by
  have hfind := h.find_none hr
  rw [hvpn] at hfind
  have hlen := h.length
  rw [hfull, List.length_nil, Nat.add_zero] at hlen
  obtain ⟨t₁, hevict, h₁, hpage, hsize, hseq₁⟩ := h.evictLRU hpos hfull
  have hroom : t₁.freeList ≠ [] := by
    intro hnil
    have hlen₁ := h₁.length
    rw [hnil, List.length_nil, List.length_dropLast, hsize] at hlen₁
    omega
  have hnone : t₁.trie.lookup vpn = none := by
    rw [Option.eq_none_iff_forall_ne_some]
    intro j hj
    obtain ⟨hmem, hva⟩ := h₁.lookup_iff.mp hj
    refine h.lookup_none hr (List.dropLast_subset used hmem) ?_
    rw [← hva]
    exact (congrArg Page.vaddr (congrFun hpage j)).symm
  obtain ⟨i, t', hfill, h', hp, hpages, hsize', hseq'⟩ := h₁.fill hroom (by omega) hvpn hlog hnone
  have hused : (pages t used).length = t.size := by rw [pages, List.length_map, hlen]
  have hrest : pages t' used.dropLast = (pages t used).dropLast := by
    rw [hpages, pages, hpage, pages, List.map_dropLast]
  refine ⟨.entry (some (t'.page i)), t', _, ?_, h', by omega, by omega, ?_⟩
  · simp only [step, Tlb.insert, hr, hfull, List.isEmpty_nil, if_true, hevict, Option.bind_some, hfill, Option.map_some]
  · simp only [LruPages.step, LruPages.insert, hfind, hused, if_true, ← hp, ← hrest]
    rfl

theorem Tracks.insert (h : Tracks t used) (hpos : 0 < t.size) (hseq : t.lruSeq + 1 < seqRange) (hvpn : pageOf vpn = vpn)
    (hlog : entry.logBytes = 12) : Agrees (.insert vpn entry) t used := by
  cases hr : t.trie.lookup vpn with
  | some i => exact h.insert_hit hvpn hr
  | none =>
    by_cases hfull : t.freeList = []
    · exact h.insert_full hpos hseq hvpn hlog hr hfull
    · exact h.insert_room hseq hvpn hlog hr hfull

end Insert

/-! ### Looking up and giving up -/

theorem Tracks.lookup (h : Tracks t used) (hseq : t.lruSeq + 1 < seqRange) (va : BitVec 64) (update : Bool) :
    Agrees (.lookup va update) t used := by
  cases hr : t.trie.lookup va with
  | none =>
    refine ⟨.entry none, t, used, by simp only [step, Tlb.lookup, hr]; rfl, h, rfl, Nat.le_succ _, ?_⟩
    simp only [LruPages.step, LruPages.lookup, h.find_none hr]
  | some i =>
    obtain ⟨hi, hva⟩ := h.lookup_iff.mp hr
    cases update with
    | false =>
      refine ⟨.entry (some (t.page i)), t, used, ?_, h, rfl, Nat.le_succ _, ?_⟩
      · simp only [step, Tlb.lookup, hr, Bool.false_eq_true, if_false, Option.map_some]

      · simp only [LruPages.step, LruPages.lookup, h.find_some hr, Bool.false_eq_true, if_false]
    | true =>
      refine ⟨.entry (some (t.page i)), t.touch i, _, ?_, h.touch hi hseq, rfl, Nat.le_of_eq (nextSeq_eq hseq), ?_⟩
      · simp only [step, Tlb.lookup, hr, if_true, Option.map_some, touch_page]
      · have hwithout := h.without hi
        rw [hva] at hwithout
        simp only [LruPages.step, LruPages.lookup, h.find_some hr, if_true, hwithout]
        simp only [pages, touch_page, List.map_cons]

theorem Tracks.demapPage (h : Tracks t used) (va : BitVec 64) : Agrees (.demapPage va) t used := by
  cases hr : t.trie.lookup va with
  | none =>
    refine ⟨.done, t, used, by simp only [step, Tlb.demapPage, hr]; rfl, h, rfl, Nat.le_succ _, ?_⟩
    simp only [LruPages.step, LruPages.without]
    congr 1
    apply List.filter_eq_self.mpr
    intro p hp
    obtain ⟨j, hj, rfl⟩ := List.mem_map.mp hp
    exact bne_iff_ne.mpr (h.lookup_none hr hj)
  | some i =>
    obtain ⟨hi, hva⟩ := h.lookup_iff.mp hr
    obtain ⟨t', hrel, h', hpage, hsize, hseq⟩ := h.release hi
    refine ⟨.done, t', _, by simp only [step, Tlb.demapPage, hr, hrel]; rfl, h', hsize, by omega, ?_⟩
    have hwithout := h.without hi
    rw [hva] at hwithout
    simp only [LruPages.step, hwithout]
    simp only [pages, hpage]

/-- A flush that keeps some pages. -/
theorem Tracks.flush (h : Tracks t used) (which : Page → Bool) :
    ∃ t' used', t.flushLoop which (List.range t.size) = some t' ∧ Tracks t' used' ∧ t'.size = t.size ∧
      t'.lruSeq = t.lruSeq ∧ pages t' used' = (pages t used).filter fun page => !which page := by
  obtain ⟨t', hflush, h', hpage, hsize, hseq⟩ := h.flushLoop which (List.range t.size)
  refine ⟨t', _, hflush, h', hsize, hseq, ?_⟩
  rw [pages, pages, hpage, List.filter_map]
  congr 1
  apply List.filter_congr
  intro i hi
  have hmem : (List.range t.size).contains i = true := by simpa using h.lt hi
  rw [hmem, Bool.true_and]
  rfl

end CS330.Gem5.Tlb
