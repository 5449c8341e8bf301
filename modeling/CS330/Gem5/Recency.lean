import Mathlib.Data.List.Nodup
import CS330.Gem5.Updates
import CS330.Spec.LruPages

/-! The entries in use, in the order of their last use.

`Tracks` ties the array, the free list, the trie and the sequence numbers of a TLB to such a list:
each entry is in the list or free, the trie holds the entries of the list under their pages, and the
sequence numbers fall along it. All pages have 4 KB. -/
namespace CS330.Gem5.Tlb
open TopBits Node

/-- Where the trie holds a page. -/
def pageHandle (vpn : BitVec 64) : Handle 64 := (vpn, mask 64 52)

structure Tracks (t : Tlb) (used : List Nat) : Prop where
  whole : t.trie.Whole
  holds : ∀ h i, t.trie.Holds h i ↔ i ∈ used ∧ h = pageHandle (t.tlb i).vaddr
  handle : ∀ i ∈ used, (t.tlb i).trieHandle = some (pageHandle (t.tlb i).vaddr)
  aligned : ∀ i ∈ used, pageOf (t.tlb i).vaddr = (t.tlb i).vaddr
  unused : ∀ i, i ∉ used → (t.tlb i).trieHandle = none
  perm : (used ++ t.freeList).Perm (List.range t.size)
  sorted : used.Pairwise fun i j => (t.tlb j).lruSeq < (t.tlb i).lruSeq
  bound : ∀ i ∈ used, (t.tlb i).lruSeq ≤ t.lruSeq

section
variable {t t' : Tlb} {used : List Nat} {i j : Nat} {va vpn : BitVec 64} {entry : Page}

theorem Tracks.nodup (h : Tracks t used) : (used ++ t.freeList).Nodup := h.perm.nodup_iff.mpr List.nodup_range

theorem Tracks.nodup_used (h : Tracks t used) : used.Nodup := h.nodup.of_append_left

theorem Tracks.length (h : Tracks t used) : used.length + t.freeList.length = t.size := by
  rw [← List.length_append, h.perm.length_eq, List.length_range]

theorem Tracks.lt (h : Tracks t used) (hi : i ∈ used) : i < t.size :=
  List.mem_range.mp (h.perm.mem_iff.mp (List.mem_append_left _ hi))

/-- No page is in two entries. -/
theorem Tracks.inj (h : Tracks t used) (hi : i ∈ used) (hj : j ∈ used) (he : (t.tlb i).vaddr = (t.tlb j).vaddr) :
    i = j := by
  have hi' := h.whole.valueAt_iff.mpr ((h.holds (pageHandle (t.tlb i).vaddr) i).mpr ⟨hi, rfl⟩)
  have hj' := h.whole.valueAt_iff.mpr ((h.holds (pageHandle (t.tlb i).vaddr) j).mpr ⟨hj, by rw [he]⟩)
  rw [hi'] at hj'
  exact Option.some.inj hj'

/-- The trie finds the entry of an address' page. -/
theorem Tracks.lookup_iff (h : Tracks t used) : t.trie.lookup va = some i ↔ i ∈ used ∧ (t.tlb i).vaddr = pageOf va := by
  have hfinds := h.whole.finds va
  have hcovers : ∀ h' j, t.trie.Holds h' j → (Covers h' va ↔ (t.tlb j).vaddr = pageOf va) := by
    intro h' j hh
    obtain ⟨-, rfl⟩ := (h.holds h' j).mp hh
    exact eq_comm
  rw [Node.lookup]
  match hr : t.trie.lookupNode va with
  | some (h', j) =>
    rw [hr] at hfinds
    obtain ⟨hh, hc, -⟩ := hfinds
    have hj := ((h.holds h' j).mp hh).1
    have hva := (hcovers h' j hh).mp hc
    simp only [Option.map_some, Option.some.injEq]
    constructor
    · rintro rfl
      exact ⟨hj, hva⟩
    · intro ⟨hi, he⟩
      exact h.inj hj hi (hva.trans he.symm)
  | none =>
    rw [hr] at hfinds
    simp only [Option.map_none, reduceCtorEq, false_iff]
    intro ⟨hi, he⟩
    have hh := (h.holds _ i).mpr ⟨hi, rfl⟩
    exact hfinds _ i hh ((hcovers _ i hh).mpr he)

theorem Tracks.lookup_none (h : Tracks t used) (hnone : t.trie.lookup va = none) (hi : i ∈ used) :
    (t.tlb i).vaddr ≠ pageOf va := by
  intro he
  rw [h.lookup_iff.mpr ⟨hi, he⟩] at hnone
  cases hnone

/-! ### The pages -/

/-- The pages that are cached, the last used first. -/
def pages (t : Tlb) (used : List Nat) : List Page := used.map t.page

theorem Tracks.find_some (h : Tracks t used) (hr : t.trie.lookup va = some i) :
    LruPages.find (pageOf va) (pages t used) = some (t.page i) := by
  obtain ⟨hi, he⟩ := h.lookup_iff.mp hr
  match hf : LruPages.find (pageOf va) (pages t used) with
  | some p =>
    obtain ⟨j, hj, rfl⟩ := List.mem_map.mp (List.mem_of_find?_eq_some hf)
    have hva : (t.tlb j).vaddr = pageOf va := by simpa [page] using List.find?_some hf
    rw [h.inj hj hi (hva.trans he.symm)]
  | none =>
    have hno := List.find?_eq_none.mp hf (t.page i) (List.mem_map_of_mem hi)
    exact absurd (beq_iff_eq.mpr he) hno

theorem Tracks.find_none (h : Tracks t used) (hr : t.trie.lookup va = none) :
    LruPages.find (pageOf va) (pages t used) = none := by
  apply List.find?_eq_none.mpr
  intro p hp hva
  obtain ⟨j, hj, rfl⟩ := List.mem_map.mp hp
  exact h.lookup_none hr hj (beq_iff_eq.mp hva)

theorem Tracks.without (h : Tracks t used) (hi : i ∈ used) :
    LruPages.without (t.tlb i).vaddr (pages t used) = pages t (used.filter (· != i)) := by
  rw [LruPages.without, pages, List.filter_map, pages]
  congr 1
  apply List.filter_congr
  intro j hj
  rw [Bool.eq_iff_iff]
  simp only [Function.comp_apply, bne_iff_ne, page]
  exact not_congr ⟨fun he => h.inj hj hi he, fun he => by rw [he]⟩

/-! ### Releasing an entry -/

theorem Tracks.perm_release (h : Tracks t used) (hi : i ∈ used) :
    (used.filter (· != i) ++ (t.freeList ++ [i])).Perm (List.range t.size) := by
  rw [← h.nodup_used.erase_eq_filter]
  have hcons : (used.erase i ++ (t.freeList ++ [i])).Perm (used ++ t.freeList) := by
    rw [← List.append_assoc]
    refine (List.perm_append_comm).trans ?_
    exact ((List.perm_cons_erase hi).symm.append_right t.freeList)
  exact hcons.trans h.perm

theorem Tracks.giveBack (h : Tracks t used) (hi : i ∈ used) {trie : Node 64 Nat} (hwhole : trie.Whole)
    (hholds : ∀ h' j, trie.Holds h' j ↔ t.trie.Holds h' j ∧ h' ≠ pageHandle (t.tlb i).vaddr) :
    Tracks (t.giveBack i trie) (used.filter (· != i)) := by
  have hmem : ∀ j, j ∈ used.filter (· != i) ↔ j ∈ used ∧ j ≠ i := by simp
  refine ⟨hwhole, fun h' j => ?_, fun j hj => ?_, fun j hj => ?_, fun j hj => ?_, h.perm_release hi, ?_, fun j hj => ?_⟩
  · refine (hholds h' j).trans ?_
    rw [h.holds, hmem]
    by_cases hji : j = i
    · subst hji
      simp
    · rw [giveBack_other hji]
      have hne : j ∈ used → pageHandle (t.tlb j).vaddr ≠ pageHandle (t.tlb i).vaddr := fun hj he' =>
        hji (h.inj hj hi (congrArg Prod.fst he'))
      grind
  · obtain ⟨hju, hji⟩ := (hmem j).mp hj
    rw [giveBack_other hji]
    exact h.handle j hju
  · obtain ⟨hju, hji⟩ := (hmem j).mp hj
    rw [giveBack_other hji]
    exact h.aligned j hju
  · by_cases hji : j = i
    · subst hji
      simp
    · rw [giveBack_other hji]
      exact h.unused j fun hju => hj ((hmem j).mpr ⟨hju, hji⟩)
  · refine (h.sorted.filter _).imp_of_mem fun {a b} ha hb hlt => ?_
    rw [giveBack_other ((hmem a).mp ha).2, giveBack_other ((hmem b).mp hb).2]
    exact hlt
  · obtain ⟨hju, hji⟩ := (hmem j).mp hj
    rw [giveBack_other hji]
    exact h.bound j hju

theorem Tracks.release (h : Tracks t used) (hi : i ∈ used) :
    ∃ t', t.release i = some t' ∧ Tracks t' (used.filter (· != i)) ∧
      t'.page = t.page ∧ t'.size = t.size ∧ t'.lruSeq = t.lruSeq := by
  obtain ⟨trie, he, hwhole, hholds⟩ := h.whole.remove ((h.holds _ i).mpr ⟨hi, rfl⟩)
  refine ⟨t.giveBack i trie, ?_, h.giveBack hi hwhole hholds, giveBack_page, rfl, rfl⟩
  simp only [Tlb.release, h.handle i hi, he, Option.map_some]

/-! ### Eviction -/

/-- The scan for the lowest sequence number. -/
theorem scan_min (f : Nat → Nat) (l : List Nat) (a : Nat) :
    l.foldl (fun lru i => if f i < f lru then i else lru) a ∈ a :: l ∧
      ∀ i ∈ a :: l, f (l.foldl (fun lru i => if f i < f lru then i else lru) a) ≤ f i := by
  induction l generalizing a with
  | nil => simp
  | cons b l ih =>
    simp only [List.foldl_cons]
    split
    · rename_i hlt
      obtain ⟨hmem, hmin⟩ := ih b
      refine ⟨List.mem_cons_of_mem a hmem, fun i hi => ?_⟩
      rcases List.mem_cons.mp hi with rfl | hi
      · exact Nat.le_trans (hmin b (List.mem_cons_self ..)) (Nat.le_of_lt hlt)
      · exact hmin i hi
    · rename_i hle
      obtain ⟨hmem, hmin⟩ := ih a
      refine ⟨?_, fun i hi => ?_⟩
      · rcases List.mem_cons.mp hmem with h | h
        · exact List.mem_cons.mpr (.inl h)
        · exact List.mem_cons_of_mem a (List.mem_cons_of_mem b h)
      · rcases List.mem_cons.mp hi with rfl | hi
        · exact hmin i (List.mem_cons_self ..)
        · rcases List.mem_cons.mp hi with rfl | hi
          · exact Nat.le_trans (hmin a (List.mem_cons_self ..)) (Nat.le_of_not_lt hle)
          · exact hmin i (List.mem_cons_of_mem a hi)

theorem lru_spec (hpos : 0 < t.size) : t.lru < t.size ∧ ∀ i < t.size, (t.tlb t.lru).lruSeq ≤ (t.tlb i).lruSeq := by
  have hscan := scan_min (fun i => (t.tlb i).lruSeq) (List.range' 1 (t.size - 1)) 0
  have hrange : ∀ i, i ∈ 0 :: List.range' 1 (t.size - 1) ↔ i < t.size := by
    intro i
    simp only [List.mem_cons, List.mem_range'_1]
    omega
  exact ⟨(hrange _).mp hscan.1, fun i hi => hscan.2 i ((hrange i).mpr hi)⟩

/-- A full TLB gives up the page used the longest time ago. -/
theorem Tracks.evictLRU (h : Tracks t used) (hpos : 0 < t.size) (hfull : t.freeList = []) :
    ∃ t', t.evictLRU = some t' ∧ Tracks t' used.dropLast ∧ t'.page = t.page ∧ t'.size = t.size ∧
      t'.lruSeq = t.lruSeq := by
  have hall : ∀ i, i ∈ used ↔ i < t.size := by
    intro i
    rw [← List.mem_range, ← h.perm.mem_iff, hfull, List.append_nil]
  obtain ⟨hlt, hmin⟩ := lru_spec hpos
  have hne : used ≠ [] := List.ne_nil_of_mem ((hall t.lru).mpr hlt)
  have hsplit := List.dropLast_append_getLast hne
  have hlast : t.lru = used.getLast hne := by
    have hmem := (hall t.lru).mpr hlt
    have hsorted := h.sorted
    rw [← hsplit] at hmem hsorted
    rcases List.mem_append.mp hmem with hin | hin
    · have hless := (List.pairwise_append.mp hsorted).2.2 _ hin _ (List.mem_singleton_self _)
      have := hmin _ ((hall _).mp (List.getLast_mem hne))
      omega
    · exact List.mem_singleton.mp hin
  have hdrop : used.filter (· != t.lru) = used.dropLast := by
    rw [← h.nodup_used.erase_eq_filter, hlast]
    have hnodup := h.nodup_used
    rw [← hsplit] at hnodup
    have hnot : used.getLast hne ∉ used.dropLast := fun hin =>
      (List.nodup_append.mp hnodup).2.2 _ hin _ (List.mem_singleton_self _) rfl
    nth_rewrite 1 [← hsplit]
    rw [List.erase_append_right _ hnot, List.erase_cons_head, List.append_nil]
  rw [← hdrop]
  exact h.release ((hall t.lru).mpr hlt)

/-! ### Filling an entry -/

theorem nextSeq_eq (hseq : t.lruSeq + 1 < seqRange) : t.nextSeq = t.lruSeq + 1 := Nat.mod_eq_of_lt hseq

theorem Tracks.occupy (h : Tracks t used) {rest : List Nat} (hfree : t.freeList = i :: rest)
    (hseq : t.lruSeq + 1 < seqRange) {p : Page} (hp : pageOf p.vaddr = p.vaddr) {trie : Node 64 Nat} (hwhole : trie.Whole)
    (hholds : ∀ h' j, trie.Holds h' j ↔ (pageHandle p.vaddr = h' ∧ i = j) ∨ t.trie.Holds h' j) :
    Tracks (t.occupy i rest p (pageHandle p.vaddr) trie) (i :: used) := by
  have hnot : i ∉ used := by
    have hnodup := h.nodup
    rw [hfree] at hnodup
    exact fun hi => (List.nodup_append.mp hnodup).2.2 i hi i (List.mem_cons_self ..) rfl
  have hne : ∀ {j}, j ∈ used → j ≠ i := fun hj he => hnot (he ▸ hj)
  refine ⟨hwhole, fun h' j => ?_, fun j hj => ?_, fun j hj => ?_, fun j hj => ?_, ?_, ?_, fun j hj => ?_⟩
  · refine (hholds h' j).trans ?_
    rw [h.holds, List.mem_cons]
    by_cases hji : j = i
    · subst hji
      simp [hnot, eq_comm]
    · rw [occupy_other hji]
      grind
  · rcases List.mem_cons.mp hj with rfl | hju
    · simp
    · rw [occupy_other (hne hju)]
      exact h.handle j hju
  · rcases List.mem_cons.mp hj with rfl | hju
    · simpa using hp
    · rw [occupy_other (hne hju)]
      exact h.aligned j hju
  · rw [List.mem_cons, not_or] at hj
    rw [occupy_other hj.1]
    exact h.unused j hj.2
  · refine List.Perm.trans ?_ h.perm
    rw [hfree]
    exact List.perm_middle.symm
  · refine List.pairwise_cons.mpr ⟨fun j hj => ?_, h.sorted.imp_of_mem fun {a b} ha hb hlt => ?_⟩
    · rw [occupy_other (hne hj), occupy_self]
      have := h.bound j hj
      show _ < t.nextSeq
      rw [nextSeq_eq hseq]
      omega
    · rw [occupy_other (hne ha), occupy_other (hne hb)]
      exact hlt
  · show _ ≤ t.nextSeq
    rcases List.mem_cons.mp hj with rfl | hju
    · simp
    · rw [occupy_other (hne hju), nextSeq_eq hseq]
      have := h.bound j hju
      omega

/-- A page that is not cached takes a free entry. -/
theorem Tracks.fill (h : Tracks t used) (hfree : t.freeList ≠ []) (hseq : t.lruSeq + 1 < seqRange)
    (hvpn : pageOf vpn = vpn) (hlog : entry.logBytes = 12) (hnone : t.trie.lookup vpn = none) :
    ∃ i t', t.fill vpn entry = some (i, t') ∧ Tracks t' (i :: used) ∧ t'.page i = {entry with vaddr := vpn} ∧
      pages t' used = pages t used ∧ t'.size = t.size ∧ t'.lruSeq = t.lruSeq + 1 := by
  obtain ⟨i, rest, hlist⟩ := List.exists_cons_of_ne_nil hfree
  have habsent : ∀ j, ¬ t.trie.Holds (vpn &&& mask 64 52, mask 64 52) j := by
    intro j hh
    obtain ⟨hj, he⟩ := (h.holds _ j).mp hh
    exact h.lookup_none hnone hj (congrArg Prod.fst he).symm
  obtain ⟨trie, hins, hwhole, hholds⟩ := h.whole.insert i (by decide) (show 0 < 52 by decide) vpn habsent
  have hhandle : (vpn &&& mask 64 52, mask 64 52) = pageHandle vpn := congrArg (·, mask 64 52) hvpn
  rw [hhandle] at hins hholds
  have htracks := @Tracks.occupy t used i h rest hlist hseq {entry with vaddr := vpn} hvpn trie hwhole hholds
  refine ⟨i, _, ?_, htracks, ?_, ?_, rfl, nextSeq_eq hseq⟩
  · simp only [Tlb.fill, hlist, hlog, hins, Option.map_some]
  · simp [page]
  · apply List.map_congr_left
    intro j hj
    have hji : j ≠ i := fun he => (List.nodup_cons.mp htracks.nodup_used).1 (he ▸ hj)
    simp only [page, occupy_other hji]

/-! ### Using an entry -/

theorem Tracks.touch (h : Tracks t used) (hi : i ∈ used) (hseq : t.lruSeq + 1 < seqRange) :
    Tracks (t.touch i) (i :: used.filter (· != i)) := by
  have hmem : ∀ j, j ∈ used.filter (· != i) ↔ j ∈ used ∧ j ≠ i := by simp
  have hmem' : ∀ j, j ∈ i :: used.filter (· != i) ↔ j ∈ used := by
    intro j
    rw [List.mem_cons, hmem]
    grind
  have hpage : ∀ j, ((t.touch i).tlb j).vaddr = (t.tlb j).vaddr := fun j => congrArg Page.vaddr (congrFun touch_page j)
  have hhandle : ∀ j, ((t.touch i).tlb j).trieHandle = (t.tlb j).trieHandle := by
    intro j
    by_cases hji : j = i
    · subst hji
      simp
    · rw [touch_other hji]
  refine ⟨h.whole, fun h' j => ?_, fun j hj => ?_, fun j hj => ?_, fun j hj => ?_, ?_, ?_, fun j hj => ?_⟩
  · rw [hmem', hpage]
    exact h.holds h' j
  · rw [hhandle, hpage]
    exact h.handle j ((hmem' j).mp hj)
  · rw [hpage]
    exact h.aligned j ((hmem' j).mp hj)
  · rw [hhandle]
    exact h.unused j fun hju => hj ((hmem' j).mpr hju)
  · rw [← h.nodup_used.erase_eq_filter]
    exact ((List.perm_cons_erase hi).symm.append_right t.freeList).trans h.perm
  · refine List.pairwise_cons.mpr ⟨fun j hj => ?_, (h.sorted.filter _).imp_of_mem fun {a b} ha hb hlt => ?_⟩
    · rw [touch_other ((hmem j).mp hj).2, touch_self]
      have := h.bound j ((hmem j).mp hj).1
      show _ < t.nextSeq
      rw [nextSeq_eq hseq]
      omega
    · rw [touch_other ((hmem a).mp ha).2, touch_other ((hmem b).mp hb).2]
      exact hlt
  · show _ ≤ t.nextSeq
    by_cases hji : j = i
    · subst hji
      simp
    · rw [touch_other hji, nextSeq_eq hseq]
      have := h.bound j ((hmem' j).mp hj)
      omega

/-! ### Flushing -/

/-- The loop over some of the entries. -/
theorem Tracks.flushLoop (which : Page → Bool) (l : List Nat) (h : Tracks t used) :
    ∃ t', t.flushLoop which l = some t' ∧ Tracks t' (used.filter fun i => !(l.contains i && which (t.page i))) ∧
      t'.page = t.page ∧ t'.size = t.size ∧ t'.lruSeq = t.lruSeq := by
  induction l generalizing t used with
  | nil =>
    refine ⟨t, rfl, ?_, rfl, rfl, rfl⟩
    simpa using h
  | cons i rest ih =>
    simp only [Tlb.flushLoop]
    split
    · rename_i hflush
      rw [Bool.and_eq_true] at hflush
      have hi : i ∈ used := Decidable.not_not.mp fun hno => by simp [h.unused i hno] at hflush
      obtain ⟨t₁, hrel, htracks, hpage, hsize, hseq⟩ := h.release hi
      obtain ⟨t', hrest, htracks', hpage', hsize', hseq'⟩ := ih htracks
      refine ⟨t', by rw [hrel]; exact hrest, ?_, hpage'.trans hpage, hsize'.trans hsize, hseq'.trans hseq⟩
      have hlist : (used.filter (· != i)).filter (fun j => !(rest.contains j && which (t₁.page j))) =
          used.filter fun j => !((i :: rest).contains j && which (t.page j)) := by
        rw [List.filter_filter, hpage]
        apply List.filter_congr
        intro j _
        by_cases hji : j = i
        · subst hji
          simpa [page] using hflush.2
        · simp [hji]
      rw [← hlist]
      exact htracks'
    · rename_i hkeep
      obtain ⟨t', hrest, htracks', hsame⟩ := ih h
      refine ⟨t', hrest, ?_, hsame⟩
      have hlist : used.filter (fun j => !(rest.contains j && which (t.page j))) =
          used.filter fun j => !((i :: rest).contains j && which (t.page j)) := by
        apply List.filter_congr
        intro j hj
        by_cases hji : j = i
        · subst hji
          have hno : which (t.page j) = false := by
            simpa [h.handle j hj, page] using hkeep
          simp [hno]
        · simp [hji]
      rw [← hlist]
      exact htracks'

end

end CS330.Gem5.Tlb
