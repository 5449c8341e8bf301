import CS330.GemOS.Segments
import CS330.Lib.Machine

/-! Expand and shrink keep `next_free` inside its segment: when the shift wraps, and
when it does not.

Both calls test a 32-bit `size << 12`. `Fits` says when that test decides as the full
`size * 4096` would; a run does what it should, call by call, exactly when each of its
calls fits. -/
namespace CS330.GemOS.Lazy
open Machine

/-- The two segments that the calls move, within their bounds. -/
structure InBounds (s : State) : Prop where
  low : ∀ k, k = .rodata ∨ k = .data → 2 ^ 32 ≤ (s.seg k).start
  start_le : ∀ k, k = .rodata ∨ k = .data → (s.seg k).start ≤ (s.seg k).nextFree
  le_end : ∀ k, k = .rodata ∨ k = .data → (s.seg k).nextFree ≤ (s.seg k).end_
  high : ∀ k, k = .rodata ∨ k = .data → (s.seg k).end_ < 2 ^ 47

/-- An expand or shrink with a 32-bit size and flags `MAP_RD` or `MAP_WR`. -/
def Op.IsCall : Op → Prop
  | .expand size flags | .shrink size flags => size < 2 ^ 32 ∧ (flags = mapRd ∨ flags = mapWr)
  | .fault _ _ => False

/-- What a call is to do: move `next_free` by `size` pages or, if they are not there, nothing.
A shrink passes only pages of the segment to `free_data_page`. -/
def Expected : Op → State → Prop
  | .expand size flags, s => ∃ k, memorySegment flags = some k ∧
      if (s.seg k).end_ < (s.seg k).nextFree + size * 4096 then syscallExpand size flags s = some (0, s)
      else syscallExpand size flags s =
        some (((s.seg k).nextFree : Int), s.setNextFree k ((s.seg k).nextFree + size * 4096))
  | .shrink size flags, s => ∃ k, memorySegment flags = some k ∧
      if (s.seg k).nextFree < (s.seg k).start + size * 4096 then syscallShrink size flags s = some (0, s)
      else ∃ t, syscallShrink size flags s = some ((((s.seg k).nextFree - size * 4096 : Nat) : Int), t) ∧
        t.current = (s.setNextFree k ((s.seg k).nextFree - size * 4096)).current ∧
        ∀ a, .freePage a ∈ t.mem.log → .freePage a ∈ s.mem.log ∨
          (s.seg k).start ≤ a ∧ a + 4096 ≤ (s.seg k).nextFree
  | .fault _ _, _ => True

/-- The 32-bit shift decides as the full product: it does not wrap, or a wrapped expand is
refused all the same, or a wrapped shrink is refused or has its pages. -/
def Fits : Op → State → Prop
  | .expand size flags, s => ∀ k, memorySegment flags = some k →
      size < 2 ^ 20 ∨ (s.seg k).end_ < (s.seg k).nextFree + size * 4096 % 2 ^ 32
  | .shrink size flags, s => ∀ k, memorySegment flags = some k →
      (s.seg k).nextFree < (s.seg k).start + size * 4096 % 2 ^ 32 ∨
        (s.seg k).start + size * 4096 ≤ (s.seg k).nextFree
  | .fault _ _, _ => True

section
variable {s t : State} {k : MmSeg} {size flags : Nat}

theorem memorySegment_call (h : flags = mapRd ∨ flags = mapWr) :
    ∃ k, (k = .rodata ∨ k = .data) ∧ memorySegment flags = some k := by
  rcases h with rfl | rfl
  · exact ⟨.rodata, .inl rfl, rfl⟩
  · exact ⟨.data, .inr rfl, rfl⟩

theorem memorySegment_mod (h : flags = mapRd ∨ flags = mapWr) : flags % 2 ^ 32 = flags := by
  rcases h with rfl | rfl <;> rfl

theorem expected_expand (hs : InBounds s) (hk : k = .rodata ∨ k = .data)
    (hseg : memorySegment flags = some k) (hflags : flags % 2 ^ 32 = flags) (hsize : size < 2 ^ 32) :
    Expected (.expand size flags) s ↔
      size < 2 ^ 20 ∨ (s.seg k).end_ < (s.seg k).nextFree + size * 4096 % 2 ^ 32 := by
  have hlow := hs.low k hk
  have hstart := hs.start_le k hk
  have hend := hs.le_end k hk
  have hhigh := hs.high k hk
  have hcall := @syscallExpand_eq s k size flags size (by rw [hflags, hseg]) (Nat.mod_eq_of_lt hsize) (by omega)
  have hk' : ∀ P : MmSeg → Prop, (∃ k, memorySegment flags = some k ∧ P k) ↔ P k := by
    intro P
    simp [hseg]
  simp only [Expected, hk', hcall, shifted_eq]
  constructor
  · intro h
    by_contra hc
    push Not at hc
    have hw : size * 4096 % 2 ^ 32 ≠ size * 4096 := by omega
    rw [if_neg (show ¬ (s.seg k).end_ < (s.seg k).nextFree + size * 4096 % 2 ^ 32 by omega)] at h
    split at h
    · have hret := congrArg Prod.fst (Option.some.inj h)
      dsimp only at hret
      omega
    · have hmoved := congrArg (fun r => (r.2.seg k).nextFree) (Option.some.inj h)
      simp only [setNextFree_seg] at hmoved
      omega
  · intro h
    by_cases hsmall : size < 2 ^ 20
    · rw [show size * 4096 % 2 ^ 32 = size * 4096 by omega]
      split <;> rfl
    · have hrefused := h.resolve_left hsmall
      rw [if_pos hrefused, if_pos (by omega)]

theorem expected_shrink (hs : InBounds s) (hk : k = .rodata ∨ k = .data)
    (hseg : memorySegment flags = some k) (hflags : flags % 2 ^ 32 = flags) (hsize : size < 2 ^ 32) :
    Expected (.shrink size flags) s ↔ (s.seg k).nextFree < (s.seg k).start + size * 4096 % 2 ^ 32 ∨
      (s.seg k).start + size * 4096 ≤ (s.seg k).nextFree := by
  have hlow := hs.low k hk
  have hstart := hs.start_le k hk
  have hend := hs.le_end k hk
  have hhigh := hs.high k hk
  have hw := shifted_lt size
  have hcall := @syscallShrink_eq s k size flags size (by rw [hflags, hseg]) (Nat.mod_eq_of_lt hsize)
    (by omega) (by omega)
  clear hw
  have hk' : ∀ P : MmSeg → Prop, (∃ k, memorySegment flags = some k ∧ P k) ↔ P k := by
    intro P
    simp [hseg]
  simp only [Expected, hk', hcall, shifted_eq]
  constructor
  · intro h
    by_contra hc
    push Not at hc
    -- The pages are not there, but the wrapped shift passed the test: `next_free` moves.
    rw [if_pos (by omega), if_neg (by omega)] at h
    have hmoved := congrArg (fun r => (r.2.seg k).nextFree) (Option.some.inj h)
    exact shrinkLoop_moved (by omega) (by omega) hsize hmoved
  · rintro (hrefused | hfits)
    · rw [if_pos hrefused, if_pos (by omega)]
    · have hle : size * 4096 ≤ (s.seg k).nextFree := by omega
      rw [if_neg (by omega), if_neg (by omega)]
      refine ⟨shrinkLoop k size s, ?_, shrinkLoop_current (by omega) hle, fun a ha => ?_⟩
      · rw [shrinkLoop_nextFree (by omega) hle]
        dsimp only
        rw [toLong_eq (by omega)]
      · rcases (freePage_mem_shrinkLoop (by omega) hle).mp ha with hold | ⟨n, hn, rfl⟩
        · exact .inl hold
        · exact .inr (by omega)

/-- A call does what it is to do exactly when it fits. -/
theorem expected_iff {op : Op} (hs : InBounds s) (hop : op.IsCall) : Expected op s ↔ Fits op s := by
  cases op with
  | fault => exact hop.elim
  | expand size flags =>
    obtain ⟨k, hk, hseg⟩ := memorySegment_call hop.2
    rw [expected_expand hs hk hseg (memorySegment_mod hop.2) hop.1]
    simp [Fits, hseg]
  | shrink size flags =>
    obtain ⟨k, hk, hseg⟩ := memorySegment_call hop.2
    rw [expected_shrink hs hk hseg (memorySegment_mod hop.2) hop.1]
    simp [Fits, hseg]

/-- Moving `next_free` inside its segment keeps the bounds. -/
theorem InBounds.move {v : Nat} (hs : InBounds s) (hstart : (s.seg k).start ≤ v) (hend : v ≤ (s.seg k).end_)
    (hcurrent : t.current = (s.setNextFree k v).current) : InBounds t := by
  have hseg : ∀ j, t.seg j = if j = k then {s.seg k with nextFree := v} else s.seg j := by
    intro j
    rw [State.seg, hcurrent]
    split
    case isTrue hj => subst hj; exact setNextFree_seg s j v
    case isFalse hj => exact setNextFree_other hj
  constructor <;> intro j hj <;> rw [hseg j]
  · split
    case isTrue hjk => subst hjk; exact hs.low j hj
    case isFalse => exact hs.low j hj
  · split
    · exact hstart
    · exact hs.start_le j hj
  · split
    · exact hend
    · exact hs.le_end j hj
  · split
    case isTrue hjk => subst hjk; exact hs.high j hj
    case isFalse => exact hs.high j hj

theorem Expected.inBounds {alloc : Allocator} {op : Op} {r : Ret} (hs : InBounds s) (hop : op.IsCall)
    (h : Expected op s) (hst : step alloc op s = some (r, t)) : InBounds t := by
  cases op with
  | fault => exact hop.elim
  | expand size flags =>
    obtain ⟨⟨v, u⟩, hu, heq⟩ := Option.map_eq_some_iff.mp hst
    cases heq
    obtain ⟨k, hseg, h⟩ := h
    split at h
    · rw [hu] at h
      cases h
      exact hs
    · rw [hu] at h
      cases h
      obtain ⟨k', hk', hseg'⟩ := memorySegment_call hop.2
      obtain rfl : k' = k := Option.some.inj (hseg'.symm.trans hseg)
      have := hs.start_le k' hk'
      exact hs.move (by omega) (by omega) rfl
  | shrink size flags =>
    obtain ⟨⟨v, u⟩, hu, heq⟩ := Option.map_eq_some_iff.mp hst
    cases heq
    obtain ⟨k, hseg, h⟩ := h
    split at h
    · rw [hu] at h
      cases h
      exact hs
    · obtain ⟨t, ht, hcurrent, -⟩ := h
      rw [hu] at ht
      cases ht
      obtain ⟨k', hk', hseg'⟩ := memorySegment_call hop.2
      obtain rfl : k' = k := Option.some.inj (hseg'.symm.trans hseg)
      have := hs.le_end k' hk'
      exact hs.move (by omega) (by omega) hcurrent

end

/-- **Expand and shrink move `next_free` by `size` pages and keep it in its segment, all along
a run, exactly when each call fits**: a size whose shift wraps is then refused anyway or,
for a shrink, has its pages. -/
theorem segment_bounds {alloc : Allocator} {ops : List Op} {s : State} (hops : ∀ op ∈ ops, op.IsCall)
    (hs : InBounds s) :
    Each (step alloc) (fun op s => Expected op s ∧ ∀ r t, step alloc op s = some (r, t) → InBounds t) ops s ↔
      Each (step alloc) Fits ops s := by
  refine each_congr (I := InBounds) (fun op s hmem hs => ?_)
    (fun op s r t hmem hs h hst => h.2 r t hst) hs
  rw [← expected_iff hs (hops op hmem)]
  exact ⟨And.left, fun h => ⟨h, fun r t => h.inBounds hs (hops op hmem)⟩⟩

theorem onePage_inBounds : InBounds onePage where
  low := by rintro k (rfl | rfl) <;> decide
  start_le := by rintro k (rfl | rfl) <;> decide
  le_end := by rintro k (rfl | rfl) <;> decide
  high := by rintro k (rfl | rfl) <;> decide

/-- A run that asks for a page too many, gives one back and takes it again. -/
theorem segment_bounds_three_calls :
    Each (step fun _ _ => 0) (fun op s => Expected op s ∧
        ∀ r t, step (fun _ _ => 0) op s = some (r, t) → InBounds t)
      [.expand 1 mapWr, .shrink 1 mapWr, .expand 1 mapWr] onePage := by
  have hops : ∀ op ∈ [Op.expand 1 mapWr, .shrink 1 mapWr, .expand 1 mapWr], op.IsCall := by
    simp [Op.IsCall, mapWr, mapRd]
  rw [segment_bounds hops onePage_inBounds]
  have hsmall : ∀ s, Fits (.expand 1 mapWr) s := fun s k _ => .inl (by decide)
  refine ⟨hsmall _, fun r t h => ?_⟩
  cases h
  refine ⟨fun k hk => ?_, fun r t h => ?_⟩
  · cases hk
    exact .inr (by decide)
  · exact ⟨hsmall t, fun _ _ _ => trivial⟩

/-- **A size of 2^20 is not refused**: the shift is zero, so an expand by 4 GB of a segment of
one page returns `next_free` as if it had succeeded, and a shrink by 4 GB moves `next_free`
below the segment. -/
theorem segment_bounds_wrapped : InBounds onePage ∧
    syscallExpand (2 ^ 20) mapWr onePage = some (0x180001000, onePage) ∧
    ¬ Expected (.expand (2 ^ 20) mapWr) onePage ∧ ¬ Expected (.shrink (2 ^ 20) mapWr) onePage ∧
    ((shrinkLoop .data (2 ^ 20) onePage).seg .data).nextFree = 0x80001000 := by
  have hcall : Op.IsCall (.expand (2 ^ 20) mapWr) ∧ Op.IsCall (.shrink (2 ^ 20) mapWr) := by
    simp [Op.IsCall, mapWr]
  refine ⟨onePage_inBounds, ?_, ?_, ?_, ?_⟩
  · rw [@syscallExpand_eq onePage .data (2 ^ 20) mapWr (2 ^ 20) rfl rfl (by decide), if_neg (by decide)]
    exact congrArg (fun s => some ((0x180001000 : Int), s)) (setNextFree_self onePage .data)
  · rw [expected_iff onePage_inBounds hcall.1]
    exact fun h => absurd (h .data rfl) (by decide)
  · rw [expected_iff onePage_inBounds hcall.2]
    exact fun h => absurd (h .data rfl) (by decide)
  · rw [shrinkLoop_nextFree (by decide) (by decide)]
    decide

end CS330.GemOS.Lazy
