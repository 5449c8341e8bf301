import CS330.ObjStore.Log

/-! What a block holds, wherever it is kept.

A block with a cache page is read and written there, any other block on the disk:
`view` is the contents a reader gets. `BlockInv` is what the bitmap, the pages and
the disk keep among themselves in both builds, and the rest of the file says what
fetching, storing, taking and giving back a block do to `view` and to the bitmap.
A cache page is only ever picked unused: picking one in use never returns. -/
namespace CS330.ObjStore

def view (s : State) (b : Int) : Block :=
  if 1 < s.blockBitmap b then s.cache (s.blockBitmap b) else s.disk.blocks b

/-- The block is one `get_new_datablock` gives out. -/
def DataBlock (s : State) (b : Int) : Prop := (dataBlocksStart : Int) ≤ b ∧ b < s.totalNumDiskBlocks

structure BlockInv (build : Build) (s : State) : Prop where
  total : s.totalNumDiskBlocks ≤ s.disk.size
  fits : s.disk.size ≤ bitmapSize
  range : ∀ b, s.blockBitmap b ≠ 0 → b = -1 ∨ DataBlock s b
  page : ∀ b, 1 < s.blockBitmap b → s.cacheBitmap (s.blockBitmap b) = b
  pageLt : ∀ b, s.blockBitmap b < cachePages
  uncached : build = .uncached → ∀ b, s.blockBitmap b ≤ 1

/-- Nothing changed but where blocks are kept. -/
structure Same (s t : State) : Prop where
  obj : t.obj = s.obj
  total : t.totalNumDiskBlocks = s.totalNumDiskBlocks
  disk : t.disk = s.disk
  view : ∀ b, 0 ≤ b → view t b = view s b
  used : ∀ b, t.blockBitmap b = 0 ↔ s.blockBitmap b = 0

theorem Same.refl (s : State) : Same s s := ⟨rfl, rfl, rfl, fun _ _ => rfl, fun _ => Iff.rfl⟩

theorem Same.trans {s t u : State} (h₁ : Same s t) (h₂ : Same t u) : Same s u :=
  ⟨h₂.obj.trans h₁.obj, h₂.total.trans h₁.total, h₂.disk.trans h₁.disk,
    fun b hb => (h₂.view b hb).trans (h₁.view b hb), fun b => (h₂.used b).trans (h₁.used b)⟩

theorem nextPage_bounds (last : Nat) : 2 ≤ nextPage last ∧ nextPage last < cachePages := by
  unfold nextPage cachePages
  dsimp only
  split <;> omega

theorem shift_aligned {a : Nat} (h : a % 4096 = 0) : a >>> 12 <<< 12 = a := by
  rw [Nat.shiftRight_eq_div_pow, Nat.shiftLeft_eq]
  omega

theorem readBlock_inside {s : State} {b : Int} {addr : Nat} {buf : Block} (ha : addr % 4096 = 0)
    (h₀ : 0 ≤ b) (h₁ : b < s.disk.size) : readBlock s b addr buf = (0, s.disk.blocks b) := by
  unfold readBlock
  rw [if_neg (not_not.mpr (shift_aligned ha)), if_neg (by omega), if_neg (by omega)]

theorem readBlock_negative {s : State} {b : Int} {addr : Nat} {buf : Block} (h : b < 0) :
    readBlock s b addr buf = (-1, buf) := by
  unfold readBlock
  simp [h]

theorem writeBlock_inside {s : State} {b : Int} {addr : Nat} {buf : Block} (ha : addr % 4096 = 0)
    (h : 0 ≤ b) : writeBlock b addr buf s =
      (0, (s.emit (.writeBlock b (s.blockBitmap b))).setDisk b buf) := by
  unfold writeBlock
  dsimp only
  rw [if_neg (not_not.mpr (shift_aligned ha)), if_neg (by omega)]

theorem writeBlock_negative {s : State} {b : Int} {addr : Nat} {buf : Block} (ha : addr % 4096 = 0)
    (h : b < 0) : writeBlock b addr buf s = (-1, s.emit (.writeBlock b (s.blockBitmap b))) := by
  unfold writeBlock
  dsimp only
  rw [if_neg (not_not.mpr (shift_aligned ha)), if_pos h]

/-! ### Giving a block an unused page -/

section Place
variable {s t : State} {b : Int} {c : Nat} {blk : Block}

/-- A block other than the one it is kept for never has an unused page. -/
theorem BlockInv.unused_page {build : Build} (h : BlockInv build s) (hc : 1 < c)
    (hfree : s.cacheBitmap c = 0) (b' : Int) : s.blockBitmap b' ≠ c := by
  intro hb
  have hpage := h.page b' (by omega)
  rw [hb, hfree] at hpage
  rcases h.range b' (by omega) with hr | hr
  · omega
  · have := hr.1
    unfold dataBlocksStart at this
    omega

/-- The state after `b` got page `c` with contents `blk`. -/
structure Placed (b : Int) (c : Nat) (blk : Block) (s t : State) : Prop where
  bitmap : t.blockBitmap = Function.update s.blockBitmap b c
  cacheBitmap : t.cacheBitmap = Function.update s.cacheBitmap c b
  cache : t.cache = Function.update s.cache c blk
  disk : t.disk = s.disk
  total : t.totalNumDiskBlocks = s.totalNumDiskBlocks
  obj : t.obj = s.obj

theorem Placed.view_self (h : Placed b c blk s t) (hc : 1 < c) : view t b = blk := by
  simp [ObjStore.view, h.bitmap, h.cache, hc]

theorem Placed.view_other (h : Placed b c blk s t) (hinv : BlockInv .cached s) (hc : 1 < c)
    (hfree : s.cacheBitmap c = 0) {b' : Int} (hne : b' ≠ b) : view t b' = view s b' := by
  have hpage := hinv.unused_page hc hfree b'
  simp only [ObjStore.view, h.bitmap, h.cache, h.disk, Function.update_of_ne hne,
    Function.update_of_ne hpage]

theorem Placed.used (h : Placed b c blk s t) (hc : 1 < c) (hb : s.blockBitmap b ≠ 0) (b' : Int) :
    t.blockBitmap b' = 0 ↔ s.blockBitmap b' = 0 := by
  rw [h.bitmap]
  by_cases hne : b' = b
  · subst hne
    rw [Function.update_self]
    omega
  · rw [Function.update_of_ne hne]

theorem Placed.inv (h : Placed b c blk s t) (hinv : BlockInv .cached s) (hc : 1 < c)
    (hlt : c < cachePages) (hfree : s.cacheBitmap c = 0) (hb : s.blockBitmap b ≠ 0) :
    BlockInv .cached t := by
  refine ⟨by rw [h.total, h.disk]; exact hinv.total, by rw [h.disk]; exact hinv.fits, ?_, ?_, ?_,
    fun hbuild => by cases hbuild⟩
  · intro b' hb'
    unfold DataBlock
    rw [h.total]
    exact hinv.range b' (mt (h.used hc hb b').mpr hb')
  · intro b' hb'
    rw [h.bitmap] at hb' ⊢
    rw [h.cacheBitmap]
    by_cases hne : b' = b
    · subst hne
      simp
    · rw [Function.update_of_ne hne] at hb' ⊢
      rw [Function.update_of_ne (hinv.unused_page hc hfree b')]
      exact hinv.page b' hb'
  · intro b'
    rw [h.bitmap]
    by_cases hne : b' = b
    · subst hne
      simpa using hlt
    · rw [Function.update_of_ne hne]
      exact hinv.pageLt b'

end Place

/-! ### What fetching and storing a block can do -/

/-- How often the cursor moved. -/
def pageCalls : List Event → Nat
  | [] => 0
  | .cachePage _ :: log => pageCalls log + 1
  | _ :: log => pageCalls log

/-- Only the log changed, and the cursor did not move. -/
structure Quiet (s t : State) : Prop where
  eq : t = {s with log := t.log}
  pages : pageCalls t.log = pageCalls s.log

/-- `b`, which had none, got the unused page `c`: the cursor's next one. -/
structure NewPage (b : Int) (c : Nat) (dirty : Bool) (blk : Block) (s t : State) : Prop
    extends Placed b c blk s t where
  next : c = nextPage s.lastCacheIndex
  free : s.cacheBitmap c = 0
  before : s.blockBitmap b = 1
  last : t.lastCacheIndex = c
  dirtyFlag : t.dirtyFlag = Function.update s.dirtyFlag c dirty
  pages : pageCalls t.log = pageCalls s.log + 1

theorem newCleanPage_newPage {b : Int} {s : State} (blk : Block) (hb : s.blockBitmap b = 1)
    (hl : Live (newCleanPage b s).2) :
    (newCleanPage b s).1 = nextPage s.lastCacheIndex ∧ (newCleanPage b s).2.disk = s.disk ∧
      NewPage b (nextPage s.lastCacheIndex) false blk s
        ((newCleanPage b s).2.setPage (newCleanPage b s).1 blk) := by
  have hfree : s.cacheBitmap (nextPage s.lastCacheIndex) = 0 := getFreeCachePage_unused hl
  simp only [newCleanPage, getFreeCachePage_eq s hfree]
  exact ⟨trivial, rfl, ⟨rfl, rfl, rfl, rfl, rfl, rfl⟩, rfl, hfree, hb, rfl, rfl, rfl⟩

theorem pageFor_newPage {b : Int} {s : State} (blk : Block) (hb : s.blockBitmap b = 1)
    (hl : Live (pageFor b s).2) :
    NewPage b (nextPage s.lastCacheIndex) true blk s
      (((pageFor b s).2.setPage (pageFor b s).1 blk).setDirty (pageFor b s).1 true) := by
  have hif : ¬ 1 < s.blockBitmap b := by omega
  rw [pageFor, if_neg hif] at hl ⊢
  have hfree : s.cacheBitmap (nextPage s.lastCacheIndex) = 0 := getFreeCachePage_unused hl
  simp only [getFreeCachePage_eq s hfree]
  exact ⟨⟨rfl, rfl, rfl, rfl, rfl, rfl⟩, rfl, hfree, hb, rfl, rfl, rfl⟩

section Cases
variable {build : Build} {b : Int} {addr : Nat} {buf : Block} {s : State}

theorem readBlock_congr {t : State} (h : t.disk = s.disk) :
    readBlock t b addr buf = readBlock s b addr buf := by
  unfold readBlock
  rw [h]

theorem fetch_uncached : fetch .uncached b addr buf s =
    ((readBlock s b addr buf).1, (readBlock s b addr buf).2, s) := by
  simp [fetch, readCached]

theorem store_uncached : store .uncached b addr buf s = writeBlock b addr buf s := by
  simp [store, writeCached]

theorem fetch_free (h : s.blockBitmap b = 0) : fetch .cached b addr buf s =
    ((readBlock s b addr buf).1, (readBlock s b addr buf).2, s.emit (.bitmap b)) := by
  simp [fetch, readCached, h, readBlock_congr (s := s) (State.emit_disk (.bitmap b) s)]

theorem fetch_unpaged (h : s.blockBitmap b = 1) : fetch .cached b addr buf s =
    (0, (readBlock (newCleanPage b (s.emit (.bitmap b))).2 b addr buf).2,
      (newCleanPage b (s.emit (.bitmap b))).2.setPage (newCleanPage b (s.emit (.bitmap b))).1
        (readBlock (newCleanPage b (s.emit (.bitmap b))).2 b addr buf).2) := by
  simp [fetch, readCached, h]

theorem fetch_paged (h : 1 < s.blockBitmap b) : fetch .cached b addr buf s =
    (0, s.cache (s.blockBitmap b), s.emit (.bitmap b)) := by
  have h₀ : s.blockBitmap b ≠ 0 := by omega
  have h₁ : s.blockBitmap b ≠ 1 := by omega
  simp [fetch, readCached, h₀, h₁]

theorem store_free (h : s.blockBitmap b = 0) :
    store .cached b addr buf s = writeBlock b addr buf (s.emit (.bitmap b)) := by
  simp [store, writeCached, h]

theorem store_used (h : s.blockBitmap b ≠ 0) : store .cached b addr buf s =
    (0, ((pageFor b (s.emit (.bitmap b))).2.setPage (pageFor b (s.emit (.bitmap b))).1 buf).setDirty
      (pageFor b (s.emit (.bitmap b))).1 true) := by
  simp [store, writeCached, h]

/-- Fetching a block leaves the state alone, or gives the block a clean page. -/
theorem fetch_cases (hl : Live (fetch build b addr buf s).2.2) :
    (Quiet s (fetch build b addr buf s).2.2 ∧
      ((fetch build b addr buf s).1, (fetch build b addr buf s).2.1) =
        if build = .cached ∧ 1 < s.blockBitmap b then (0, s.cache (s.blockBitmap b))
        else readBlock s b addr buf) ∨
    (build = .cached ∧ (fetch build b addr buf s).1 = 0 ∧
      (fetch build b addr buf s).2.1 = (readBlock s b addr buf).2 ∧
      NewPage b (nextPage s.lastCacheIndex) false (readBlock s b addr buf).2 s
        (fetch build b addr buf s).2.2) := by
  cases build with
  | uncached =>
    rw [fetch_uncached]
    exact .inl ⟨⟨rfl, rfl⟩, by simp⟩
  | cached =>
    rcases Nat.lt_trichotomy (s.blockBitmap b) 1 with h | h | h
    · have h₀ : s.blockBitmap b = 0 := by omega
      rw [fetch_free h₀]
      exact .inl ⟨⟨rfl, rfl⟩, by simp [h₀]⟩
    · rw [fetch_unpaged h] at hl ⊢
      dsimp only at hl ⊢
      obtain ⟨_, hdisk, hnew⟩ :=
        newCleanPage_newPage (s := s.emit (.bitmap b)) (readBlock s b addr buf).2 h hl
      rw [readBlock_congr hdisk]
      exact .inr ⟨rfl, rfl, rfl, ⟨hnew.bitmap, hnew.cacheBitmap, hnew.cache, hnew.disk, hnew.total,
        hnew.obj⟩, rfl, hnew.free, h, hnew.last, hnew.dirtyFlag, hnew.pages⟩
    · rw [fetch_paged h]
      exact .inl ⟨⟨rfl, rfl⟩, by simp [h]⟩

/-- Storing a block writes the disk, or the block's page, or gives it a dirty page. -/
theorem store_cases (hl : Live (store build b addr buf s).2) :
    ((build = .uncached ∨ s.blockBitmap b = 0) ∧ ∃ t, Quiet s t ∧
      store build b addr buf s = writeBlock b addr buf t) ∨
    (build = .cached ∧ (store build b addr buf s).1 = 0 ∧ 1 < s.blockBitmap b ∧ ∃ t, Quiet s t ∧
      (store build b addr buf s).2 =
        (t.setPage (s.blockBitmap b) buf).setDirty (s.blockBitmap b) true) ∨
    (build = .cached ∧ (store build b addr buf s).1 = 0 ∧
      NewPage b (nextPage s.lastCacheIndex) true buf s (store build b addr buf s).2) := by
  cases build with
  | uncached => exact .inl ⟨.inl rfl, s, ⟨rfl, rfl⟩, store_uncached⟩
  | cached =>
    by_cases h₀ : s.blockBitmap b = 0
    · exact .inl ⟨.inr h₀, s.emit (.bitmap b), ⟨rfl, rfl⟩, store_free h₀⟩
    · rw [store_used h₀] at hl ⊢
      dsimp only at hl ⊢
      by_cases h₁ : s.blockBitmap b = 1
      · have hnew := pageFor_newPage (s := s.emit (.bitmap b)) buf h₁ hl
        exact .inr (.inr ⟨rfl, rfl, ⟨hnew.bitmap, hnew.cacheBitmap, hnew.cache, hnew.disk, hnew.total,
          hnew.obj⟩, rfl, hnew.free, h₁, hnew.last, hnew.dirtyFlag, hnew.pages⟩)
      · have hlt : 1 < s.blockBitmap b := by omega
        refine .inr (.inl ⟨rfl, rfl, hlt, s.emit (.bitmap b), ⟨rfl, rfl⟩, ?_⟩)
        simp [pageFor, hlt]

end Cases

/-! ### Fetching -/

theorem Quiet.same {s t : State} (h : Quiet s t) : Same s t := by
  rw [h.eq]
  exact ⟨rfl, rfl, rfl, fun _ _ => rfl, fun _ => Iff.rfl⟩

theorem Quiet.inv {build : Build} {s t : State} (h : Quiet s t) (hinv : BlockInv build s) :
    BlockInv build t := by
  rw [h.eq]
  exact ⟨hinv.total, hinv.fits, hinv.range, hinv.page, hinv.pageLt, hinv.uncached⟩

section Fetch
variable {build : Build} {b : Int} {addr : Nat} {buf : Block} {s : State}

theorem fetch_inv (hinv : BlockInv build s) (hl : Live (fetch build b addr buf s).2.2) :
    BlockInv build (fetch build b addr buf s).2.2 := by
  rcases fetch_cases hl with ⟨hq, -⟩ | ⟨rfl, -, -, hp⟩
  · exact hq.inv hinv
  · obtain ⟨h₂, hlt⟩ := nextPage_bounds s.lastCacheIndex
    exact hp.toPlaced.inv hinv h₂ hlt hp.free (by rw [hp.before]; decide)

/-- A used block that is not `-1` lies on the disk. -/
theorem BlockInv.inside (hinv : BlockInv build s) (hb : s.blockBitmap b ≠ 0) (h₀ : 0 ≤ b) :
    b < s.disk.size := by
  have := hinv.total
  rcases hinv.range b hb with h | h
  · omega
  · have := h.2
    omega

theorem fetch_same (hinv : BlockInv build s) (ha : addr % 4096 = 0)
    (hl : Live (fetch build b addr buf s).2.2) : Same s (fetch build b addr buf s).2.2 := by
  rcases fetch_cases hl with ⟨hq, -⟩ | ⟨rfl, -, -, hp⟩
  · exact hq.same
  · obtain ⟨h₂, -⟩ := nextPage_bounds s.lastCacheIndex
    have hused : s.blockBitmap b ≠ 0 := by rw [hp.before]; decide
    refine ⟨hp.obj, hp.total, hp.disk, fun b' h₀ => ?_, hp.toPlaced.used h₂ hused⟩
    by_cases hne : b' = b
    · subst hne
      rw [hp.toPlaced.view_self h₂, readBlock_inside ha h₀ (hinv.inside hused h₀)]
      simp [view, hp.before]
    · exact hp.toPlaced.view_other hinv h₂ hp.free hne

/-- Fetching a block of the disk gives its contents. -/
theorem fetch_value (hinv : BlockInv build s) (ha : addr % 4096 = 0) (h₀ : 0 ≤ b)
    (h₁ : b < s.disk.size) (hl : Live (fetch build b addr buf s).2.2) :
    (fetch build b addr buf s).1 = 0 ∧ (fetch build b addr buf s).2.1 = view s b := by
  have hread := @readBlock_inside s b addr buf ha h₀ h₁
  rcases fetch_cases hl with ⟨-, hr⟩ | ⟨-, hr, hv, hp⟩
  · have h₂ := congrArg Prod.snd hr
    have h₁ := congrArg Prod.fst hr
    dsimp only at h₁ h₂
    rw [h₁, h₂, hread]
    split
    · rename_i hc
      exact ⟨rfl, by simp [view, hc.2]⟩
    · rename_i hc
      refine ⟨rfl, ?_⟩
      have hle : ¬ 1 < s.blockBitmap b := by
        intro hlt
        cases build with
        | cached => exact hc ⟨rfl, hlt⟩
        | uncached => exact absurd (hinv.uncached rfl b) (by omega)
      simp [view, hle]
  · rw [hr, hv, hread]
    exact ⟨rfl, by simp [view, hp.before]⟩

end Fetch

/-! ### Storing -/

/-- The state after `blk` was stored in block `b`. -/
structure Stored (b : Int) (blk : Block) (s t : State) : Prop where
  obj : t.obj = s.obj
  total : t.totalNumDiskBlocks = s.totalNumDiskBlocks
  size : s.disk.size ≤ t.disk.size
  used : ∀ b', t.blockBitmap b' = 0 ↔ s.blockBitmap b' = 0
  other : ∀ b', 0 ≤ b' → b' ≠ b → view t b' = view s b'
  disk : ∀ b', b' ≠ b → t.disk.blocks b' = s.disk.blocks b'
  self : 0 ≤ b → view t b = blk
  diskSelf : t.disk.blocks b = s.disk.blocks b ∨ t.disk.blocks b = blk

/-- Two blocks never share a page. -/
theorem BlockInv.page_inj {build : Build} {s : State} (hinv : BlockInv build s) {b b' : Int}
    (hb : 1 < s.blockBitmap b) (h : s.blockBitmap b' = s.blockBitmap b) : b' = b := by
  rw [← hinv.page b hb, ← hinv.page b' (by omega), h]

section Store
variable {build : Build} {b : Int} {addr : Nat} {buf : Block} {s t : State}

/-- `write_block` on a block that has no page. -/
theorem writeBlock_stored (hinv : BlockInv build s) (ha : addr % 4096 = 0) (hb : b < bitmapSize)
    (hpage : s.blockBitmap b ≤ 1) :
    BlockInv build (writeBlock b addr buf s).2 ∧ Stored b buf s (writeBlock b addr buf s).2 ∧
      (0 ≤ b → (writeBlock b addr buf s).1 = 0) := by
  have htotal := hinv.total
  have hfits := hinv.fits
  by_cases h₀ : 0 ≤ b
  · rw [writeBlock_inside ha h₀]
    refine ⟨⟨?_, ?_, hinv.range, hinv.page, hinv.pageLt, hinv.uncached⟩,
      ⟨rfl, rfl, ?_, fun _ => Iff.rfl, ?_, ?_, ?_, .inr ?_⟩, fun _ => rfl⟩
    · simp
      omega
    · simp
      omega
    · simp
    · intro b' _ hne
      simp [view, Function.update_of_ne hne]
    · intro b' hne
      simp [Function.update_of_ne hne]
    · intro _
      have hle : ¬ 1 < s.blockBitmap b := by omega
      simp [view, hle]
    · simp
  · rw [writeBlock_negative ha (by omega)]
    exact ⟨⟨htotal, hfits, hinv.range, hinv.page, hinv.pageLt, hinv.uncached⟩,
      ⟨rfl, rfl, Nat.le_refl _, fun _ => Iff.rfl, fun _ _ _ => rfl, fun _ _ => rfl,
        fun h => absurd h h₀, .inl rfl⟩, fun h => absurd h h₀⟩

/-- `memcpy` to the page of a block that has one. -/
theorem setPage_stored (hinv : BlockInv build s) (hb : 1 < s.blockBitmap b) :
    BlockInv build ((s.setPage (s.blockBitmap b) buf).setDirty (s.blockBitmap b) true) ∧
      Stored b buf s ((s.setPage (s.blockBitmap b) buf).setDirty (s.blockBitmap b) true) := by
  refine ⟨⟨hinv.total, hinv.fits, hinv.range, hinv.page, hinv.pageLt, hinv.uncached⟩,
    ⟨rfl, rfl, Nat.le_refl _, fun _ => Iff.rfl, ?_, fun _ _ => rfl, fun _ => ?_, .inl rfl⟩⟩
  · intro b' _ hne
    have hpage : s.blockBitmap b' ≠ s.blockBitmap b := fun h => hne (hinv.page_inj hb h)
    simp [view, Function.update_of_ne hpage]
  · simp [view, hb]

theorem NewPage.stored {d : Bool} {c : Nat} {blk : Block} (h : NewPage b c d blk s t)
    (hinv : BlockInv .cached s) : BlockInv .cached t ∧ Stored b blk s t := by
  obtain ⟨h₂, hlt⟩ := nextPage_bounds s.lastCacheIndex
  rw [← h.next] at h₂ hlt
  have hused : s.blockBitmap b ≠ 0 := by rw [h.before]; decide
  refine ⟨h.toPlaced.inv hinv h₂ hlt h.free hused, ⟨h.obj, h.total, by rw [h.disk],
    h.toPlaced.used h₂ hused, fun b' _ hne => h.toPlaced.view_other hinv h₂ h.free hne,
    fun b' _ => by rw [h.disk], fun _ => h.toPlaced.view_self h₂, .inl (by rw [h.disk])⟩⟩

theorem Quiet.stored {blk : Block} {u : State} (hq : Quiet s t) (h : Stored b blk t u) :
    Stored b blk s u := by
  rw [hq.eq] at h
  exact ⟨h.obj, h.total, h.size, h.used, h.other, h.disk, h.self, h.diskSelf⟩

theorem store_spec (hinv : BlockInv build s) (ha : addr % 4096 = 0) (hb : b < bitmapSize)
    (hl : Live (store build b addr buf s).2) :
    BlockInv build (store build b addr buf s).2 ∧ Stored b buf s (store build b addr buf s).2 ∧
      (0 ≤ b → (store build b addr buf s).1 = 0) := by
  rcases store_cases hl with ⟨hor, t, hq, heq⟩ | ⟨-, hr, hlt, t, hq, heq⟩ | ⟨rfl, hr, hp⟩
  · have hpage : t.blockBitmap b ≤ 1 := by
      rw [hq.eq]
      rcases hor with rfl | h₀
      · exact hinv.uncached rfl b
      · show s.blockBitmap b ≤ 1
        omega
    rw [heq]
    obtain ⟨h₁, h₂, h₃⟩ := @writeBlock_stored _ _ addr buf _ (hq.inv hinv) ha hb hpage
    exact ⟨h₁, hq.stored h₂, h₃⟩
  · have hbit : t.blockBitmap = s.blockBitmap := by rw [hq.eq]
    rw [heq, ← hbit]
    obtain ⟨h₁, h₂⟩ := @setPage_stored _ _ buf _ (hq.inv hinv) (by rw [hbit]; exact hlt)
    exact ⟨h₁, hq.stored h₂, fun _ => hr⟩
  · obtain ⟨h₁, h₂⟩ := hp.stored hinv
    exact ⟨h₁, h₂, fun _ => hr⟩

end Store

/-! ### What goes to the log -/

/-- The mutexes and the cursor. -/
def Event.Internal : Event → Prop
  | .lock _ | .unlock _ | .cachePage _ => True
  | _ => False

section Log
variable {build : Build} {b : Int} {addr : Nat} {buf : Block} {s : State}

theorem getFreeCachePage_emits {P : Event → Prop} (hP : ∀ e : Event, e.Internal → P e)
    (hl : Live (getFreeCachePage s).2) : Emits P s (getFreeCachePage s).2 := by
  rw [getFreeCachePage_eq s (getFreeCachePage_unused hl)]
  exact ⟨[.unlock _, .cachePage _, .lock _], rfl, fun e he => hP e (by
    simp only [List.mem_cons, List.not_mem_nil, or_false] at he
    rcases he with rfl | rfl | rfl <;> trivial)⟩

theorem newCleanPage_log : (newCleanPage b s).2.log = .bitmap b :: (getFreeCachePage s).2.log := rfl

theorem pageFor_log (h : ¬ 1 < s.blockBitmap b) :
    (pageFor b s).2.log = .bitmap b :: (getFreeCachePage s).2.log := by
  rw [pageFor, if_neg h]
  rfl

theorem live_of_cons {t u : State} {e : Event} (h : Live t) (ht : t.log = e :: u.log) : Live u := by
  intro hu
  exact h (by rw [ht]; exact held_cons_none hu)

theorem fetch_emits (hl : Live (fetch build b addr buf s).2.2) :
    Emits (fun e => e.Internal ∨ e = .bitmap b) s (fetch build b addr buf s).2.2 := by
  have hemit : Emits (fun e => e.Internal ∨ e = .bitmap b) s (s.emit (.bitmap b)) :=
    (Emits.of_log_eq rfl).emit (.inr rfl)
  cases build with
  | uncached =>
    rw [fetch_uncached]
    exact .of_log_eq rfl
  | cached =>
    rcases Nat.lt_trichotomy (s.blockBitmap b) 1 with h | h | h
    · rw [fetch_free (by omega)]
      exact hemit
    · rw [fetch_unpaged h] at hl ⊢
      dsimp only at hl ⊢
      have hlog := @newCleanPage_log b (s.emit (.bitmap b))
      rw [← State.setPage_log] at hlog
      exact (hemit.trans (getFreeCachePage_emits (fun _ he => .inl he) (live_of_cons hl hlog))).cons
        (.inr rfl) hlog
    · rw [fetch_paged h]
      exact hemit

theorem store_emits (hl : Live (store build b addr buf s).2) :
    Emits (fun e => e.Internal ∨ e = .bitmap b ∨ e = .writeBlock b (s.blockBitmap b)) s
      (store build b addr buf s).2 := by
  have hemit : Emits (fun e => e.Internal ∨ e = .bitmap b ∨ e = .writeBlock b (s.blockBitmap b)) s
      (s.emit (.bitmap b)) := (Emits.of_log_eq rfl).emit (.inr (.inl rfl))
  cases build with
  | uncached =>
    rw [store_uncached]
    exact writeBlock_emits b addr buf s (.inr (.inr rfl))
  | cached =>
    by_cases h₀ : s.blockBitmap b = 0
    · rw [store_free h₀]
      exact hemit.trans (writeBlock_emits b addr buf _ (.inr (.inr rfl)))
    · rw [store_used h₀] at hl ⊢
      dsimp only at hl ⊢
      by_cases h₁ : 1 < s.blockBitmap b
      · have hpage : pageFor b (s.emit (.bitmap b)) = (s.blockBitmap b, s.emit (.bitmap b)) := if_pos h₁
        rw [hpage]
        exact hemit
      · have hlog := @pageFor_log b (s.emit (.bitmap b)) h₁
        rw [← State.setPage_log, ← State.setDirty_log] at hlog
        exact (hemit.trans (getFreeCachePage_emits (fun _ he => .inl he) (live_of_cons hl hlog))).cons
          (.inr (.inl rfl)) hlog

end Log

end CS330.ObjStore
