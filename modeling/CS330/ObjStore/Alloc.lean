import CS330.ObjStore.View

/-! Taking blocks and giving them back.

`alloc_cases` says what `get_new_datablock` and the `set_block_bitmap` after it do:
a free data block is marked, or none was left and -1 goes the same way.
`FreedSet P` is what the loops of `free_data_block` and `destroy_object` leave:
exactly the blocks of `P` are cleared. -/
namespace CS330.ObjStore

/-! ### Taking a block -/

/-- Entry `b` of the bitmap became 1, and nothing else changed. -/
structure Took (b : Int) (s t : State) : Prop where
  eq : t = {s with blockBitmap := Function.update s.blockBitmap b 1, log := t.log}
  pages : pageCalls t.log = pageCalls s.log

theorem scanBitmap_cases (n i : Nat) (s : State) :
    ((scanBitmap n i s).1 = -1 ∧ Quiet s (scanBitmap n i s).2 ∧
      ∀ j : Nat, i ≤ j → j < i + n → s.blockBitmap j ≠ 0) ∨
    ∃ j : Nat, i ≤ j ∧ j < i + n ∧ (scanBitmap n i s).1 = j ∧ s.blockBitmap j = 0 ∧
      Took j s (scanBitmap n i s).2 := by
  induction n generalizing i s with
  | zero => exact .inl ⟨rfl, ⟨rfl, rfl⟩, fun j h h' => by omega⟩
  | succ n ih =>
    unfold scanBitmap
    dsimp only
    split
    · rename_i h₀
      exact .inr ⟨i, Nat.le_refl i, by omega, rfl, h₀, rfl, rfl⟩
    · rename_i h₀
      rcases ih (i + 1) (s.emit (.bitmap i)) with ⟨hr, hq, hall⟩ | ⟨j, hi, hj, hr, hz, ht⟩
      · refine .inl ⟨hr, ⟨hq.eq, hq.pages⟩, fun j h h' => ?_⟩
        rcases Nat.eq_or_lt_of_le h with rfl | hlt
        · exact h₀
        · exact hall j hlt (by omega)
      · exact .inr ⟨j, by omega, by omega, hr, hz, ht.eq, ht.pages⟩

/-- What `get_new_datablock` and `set_block_bitmap` on its result do. -/
theorem alloc_cases (s : State) :
    Took (getNewDatablock s).1 s (setBlockBitmap (getNewDatablock s).1 (getNewDatablock s).2) ∧
    (((getNewDatablock s).1 = -1 ∧ ∀ b, DataBlock s b → s.blockBitmap b ≠ 0) ∨
      DataBlock s (getNewDatablock s).1 ∧ s.blockBitmap (getNewDatablock s).1 = 0) := by
  have hscan := scanBitmap_cases (s.totalNumDiskBlocks - dataBlocksStart) dataBlocksStart
    (s.emit (.lock .blockBitmapMutex))
  unfold getNewDatablock setBlockBitmap
  -- the scan is left abstract: unfolding it goes through every block of the disk
  generalize scanBitmap (s.totalNumDiskBlocks - dataBlocksStart) dataBlocksStart
    (s.emit (.lock .blockBitmapMutex)) = r at hscan ⊢
  obtain ⟨b, t⟩ := r
  rcases hscan with ⟨hr, hq, hall⟩ | ⟨j, hi, hj, hr, hz, ht⟩
  · dsimp only at hr hq ⊢
    subst hr
    refine ⟨⟨?_, hq.pages⟩, .inl ⟨rfl, fun b hb => ?_⟩⟩
    · rw [hq.eq]
      rfl
    · have h₁ := hb.1
      have h₂ := hb.2
      have := hall b.toNat (by omega) (by omega)
      rwa [Int.toNat_of_nonneg (by omega)] at this
  · dsimp only at hr ht ⊢
    subst hr
    refine ⟨⟨?_, ht.pages⟩, .inr ⟨⟨by omega, by omega⟩, hz⟩⟩
    rw [ht.eq]
    simp [State.setBitmap, State.emit]

/-- `get_new_datablock` has found no free block since the disk was mounted. -/
def Failed (s : State) : Prop := Event.newDatablock (-1) ∈ s.log

theorem Emits.failed {P : Event → Prop} {s t : State} (h : Emits P s t)
    (hP : ¬ P (.newDatablock (-1))) : Failed t ↔ Failed s := by
  obtain ⟨new, ha, hn⟩ := h
  unfold Failed
  rw [ha, List.mem_append]
  exact ⟨fun hm => hm.resolve_left fun hin => hP (hn _ hin), .inr⟩

theorem Steady.failed {s t : State} (h : Steady s t) (hs : Failed s) : Failed t := h.mem hs

/-- What `get_new_datablock` does after its scan. -/
def endScan (r : Int × State) : Int × State :=
  (r.1, (r.2.emit (.unlock .blockBitmapMutex)).emit (.newDatablock r.1))

theorem getNewDatablock_eq (s : State) : getNewDatablock s =
    endScan (scanBitmap (s.totalNumDiskBlocks - dataBlocksStart) dataBlocksStart
      (s.emit (.lock .blockBitmapMutex))) := rfl

theorem endScan_emits {P : Event → Prop} {s : State} {r : Int × State} (h : Emits P s r.2)
    (hint : ∀ e : Event, e.Internal → P e) (hnew : P (.newDatablock (endScan r).1))
    (hbit : P (.bitmap (endScan r).1)) :
    Emits P s (setBlockBitmap (endScan r).1 (endScan r).2) := by
  have hlock := ((h.emit (hint (.unlock .blockBitmapMutex) trivial)).emit hnew).emit
    (hint (.lock .blockBitmapMutex) trivial)
  exact (hlock.cons hbit rfl).emit (hint (.unlock .blockBitmapMutex) trivial)

theorem endScan_log (r : Int × State) : Event.newDatablock (endScan r).1 ∈ (endScan r).2.log :=
  List.mem_cons_self

theorem alloc_emits {P : Event → Prop} (s : State) (hint : ∀ e : Event, e.Internal → P e)
    (hnew : P (.newDatablock (getNewDatablock s).1)) (hbit : P (.bitmap (getNewDatablock s).1))
    (hscan : ∀ i : Nat, dataBlocksStart ≤ i → i < s.totalNumDiskBlocks → P (.bitmap i)) :
    Emits P s (setBlockBitmap (getNewDatablock s).1 (getNewDatablock s).2) := by
  rw [getNewDatablock_eq] at hnew hbit ⊢
  refine endScan_emits (.trans ((Emits.of_log_eq rfl).emit (hint (.lock .blockBitmapMutex) trivial)) ?_)
    hint hnew hbit
  exact scanBitmap_emits _ _ _ fun i h₁ h₂ => hscan i h₁ (by omega)

theorem getNewDatablock_log (s : State) :
    Event.newDatablock (getNewDatablock s).1 ∈ (getNewDatablock s).2.log := by
  rw [getNewDatablock_eq]
  exact endScan_log _

theorem alloc_failed (s : State) :
    Failed (setBlockBitmap (getNewDatablock s).1 (getNewDatablock s).2) ↔
      Failed s ∨ (getNewDatablock s).1 = -1 := by
  by_cases hr : (getNewDatablock s).1 = -1
  · refine iff_of_true ((setBlockBitmap_calm _ _).steady.failed ?_) (.inr hr)
    have hmem := getNewDatablock_log s
    rwa [hr] at hmem
  · have hemits := alloc_emits (P := fun e => e ≠ .newDatablock (-1)) s
      (by rintro e he rfl; exact he) (by simpa using hr) (by simp) (by simp)
    rw [hemits.failed (by simp)]
    simp [hr]

section Took
variable {build : Build} {b : Int} {s t : State}

theorem Took.bitmap (h : Took b s t) : t.blockBitmap = Function.update s.blockBitmap b 1 := by
  rw [h.eq]

theorem Took.inv (h : Took b s t) (hinv : BlockInv build s) (hb : b = -1 ∨ DataBlock s b) :
    BlockInv build t := by
  rw [h.eq]
  refine ⟨hinv.total, hinv.fits, fun b' hb' => ?_, fun b' hb' => ?_, fun b' => ?_, fun hbu b' => ?_⟩
  all_goals
    dsimp only at *
    by_cases hne : b' = b
    · subst hne
      simp_all [cachePages, DataBlock]
    rw [Function.update_of_ne hne] at *
  · exact hinv.range b' hb'
  · exact hinv.page b' hb'
  · exact hinv.pageLt b'
  · exact hinv.uncached hbu b'

/-- A block taken while it had no page has the contents it had, and so have all
others. -/
theorem Took.view (h : Took b s t) {b' : Int} (hb : b' ≠ b ∨ s.blockBitmap b ≤ 1) :
    view t b' = view s b' := by
  rw [h.eq]
  by_cases hne : b' = b
  · subst hne
    have hle : ¬ 1 < s.blockBitmap b' := by
      rcases hb with hb | hb
      · exact absurd rfl hb
      · omega
    simp [ObjStore.view, hle]
  · simp [ObjStore.view, hne]

theorem Took.used (h : Took b s t) (b' : Int) :
    t.blockBitmap b' = 0 ↔ s.blockBitmap b' = 0 ∧ b' ≠ b := by
  rw [h.bitmap]
  by_cases hne : b' = b
  · subst hne
    simp
  · simp [hne]

end Took

/-! ### Giving blocks back -/

/-- Exactly the blocks of `P` are free now; contents and slots are as they were. -/
structure FreedSet (P : Int → Prop) (s t : State) : Prop where
  obj : t.obj = s.obj
  total : t.totalNumDiskBlocks = s.totalNumDiskBlocks
  disk : t.disk = s.disk
  cache : t.cache = s.cache
  last : t.lastCacheIndex = s.lastCacheIndex
  pages : pageCalls t.log = pageCalls s.log
  freed : ∀ b, P b → t.blockBitmap b = 0
  kept : ∀ b, ¬ P b → t.blockBitmap b = s.blockBitmap b

namespace FreedSet
variable {P Q : Int → Prop} {s t u : State}

theorem refl (s : State) : FreedSet (fun _ => False) s s :=
  ⟨rfl, rfl, rfl, rfl, rfl, rfl, fun _ h => h.elim, fun _ _ => rfl⟩

theorem trans (h₁ : FreedSet P s t) (h₂ : FreedSet Q t u) : FreedSet (fun b => P b ∨ Q b) s u := by
  refine ⟨h₂.obj.trans h₁.obj, h₂.total.trans h₁.total, h₂.disk.trans h₁.disk,
    h₂.cache.trans h₁.cache, h₂.last.trans h₁.last, h₂.pages.trans h₁.pages, ?_, ?_⟩
  · intro b hb
    by_cases hq : Q b
    · exact h₂.freed b hq
    · rw [h₂.kept b hq]
      exact h₁.freed b (hb.resolve_right hq)
  · intro b hb
    rw [h₂.kept b fun hq => hb (.inr hq), h₁.kept b fun hp => hb (.inl hp)]

theorem congr (h : FreedSet P s t) (hPQ : ∀ b, P b ↔ Q b) : FreedSet Q s t :=
  ⟨h.obj, h.total, h.disk, h.cache, h.last, h.pages, fun b hb => h.freed b ((hPQ b).mpr hb),
    fun b hb => h.kept b (mt (hPQ b).mp hb)⟩

theorem view (h : FreedSet P s t) {b : Int} (hb : ¬ P b) : view t b = view s b := by
  simp [ObjStore.view, h.kept b hb, h.cache, h.disk]

end FreedSet

theorem clearBlockBitmap_freed (b : Int) (s : State) :
    FreedSet (fun b' => b' = b) s (clearBlockBitmap b s) := by
  refine ⟨rfl, rfl, rfl, rfl, rfl, rfl, fun b' hb => ?_, fun b' hb => ?_⟩
  · subst hb
    simp [clearBlockBitmap]
  · simp [clearBlockBitmap, Function.update_of_ne hb]

theorem dropPage_freed (c : Nat) (s : State) : FreedSet (fun _ => False) s (dropPage c s) := by
  unfold dropPage
  split
  · exact ⟨rfl, rfl, rfl, rfl, rfl, rfl, fun _ h => h.elim, fun _ _ => rfl⟩
  · exact .refl s

theorem freeEntry_freed (b : Int) (s : State) : FreedSet (fun b' => b' = b) s (freeEntry b s) := by
  have hemit : FreedSet (fun _ => False) s (s.emit (.bitmap b)) :=
    ⟨rfl, rfl, rfl, rfl, rfl, rfl, fun _ h => h.elim, fun _ _ => rfl⟩
  exact ((hemit.trans (dropPage_freed _ _)).trans (clearBlockBitmap_freed b _)).congr
    fun b' => by simp

/-- The entries of `tmp` from `i` on, up to the first -1. -/
def Listed (tmp : Nat → Int) (n i : Nat) (b : Int) : Prop :=
  ∃ j, i ≤ j ∧ j < i + n ∧ tmp j = b ∧ ∀ k, i ≤ k → k ≤ j → tmp k ≠ -1

theorem listed_succ (tmp : Nat → Int) (n i : Nat) (b : Int) (h : tmp i ≠ -1) :
    Listed tmp (n + 1) i b ↔ b = tmp i ∨ Listed tmp n (i + 1) b := by
  constructor
  · rintro ⟨j, hi, hj, rfl, hall⟩
    rcases Nat.eq_or_lt_of_le hi with rfl | hlt
    · exact .inl rfl
    · exact .inr ⟨j, hlt, by omega, rfl, fun k hk hk' => hall k (by omega) hk'⟩
  · rintro (rfl | ⟨j, hi, hj, rfl, hall⟩)
    · exact ⟨i, Nat.le_refl i, by omega, rfl, fun k hk hk' => by rwa [Nat.le_antisymm hk' hk]⟩
    · refine ⟨j, by omega, by omega, rfl, fun k hk hk' => ?_⟩
      rcases Nat.eq_or_lt_of_le hk with rfl | hlt
      · exact h
      · exact hall k hlt hk'

theorem not_listed (tmp : Nat → Int) (n i : Nat) (b : Int) (h : tmp i = -1) :
    ¬ Listed tmp n i b := by
  rintro ⟨j, hi, -, -, hall⟩
  exact hall i (Nat.le_refl i) hi h

theorem freeEntries_freed (tmp : Nat → Int) (n i : Nat) (s : State) :
    FreedSet (Listed tmp n i) s (freeEntries tmp n i s) := by
  induction n generalizing i s with
  | zero =>
    refine (FreedSet.refl s).congr fun b => ⟨False.elim, ?_⟩
    rintro ⟨j, hi, hj, -⟩
    omega
  | succ n ih =>
    unfold freeEntries
    split
    · rename_i h
      exact (FreedSet.refl s).congr fun b => ⟨False.elim, not_listed tmp _ i b h⟩
    · rename_i h
      exact ((freeEntry_freed (tmp i) s).trans (ih (i + 1) _)).congr
        fun b => (listed_succ tmp n i b h).symm

/-- What `free_data_block` frees: the block and the entries its copy on the disk
lists. -/
def FreedBy (s : State) (p b : Int) : Prop :=
  Listed (ints (readBlock s p 0 zeroBlock).2) 1024 0 b ∨ b = p

theorem freeDataBlock_freed (p : Int) (s : State) :
    FreedSet (FreedBy s p) s (freeDataBlock p s) :=
  (freeEntries_freed _ 1024 0 s).trans (clearBlockBitmap_freed p _)

theorem freedBy_congr {s t : State} (h : t.disk = s.disk) (p b : Int) :
    FreedBy t p b ↔ FreedBy s p b := by
  unfold FreedBy readBlock
  rw [h]

/-- What the loop of `destroy_object` frees, `n` pointers from `i` on. -/
def FreedByPointers (s : State) (p : Nat → Int) (n i : Nat) (b : Int) : Prop :=
  ∃ j, i ≤ j ∧ j < i + n ∧ FreedBy s (p j) b ∧ ∀ k, i ≤ k → k ≤ j → p k ≠ -1

theorem freedByPointers_succ {s : State} {p : Nat → Int} {n i : Nat} {b : Int} (h : p i ≠ -1) :
    FreedByPointers s p (n + 1) i b ↔ FreedBy s (p i) b ∨ FreedByPointers s p n (i + 1) b := by
  constructor
  · rintro ⟨j, hi, hj, hf, hall⟩
    rcases Nat.eq_or_lt_of_le hi with rfl | hlt
    · exact .inl hf
    · exact .inr ⟨j, hlt, by omega, hf, fun k hk hk' => hall k (by omega) hk'⟩
  · rintro (hf | ⟨j, hi, hj, hf, hall⟩)
    · exact ⟨i, Nat.le_refl i, by omega, hf, fun k hk hk' => by rwa [Nat.le_antisymm hk' hk]⟩
    · refine ⟨j, by omega, by omega, hf, fun k hk hk' => ?_⟩
      rcases Nat.eq_or_lt_of_le hk with rfl | hlt
      · exact h
      · exact hall k hlt hk'

theorem freePointers_freed (p : Nat → Int) (n i : Nat) (s : State) :
    FreedSet (FreedByPointers s p n i) s (freePointers p n i s) := by
  induction n generalizing i s with
  | zero =>
    refine (FreedSet.refl s).congr fun b => ⟨False.elim, ?_⟩
    rintro ⟨j, hi, hj, -⟩
    omega
  | succ n ih =>
    unfold freePointers
    split
    · rename_i h
      refine (FreedSet.refl s).congr fun b => ⟨False.elim, ?_⟩
      rintro ⟨j, hi, -, -, hall⟩
      exact hall i (Nat.le_refl i) hi h
    · rename_i h
      have hfirst := freeDataBlock_freed (p i) s
      refine (hfirst.trans (ih (i + 1) _)).congr fun b => ?_
      rw [freedByPointers_succ h]
      unfold FreedByPointers
      simp only [freedBy_congr hfirst.disk]

/-! ### The invariant through freeing -/

section Inv
variable {build : Build} {s : State}

/-- The pages of the blocks that stay must still name them. -/
theorem FreedSet.inv {P : Int → Prop} {t : State} (h : FreedSet P s t) (hinv : BlockInv build s)
    (hpage : ∀ b, ¬ P b → 1 < s.blockBitmap b →
      t.cacheBitmap (s.blockBitmap b) = s.cacheBitmap (s.blockBitmap b)) : BlockInv build t := by
  have hkept : ∀ b, t.blockBitmap b ≠ 0 → ¬ P b := fun b hb hP => hb (h.freed b hP)
  have hle : ∀ b, t.blockBitmap b ≤ s.blockBitmap b := by
    intro b
    by_cases hP : P b
    · rw [h.freed b hP]
      exact Nat.zero_le _
    · rw [h.kept b hP]
  refine ⟨by rw [h.total, h.disk]; exact hinv.total, by rw [h.disk]; exact hinv.fits,
    fun b hb => ?_, fun b hb => ?_, fun b => lt_of_le_of_lt (hle b) (hinv.pageLt b),
    fun hbu b => (hle b).trans (hinv.uncached hbu b)⟩
  · unfold DataBlock
    rw [h.total]
    rw [h.kept b (hkept b hb)] at hb
    exact hinv.range b hb
  · have hP := hkept b (by omega)
    rw [h.kept b hP] at hb ⊢
    rw [hpage b hP hb]
    exact hinv.page b hb

theorem clearBlockBitmap_inv (b : Int) (hinv : BlockInv build s) :
    BlockInv build (clearBlockBitmap b s) :=
  (clearBlockBitmap_freed b s).inv hinv fun _ _ _ => rfl

theorem freeEntry_cacheBitmap (b : Int) {c : Nat} (h : c ≠ s.blockBitmap b) :
    (freeEntry b s).cacheBitmap c = s.cacheBitmap c := by
  unfold freeEntry dropPage
  dsimp only
  split
  · simp [clearBlockBitmap, Function.update_of_ne h]
  · rfl

/-- The page is given up together with its block. -/
theorem freeEntry_inv (b : Int) (hinv : BlockInv build s) : BlockInv build (freeEntry b s) :=
  (freeEntry_freed b s).inv hinv fun _ hne hb =>
    freeEntry_cacheBitmap b fun h => hne (hinv.page_inj hb h.symm).symm

theorem freeEntries_inv (tmp : Nat → Int) (n i : Nat) (hinv : BlockInv build s) :
    BlockInv build (freeEntries tmp n i s) := by
  induction n generalizing i s with
  | zero => exact hinv
  | succ n ih =>
    unfold freeEntries
    split
    · exact hinv
    · exact ih (i + 1) (freeEntry_inv _ hinv)

theorem freePointers_inv (p : Nat → Int) (n i : Nat) (hinv : BlockInv build s) :
    BlockInv build (freePointers p n i s) := by
  induction n generalizing i s with
  | zero => exact hinv
  | succ n ih =>
    unfold freePointers
    split
    · exact hinv
    · exact ih (i + 1) (clearBlockBitmap_inv _ (freeEntries_inv _ 1024 0 hinv))

end Inv

end CS330.ObjStore
