import CS330.ObjStore.Remount
import CS330.ObjStore.Session
import CS330.ObjStore.Sync

/-! Blocks and pages that name each other.

`Consistent s`: a block's page names the block, and the block a page names has that page.
Every walk that finds its blocks keeps it, and so does freeing a block together with
its page. `destroy_object` frees the blocks of the tables without their pages. -/
namespace CS330.ObjStore

structure Consistent (s : State) : Prop where
  page : ∀ b, 1 < s.blockBitmap b → s.cacheBitmap (s.blockBitmap b) = b
  named : ∀ c, s.cacheBitmap c ≠ 0 → s.blockBitmap (s.cacheBitmap c) = c

/-- A consistent store whose used blocks are data blocks and whose pages are numbered from 2. -/
structure Paired (s : State) : Prop extends Consistent s where
  total : s.totalNumDiskBlocks ≤ s.disk.size
  range : ∀ b, s.blockBitmap b ≠ 0 → DataBlock s b
  low : ∀ c, c < 2 → s.cacheBitmap c = 0
  pageLt : ∀ b, s.blockBitmap b < cachePages

namespace Paired
variable {s t : State} {b : Int}

theorem block_ne_zero (h : Paired s) (hb : s.blockBitmap b ≠ 0) : b ≠ 0 :=
  Session.block_ne_zero (h.range b hb)

theorem page_inj (h : Paired s) {b' : Int} (hb : 1 < s.blockBitmap b)
    (heq : s.blockBitmap b' = s.blockBitmap b) : b' = b := by
  rw [← h.page b hb, ← h.page b' (by omega), heq]

/-- A block with no page is named by none. -/
theorem unnamed (h : Paired s) (hb : s.blockBitmap b ≤ 1) {c : Nat} (hc : s.cacheBitmap c ≠ 0) :
    s.cacheBitmap c ≠ b := by
  intro heq
  have hback := h.named c hc
  rw [heq] at hback
  exact hc (h.low c (by omega))

theorem aside (ht : Aside s t) (h : Paired s) : Paired t := by
  rw [ht.eq]
  exact ⟨⟨h.page, h.named⟩, h.total, h.range, h.low, h.pageLt⟩

theorem setDisk {blk : Block} (h : Paired s) : Paired (s.setDisk b blk) :=
  ⟨⟨h.page, h.named⟩, Nat.le_trans h.total (Nat.le_max_left _ _), h.range, h.low, h.pageLt⟩

theorem take (hdata : DataBlock s b) (hb : s.blockBitmap b = 0) (ht : Took b s t) (h : Paired s) :
    Paired t := by
  have hother : ∀ b', b' ≠ b → t.blockBitmap b' = s.blockBitmap b' := fun b' hne => by
    rw [ht.bitmap, Function.update_of_ne hne]
  have hself : t.blockBitmap b = 1 := by rw [ht.bitmap, Function.update_self]
  have hcb : t.cacheBitmap = s.cacheBitmap := by rw [ht.eq]
  have hne : ∀ b', 1 < t.blockBitmap b' → b' ≠ b := by
    rintro b' hb' rfl
    omega
  refine ⟨⟨fun b' hb' => ?_, fun c hc => ?_⟩, ?_, fun b' hb' => ?_, fun c hc => ?_, fun b' => ?_⟩
  · have hbb := hne b' hb'
    rw [hother b' hbb] at hb' ⊢
    rw [hcb]
    exact h.page b' hb'
  · rw [hcb] at hc ⊢
    rw [hother _ (h.unnamed (by omega) hc)]
    exact h.named c hc
  · rw [ht.eq]
    exact h.total
  · by_cases hbb : b' = b
    · rw [hbb, ht.eq]
      exact hdata
    · rw [hother b' hbb] at hb'
      rw [ht.eq]
      exact h.range b' hb'
  · rw [hcb]
    exact h.low c hc
  · by_cases hbb : b' = b
    · rw [hbb, hself]
      decide
    · rw [hother b' hbb]
      exact h.pageLt b'

theorem newPage {c : Nat} {dirty : Bool} {blk : Block} (ht : NewPage b c dirty blk s t) (h : Paired s) :
    Paired t := by
  obtain ⟨hlow, hlt⟩ := nextPage_bounds s.lastCacheIndex
  rw [← ht.next] at hlow hlt
  have hb := ht.before
  have hself : t.blockBitmap b = c := by rw [ht.bitmap, Function.update_self]
  have hother : ∀ b', b' ≠ b → t.blockBitmap b' = s.blockBitmap b' := fun b' hne => by
    rw [ht.bitmap, Function.update_of_ne hne]
  have hpage : t.cacheBitmap c = b := by rw [ht.cacheBitmap, Function.update_self]
  have hpages : ∀ c', c' ≠ c → t.cacheBitmap c' = s.cacheBitmap c' := fun c' hne => by
    rw [ht.cacheBitmap, Function.update_of_ne hne]
  refine ⟨⟨fun b' hb' => ?_, fun c' hc' => ?_⟩, ?_, fun b' hb' => ?_, fun c' hc' => ?_, fun b' => ?_⟩
  · by_cases hbb : b' = b
    · rw [hbb, hself, hpage]
    · rw [hother b' hbb] at hb' ⊢
      have hne : s.blockBitmap b' ≠ c := fun heq => by
        have hback := h.page b' hb'
        rw [heq, ht.free] at hback
        exact h.block_ne_zero (by omega) hback.symm
      rw [hpages _ hne]
      exact h.page b' hb'
  · by_cases hcc : c' = c
    · rw [hcc, hpage, hself]
    · rw [hpages c' hcc] at hc' ⊢
      rw [hother _ (h.unnamed (by omega) hc')]
      exact h.named c' hc'
  · rw [ht.total, ht.disk]
    exact h.total
  · have hused : s.blockBitmap b' ≠ 0 := by
      by_cases hbb : b' = b
      · rw [hbb]
        omega
      · rwa [← hother b' hbb]
    unfold DataBlock
    rw [ht.total]
    exact h.range b' hused
  · rw [hpages c' (by omega)]
    exact h.low c' hc'
  · by_cases hbb : b' = b
    · rw [hbb, hself]
      exact hlt
    · rw [hother b' hbb]
      exact h.pageLt b'

theorem rule : PageRule fun _ s => Paired s where
  mono _ h := h
  aside ht h := h.aside ht
  direct _ _ h := h.setDisk
  take hdata hb ht h := h.take hdata hb ht
  newPage ht _ h := h.newPage ht
  rewrite _ h := ⟨⟨h.page, h.named⟩, h.total, h.range, h.low, h.pageLt⟩

/-! ### Freeing -/

/-- A block is freed together with its page, or had none. -/
theorem freed (ht : Freed b s t) (hpage : 1 < s.blockBitmap b → t.cacheBitmap (s.blockBitmap b) = 0)
    (h : Paired s) : Paired t := by
  have hother : ∀ b', b' ≠ b → t.blockBitmap b' = s.blockBitmap b' := ht.kept
  have hself : t.blockBitmap b = 0 := ht.freed b rfl
  have hne : ∀ b', t.blockBitmap b' ≠ 0 → b' ≠ b := by
    rintro b' hb' rfl
    exact hb' hself
  refine ⟨⟨fun b' hb' => ?_, fun c hc => ?_⟩, ?_, fun b' hb' => ?_, fun c hc => ?_, fun b' => ?_⟩
  · have hbb := hne b' (by omega)
    rw [hother b' hbb] at hb' ⊢
    rw [(ht.others _ fun heq => hbb (h.page_inj (by omega) heq)).1]
    exact h.page b' hb'
  · have heq := (ht.cacheBitmap c).resolve_right hc
    have hc' : s.cacheBitmap c ≠ 0 := heq ▸ hc
    have hback := h.named c hc'
    have hbb : s.cacheBitmap c ≠ b := by
      intro hbb
      rw [hbb] at hback
      rcases Nat.lt_or_ge 1 c with hlt | hle
      · exact hc (by rw [← hback]; exact hpage (by omega))
      · exact hc' (h.low c (by omega))
    rw [heq, hother _ hbb]
    exact hback
  · rw [ht.total, ht.disk]
    exact h.total
  · unfold DataBlock
    rw [ht.total]
    rw [hother b' (hne b' hb')] at hb'
    exact h.range b' hb'
  · rcases ht.cacheBitmap c with heq | heq
    · rw [heq]
      exact h.low c hc
    · exact heq
  · by_cases hbb : b' = b
    · rw [hbb, hself]
      decide
    · rw [hother b' hbb]
      exact h.pageLt b'

theorem freeEntry (b : Int) (h : Paired s) : Paired (ObjStore.freeEntry b s) := by
  refine h.freed (freeEntry_freed' b s) fun hb => ?_
  simp [ObjStore.freeEntry, dropPage, hb, ObjStore.clearBlockBitmap]

theorem freeEntries (tmp : Nat → Int) (n i : Nat) (h : Paired s) : Paired (ObjStore.freeEntries tmp n i s) := by
  induction n generalizing i s with
  | zero => exact h
  | succ n ih =>
    unfold ObjStore.freeEntries
    split
    · exact h
    · exact ih _ (h.freeEntry _)

theorem clearBlockBitmap {b : Int} (hb : s.blockBitmap b ≤ 1) (h : Paired s) :
    Paired (ObjStore.clearBlockBitmap b s) :=
  h.freed (clearBlockBitmap_freed' b s) fun hlt => absurd hlt (by omega)

end Paired

theorem FreedSet.bitmap_le {P : Int → Prop} {s t : State} (h : FreedSet P s t) (b : Int) :
    t.blockBitmap b ≤ s.blockBitmap b := by
  by_cases hP : P b
  · rw [h.freed b hP]
    exact Nat.zero_le _
  · rw [h.kept b hP]

/-- The tables that are given back have no pages. -/
theorem Paired.freePointers {s : State} (p : Nat → Int) (n i : Nat) (h : Paired s)
    (hp : ∀ j, i ≤ j → j < i + n → (∀ k, i ≤ k → k ≤ j → p k ≠ -1) → s.blockBitmap (p j) ≤ 1) :
    Paired (ObjStore.freePointers p n i s) := by
  induction n generalizing i s with
  | zero => exact h
  | succ n ih =>
    unfold ObjStore.freePointers
    split
    · exact h
    · rename_i hne
      have hfreed := freeDataBlock_freed (p i) s
      refine ih _ ?_ fun j hj hj' hbefore => Nat.le_trans (hfreed.bitmap_le _) ?_
      · have hentries := freeEntries_freed (ints (readBlock s (p i) 0 zeroBlock).2) 1024 0 s
        refine (h.freeEntries _ 1024 0).clearBlockBitmap (Nat.le_trans (hentries.bitmap_le _) ?_)
        refine hp i (Nat.le_refl i) (by omega) fun k hk hk' => ?_
        rwa [Nat.le_antisymm hk' hk]
      · refine hp j (by omega) (by omega) fun k hk hk' => ?_
        rcases Nat.lt_or_ge i k with hlt | hle
        · exact hbefore k hlt hk'
        · rwa [Nat.le_antisymm hle hk]

/-- The tables of the key's object that `destroy_object` comes to have no pages. -/
def TablesUnpaged (key : Key) (s : State) : Prop :=
  ∀ j, j < 4 → (∀ i, i ≤ j → (s.obj (idToIndex (findObjectId key s))).dataBlockPointers i ≠ -1) →
    s.blockBitmap ((s.obj (idToIndex (findObjectId key s))).dataBlockPointers j) ≤ 1

theorem Paired.destroyObject {s : State} {key : Key} (h : Paired s)
    (hkey : findObjectId key s ≠ -1 → TablesUnpaged key s) : Paired (ObjStore.destroyObject key s).2 := by
  unfold ObjStore.destroyObject
  dsimp only
  split_ifs with hfind
  · exact h
  · exact h
  · refine (h.freePointers _ 4 0 fun j _ hj hbefore => ?_).aside ⟨rfl, rfl⟩
    exact hkey hfind j (by omega) fun i hi => hbefore i (Nat.zero_le i) hi

/-! ### Remounting -/

/-- A remount gives up all pages and finds every block unpaged. -/
theorem Paired.remount {s : State} (h : Paired s) : Paired (objstoreInit (objstoreDestroy .cached s)) := by
  obtain ⟨u, hu⟩ : ∃ u, syncPages cachePages s = u := ⟨_, rfl⟩
  have hmarked := syncPages_marked cachePages s
  have ht : Mounted u (objstoreInit (objstoreDestroy .cached s)) := by
    rw [objstoreDestroy, cacheSync, hu]
    exact writeSuper_mounted u
  rw [hu] at hmarked
  -- a block is named by its page and marked, or it is as it was and has none
  have hbit : ∀ b, u.blockBitmap b ≤ 1 ∧ (u.blockBitmap b ≠ 0 → s.blockBitmap b ≠ 0) := by
    intro b
    by_cases hex : ∃ c, c < cachePages ∧ s.cacheBitmap c ≠ 0 ∧ s.cacheBitmap c = b
    · obtain ⟨c, hc, h₀, rfl⟩ := hex
      rw [hmarked.named c hc h₀, h.named c h₀]
      refine ⟨Nat.le_refl 1, ?_⟩
      rintro - rfl
      exact h₀ (h.low 0 (by omega))
    · rw [hmarked.unnamed b fun c hc h₀ heq => hex ⟨c, hc, h₀, heq⟩]
      refine ⟨Nat.not_lt.mp fun hlt => hex ⟨_, h.pageLt b, ?_, h.page b hlt⟩, id⟩
      rw [h.page b hlt]
      exact h.block_ne_zero (by omega)
  have hle : ∀ b, (objstoreInit (objstoreDestroy .cached s)).blockBitmap b ≤ u.blockBitmap b := by
    intro b
    by_cases hin : 0 ≤ b ∧ b < bitmapSize
    · have := (hbit b).1
      rw [ht.bitmap b hin.1 hin.2 (by omega)]
    · rw [ht.outside b hin]
      exact Nat.zero_le _
  obtain ⟨-, -, hpages⟩ := ht.fresh
  refine ⟨⟨fun b hb => ?_, fun c hc => absurd (hpages c).1 hc⟩, Nat.le_of_eq ht.total, fun b hb => ?_,
    fun c _ => (hpages c).1, fun b => ?_⟩
  · have := (hbit b).1
    have := hle b
    omega
  · obtain ⟨hlow, hhigh⟩ := h.range b ((hbit b).2 (by have := hle b; omega))
    have htotal := h.total
    have hsize := hmarked.size
    refine ⟨hlow, ?_⟩
    rw [ht.total, ht.size]
    omega
  · have := (hbit b).1
    have := hle b
    unfold cachePages
    omega

end CS330.ObjStore
