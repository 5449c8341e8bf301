import CS330.ObjStore.Pages
import CS330.ObjStore.Remount
import CS330.ObjStore.Sync

/-! A mount session of the cached build, before the cursor has been round.

The pages are handed out in order, so of two pages that name one block the later
one is the block's own. A page that a freed block left behind (`free_data_block`
does not retire the page of the table) may still be dirty when the block has a new
owner, but then the new owner's page comes later and is dirty too: `newest`. So
`cache_sync`, which goes through the pages in order, leaves on the disk what every
used block holds (`syncPages_synced`), and a remount changes nothing a reader
sees. -/
namespace CS330.ObjStore
open Bytes Spec

structure Session (X : Int → Prop) (s : State) : Prop where
  total : s.totalNumDiskBlocks ≤ s.disk.size
  range : ∀ b, s.blockBitmap b ≠ 0 → DataBlock s b
  page : ∀ b, 1 < s.blockBitmap b → s.cacheBitmap (s.blockBitmap b) = b
  last : s.lastCacheIndex = pageCalls s.log + 1
  unused : ∀ c, s.lastCacheIndex < c → s.cacheBitmap c = 0
  low : ∀ c, c < 2 → s.cacheBitmap c = 0
  named : ∀ c, s.cacheBitmap c ≠ 0 → DataBlock s (s.cacheBitmap c)
  order : ∀ c, s.cacheBitmap c ≠ 0 →
    s.blockBitmap (s.cacheBitmap c) ≤ 1 ∨ c ≤ s.blockBitmap (s.cacheBitmap c)
  newest : ∀ c, s.cacheBitmap c ≠ 0 → ¬ X (s.cacheBitmap c) →
    s.blockBitmap (s.cacheBitmap c) = c ∨ s.blockBitmap (s.cacheBitmap c) = 0 ∨
      1 < s.blockBitmap (s.cacheBitmap c) ∧ s.dirtyFlag (s.blockBitmap (s.cacheBitmap c)) = true
  clean : ∀ b, 1 < s.blockBitmap b → s.dirtyFlag (s.blockBitmap b) = false →
    s.cache (s.blockBitmap b) = s.disk.blocks b

namespace Session
variable {X Y : Int → Prop} {s t : State} {b : Int}

theorem mono (hXY : ∀ b, X b → Y b) (h : Session X s) : Session Y s :=
  ⟨h.total, h.range, h.page, h.last, h.unused, h.low, h.named, h.order,
    fun c hc hY => h.newest c hc fun hX => hY (hXY _ hX), h.clean⟩

theorem aside (ht : Aside s t) (h : Session X s) : Session X t := by
  have hlast : t.lastCacheIndex = pageCalls t.log + 1 := by
    rw [ht.pages, ht.eq]
    exact h.last
  rw [ht.eq] at hlast ⊢
  exact ⟨h.total, h.range, h.page, hlast, h.unused, h.low, h.named, h.order, h.newest, h.clean⟩

/-- No block is kept on two pages. -/
theorem page_inj (h : Session X s) {b' : Int} (hb : 1 < s.blockBitmap b)
    (heq : s.blockBitmap b' = s.blockBitmap b) : b' = b := by
  rw [← h.page b hb, ← h.page b' (by omega), heq]

theorem block_ne_zero (hb : DataBlock s b) : b ≠ 0 := by
  have := hb.1
  unfold dataBlocksStart at this
  omega

/-- An unused page is no block's page. -/
theorem page_ne (h : Session X s) {c : Nat} (hc : 1 < c) (hfree : s.cacheBitmap c = 0) :
    s.blockBitmap b ≠ c := by
  intro hb
  have hpage := h.page b (by omega)
  rw [hb, hfree] at hpage
  exact block_ne_zero (h.range b (by omega)) hpage.symm

theorem direct {blk : Block} (h₀ : 0 ≤ b) (hb : s.blockBitmap b = 0 ∨ X b ∧ s.blockBitmap b = 1)
    (h : Session X s) : Session X (s.setDisk b blk) := by
  have htotal := h.total
  refine ⟨?_, h.range, h.page, h.last, h.unused, h.low, h.named, h.order, h.newest,
    fun b' hb' hd => ?_⟩
  · show s.totalNumDiskBlocks ≤ max _ _
    omega
  · have hne : b' ≠ b := by
      rintro rfl
      have : (s.setDisk b' blk).blockBitmap b' = s.blockBitmap b' := rfl
      omega
    exact (h.clean b' hb' hd).trans (Function.update_of_ne hne _ _).symm

theorem take (hdata : DataBlock s b) (hb : s.blockBitmap b = 0) (ht : Took b s t) (h : Session X s) :
    Session (fun b' => X b' ∨ b' = b) t := by
  have hlast : t.lastCacheIndex = pageCalls t.log + 1 := by
    rw [ht.pages, ht.eq]
    exact h.last
  have hother : ∀ b', b' ≠ b → t.blockBitmap b' = s.blockBitmap b' := fun b' hne => by
    rw [ht.bitmap, Function.update_of_ne hne]
  have hself : t.blockBitmap b = 1 := by rw [ht.bitmap, Function.update_self]
  have hpaged : ∀ b', 1 < t.blockBitmap b' → b' ≠ b := by
    rintro b' hb' rfl
    omega
  have hcb : t.cacheBitmap = s.cacheBitmap := by rw [ht.eq]
  have hdirty : t.dirtyFlag = s.dirtyFlag := by rw [ht.eq]
  have hdata' : ∀ b', DataBlock t b' ↔ DataBlock s b' := fun b' => by rw [ht.eq]; rfl
  refine ⟨by rw [ht.eq]; exact h.total, fun b' hb' => ?_, fun b' hb' => ?_, hlast,
    by rw [ht.eq]; exact h.unused, by rw [hcb]; exact h.low, fun c hc => ?_, fun c hc => ?_,
    fun c hc hX => ?_, fun b' hb' hd => ?_⟩
  · rw [hdata']
    by_cases hne : b' = b
    · rw [hne]
      exact hdata
    · rw [hother b' hne] at hb'
      exact h.range b' hb'
  · have hne := hpaged b' hb'
    rw [hother b' hne] at hb' ⊢
    rw [hcb]
    exact h.page b' hb'
  · rw [hdata']
    rw [hcb] at hc ⊢
    exact h.named c hc
  · rw [hcb] at hc ⊢
    by_cases hne : s.cacheBitmap c = b
    · rw [hne, hself]
      exact .inl (Nat.le_refl 1)
    · rw [hother _ hne]
      exact h.order c hc
  · rw [hcb] at hc hX ⊢
    have hne : s.cacheBitmap c ≠ b := fun he => hX (.inr he)
    rw [hother _ hne, hdirty]
    exact h.newest c hc fun hXc => hX (.inl hXc)
  · have hne := hpaged b' hb'
    rw [hother b' hne] at hb' hd ⊢
    rw [ht.eq] at hd ⊢
    exact h.clean b' hb' hd

theorem newPage {c : Nat} {dirty : Bool} {blk : Block} (ht : NewPage b c dirty blk s t)
    (hclean : dirty = false → 0 ≤ b → b < s.disk.size → blk = s.disk.blocks b)
    (hpages : pageCalls t.log ≤ 32766) (h : Session X s) :
    Session (fun b' => X b' ∧ (b' = b → dirty = false)) t := by
  have hlast := h.last
  have hcalls := ht.pages
  have hc : c = s.lastCacheIndex + 1 := by
    rw [ht.next]
    unfold nextPage cachePages
    dsimp only
    rw [Nat.mod_eq_of_lt (by omega), if_neg (by omega)]
  have hc₁ : 1 < c := by omega
  have hbefore := ht.before
  have hdata : DataBlock s b := h.range b (by omega)
  have hself : t.blockBitmap b = c := by rw [ht.bitmap, Function.update_self]
  have hother : ∀ b', b' ≠ b → t.blockBitmap b' = s.blockBitmap b' := fun b' hne => by
    rw [ht.bitmap, Function.update_of_ne hne]
  have hcself : t.cacheBitmap c = b := by rw [ht.cacheBitmap, Function.update_self]
  have hcother : ∀ c', c' ≠ c → t.cacheBitmap c' = s.cacheBitmap c' := fun c' hne => by
    rw [ht.cacheBitmap, Function.update_of_ne hne]
  have hpage : ∀ b', s.blockBitmap b' ≠ c := fun b' => h.page_ne hc₁ ht.free
  have hdirty : ∀ b', t.dirtyFlag (s.blockBitmap b') = s.dirtyFlag (s.blockBitmap b') := fun b' => by
    rw [ht.dirtyFlag, Function.update_of_ne (hpage b')]
  have hdata' : ∀ b', DataBlock t b' ↔ DataBlock s b' := fun b' => by
    unfold DataBlock
    rw [ht.total]
  -- the pages that name a block: the new one, or one that was there before
  have hnamed : ∀ c', t.cacheBitmap c' ≠ 0 → c' = c ∨ c' ≠ c ∧ t.cacheBitmap c' = s.cacheBitmap c' ∧
      s.cacheBitmap c' ≠ 0 ∧ c' ≤ s.lastCacheIndex := by
    intro c' hc'
    by_cases hne : c' = c
    · exact .inl hne
    · rw [hcother c' hne] at hc'
      refine .inr ⟨hne, hcother c' hne, hc', ?_⟩
      by_contra hlt
      exact hc' (h.unused c' (by omega))
  refine ⟨by rw [ht.total, ht.disk]; exact h.total, fun b' hb' => ?_, fun b' hb' => ?_,
    by rw [ht.last]; omega, fun c' hc' => ?_, fun c' hc' => ?_, fun c' hc' => ?_, fun c' hc' => ?_,
    fun c' hc' hX => ?_, fun b' hb' hd => ?_⟩
  · rw [hdata']
    by_cases hne : b' = b
    · rw [hne]
      exact hdata
    · rw [hother b' hne] at hb'
      exact h.range b' hb'
  · by_cases hne : b' = b
    · rw [hne, hself, hcself]
    · rw [hother b' hne] at hb' ⊢
      rw [hcother _ (hpage b')]
      exact h.page b' hb'
  · rw [ht.last] at hc'
    rw [hcother c' (by omega)]
    exact h.unused c' (by omega)
  · rw [hcother c' (by omega)]
    exact h.low c' hc'
  · rw [hdata']
    rcases hnamed c' hc' with rfl | ⟨-, heq, hs, -⟩
    · rw [hcself]
      exact hdata
    · rw [heq]
      exact h.named c' hs
  · rcases hnamed c' hc' with rfl | ⟨-, heq, hs, hle⟩
    · rw [hcself, hself]
      exact .inr (Nat.le_refl _)
    · rw [heq]
      by_cases hne : s.cacheBitmap c' = b
      · rw [hne, hself]
        exact .inr (by omega)
      · rw [hother _ hne]
        exact h.order c' hs
  · rcases hnamed c' hc' with rfl | ⟨-, heq, hs, -⟩
    · rw [hcself]
      exact .inl hself
    · rw [heq] at hX ⊢
      by_cases hne : s.cacheBitmap c' = b
      · -- a page left behind: the new one is dirty, for a used block had no page
        rw [hne, hself]
        cases dirty with
        | true => exact .inr (.inr ⟨hc₁, by rw [ht.dirtyFlag, Function.update_self]⟩)
        | false =>
          have hold := h.newest c' hs fun hXc => hX ⟨hXc, fun _ => rfl⟩
          rw [hne, hbefore] at hold
          rcases hold with hold | hold | hold
          · exact absurd (h.low c' (by omega)) hs
          · omega
          · omega
      · rw [hother _ hne, hdirty]
        exact h.newest c' hs fun hXc => hX ⟨hXc, fun he => absurd he hne⟩
  · by_cases hne : b' = b
    · rw [hne, hself] at hd ⊢
      rw [ht.dirtyFlag, Function.update_self] at hd
      rw [ht.cache, Function.update_self, ht.disk]
      have htotal := h.total
      exact hclean hd (by have := hdata.1; omega) (by have := hdata.2; omega)
    · rw [hother b' hne] at hb' hd ⊢
      rw [hdirty] at hd
      rw [ht.cache, Function.update_of_ne (hpage b'), ht.disk]
      exact h.clean b' hb' hd

theorem rewrite {blk : Block} (hb : 1 < s.blockBitmap b) (h : Session X s) :
    Session (fun b' => X b' ∧ b' ≠ b)
      ((s.setPage (s.blockBitmap b) blk).setDirty (s.blockBitmap b) true) := by
  have hdirty : ∀ c, s.dirtyFlag c = true → Function.update s.dirtyFlag (s.blockBitmap b) true c = true := by
    intro c hc
    by_cases hne : c = s.blockBitmap b
    · rw [hne, Function.update_self]
    · rwa [Function.update_of_ne hne]
  refine ⟨h.total, h.range, h.page, h.last, h.unused, h.low, h.named, h.order, fun c hc hX => ?_,
    fun b' hb' hd => ?_⟩
  · show s.blockBitmap (s.cacheBitmap c) = c ∨ s.blockBitmap (s.cacheBitmap c) = 0 ∨
      1 < s.blockBitmap (s.cacheBitmap c) ∧
        Function.update s.dirtyFlag (s.blockBitmap b) true (s.blockBitmap (s.cacheBitmap c)) = true
    by_cases hne : s.cacheBitmap c = b
    · rw [hne, Function.update_self]
      exact .inr (.inr ⟨hb, rfl⟩)
    · rcases h.newest c hc fun hXc => hX ⟨hXc, hne⟩ with hold | hold | ⟨h₁, h₂⟩
      · exact .inl hold
      · exact .inr (.inl hold)
      · exact .inr (.inr ⟨h₁, hdirty _ h₂⟩)
  · have hd' : Function.update s.dirtyFlag (s.blockBitmap b) true (s.blockBitmap b') = false := hd
    have hne : s.blockBitmap b' ≠ s.blockBitmap b := by
      intro he
      rw [he, Function.update_self] at hd'
      cases hd'
    rw [Function.update_of_ne hne] at hd'
    exact (Function.update_of_ne hne _ _).trans (h.clean b' hb' hd')

/-- The invariant of a session whose cursor has not been round, as a page rule. -/
theorem rule : PageRule fun X s => pageCalls s.log ≤ 32766 → Session X s where
  mono hXY h hp := (h hp).mono hXY
  aside ht h hp := (h (by rw [← ht.pages]; exact hp)).aside ht
  direct h₀ hb h hp := (h hp).direct h₀ hb
  take hdata hb ht h hp := (h (by rw [← ht.pages]; exact hp)).take hdata hb ht
  newPage ht hclean h hp := (h (by have := ht.pages; omega)).newPage ht hclean hp
  rewrite hb h hp := (h hp).rewrite hb

theorem walk {F : Prop} (hw : Walk .cached F s t) (hl : Live t) (hf : ¬ Failed t)
    (hp : pageCalls t.log ≤ 32766) (h : Session X s) : Session X t :=
  rule.walk hw hl hf (fun _ => h) hp

end Session

/-! ### Freeing -/

/-- `b` was freed, with its page or without it. -/
structure Freed (b : Int) (s t : State) : Prop extends FreedSet (fun b' => b' = b) s t where
  cacheBitmap : ∀ c, t.cacheBitmap c = s.cacheBitmap c ∨ t.cacheBitmap c = 0
  others : ∀ c, c ≠ s.blockBitmap b → t.cacheBitmap c = s.cacheBitmap c ∧ t.dirtyFlag c = s.dirtyFlag c

theorem clearBlockBitmap_freed' (b : Int) (s : State) : Freed b s (clearBlockBitmap b s) :=
  ⟨clearBlockBitmap_freed b s, fun _ => .inl rfl, fun _ _ => ⟨rfl, rfl⟩⟩

theorem freeEntry_freed' (b : Int) (s : State) : Freed b s (freeEntry b s) := by
  refine ⟨freeEntry_freed b s, fun c => ?_, fun c hc => ⟨freeEntry_cacheBitmap b hc, ?_⟩⟩
  · by_cases hc : c = s.blockBitmap b
    · unfold freeEntry dropPage
      dsimp only
      split
      · exact .inr (by simp [clearBlockBitmap, hc])
      · exact .inl rfl
    · exact .inl (freeEntry_cacheBitmap b hc)
  · unfold freeEntry dropPage
    dsimp only
    split
    · simp [clearBlockBitmap, Function.update_of_ne hc]
    · rfl

theorem Session.freed {X : Int → Prop} {s t : State} {b : Int} (ht : Freed b s t) (h : Session X s) :
    Session X t := by
  have hnamed : ∀ c, t.cacheBitmap c ≠ 0 → t.cacheBitmap c = s.cacheBitmap c := fun c hc =>
    (ht.cacheBitmap c).resolve_right hc
  have hself : t.blockBitmap b = 0 := ht.freed b rfl
  have hother : ∀ b', b' ≠ b → t.blockBitmap b' = s.blockBitmap b' := ht.kept
  have hne : ∀ b', t.blockBitmap b' ≠ 0 → b' ≠ b := by
    rintro b' hb' rfl
    exact hb' hself
  have hpage : ∀ b', b' ≠ b → 1 < s.blockBitmap b' → s.blockBitmap b' ≠ s.blockBitmap b := fun b' hb hlt he =>
    hb (h.page_inj (by omega) he)
  have hdata : ∀ b', DataBlock t b' ↔ DataBlock s b' := fun b' => by
    unfold DataBlock
    rw [ht.total]
  refine ⟨by rw [ht.total, ht.disk]; exact h.total, fun b' hb' => ?_, fun b' hb' => ?_,
    by rw [ht.last, ht.pages]; exact h.last, fun c hc => ?_, fun c hc => ?_, fun c hc => ?_,
    fun c hc => ?_, fun c hc hX => ?_, fun b' hb' hd => ?_⟩
  · rw [hdata]
    rw [hother b' (hne b' hb')] at hb'
    exact h.range b' hb'
  · have hb := hne b' (by omega)
    rw [hother b' hb] at hb' ⊢
    rw [(ht.others _ (hpage b' hb hb')).1]
    exact h.page b' hb'
  · rw [ht.last] at hc
    by_contra hn
    exact hn ((hnamed c hn).trans (h.unused c hc))
  · by_contra hn
    exact hn ((hnamed c hn).trans (h.low c hc))
  · rw [hdata, hnamed c hc]
    rw [hnamed c hc] at hc
    exact h.named c hc
  · have heq := hnamed c hc
    rw [heq] at hc ⊢
    by_cases hb : s.cacheBitmap c = b
    · rw [hb, hself]
      exact .inl (Nat.zero_le _)
    · rw [hother _ hb]
      exact h.order c hc
  · have heq := hnamed c hc
    rw [heq] at hc hX ⊢
    by_cases hb : s.cacheBitmap c = b
    · rw [hb]
      exact .inr (.inl hself)
    · rw [hother _ hb]
      rcases h.newest c hc hX with hold | hold | ⟨h₁, h₂⟩
      · exact .inl hold
      · exact .inr (.inl hold)
      · exact .inr (.inr ⟨h₁, by rw [(ht.others _ (hpage _ hb h₁)).2]; exact h₂⟩)
  · have hb := hne b' (by omega)
    rw [hother b' hb] at hb' hd ⊢
    rw [(ht.others _ (hpage b' hb hb')).2] at hd
    rw [ht.cache, ht.disk]
    exact h.clean b' hb' hd

theorem Session.release {X : Int → Prop} {s t : State} (ht : Release s t) (h : Session X s) :
    Session X t := by
  induction ht with
  | refl s => exact h
  | trans _ _ ih₁ ih₂ => exact ih₂ (ih₁ h)
  | entry b s => exact h.freed (freeEntry_freed' b s)
  | clear b s => exact h.freed (clearBlockBitmap_freed' b s)

theorem Session.destroyObject {X : Int → Prop} {s : State} (key : Key) (h : Session X s) :
    Session X (ObjStore.destroyObject key s).2 := by
  unfold ObjStore.destroyObject
  dsimp only
  split_ifs
  · exact h
  · exact h
  · exact (h.release (freePointers_release _ 4 0 s)).aside ⟨rfl, rfl⟩

/-- Between calls no block is pending. -/
abbrev InSession : State → Prop := Session fun _ => False

theorem exec_session {op : Op} {r : Ret} {s t : State} (h : InSession s)
    (hx : exec .cached op s = some (r, t)) (hop : op ≠ .remount) (hl : Live t) (hf : ¬ Failed t)
    (hp : pageCalls t.log ≤ 32766) : InSession t := by
  rcases exec_cases hx hop with ⟨key, -, rfl⟩ | hw
  · exact h.destroyObject key
  · exact h.walk hw hl hf hp

/-! ### Writing back -/

/-- After the first `n` rounds of `cache_sync`. -/
structure SyncedTo (n : Nat) (s u : State) : Prop where
  obj : u.obj = s.obj
  size : u.disk.size = s.disk.size
  cache : u.cache = s.cache
  later : ∀ c, n ≤ c → u.cacheBitmap c = s.cacheBitmap c ∧ u.dirtyFlag c = s.dirtyFlag c
  unnamed : ∀ b, (∀ c, c < n → s.cacheBitmap c = 0 ∨ s.cacheBitmap c ≠ b) →
    u.disk.blocks b = s.disk.blocks b ∧ u.blockBitmap b = s.blockBitmap b
  written : ∀ b, 1 < s.blockBitmap b → s.blockBitmap b < n → u.disk.blocks b = s.cache (s.blockBitmap b)
  marked : ∀ c, c < n → s.cacheBitmap c ≠ 0 → u.blockBitmap (s.cacheBitmap c) = 1

/-- A block with a clean page has no other. -/
theorem Session.clean_alone {s : State} (h : InSession s) {b : Int} (hb : 1 < s.blockBitmap b)
    (hd : s.dirtyFlag (s.blockBitmap b) = false) {c : Nat} (hc : s.cacheBitmap c = b) (h₀ : b ≠ 0) :
    c = s.blockBitmap b := by
  have hnew := h.newest c (by rw [hc]; exact h₀) id
  rw [hc] at hnew
  rcases hnew with hnew | hnew | ⟨-, hnew⟩
  · exact hnew.symm
  · omega
  · rw [hd] at hnew
    cases hnew

/-- A page of a block that has one comes no later. -/
theorem Session.page_last {s : State} (h : InSession s) {b : Int} (hb : 1 < s.blockBitmap b) {c : Nat}
    (hc : s.cacheBitmap c = b) (h₀ : b ≠ 0) : c ≤ s.blockBitmap b := by
  have hord := h.order c (by rw [hc]; exact h₀)
  rw [hc] at hord
  exact hord.resolve_left (by omega)

theorem syncPage_next {n : Nat} {s u : State} (h : InSession s) (hu : SyncedTo n s u)
    (hm : Marked (n + 1) s (syncPage n u)) : SyncedTo (n + 1) s (syncPage n u) := by
  obtain ⟨hcb, hdirty⟩ := hu.later n (Nat.le_refl n)
  have hunnamed : ∀ b, (∀ c, c < n + 1 → s.cacheBitmap c = 0 ∨ s.cacheBitmap c ≠ b) →
      (syncPage n u).blockBitmap b = s.blockBitmap b :=
    fun b hb => hm.unnamed b fun c hc hne => (hb c hc).resolve_left hne
  by_cases h₀ : s.cacheBitmap n = 0
  · -- no block on this page
    rw [syncPage_free (hcb.trans h₀)] at hm hunnamed ⊢
    refine ⟨hu.obj, hu.size, hu.cache, fun c hc => hu.later c (by omega), fun b hb =>
      hu.unnamed b fun c hc => hb c (by omega), fun b hb hlt => hu.written b hb ?_, hm.named⟩
    have hne : s.blockBitmap b ≠ n := by
      rintro rfl
      rw [h.page b hb] at h₀
      exact Session.block_ne_zero (h.range b (by omega)) h₀
    omega
  have hround := syncPage_givenUp (i := n) (s := u) (by rwa [hcb])
  have hother : ∀ b, b ≠ s.cacheBitmap n → (syncPage n u).disk.blocks b = u.disk.blocks b := by
    intro b hb
    rw [hround.disk, writtenBack_other (by rwa [hcb])]
  have hlater : ∀ c, n + 1 ≤ c → (syncPage n u).cacheBitmap c = s.cacheBitmap c ∧
      (syncPage n u).dirtyFlag c = s.dirtyFlag c :=
    fun c hc => ⟨hm.later c hc, (hround.dirty c (by omega)).trans (hu.later c (by omega)).2⟩
  have hkept : ∀ b, (∀ c, c < n + 1 → s.cacheBitmap c = 0 ∨ s.cacheBitmap c ≠ b) →
      (syncPage n u).disk.blocks b = s.disk.blocks b ∧ (syncPage n u).blockBitmap b = s.blockBitmap b := by
    intro b hb
    refine ⟨(hother b ((hb n (by omega)).resolve_left h₀).symm).trans ?_, hunnamed b hb⟩
    exact (hu.unnamed b fun c hc => hb c (by omega)).1
  have hsize := h.total
  obtain ⟨hlow, hhigh⟩ := h.named n h₀
  cases hd : s.dirtyFlag n with
  | false =>
    -- a clean page: the disk has it already
    have hdisk : (syncPage n u).disk = u.disk := by rw [hround.disk, writtenBack_clean (hdirty.trans hd)]
    refine ⟨hround.obj.trans hu.obj, by rw [hdisk, hu.size], hround.cache.trans hu.cache, hlater, hkept,
      fun b hb hlt => ?_, hm.named⟩
    rw [hdisk]
    rcases Nat.lt_or_ge (s.blockBitmap b) n with hlt' | hge
    · exact hu.written b hb hlt'
    · have hn : s.blockBitmap b = n := by omega
      have hb₀ := Session.block_ne_zero (h.range b (by omega))
      rw [← hn] at hd
      have halone := hu.unnamed b fun c hc => by
        by_cases hcb' : s.cacheBitmap c = b
        · exact absurd (h.clean_alone hb hd hcb' hb₀) (by omega)
        · exact .inr hcb'
      exact halone.1.trans (h.clean b hb hd).symm
  | true =>
    -- a dirty page: no earlier page of its block is the block's own
    have hdisk := hround.disk.trans (writtenBack_dirty (hdirty.trans hd) (by omega))
    rw [hcb, hu.cache] at hdisk
    refine ⟨hround.obj.trans hu.obj, ?_, hround.cache.trans hu.cache, hlater, hkept, fun b hb hlt => ?_, hm.named⟩
    · rw [hdisk]
      show max u.disk.size ((s.cacheBitmap n).toNat + 1) = _
      rw [hu.size]
      omega
    · by_cases hbn : b = s.cacheBitmap n
      · have hle := h.page_last hb hbn.symm (by rw [hbn]; exact h₀)
        have hn : s.blockBitmap b = n := by omega
        rw [hn, hdisk, hbn]
        exact Function.update_self ..
      · have hne : s.blockBitmap b ≠ n := fun hn => hbn (by rw [← h.page b hb, hn])
        exact (hother b hbn).trans (hu.written b hb (by omega))

theorem syncPages_syncedTo {s : State} (h : InSession s) (n : Nat) : SyncedTo n s (syncPages n s) := by
  induction n with
  | zero =>
    exact ⟨rfl, rfl, rfl, fun _ _ => ⟨rfl, rfl⟩, fun _ _ => ⟨rfl, rfl⟩, fun _ _ hlt => absurd hlt
      (Nat.not_lt_zero _), fun _ hc => absurd hc (Nat.not_lt_zero _)⟩
  | succ n ih => exact syncPage_next h ih (syncPages_marked (n + 1) s)

/-- `cache_sync` leaves every used block on the disk. -/
theorem syncPages_synced {s : State} (h : InSession s) (hfits : s.disk.size ≤ bitmapSize)
    (hp : pageCalls s.log ≤ 32766) {n : Nat} (hn : cachePages ≤ n) : Synced s (syncPages n s) := by
  have hu := syncPages_syncedTo h n
  have hlast := h.last
  have hcount : s.lastCacheIndex < n := by unfold cachePages at hn; omega
  have hpage : ∀ b, 1 < s.blockBitmap b → s.blockBitmap b < n := by
    intro b hb
    by_contra hlt
    have hcb := h.page b hb
    rw [h.unused _ (by omega)] at hcb
    exact Session.block_ne_zero (h.range b (by omega)) hcb.symm
  -- a block is named by a page, or it is as it was
  have hcases : ∀ b, (∃ c, c < n ∧ s.cacheBitmap c ≠ 0 ∧ s.cacheBitmap c = b ∧
      (syncPages n s).blockBitmap b = 1) ∨
      (∀ c, c < n → s.cacheBitmap c = 0 ∨ s.cacheBitmap c ≠ b) := by
    intro b
    by_cases hex : ∃ c, c < n ∧ s.cacheBitmap c ≠ 0 ∧ s.cacheBitmap c = b
    · obtain ⟨c, hc, h₀, rfl⟩ := hex
      exact .inl ⟨c, hc, h₀, rfl, hu.marked c hc h₀⟩
    · refine .inr fun c hc => ?_
      by_contra hn
      rw [not_or, not_not] at hn
      exact hex ⟨c, hc, hn.1, hn.2⟩
  have hunpaged : ∀ b, (∀ c, c < n → s.cacheBitmap c = 0 ∨ s.cacheBitmap c ≠ b) →
      s.blockBitmap b ≤ 1 := by
    intro b hb
    by_contra hlt
    have hb₁ : 1 < s.blockBitmap b := by omega
    have hcb := h.page b hb₁
    rcases hb _ (hpage b hb₁) with h₀ | hne
    · rw [hcb] at h₀
      exact Session.block_ne_zero (h.range b (by omega)) h₀
    · exact hne hcb
  refine ⟨hu.obj, by rw [hu.size], by rw [hu.size]; exact hfits, fun b => ?_, fun b hb => ?_,
    fun b hb => ?_, fun b hdata hb => ?_⟩
  · rcases hcases b with ⟨-, -, -, -, hone⟩ | hnone
    · omega
    · rw [(hu.unnamed b hnone).2]
      exact hunpaged b hnone
  · rcases hcases b with ⟨c, -, h₀, rfl, -⟩ | hnone
    · exact .inr (h.named c h₀)
    · rw [(hu.unnamed b hnone).2] at hb
      exact .inr (h.range b hb)
  · rcases hcases b with ⟨-, -, -, -, hone⟩ | hnone
    · omega
    · rw [(hu.unnamed b hnone).2]
      exact hb
  · unfold view
    by_cases hb₁ : 1 < s.blockBitmap b
    · rw [if_pos hb₁]
      exact hu.written b hb₁ (hpage b hb₁)
    · rw [if_neg hb₁]
      refine (hu.unnamed b fun c _ => ?_).1
      by_contra hn
      rw [not_or, not_not] at hn
      -- a used block without a page is named by none
      have hnew := h.newest c hn.1 id
      rw [hn.2] at hnew
      rcases hnew with hnew | hnew | ⟨hnew, -⟩
      · exact hn.1 (h.low c (by omega))
      · exact hb hnew
      · exact hb₁ hnew

end CS330.ObjStore
