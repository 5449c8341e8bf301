import CS330.ObjStore.Alloc
import Mathlib.Logic.Function.Iterate

/-! When a call comes back: the page cursor.

`get_free_cache_page` hands out the pages in turn. A call that asks for no more
pages than lie unused ahead of the cursor never meets `flush_cache`, takes no
mutex twice, and leaves the pages it did not ask for unused (`Cursor`). The
uncached build asks for none. -/
namespace CS330.ObjStore

/-- The next `m` pages the cursor comes to are unused. -/
def Unused (m : Nat) (s : State) : Prop :=
  ∀ i < m, s.cacheBitmap (nextPage^[i + 1] s.lastCacheIndex) = 0

theorem nextPage_iterate (k : Nat) {c : Nat} (h₂ : 2 ≤ c) (hlt : c < cachePages) :
    nextPage^[k] c = 2 + (c - 2 + k) % 32766 := by
  unfold cachePages at hlt
  induction k with
  | zero =>
    rw [Function.iterate_zero, id]
    omega
  | succ k ih =>
    rw [Function.iterate_succ_apply', ih]
    unfold nextPage cachePages
    dsimp only
    split <;> omega

/-- The cursor does not come back to a page before it has been to all the others. -/
theorem nextPage_iterate_ne {k last : Nat} (h₀ : 0 < k) (hk : k < 32766) :
    nextPage^[k] (nextPage last) ≠ nextPage last := by
  obtain ⟨h₂, hlt⟩ := nextPage_bounds last
  rw [nextPage_iterate k h₂ hlt]
  unfold cachePages at hlt
  omega

/-- `t` asked for no more pages than were unused at `s`: it is alive, and the rest are
unused still. -/
def Cursor (s t : State) : Prop :=
  ∀ m ≤ 32766, Unused m s → held s.log = some [] → pageCalls t.log ≤ pageCalls s.log + m →
    held t.log = some [] ∧ Unused (m + pageCalls s.log - pageCalls t.log) t

theorem Emits.pageCalls_le {P : Event → Prop} {s t : State} (h : Emits P s t) :
    pageCalls s.log ≤ pageCalls t.log := by
  obtain ⟨new, hnew, -⟩ := h
  rw [hnew]
  clear hnew
  induction new with
  | nil => exact Nat.le_refl _
  | cons e new ih =>
    rw [List.cons_append]
    cases e <;> simp only [pageCalls] <;> omega

theorem Cursor.trans {s t u : State} (h₁ : Cursor s t) (h₂ : Cursor t u) (hst : Steady s t)
    (htu : Steady t u) : Cursor s u := by
  intro m hm hfree hheld hcalls
  have hle₁ := hst.grows.pageCalls_le
  have hle₂ := htu.grows.pageCalls_le
  obtain ⟨hheld₁, hfree₁⟩ := h₁ m hm hfree hheld (by omega)
  obtain ⟨hheld₂, hfree₂⟩ := h₂ _ (by omega) hfree₁ hheld₁ (by omega)
  refine ⟨hheld₂, ?_⟩
  have hrest : m + pageCalls s.log - pageCalls t.log + pageCalls t.log - pageCalls u.log =
      m + pageCalls s.log - pageCalls u.log := by omega
  rwa [hrest] at hfree₂

/-! ### Calls that ask for no page -/

/-- The cursor stayed, and no page came into use. -/
structure Idle (s t : State) : Prop extends Calm s t where
  last : t.lastCacheIndex = s.lastCacheIndex
  pages : pageCalls t.log = pageCalls s.log
  unused : ∀ c, s.cacheBitmap c = 0 → t.cacheBitmap c = 0

namespace Idle
variable {s t u : State}

theorem trans (h₁ : Idle s t) (h₂ : Idle t u) : Idle s u :=
  ⟨h₁.toCalm.trans h₂.toCalm, h₂.last.trans h₁.last, h₂.pages.trans h₁.pages,
    fun c hc => h₂.unused c (h₁.unused c hc)⟩

theorem cursor (h : Idle s t) : Cursor s t := by
  intro m _ hfree hheld _
  refine ⟨h.balanced hheld, fun i hi => ?_⟩
  rw [h.pages] at hi
  rw [h.last]
  exact h.unused _ (hfree i (by omega))

end Idle

theorem writeBlock_cacheBitmap (b : Int) (addr : Nat) (buf : Block) (s : State) :
    (writeBlock b addr buf s).2.cacheBitmap = s.cacheBitmap := by
  unfold writeBlock
  dsimp only
  split_ifs <;> rfl

theorem writeBlock_idle (b : Int) (addr : Nat) (buf : Block) (s : State) :
    Idle s (writeBlock b addr buf s).2 := by
  refine ⟨writeBlock_calm b addr buf s, ?_, by rw [writeBlock_log]; rfl, ?_⟩
  · unfold writeBlock
    dsimp only
    split_ifs <;> rfl
  · rw [writeBlock_cacheBitmap]
    exact fun _ hc => hc

theorem bitmap_idle (b : Int) (s : State) : Idle s (s.emit (.bitmap b)) :=
  ⟨bitmap_calm b s, rfl, rfl, fun _ hc => hc⟩

theorem initializeBlock_idle (b : Int) (s : State) : Idle s (initializeBlock b s) :=
  writeBlock_idle ..

theorem clearBlockBitmap_idle (b : Int) (s : State) : Idle s (clearBlockBitmap b s) :=
  ⟨clearBlockBitmap_calm b s, rfl, rfl, fun _ hc => hc⟩

theorem dropPage_idle (c : Nat) (s : State) : Idle s (dropPage c s) := by
  refine ⟨dropPage_calm c s, ?_, ?_, fun c' hc' => ?_⟩
  all_goals unfold dropPage; split
  · rfl
  · rfl
  · rfl
  · rfl
  · simp only [State.emit_cacheBitmap, State.setDirty_cacheBitmap, State.setCacheBitmap_cacheBitmap]
    by_cases h : c' = c
    · rw [h, Function.update_self]
    · rw [Function.update_of_ne h]
      exact hc'
  · exact hc'

theorem freeEntry_idle (b : Int) (s : State) : Idle s (freeEntry b s) :=
  ((bitmap_idle b s).trans (dropPage_idle _ _)).trans (clearBlockBitmap_idle b _)

theorem Release.idle {s t : State} (h : Release s t) : Idle s t := by
  induction h with
  | refl s => exact ⟨.refl s, rfl, rfl, fun _ hc => hc⟩
  | trans _ _ ih₁ ih₂ => exact ih₁.trans ih₂
  | entry b s => exact freeEntry_idle b s
  | clear b s => exact clearBlockBitmap_idle b s

theorem destroyObject_idle (key : Key) (s : State) : Idle s (destroyObject key s).2 := by
  unfold destroyObject
  dsimp only
  split_ifs
  · exact (Release.refl s).idle
  · exact (Release.refl s).idle
  · exact (freePointers_release _ 4 0 s).idle.trans ⟨.of_log_eq rfl, rfl, rfl, fun _ hc => hc⟩

/-- The scan of `get_new_datablock` and what follows it touch no page. -/
theorem newBlock_idle {s : State} {r : Int × State} (hr : getNewDatablock s = r) :
    Idle s (setBlockBitmap r.1 r.2) := by
  have htook := (alloc_cases s).1
  rw [hr] at htook
  refine ⟨newBlock_calm hr, ?_, htook.pages, fun c hc => ?_⟩
  · rw [htook.eq]
  · rw [htook.eq]
    exact hc

/-! ### Calls that ask for a page -/

/-- The call asked for one page, and got it if the cursor's next one was unused. -/
structure Moves (s t : State) : Prop where
  pages : pageCalls t.log = pageCalls s.log + 1
  alive : s.cacheBitmap (nextPage s.lastCacheIndex) = 0 → held s.log = some [] → held t.log = some []
  last : t.lastCacheIndex = nextPage s.lastCacheIndex
  others : ∀ c, c ≠ nextPage s.lastCacheIndex → t.cacheBitmap c = s.cacheBitmap c

theorem Moves.cursor {s t : State} (h : Moves s t) : Cursor s t := by
  intro m hm hfree hheld hcalls
  rw [h.pages] at hcalls
  have hnext : s.cacheBitmap (nextPage s.lastCacheIndex) = 0 := hfree 0 (by omega)
  refine ⟨h.alive hnext hheld, fun i hi => ?_⟩
  rw [h.pages] at hi
  have hne : nextPage^[i + 1] (nextPage s.lastCacheIndex) ≠ nextPage s.lastCacheIndex :=
    nextPage_iterate_ne (by omega) (by omega)
  rw [h.last, h.others _ hne, ← Function.iterate_succ_apply]
  exact hfree (i + 1) (by omega)

theorem flushCache_fields (c : Nat) (s : State) :
    (flushCache c s).lastCacheIndex = s.lastCacheIndex ∧
      (flushCache c s).cacheBitmap = Function.update s.cacheBitmap c 0 ∧
      pageCalls (flushCache c s).log = pageCalls s.log := by
  obtain ⟨u, hu, hlast, hcb, hpages⟩ : ∃ u : State, flushCache c s =
      (((u.emit (.lock .cacheBitmapMutex)).setCacheBitmap c 0).emit
        (.unlock .cacheBitmapMutex)).setBitmap (s.cacheBitmap c) 1 ∧
      u.lastCacheIndex = s.lastCacheIndex ∧ u.cacheBitmap = s.cacheBitmap ∧
      pageCalls u.log = pageCalls s.log := by
    have hidle := writeBlock_idle (s.cacheBitmap c) (c <<< 12) (s.cache c) s
    unfold flushCache
    split
    · exact ⟨_, rfl, hidle.last, writeBlock_cacheBitmap .., hidle.pages⟩
    · exact ⟨s, rfl, rfl, rfl, rfl⟩
  rw [hu, ← hcb]
  exact ⟨hlast, rfl, hpages⟩

theorem getFreeCachePage_moves (s : State) :
    (getFreeCachePage s).1 = nextPage s.lastCacheIndex ∧ Moves s (getFreeCachePage s).2 := by
  by_cases h : s.cacheBitmap (nextPage s.lastCacheIndex) = 0
  · rw [getFreeCachePage_eq s h]
    refine ⟨rfl, rfl, fun _ hheld => ?_, rfl, fun _ _ => rfl⟩
    simp [held, hheld]
  · unfold getFreeCachePage
    simp only [State.emit_lastCacheIndex, State.setLast_cacheBitmap, State.emit_cacheBitmap]
    rw [if_pos h]
    obtain ⟨hlast, hcb, hpages⟩ := flushCache_fields (nextPage s.lastCacheIndex)
      (((s.emit (.lock .cacheBitmapMutex)).emit (.cachePage (nextPage s.lastCacheIndex))).setLast
        (nextPage s.lastCacheIndex))
    refine ⟨trivial, hpages, fun h₀ => absurd h₀ h, hlast, fun c hc => ?_⟩
    exact (congrFun hcb c).trans (Function.update_of_ne hc _ _)

/-- What a call that asked for a page does with it afterwards. -/
theorem Moves.after {s t u : State} (h : Moves s t) (hlast : u.lastCacheIndex = t.lastCacheIndex)
    (hlog : Emits Event.Neutral t u) (hpages : pageCalls u.log = pageCalls t.log)
    (hothers : ∀ c, c ≠ nextPage s.lastCacheIndex → u.cacheBitmap c = t.cacheBitmap c) : Moves s u :=
  ⟨hpages.trans h.pages, fun h₀ hheld => (Calm.of_neutral hlog).balanced (h.alive h₀ hheld),
    hlast.trans h.last, fun c hc => (hothers c hc).trans (h.others c hc)⟩

theorem Idle.moves {s t u : State} (h : Idle s t) (hcb : t.cacheBitmap = s.cacheBitmap)
    (ht : Moves t u) : Moves s u := by
  obtain ⟨hpages, halive, hlast, hothers⟩ := ht
  rw [h.last] at halive hlast hothers
  rw [hcb] at halive hothers
  exact ⟨hpages.trans (by rw [h.pages]), fun h₀ hheld => halive h₀ (h.balanced hheld), hlast, hothers⟩

section Cases
variable {build : Build} {b : Int} {addr : Nat} {buf : Block} {s : State}

theorem fetch_moves (build : Build) (b : Int) (addr : Nat) (buf : Block) (s : State) :
    Idle s (fetch build b addr buf s).2.2 ∨
      build = .cached ∧ Moves s (fetch build b addr buf s).2.2 := by
  cases build with
  | uncached =>
    rw [fetch_uncached]
    exact .inl (Release.refl s).idle
  | cached =>
    rcases Nat.lt_trichotomy (s.blockBitmap b) 1 with h | h | h
    · rw [fetch_free (by omega)]
      exact .inl (bitmap_idle b s)
    · rw [fetch_unpaged h]
      refine .inr ⟨rfl, (bitmap_idle b s).moves rfl ?_⟩
      obtain ⟨hpage, hmoves⟩ := getFreeCachePage_moves (s.emit (.bitmap b))
      refine hmoves.after rfl ⟨[.bitmap b], rfl, by simp [Event.Neutral]⟩ rfl fun c hc => ?_
      rw [← hpage] at hc
      exact Function.update_of_ne hc _ _
    · rw [fetch_paged h]
      exact .inl (bitmap_idle b s)

theorem store_moves (build : Build) (b : Int) (addr : Nat) (buf : Block) (s : State) :
    Idle s (store build b addr buf s).2 ∨
      build = .cached ∧ Moves s (store build b addr buf s).2 := by
  cases build with
  | uncached =>
    rw [store_uncached]
    exact .inl (writeBlock_idle ..)
  | cached =>
    by_cases h₀ : s.blockBitmap b = 0
    · rw [store_free h₀]
      exact .inl ((bitmap_idle b s).trans (writeBlock_idle ..))
    · rw [store_used h₀]
      dsimp only
      by_cases h₁ : 1 < s.blockBitmap b
      · have hpage : pageFor b (s.emit (.bitmap b)) = (s.blockBitmap b, s.emit (.bitmap b)) := if_pos h₁
        rw [hpage]
        exact .inl ((bitmap_idle b s).trans ⟨.of_log_eq rfl, rfl, rfl, fun _ hc => hc⟩)
      · have hpage : pageFor b (s.emit (.bitmap b)) = _ := if_neg h₁
        rw [hpage]
        refine .inr ⟨rfl, (bitmap_idle b s).moves rfl ?_⟩
        obtain ⟨hnext, hmoves⟩ := getFreeCachePage_moves (s.emit (.bitmap b))
        refine hmoves.after rfl ⟨[.bitmap b], rfl, by simp [Event.Neutral]⟩ rfl fun c hc => ?_
        rw [← hnext] at hc
        exact Function.update_of_ne hc _ _

end Cases

theorem fetch_cursor (build : Build) (b : Int) (addr : Nat) (buf : Block) (s : State) :
    Cursor s (fetch build b addr buf s).2.2 := by
  rcases fetch_moves build b addr buf s with h | ⟨-, h⟩
  · exact h.cursor
  · exact h.cursor

theorem store_cursor (build : Build) (b : Int) (addr : Nat) (buf : Block) (s : State) :
    Cursor s (store build b addr buf s).2 := by
  rcases store_moves build b addr buf s with h | ⟨-, h⟩
  · exact h.cursor
  · exact h.cursor

theorem Walk.cursor {build : Build} {F : Prop} {s t : State} (h : Walk build F s t) : Cursor s t := by
  induction h with
  | refl s => exact (Release.refl s).idle.cursor
  | trans h₁ h₂ ih₁ ih₂ => exact ih₁.trans ih₂ h₁.steady h₂.steady
  | fetch b ha buf s => exact fetch_cursor _ _ _ _ _
  | store b buf s => exact store_cursor _ _ _ _ _
  | entry buf hr =>
    exact (newBlock_idle hr).cursor.trans (store_cursor _ _ _ _ _) (newBlock_calm hr).steady (store_steady ..)
  | @table buf s t r hr h ih =>
    have hinit := (newBlock_idle hr).trans (initializeBlock_idle r.1 _)
    exact (hinit.cursor.trans ih hinit.toCalm.steady h.steady).trans (store_cursor _ _ _ _ _)
      (hinit.toCalm.steady.trans h.steady) (store_steady ..)
  | slot x o s => exact Idle.cursor ⟨.of_log_eq rfl, rfl, rfl, fun _ hc => hc⟩
  | locked s ht hlog =>
    refine Idle.cursor ⟨(locked_calm s).trans (.of_log_eq hlog), ?_, by rw [hlog]; rfl, ?_⟩
    · rw [ht]
    · rw [ht]
      exact fun _ hc => hc
  | fault _ s => exact Idle.cursor ⟨fault_calm s, rfl, rfl, fun _ hc => hc⟩

/-- The uncached build asks for no page. -/
theorem Walk.uncached {F : Prop} {s t : State} (h : Walk .uncached F s t) :
    pageCalls t.log = pageCalls s.log := by
  have hstore : ∀ b addr buf (u : State),
      pageCalls (ObjStore.store .uncached b addr buf u).2.log = pageCalls u.log := by
    intro b addr buf u
    rw [store_uncached]
    exact (writeBlock_idle ..).pages
  generalize hbuild : Build.uncached = build at h
  induction h with
  | refl s => rfl
  | trans _ _ ih₁ ih₂ => exact ih₂.trans ih₁
  | fetch b ha buf s =>
    subst hbuild
    rw [fetch_uncached]
  | store b buf s =>
    subst hbuild
    exact hstore b 0 buf s
  | entry buf hr =>
    subst hbuild
    exact (hstore _ _ _ _).trans (newBlock_idle hr).pages
  | table buf hr _ ih =>
    subst hbuild
    exact (hstore _ _ _ _).trans (ih.trans
      ((newBlock_idle hr).trans (initializeBlock_idle _ _)).pages)
  | slot x o s => rfl
  | locked s ht hlog => rw [hlog]; rfl
  | fault _ s => rfl

end CS330.ObjStore
