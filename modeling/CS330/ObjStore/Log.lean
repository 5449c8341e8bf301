import CS330.ObjStore.Files
import Mathlib.Data.List.Infix

/-! What a call adds to the log.

`Emits P s s'`: the log of `s'` is that of `s` with events on top that all satisfy
`P`. `Steady s s'`: the log only grew, and a thread that holds no mutex at `s` and
gets to `s'` holds none there either. Both compose, so a function has them from
the functions it calls. A log that has been given up (`held` is `none`) stays so:
a call that returned was alive all along (`Steady.live`). -/
namespace CS330.ObjStore

def Emits (P : Event → Prop) (s s' : State) : Prop :=
  ∃ new, s'.log = new ++ s.log ∧ ∀ e ∈ new, P e

/-- No mutex was taken twice. -/
def Live (s : State) : Prop := held s.log ≠ none

theorem Live.of_held {s : State} {ms : List Mutex} (h : held s.log = some ms) : Live s := by
  rw [Live, h]
  simp

namespace Emits
variable {P Q : Event → Prop} {s t u : State}

theorem of_log_eq (h : t.log = s.log) : Emits P s t :=
  ⟨[], h, fun _ he => absurd he (List.not_mem_nil)⟩

theorem trans (h₁ : Emits P s t) (h₂ : Emits P t u) : Emits P s u := by
  obtain ⟨a, ha, pa⟩ := h₁
  obtain ⟨b, hb, pb⟩ := h₂
  refine ⟨b ++ a, by rw [hb, ha, List.append_assoc], fun e he => ?_⟩
  rcases List.mem_append.mp he with he | he
  · exact pb e he
  · exact pa e he

theorem mono (h : Emits P s t) (hPQ : ∀ e, P e → Q e) : Emits Q s t := by
  obtain ⟨a, ha, pa⟩ := h
  exact ⟨a, ha, fun e he => hPQ e (pa e he)⟩

theorem emit {e : Event} (h : Emits P s t) (he : P e) : Emits P s (t.emit e) := by
  obtain ⟨a, ha, pa⟩ := h
  refine ⟨e :: a, by simp [State.emit, ha], fun e' he' => ?_⟩
  rcases List.mem_cons.mp he' with rfl | he'
  · exact he
  · exact pa e' he'

theorem cons {e : Event} (h : Emits P s t) (he : P e) (hu : u.log = e :: t.log) : Emits P s u := by
  obtain ⟨a, ha, pa⟩ := h.emit he
  exact ⟨a, hu.trans ha, pa⟩

end Emits

/-! ### Mutexes along a log -/

/-- Not a mutex call. -/
def Event.Neutral : Event → Prop
  | .lock _ | .unlock _ => False
  | _ => True

theorem held_cons_none {e : Event} {log : List Event} (h : held log = none) :
    held (e :: log) = none := by
  cases e <;> simp [held, h]

theorem held_cons_neutral {e : Event} (he : e.Neutral) (log : List Event) :
    held (e :: log) = held log := by
  cases e with
  | lock m | unlock m => exact he.elim
  | _ => rfl

theorem held_append_neutral {new : List Event} (h : ∀ e ∈ new, e.Neutral) (log : List Event) :
    held (new ++ log) = held log := by
  induction new with
  | nil => rfl
  | cons e new ih =>
    rw [List.cons_append, held_cons_neutral (h e List.mem_cons_self)]
    exact ih fun e he => h e (List.mem_cons_of_mem _ he)

/-- The log grew; a call that comes back keeps no mutex. -/
structure Steady (s t : State) : Prop where
  grows : Emits (fun _ => True) s t
  balanced : held s.log = some [] → Live t → held t.log = some []

namespace Steady
variable {s t u : State}

/-- What was alive at the end was alive at the start. -/
theorem live (h : Steady s t) (ht : Live t) : Live s := by
  obtain ⟨new, ha, -⟩ := h.grows
  unfold Live at ht ⊢
  rw [ha] at ht
  clear ha
  induction new with
  | nil => exact ht
  | cons e new ih => exact ih fun hn => ht (held_cons_none hn)

/-- What the log holds stays there. -/
theorem mem (h : Steady s t) {e : Event} (hs : e ∈ s.log) : e ∈ t.log := by
  obtain ⟨new, ha, -⟩ := h.grows
  rw [ha]
  exact List.mem_append_right _ hs

theorem of_log_eq (h : t.log = s.log) : Steady s t :=
  ⟨.of_log_eq h, fun hs _ => by rw [h, hs]⟩

theorem refl (s : State) : Steady s s := of_log_eq rfl

theorem trans (h₁ : Steady s t) (h₂ : Steady t u) : Steady s u :=
  ⟨h₁.grows.trans h₂.grows, fun hs hu => h₂.balanced (h₁.balanced hs (h₂.live hu)) hu⟩

end Steady

/-- The log grew, by a call that takes no mutex twice. -/
structure Calm (s t : State) : Prop where
  grows : Emits (fun _ => True) s t
  balanced : held s.log = some [] → held t.log = some []

namespace Calm
variable {s t u : State}

theorem steady (h : Calm s t) : Steady s t := ⟨h.grows, fun hs _ => h.balanced hs⟩

theorem of_log_eq (h : t.log = s.log) : Calm s t := ⟨.of_log_eq h, fun hs => by rw [h, hs]⟩

theorem refl (s : State) : Calm s s := of_log_eq rfl

theorem trans (h₁ : Calm s t) (h₂ : Calm t u) : Calm s u :=
  ⟨h₁.grows.trans h₂.grows, fun hs => h₂.balanced (h₁.balanced hs)⟩

theorem of_neutral (h : Emits Event.Neutral s t) : Calm s t := by
  obtain ⟨new, ha, hn⟩ := h
  refine ⟨⟨new, ha, fun _ _ => trivial⟩, fun hs => ?_⟩
  rw [ha, held_append_neutral hn, hs]

/-- A section between taking a mutex and giving it back. -/
theorem locked {m : Mutex} (h : Emits Event.Neutral (s.emit (.lock m)) t) :
    Calm s (t.emit (.unlock m)) := by
  obtain ⟨new, ha, hn⟩ := h
  have ha' : t.log = new ++ .lock m :: s.log := ha
  refine ⟨⟨.unlock m :: (new ++ [.lock m]), by simp [State.emit, ha'], fun _ _ => trivial⟩,
    fun hs => ?_⟩
  simp [State.emit, held, ha', held_append_neutral hn, hs]

end Calm

/-! ### The functions, from the inside out -/

theorem writeBlock_log (b : Int) (addr : Nat) (buf : Block) (s : State) :
    (writeBlock b addr buf s).2.log = .writeBlock b (s.blockBitmap b) :: s.log := by
  unfold writeBlock
  dsimp only
  split
  · rfl
  · split <;> rfl

theorem writeBlock_emits {P : Event → Prop} (b : Int) (addr : Nat) (buf : Block) (s : State)
    (h : P (.writeBlock b (s.blockBitmap b))) : Emits P s (writeBlock b addr buf s).2 :=
  ⟨[_], writeBlock_log b addr buf s, fun e he => by rwa [List.mem_singleton.mp he]⟩

theorem writeBlock_calm (b : Int) (addr : Nat) (buf : Block) (s : State) :
    Calm s (writeBlock b addr buf s).2 :=
  .of_neutral (writeBlock_emits b addr buf s trivial)

theorem flushCache_log (c : Nat) (s : State) :
    (flushCache c s).log = .bitmap (s.cacheBitmap c) :: .unlock .cacheBitmapMutex ::
      .lock .cacheBitmapMutex :: (if s.dirtyFlag c then
        (writeBlock (s.cacheBitmap c) (c <<< 12) (s.cache c) s).2.log else s.log) := by
  unfold flushCache
  dsimp only
  split <;> rfl

/-- The page the cursor moves to was free, and only the cursor moved. -/
theorem getFreeCachePage_eq (s : State) (h : s.cacheBitmap (nextPage s.lastCacheIndex) = 0) :
    getFreeCachePage s = (nextPage s.lastCacheIndex,
      (((s.emit (.lock .cacheBitmapMutex)).emit (.cachePage (nextPage s.lastCacheIndex))).setLast
        (nextPage s.lastCacheIndex)).emit (.unlock .cacheBitmapMutex)) := by
  simp [getFreeCachePage, State.emit, State.setLast, h]

/-- Taking a mutex that is held. -/
theorem held_lock_lock {m : Mutex} {new : List Event} (h : ∀ e ∈ new, e.Neutral)
    (log : List Event) : held (.lock m :: (new ++ .lock m :: log)) = none := by
  simp only [held, held_append_neutral h]
  cases held log with
  | none => rfl
  | some l => by_cases hm : m ∈ l <;> simp [hm]

/-- When the page was in use, `flush_cache` takes the mutex once more. -/
theorem getFreeCachePage_stuck (s : State) (h : s.cacheBitmap (nextPage s.lastCacheIndex) ≠ 0) :
    held (getFreeCachePage s).2.log = none := by
  have hflush : ∀ (c : Nat) (t : State), t.log = .cachePage c :: .lock .cacheBitmapMutex :: s.log →
      held (flushCache c t).log = none := by
    intro c t ht
    rw [flushCache_log]
    apply held_cons_none
    apply held_cons_none
    split
    · rw [writeBlock_log, ht]
      exact @held_lock_lock _ [.writeBlock _ _, .cachePage c] (by simp [Event.Neutral]) s.log
    · rw [ht]
      exact @held_lock_lock _ [.cachePage c] (by simp [Event.Neutral]) s.log
  unfold getFreeCachePage
  simp only [State.emit_lastCacheIndex, State.setLast_cacheBitmap, State.emit_cacheBitmap]
  rw [if_pos h]
  exact held_cons_none (hflush _ _ rfl)

theorem getFreeCachePage_unused {s : State} (h : Live (getFreeCachePage s).2) :
    s.cacheBitmap (nextPage s.lastCacheIndex) = 0 := by
  by_contra hne
  exact h (getFreeCachePage_stuck s hne)

theorem getFreeCachePage_steady (s : State) : Steady s (getFreeCachePage s).2 := by
  by_cases h : s.cacheBitmap (nextPage s.lastCacheIndex) = 0
  · rw [getFreeCachePage_eq s h]
    exact Calm.steady (.locked ⟨[.cachePage _], rfl, by simp [Event.Neutral]⟩)
  · refine ⟨?_, fun _ hl => absurd (getFreeCachePage_stuck s h) hl⟩
    unfold getFreeCachePage
    simp only [State.emit_lastCacheIndex, State.setLast_cacheBitmap, State.emit_cacheBitmap]
    rw [if_pos h]
    refine .emit ?_ trivial
    unfold Emits
    rw [flushCache_log]
    split
    · rw [writeBlock_log]
      exact ⟨_ :: _ :: _ :: _ :: _ :: [_], rfl, fun _ _ => trivial⟩
    · exact ⟨_ :: _ :: _ :: _ :: [_], rfl, fun _ _ => trivial⟩

theorem emit_calm {e : Event} (he : e.Neutral) (s : State) : Calm s (s.emit e) :=
  .of_neutral ⟨[e], rfl, fun _ h => by rwa [List.mem_singleton.mp h]⟩

theorem bitmap_calm (b : Int) (s : State) : Calm s (s.emit (.bitmap b)) :=
  emit_calm (e := .bitmap b) trivial s

theorem fault_calm (s : State) : Calm s (s.emit .fault) := emit_calm (e := .fault) trivial s

theorem setBitmap_calm (b : Int) (v : Nat) (s : State) : Calm s (s.setBitmap b v) :=
  .of_neutral ⟨[.bitmap b], rfl, fun _ h => by rw [List.mem_singleton.mp h]; trivial⟩

theorem newCleanPage_steady (b : Int) (s : State) : Steady s (newCleanPage b s).2 := by
  refine (getFreeCachePage_steady s).trans (.trans (.of_log_eq ?_) (.trans
    (setBitmap_calm b (getFreeCachePage s).1 ((getFreeCachePage s).2.setCacheBitmap
      (getFreeCachePage s).1 b)).steady (.of_log_eq rfl)))
  rfl

theorem readCached_steady (build : Build) (b : Int) (addr : Nat) (buf : Block) (s : State) :
    Steady s (readCached build b addr buf s).2.2 := by
  cases build with
  | uncached => exact .refl s
  | cached =>
    have hemit := (bitmap_calm b s).steady
    unfold readCached
    dsimp only
    split
    · exact hemit
    · split
      · exact (hemit.trans (newCleanPage_steady b _)).trans (.of_log_eq rfl)
      · exact hemit

theorem pageFor_steady (b : Int) (s : State) : Steady s (pageFor b s).2 := by
  unfold pageFor
  split
  · exact .refl s
  · refine (getFreeCachePage_steady s).trans ?_
    exact (setBitmap_calm b (getFreeCachePage s).1 (getFreeCachePage s).2).steady.trans (.of_log_eq rfl)

theorem writeCached_steady (build : Build) (b : Int) (buf : Block) (s : State) :
    Steady s (writeCached build b buf s).2 := by
  cases build with
  | uncached => exact .refl s
  | cached =>
    have hemit := (bitmap_calm b s).steady
    unfold writeCached
    dsimp only
    split
    · exact hemit
    · exact (hemit.trans (pageFor_steady b _)).trans (.of_log_eq rfl)

theorem fetch_steady (build : Build) (b : Int) (addr : Nat) (buf : Block) (s : State) :
    Steady s (fetch build b addr buf s).2.2 := by
  unfold fetch
  dsimp only
  split <;> exact readCached_steady build b addr buf s

theorem store_steady (build : Build) (b : Int) (addr : Nat) (buf : Block) (s : State) :
    Steady s (store build b addr buf s).2 := by
  unfold store
  dsimp only
  split
  · exact writeCached_steady build b buf s
  · exact (writeCached_steady build b buf s).trans (writeBlock_calm b addr buf _).steady

theorem setBlockBitmap_calm (b : Int) (s : State) : Calm s (setBlockBitmap b s) :=
  .locked ⟨[.bitmap b], rfl, by simp [Event.Neutral]⟩

theorem clearBlockBitmap_calm (b : Int) (s : State) : Calm s (clearBlockBitmap b s) :=
  .locked ⟨[.bitmap b], rfl, by simp [Event.Neutral]⟩

/-- The scan only indexes the bitmap, at the places it passes. -/
theorem scanBitmap_emits {P : Event → Prop} (n i : Nat) (s : State)
    (h : ∀ j, i ≤ j → j < i + n → P (.bitmap j)) : Emits P s (scanBitmap n i s).2 := by
  induction n generalizing i s with
  | zero => exact .of_log_eq rfl
  | succ n ih =>
    have hi : P (.bitmap i) := h i (Nat.le_refl i) (by omega)
    unfold scanBitmap
    dsimp only
    split
    · exact (Emits.of_log_eq rfl).emit hi |>.emit hi
    · exact .trans ((Emits.of_log_eq rfl).emit hi)
        (ih (i + 1) _ fun j hj hj' => h j (by omega) (by omega))

theorem getNewDatablock_calm (s : State) : Calm s (getNewDatablock s).2 := by
  unfold getNewDatablock
  exact (Calm.locked (scanBitmap_emits _ _ _ fun _ _ _ => trivial)).trans
    (emit_calm (e := .newDatablock _) trivial _)

theorem initializeBlock_calm (b : Int) (s : State) : Calm s (initializeBlock b s) :=
  writeBlock_calm b 0 _ s

theorem dropPage_calm (c : Nat) (s : State) : Calm s (dropPage c s) := by
  unfold dropPage
  split
  · exact .locked ⟨[], rfl, by simp⟩
  · exact .refl s

theorem freeEntry_calm (b : Int) (s : State) : Calm s (freeEntry b s) :=
  ((bitmap_calm b s).trans (dropPage_calm _ _)).trans (clearBlockBitmap_calm b _)

/-! ### Every function as a walk

The functions on whole objects do nothing to the state but the steps below. A
block that was taken for data is stored to right away; one that was taken for a
table is stored to once the entries are written. What each step keeps, the
functions keep. `F` is what it takes to leave a buffer or a table. -/

inductive Walk (build : Build) (F : Prop) : State → State → Prop
  | refl (s : State) : Walk build F s s
  | trans {s t u : State} : Walk build F s t → Walk build F t u → Walk build F s u
  | fetch (b : Int) {addr : Nat} (ha : addr % 4096 = 0) (buf : Block) (s : State) :
      Walk build F s (fetch build b addr buf s).2.2
  | store (b : Int) (buf : Block) (s : State) : Walk build F s (store build b 0 buf s).2
  | entry (buf : Block) {s : State} {r : Int × State} : getNewDatablock s = r →
      Walk build F s (store build r.1 0 buf (setBlockBitmap r.1 r.2)).2
  | table (buf : Block) {s t : State} {r : Int × State} : getNewDatablock s = r →
      Walk build F (initializeBlock r.1 (setBlockBitmap r.1 r.2)) t → Walk build F s (store build r.1 0 buf t).2
  | slot (x : Nat) (o : Object) (s : State) : Walk build F s (s.setObj x o)
  | locked (s : State) {t : State} : t = {s with obj := t.obj, log := t.log} →
      t.log = .unlock .createObjectLock :: .lock .createObjectLock :: s.log → Walk build F s t
  | fault (h : F) (s : State) : Walk build F s (s.emit .fault)

/-- The freeing half of `destroy_object`. -/
inductive Release : State → State → Prop
  | refl (s : State) : Release s s
  | trans {s t u : State} : Release s t → Release t u → Release s u
  | entry (b : Int) (s : State) : Release s (freeEntry b s)
  | clear (b : Int) (s : State) : Release s (clearBlockBitmap b s)

theorem newBlock_calm {s : State} {r : Int × State} (hr : getNewDatablock s = r) :
    Calm s (setBlockBitmap r.1 r.2) := by
  have hget := getNewDatablock_calm s
  rw [hr] at hget
  exact hget.trans (setBlockBitmap_calm _ _)

theorem locked_calm (s : State) :
    Calm s ((s.emit (.lock .createObjectLock)).emit (.unlock .createObjectLock)) :=
  .locked ⟨[], rfl, by simp⟩

theorem Walk.steady {build : Build} {F : Prop} {s t : State} (h : Walk build F s t) : Steady s t := by
  induction h with
  | refl s => exact .refl s
  | trans _ _ ih₁ ih₂ => exact ih₁.trans ih₂
  | fetch b ha buf s => exact fetch_steady ..
  | store b buf s => exact store_steady ..
  | entry buf hr => exact (newBlock_calm hr).steady.trans (store_steady ..)
  | table buf hr _ ih =>
    exact (((newBlock_calm hr).trans (initializeBlock_calm _ _)).steady.trans ih).trans (store_steady ..)
  | slot x o s => exact .of_log_eq rfl
  | locked s _ hlog =>
    exact (locked_calm s).steady.trans (.of_log_eq hlog)
  | fault _ s => exact (fault_calm s).steady

theorem Walk.mono {build : Build} {F G : Prop} {s t : State} (h : Walk build F s t) (hFG : F → G) :
    Walk build G s t := by
  induction h with
  | refl s => exact .refl s
  | trans _ _ ih₁ ih₂ => exact ih₁.trans ih₂
  | fetch b ha buf s => exact .fetch b ha buf s
  | store b buf s => exact .store ..
  | entry buf hr => exact .entry buf hr
  | table buf hr _ ih => exact .table buf hr ih
  | slot x o s => exact .slot x o s
  | locked s ht hlog => exact .locked s ht hlog
  | fault h s => exact .fault (hFG h) s

theorem Walk.weaken {build : Build} {F : Prop} {s t : State} (h : Walk build False s t) :
    Walk build F s t := h.mono False.elim

theorem Release.calm {s t : State} (h : Release s t) : Calm s t := by
  induction h with
  | refl s => exact .refl s
  | trans _ _ ih₁ ih₂ => exact ih₁.trans ih₂
  | entry b s => exact freeEntry_calm b s
  | clear b s => exact clearBlockBitmap_calm b s

section Walk
variable {build : Build}

theorem freeEntries_release (tmp : Nat → Int) (n i : Nat) (s : State) :
    Release s (freeEntries tmp n i s) := by
  induction n generalizing i s with
  | zero => exact .refl _
  | succ n ih =>
    unfold freeEntries
    split
    · exact .refl _
    · exact (Release.entry _ s).trans (ih _ _)

theorem freePointers_release (p : Nat → Int) (n i : Nat) (s : State) :
    Release s (freePointers p n i s) := by
  induction n generalizing i s with
  | zero => exact .refl _
  | succ n ih =>
    unfold freePointers
    split
    · exact .refl _
    · exact ((freeEntries_release _ 1024 0 s).trans (.clear _ _)).trans (ih _ _)

theorem destroyObject_calm (key : Key) (s : State) : Calm s (destroyObject key s).2 := by
  unfold destroyObject
  dsimp only
  split_ifs
  · exact .refl s
  · exact .refl s
  · exact (freePointers_release _ 4 0 s).calm.trans (.of_log_eq rfl)

theorem createObject_walk {key : Key} {s : State} {r : Int × State}
    (h : createObject key s = some r) : Walk build False s r.2 := by
  unfold createObject at h
  dsimp only at h
  split at h
  · cases h
  · cases h
    exact .locked s rfl rfl
  · cases h
    exact .locked s rfl rfl

theorem renameObject_walk {key newname : Key} {s : State} {r : Int × State}
    (h : renameObject key newname s = some r) : Walk build False s r.2 := by
  unfold renameObject at h
  split_ifs at h
  · cases h
    exact .refl _
  · cases h
    exact .refl _
  · obtain ⟨q, hq, rfl⟩ := Option.map_eq_some_iff.mp h
    have hc := @createObject_walk build _ _ _ hq
    dsimp only
    split
    · exact hc
    · exact (hc.trans (.slot _ _ _)).trans (.locked _ rfl rfl)

theorem readEntries_walk (block : Nat → Int) (blockOffset : Nat) {offset : Nat} (ha : offset % 4096 = 0)
    (size n i : Nat) (buf : Buffer) (s : State) : Walk build False s (readEntries build block blockOffset offset size n i buf s).2 := by
  induction n generalizing i buf s with
  | zero => exact .refl _
  | succ n ih =>
    unfold readEntries
    dsimp only
    split_ifs
    · exact .refl _
    · exact .refl _
    · exact .fetch _ (by omega) _ _
    · exact (Walk.fetch _ (by omega) _ _).trans (ih _ _ _)

theorem readIndirectBlock_walk (b : Int) (blockOffset : Nat) (buf : Buffer) {offset : Nat}
    (ha : offset % 4096 = 0) (size : Nat) (s : State) : Walk build False s (readIndirectBlock build b blockOffset buf offset size s).2 := by
  unfold readIndirectBlock
  split
  · exact .refl _
  · exact (Walk.fetch _ rfl _ _).trans (readEntries_walk _ _ ha ..)

theorem readPointers_walk (x : Nat) (size : Int) (cap first n i blockOffset : Nat) (buf : Buffer)
    (s : State) : Walk build False s (readPointers build x size cap first n i blockOffset buf s).2 := by
  induction n generalizing i blockOffset buf s with
  | zero => exact .refl _
  | succ n ih =>
    unfold readPointers
    dsimp only
    split
    · exact .refl _
    · exact (readIndirectBlock_walk _ _ _ (by omega) ..).trans (ih _ _ _ _)

theorem le_auxPages {size : Int} (h : 0 < size) : size ≤ (auxPages size * 4096).toNat := by
  unfold auxPages
  rw [Int.tmod_eq_emod_of_nonneg (by omega), Int.tdiv_eq_ediv_of_nonneg (by omega)]
  split <;> omega

/-- An offset the store is not made for. -/
def Irregular (offset : Nat) : Prop := offset % 4096 ≠ 0 ∨ 16777216 < offset

theorem not_irregular {offset : Nat} : ¬ Irregular offset ↔ offset % 4096 = 0 ∧ offset ≤ 16777216 := by
  unfold Irregular
  omega

theorem startBlock_none {offset : Nat} (h : startBlock offset = none) : Irregular offset := by
  unfold startBlock at h
  dsimp only at h
  split at h
  · cases h
  · unfold Irregular
    omega

theorem skip_irregular {size : Int} {offset : Nat}
    (h : 0 < size ∧ ((auxPages size * 4096).toNat : Int) < (offset % 4096 : Nat) + size) :
    Irregular offset := by
  have := le_auxPages h.1
  unfold Irregular
  omega

theorem readObject_walk (x : Nat) (size : Int) (offset : Nat) (s : State) :
    Walk build (Irregular offset) s (readObject build x size offset s).2.2 := by
  unfold readObject
  split
  · rename_i hstart
    exact .fault (startBlock_none hstart) s
  · dsimp only
    split
    · rename_i hskip
      exact (readPointers_walk ..).weaken.trans (.fault (skip_irregular hskip) _)
    · exact (readPointers_walk ..).weaken

theorem objstoreRead_walk (objid size : Int) (offset : Nat) (s : State) :
    Walk build (Irregular offset ∨ 1000000 ≤ idToIndex objid) s
      (objstoreRead build objid size offset s).2.2 := by
  unfold objstoreRead
  dsimp only
  split_ifs with _ hid
  · exact .refl _
  · exact .fault (.inr hid) s
  · exact .refl _
  · exact (readObject_walk ..).mono .inl

/-- An entry's block is stored to as soon as it has one. -/
theorem storeEntry_walk (block : Nat → Int) (i : Nat) (buf : Block) (s : State) :
    Walk build False s (store build ((entryBlock block i s).1 i) 0 buf (entryBlock block i s).2).2 := by
  obtain ⟨r, hr⟩ : ∃ r, getNewDatablock s = r := ⟨_, rfl⟩
  unfold entryBlock
  rw [hr]
  split
  · dsimp only
    rw [Function.update_self]
    exact .entry buf hr
  · exact .store ..

theorem writeEntries_walk (buf : Buffer) (blockOffset offset size n i : Nat) (block : Nat → Int)
    (s : State) : Walk build False s (writeEntries build buf blockOffset offset size n i block s).2.2 := by
  induction n generalizing i block s with
  | zero => exact .refl _
  | succ n ih =>
    unfold writeEntries
    dsimp only
    split_ifs
    · exact .refl _
    · exact storeEntry_walk ..
    · exact (storeEntry_walk ..).trans (ih _ _ _)

/-- From a table's block on, to the block stored with its new entries. -/
theorem storeTable_walk (b : Int) (buf : Block) {s t : State}
    (h : Walk build False (indirectBlock b s).2 t) :
    Walk build False s (store build (indirectBlock b s).1 0 buf t).2 := by
  obtain ⟨r, hr⟩ : ∃ r, getNewDatablock s = r := ⟨_, rfl⟩
  unfold indirectBlock at h ⊢
  rw [hr] at h ⊢
  split at h
  · rename_i hb
    rw [if_pos hb]
    dsimp only at h ⊢
    exact .table buf hr h
  · rename_i hb
    rw [if_neg hb]
    exact h.trans (.store ..)

theorem writeIndirectBlock_walk (b : Int) (blockOffset : Nat) (buf : Buffer) (offset size : Nat)
    (s : State) : Walk build False s (writeIndirectBlock build b blockOffset buf offset size s).2 := by
  unfold writeIndirectBlock
  dsimp only
  refine .trans (storeTable_walk b _ ?_) (.fetch _ rfl _ _)
  exact (Walk.fetch _ rfl _ _).trans (writeEntries_walk ..)

theorem readIndirectHelper_walk (b : Int) (blockOffset : Nat) (buf : Buffer) (cap : Nat) (s : State) :
    Walk build (cap < 4096) s (readIndirectHelper build b blockOffset buf cap s).2 := by
  unfold readIndirectHelper
  dsimp only
  split_ifs with _ hcap
  · exact .fetch _ rfl _ _
  · exact ((Walk.fetch _ rfl _ _).trans (.fetch _ rfl _ _)).trans (.fault hcap _)
  · exact (Walk.fetch _ rfl _ _).trans (.fetch _ rfl _ _)

theorem writePointers_walk (x : Nat) (buf : Buffer) (size : Int) (cap first n i blockOffset : Nat)
    (s : State) : Walk build False s (writePointers build x buf size cap first n i blockOffset s).2 := by
  induction n generalizing i blockOffset s with
  | zero => exact .refl _
  | succ n ih =>
    unfold writePointers
    dsimp only
    split
    · exact .refl _
    · exact ((writeIndirectBlock_walk ..).trans (.slot ..)).trans (ih _ _ _)

theorem fillBuffer_walk (x : Nat) (buf : Buffer) (size : Int) (start offset : Nat) (s : State) :
    Walk build (Irregular offset) s
      (fillBuffer build x buf size start offset (auxPages size * 4096).toNat s).2 := by
  have hold : Walk build (Irregular offset) s
      (oldBytes build x start offset (auxPages size * 4096).toNat s).2 := by
    unfold oldBytes
    split_ifs with h
    · exact .fault (.inl (by omega)) s
    · exact (readIndirectHelper_walk ..).mono fun _ => .inl (by omega)
    · exact .refl _
  unfold fillBuffer
  dsimp only
  split
  · rename_i hskip
    exact hold.trans (.fault (skip_irregular hskip) _)
  · exact hold

theorem writeObject_walk (x : Nat) (buf : Buffer) (size : Int) (offset : Nat) (s : State) :
    Walk build (Irregular offset) s (writeObject build x buf size offset s).2 := by
  unfold writeObject
  split
  · rename_i hstart
    exact .fault (startBlock_none hstart) s
  · exact ((fillBuffer_walk ..).trans (writePointers_walk ..).weaken).trans (.slot ..)

theorem objstoreWrite_walk (objid : Int) (buf : Buffer) (size : Int) (offset : Nat) (s : State) :
    Walk build (Irregular offset ∨ 1000000 ≤ idToIndex objid) s
      (objstoreWrite build objid buf size offset s).2 := by
  unfold objstoreWrite
  dsimp only
  split_ifs with _ hid
  · exact .refl _
  · exact .fault (.inr hid) s
  · exact .refl _
  · exact (writeObject_walk ..).mono .inl

theorem calNumberBlocks_walk (b : Int) (s : State) : Walk build False s (calNumberBlocks build b s).2 := by
  unfold calNumberBlocks
  split
  · exact .refl _
  · exact .fetch _ rfl _ _

theorem countPointers_walk (x n i k : Nat) (s : State) :
    Walk build False s (countPointers build x n i k s).2 := by
  induction n generalizing i k s with
  | zero => exact .refl _
  | succ n ih =>
    unfold countPointers
    dsimp only
    split
    · exact .refl _
    · exact (calNumberBlocks_walk ..).trans (ih _ _ _)

theorem fillupSizeDetails_walk (id : Int) (s : State) :
    Walk build (1000000 ≤ idToIndex id) s (fillupSizeDetails build id s).2.2.2 := by
  unfold fillupSizeDetails
  dsimp only
  split_ifs with _ hid
  · exact .refl _
  · exact .fault hid s
  · exact .refl _
  · exact (countPointers_walk ..).weaken

end Walk

end CS330.ObjStore
