import CS330.ObjStore.PageNames
import CS330.ObjStore.Turns
import CS330.ObjStore.References
import CS330.ObjStore.Fresh
import CS330.ObjStore.Names
import CS330.ObjStore.Runs
import Mathlib.Order.Interval.Finset.Nat

/-! The cached build over whole runs: whether blocks and pages keep naming each other, and
whether a call takes a mutex that it holds. -/
namespace CS330.ObjStore
open Bytes Machine

/-! ### Blocks and pages -/

/-- The call finds the blocks it asks for, and an object it destroys has none of its tables on
a page. -/
def Retiring (op : Op) (s t : State) : Prop :=
  ¬ Failed t ∧ ∀ key, op = .destroy key → findObjectId key s ≠ -1 → TablesUnpaged key s

theorem mount_paired (n : Nat) : Paired (mount (zeroDisk n)) where
  page := fun b hb => by simp [(mount_zero n).1] at hb
  named := fun c hc => absurd rfl hc
  total := Nat.le_refl n
  range := fun b hb => absurd ((mount_zero n).1 b) hb
  low := fun _ _ => rfl
  pageLt := fun b => by simp [(mount_zero n).1, cachePages]

theorem step_paired {op : Op} {r : Ret} {s t : State} (hs : Paired s) (h : step .cached op s = some (r, t))
    (hok : Retiring op s t) : Paired t := by
  obtain ⟨hexec, hret⟩ := step_some.mp h
  by_cases hop : op = .remount
  · subst hop
    cases hexec
    exact hs.remount
  · rcases exec_cases hexec hop with ⟨key, rfl, rfl⟩ | hwalk
    · exact hs.destroyObject fun hkey => hok.2 key rfl hkey
    · exact Paired.rule.walk (X := fun _ => False) hwalk hret.1 hok.1 hs

/-- **Blocks and pages name each other** in every state that a run of the cached build reaches,
remounts included, if its calls find their blocks and it destroys no object one of whose tables
is on a page. -/
theorem pages_consistent {n : Nat} {s : State} (h : Reaches (step .cached) Retiring (mount (zeroDisk n)) s) :
    Consistent s :=
  (h.invariant Paired (mount_paired n) fun _ _ _ _ hs hst hok => step_paired hs hst hok).toConsistent

set_option maxRecDepth 100000 in
/-- An object that is written: its table and its block are on pages 2 and 3. -/
theorem pages_consistent_written : ∃ s, Reaches (step .cached) Retiring (mount (zeroDisk 17812)) s ∧
    Consistent s ∧ s.blockBitmap 17808 = 2 ∧ s.cacheBitmap 3 = 17809 := by
  have hrun : (step .cached (.write (indexToID (hash keyA)) [7] 0) (created keyA (mount (zeroDisk 17812)))).map
      (fun q => (q.2.blockBitmap 17808, q.2.cacheBitmap 3)) = some (2, 17809) := by
    decide +kernel
  obtain ⟨⟨r, s⟩, hstep, hval⟩ := Option.map_eq_some_iff.mp hrun
  obtain ⟨hbit, hpage⟩ := Prod.mk.inj hval
  have hreach : Reaches (step .cached) Retiring (mount (zeroDisk 17812)) s :=
    .step (created_reaches .cached ⟨created_found 17812 keyA, nofun⟩) hstep
      ⟨created_write (by decide) (by decide) (by decide) hstep, nofun⟩
  exact ⟨s, hreach, pages_consistent hreach, hbit, hpage⟩

set_option maxRecDepth 100000 in
/-- One byte is written and the object destroyed: page 2 still names the table's block, which
is free. -/
theorem pages_consistent_destroyed : ∃ s,
    Reaches (step .cached) (fun _ _ _ => True) (mount (zeroDisk 17812)) s ∧
      s.cacheBitmap 2 = 17808 ∧ s.blockBitmap 17808 = 0 ∧ ¬ Consistent s := by
  have hrun : (runAll (step .cached) [.create keyA, .write (indexToID (hash keyA)) [7] 0, .destroy keyA]
      (mount (zeroDisk 17812))).map (fun q => (q.2.cacheBitmap 2, q.2.blockBitmap 17808)) = some (17808, 0) := by
    decide +kernel
  obtain ⟨⟨rs, s⟩, hrun, hval⟩ := Option.map_eq_some_iff.mp hrun
  obtain ⟨hpage, hbit⟩ := Prod.mk.inj hval
  dsimp only at hpage hbit
  refine ⟨s, Reaches.start.runAll hrun fun _ _ _ _ => trivial, hpage, hbit, fun h => ?_⟩
  have := h.named 2 (by rw [hpage]; decide)
  rw [hpage, hbit] at this
  cases this

/-! ### Mutexes -/

/-- Every used block but those of `X` is on a page of the cache, on a disk of `n` blocks. -/
def Paged (n : Nat) (X : Int → Prop) (s : State) : Prop :=
  s.totalNumDiskBlocks = n ∧ ∀ b, s.blockBitmap b ≠ 0 → ¬ X b → 1 < s.blockBitmap b

theorem Paged.rule (n : Nat) : PageRule (Paged n) where
  mono := fun hXY h => ⟨h.1, fun b hb hY => h.2 b hb fun hX => hY (hXY b hX)⟩
  aside := fun ht h => by
    rw [ht.eq]
    exact h
  direct := fun _ _ h => h
  take := fun {X s t b} _ _ ht h => by
    refine ⟨by rw [ht.eq]; exact h.1, fun b' hb' hX => ?_⟩
    have hne : b' ≠ b := fun heq => hX (.inr heq)
    rw [ht.bitmap, Function.update_of_ne hne] at hb' ⊢
    exact h.2 b' hb' fun hX' => hX (.inl hX')
  newPage := fun {X s t b c dirty blk} ht _ h => by
    have hc : 1 < c := by
      rw [ht.next]
      exact (nextPage_bounds _).1
    refine ⟨ht.total.trans h.1, fun b' hb' hX => ?_⟩
    rw [ht.bitmap] at hb' ⊢
    by_cases heq : b' = b
    · rw [heq, Function.update_self]
      exact hc
    · rw [Function.update_of_ne heq] at hb' ⊢
      exact h.2 b' hb' fun hX' => hX ⟨hX', fun h => absurd h heq⟩
  rewrite := fun {X s b blk} hb h => ⟨h.1, fun b' hb' hX => by
    by_cases heq : b' = b
    · rw [heq]
      exact hb
    · exact h.2 b' hb' fun hX' => hX ⟨hX', heq⟩⟩

section Filling
variable {n : Nat} {s t : State}

/-- There are no more blocks with a page than pages. -/
theorem card_paged_le (hinv : BlockInv .cached s) {B : Finset Int} (hB : ∀ b ∈ B, 1 < s.blockBitmap b) :
    B.card ≤ 32766 := by
  have hmaps : ∀ b ∈ B, s.blockBitmap b ∈ Finset.Ico 2 cachePages := fun b hb =>
    Finset.mem_Ico.mpr ⟨hB b hb, hinv.pageLt b⟩
  have hinj : ∀ b ∈ B, ∀ b' ∈ B, s.blockBitmap b = s.blockBitmap b' → b = b' := by
    intro b hb b' hb' h
    rw [← hinv.page b (hB b hb), h, hinv.page b' (hB b' hb')]
  have hcard := Finset.card_le_card_of_injOn s.blockBitmap hmaps hinj
  rwa [Nat.card_Ico] at hcard

/-- A disk with two blocks more than the cache has pages does not run out of them. -/
theorem Paged.free (h : Paged n (fun _ => False) s) (hinv : BlockInv .cached s)
    (hn : dataBlocksStart + 32768 ≤ n) : 2 ≤ (freeBlocks s).card := by
  have hused : ((dataBlocks s).filter fun b => ¬ s.blockBitmap b = 0).card ≤ 32766 :=
    card_paged_le hinv fun b hb => h.2 b (Finset.mem_filter.mp hb).2 id
  have hall : (dataBlocks s).card = n - dataBlocksStart := by
    rw [dataBlocks, Finset.card_image_of_injective, Finset.card_range, h.1]
    intro i j hij
    simpa using hij
  have hsplit := @Finset.card_filter_add_card_filter_not _ (dataBlocks s) (fun b => s.blockBitmap b = 0) _ _
  rw [freeBlocks]
  omega

/-- What filling the cache with `k` objects keeps. -/
structure Filling (n k : Nat) (s : State) : Prop where
  reach : Reaches (step .cached) (fun _ _ t => ¬ Failed t) (mount (zeroDisk n)) s
  sound : Sound .cached s
  found : ¬ Failed s
  paged : Paged n (fun _ => False) s
  slots : ∃ X : Finset Nat, X.card = k ∧ ∀ x, LiveSlot s x ↔ x ∈ X
  written : ∀ x, LiveSlot s x → pointer s x 0 ≠ -1

/-- With an object for each page the cache is full, and with one more it would be too full. -/
theorem Filling.le {k : Nat} (h : Filling n k s) : k ≤ 32766 := by
  obtain ⟨X, hcard, hlive⟩ := h.slots
  obtain ⟨owner, hown⟩ := h.sound.owned
  have hrefers : ∀ x ∈ X, Refers s x (.ptr 0) (pointer s x 0) := fun x hx =>
    ⟨(hlive x).mpr hx, by decide, rfl, h.written x ((hlive x).mpr hx)⟩
  have himage : (X.image fun x => pointer s x 0).card = k := by
    rw [Finset.card_image_of_injOn, hcard]
    intro x hx y hy hxy
    have hy' := hrefers y hy
    rw [← show pointer s x 0 = pointer s y 0 from hxy] at hy'
    exact ((hrefers x hx).unique hy' hown).1
  rw [← himage]
  refine card_paged_le h.sound.inv fun b hb => ?_
  obtain ⟨x, hx, rfl⟩ := Finset.mem_image.mp hb
  exact h.paged.2 _ ((hrefers x hx).used hown).2 id

/-- One more object, if its creation and its first write come back. -/
theorem Filling.next {k : Nat} (hn : dataBlocksStart + 32768 ≤ n) (h : Filling n k s)
    (hlive : ∀ {s t : State} {op : Op} {r : Ret},
      Reaches (step .cached) (fun _ _ t => ¬ Failed t) (mount (zeroDisk n)) s →
      exec .cached op s = some (r, t) → Live t) : ∃ t, Filling n (k + 1) t := by
  have hk := h.le
  obtain ⟨X, hcard, hX⟩ := h.slots
  obtain ⟨key, x, u, hx, hxX, hcreate, hu, hXu⟩ := createObject_more hX (by omega)
  have hstep : step .cached (.create key) s = some (.val (indexToID x), u) := by
    rw [step_create_eq .cached key (reaches_calling h.reach), hcreate, Option.map_some]
  have hfu : ¬ Failed u := by
    rw [hu]
    simpa [Failed] using h.found
  have hreach := Reaches.step h.reach hstep hfu
  have hsu : Sound .cached u := createObject_sound h.sound hcreate
  have hpu : Paged n (fun _ => False) u := by
    rw [hu]
    exact h.paged
  have hxu : LiveSlot u x := (hXu x).mpr (Finset.mem_insert_self x X)
  -- The first byte of the new object: a table and a block, for which two are free.
  have hslot := idToIndex_indexToID x
  have hreg : (Op.write (indexToID x) [7] 0).Regular :=
    ⟨not_irregular.mpr (by decide), by rwa [hslot], by decide⟩
  have hexec : exec .cached (.write (indexToID x) [7] 0) u = some (_, _) := rfl
  have hl := hlive hreach hexec
  have hft := smallWrite_found hsu hxu (by decide) hl hfu (hpu.free hsu.inv hn)
  have hret : Returned _ := ⟨hl, exec_noFault hexec nofun hreg hl (reaches_calling hreach).noFault⟩
  obtain ⟨-, owner, owner', hown, hw⟩ := objstoreWrite_live hsu hreg (two_le_indexToID x) (by rwa [hslot]) hl
  rw [hslot] at hw
  have hlive' : ∀ y, LiveSlot (objstoreWrite .cached (indexToID x) (bufferOf [7]) (int32 [(7 : UInt8)].length) 0 u).2 y ↔
      LiveSlot u y := by
    intro y
    by_cases hy : y = x
    · rw [hy, LiveSlot, LiveSlot, hw.id]
    · rw [LiveSlot, LiveSlot, hw.others y hy]
  refine ⟨_, .step hreach (step_some.mpr ⟨hexec, hret⟩) hft, exec_sound hsu hexec nofun hl, hft, ?_,
    ⟨insert x X, by rw [Finset.card_insert_of_notMem hxX, hcard], fun y => (hlive' y).trans (hXu y)⟩, fun y hy => ?_⟩
  · rcases exec_cases hexec nofun with ⟨_, hop, -⟩ | hwalk
    · cases hop
    · exact (Paged.rule n).walk hwalk hl hft hpu
  · by_cases hyx : y = x
    · rw [hyx]
      exact hw.blockAt_ne hft (show WritePlace (Spec.Files.taken [7] 0) 0 (.ptr 0) by decide)
    · have hptr : pointer u y 0 = pointer s y 0 := by
        rw [hu]
        simp [pointer, Function.update_of_ne hyx]
      have hys : LiveSlot s y := (hX y).mpr (Finset.mem_of_mem_insert_of_ne ((hXu y).mp ((hlive' y).mp hy)) hyx)
      have hother : pointer _ y 0 = pointer u y 0 := congrFun (congrArg Object.dataBlockPointers (hw.others y hyx)) 0
      rw [hother, hptr]
      exact h.written y hys

end Filling

end CS330.ObjStore
