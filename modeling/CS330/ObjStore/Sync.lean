import CS330.ObjStore.View

/-! Giving up pages.

A page that is given up is written back if it is dirty, and its block is marked used
(`GivenUp`): so does `flush_cache`, and so does a round of `cache_sync` on a page that a block
has. The rounds then mark exactly the blocks that the pages were named after (`Marked`). -/
namespace CS330.ObjStore

section Sync
variable {c i n : Nat} {b : Int} {s t : State}

/-! ### Writing a page back -/

/-- The page goes to the disk if it is dirty. -/
def writtenBack (c : Nat) (s : State) : State :=
  if s.dirtyFlag c then (writeBlock (s.cacheBitmap c) (c <<< 12) (s.cache c) s).2 else s

theorem page_mod (c : Nat) : c <<< 12 % 4096 = 0 := by
  rw [Nat.shiftLeft_eq]
  omega

/-- Nothing but the disk changes. -/
theorem writtenBack_eq (c : Nat) (s : State) :
    writtenBack c s = {s with disk := (writtenBack c s).disk, log := (writtenBack c s).log} := by
  unfold writtenBack writeBlock
  dsimp only
  split_ifs <;> rfl

theorem writtenBack_clean (h : s.dirtyFlag c = false) : writtenBack c s = s := by
  rw [writtenBack, h, if_neg nofun]

theorem writtenBack_dirty (h : s.dirtyFlag c = true) (h₀ : 0 ≤ s.cacheBitmap c) :
    (writtenBack c s).disk = (s.setDisk (s.cacheBitmap c) (s.cache c)).disk := by
  rw [writtenBack, h, if_pos rfl, writeBlock_inside (page_mod c) h₀]
  rfl

theorem writtenBack_other (hb : b ≠ s.cacheBitmap c) : (writtenBack c s).disk.blocks b = s.disk.blocks b := by
  unfold writtenBack writeBlock
  dsimp only
  split_ifs
  · rfl
  · rfl
  · exact Function.update_of_ne hb ..
  · rfl

theorem writtenBack_size (c : Nat) (s : State) : s.disk.size ≤ (writtenBack c s).disk.size := by
  unfold writtenBack writeBlock
  dsimp only
  split_ifs
  · exact Nat.le_refl _
  · exact Nat.le_refl _
  · exact Nat.le_max_left ..
  · exact Nat.le_refl _

/-- The block has lost the page, and the disk has what was on it. -/
structure GivenUp (i : Nat) (s t : State) : Prop where
  obj : t.obj = s.obj
  cache : t.cache = s.cache
  disk : t.disk = (writtenBack i s).disk
  bitmap : t.blockBitmap = Function.update s.blockBitmap (s.cacheBitmap i) 1
  names : ∀ c, c ≠ i → t.cacheBitmap c = s.cacheBitmap c
  dirty : ∀ c, c ≠ i → t.dirtyFlag c = s.dirtyFlag c

theorem flushCache_givenUp (i : Nat) (s : State) : GivenUp i s (flushCache i s) := by
  have heq : flushCache i s = ((((writtenBack i s).emit (.lock .cacheBitmapMutex)).setCacheBitmap i 0).emit
      (.unlock .cacheBitmapMutex)).setBitmap (s.cacheBitmap i) 1 := rfl
  rw [heq, writtenBack_eq]
  exact ⟨rfl, rfl, rfl, rfl, fun c hc => Function.update_of_ne hc .., fun _ _ => rfl⟩

/-! ### The rounds of `cache_sync` -/

theorem syncPage_free (h : s.cacheBitmap i = 0) : syncPage i s = s := if_pos h

theorem syncPage_givenUp (h : s.cacheBitmap i ≠ 0) : GivenUp i s (syncPage i s) := by
  rw [syncPage, if_neg h]
  dsimp only
  cases hd : s.dirtyFlag i with
  | false =>
    rw [if_pos rfl]
    exact ⟨rfl, rfl, by rw [writtenBack_clean hd]; rfl, rfl, fun _ _ => rfl, fun _ _ => rfl⟩
  | true =>
    rw [if_neg nofun]
    have hback : (writeBlock (s.cacheBitmap i) (i <<< 12) (s.cache i) s).2 = writtenBack i s := by
      rw [writtenBack, hd, if_pos rfl]
    rw [hback, writtenBack_eq]
    exact ⟨rfl, rfl, rfl, rfl, fun c hc => Function.update_of_ne hc .., fun c hc => Function.update_of_ne hc ..⟩

theorem syncPage_obj (i : Nat) (s : State) : (syncPage i s).obj = s.obj := by
  by_cases h : s.cacheBitmap i = 0
  · rw [syncPage_free h]
  · exact (syncPage_givenUp h).obj

theorem syncPages_obj (n : Nat) (s : State) : (syncPages n s).obj = s.obj := by
  induction n with
  | zero => rfl
  | succ n ih => rw [syncPages, syncPage_obj, ih]

/-- After the first `n` rounds of `cache_sync`: the blocks their pages named are marked. -/
structure Marked (n : Nat) (s u : State) : Prop where
  later : ∀ c, n ≤ c → u.cacheBitmap c = s.cacheBitmap c
  named : ∀ c, c < n → s.cacheBitmap c ≠ 0 → u.blockBitmap (s.cacheBitmap c) = 1
  unnamed : ∀ b, (∀ c, c < n → s.cacheBitmap c ≠ 0 → s.cacheBitmap c ≠ b) → u.blockBitmap b = s.blockBitmap b
  size : s.disk.size ≤ u.disk.size

theorem Marked.next {u : State} (h : Marked n s u) : Marked (n + 1) s (syncPage n u) := by
  have hcb := h.later n (Nat.le_refl n)
  by_cases h₀ : s.cacheBitmap n = 0
  · rw [syncPage_free (hcb.trans h₀)]
    refine ⟨fun c hc => h.later c (by omega), fun c hc hne => h.named c ?_ hne,
      fun b hb => h.unnamed b fun c hc => hb c (by omega), h.size⟩
    have : c ≠ n := by
      rintro rfl
      exact hne h₀
    omega
  · have hround := syncPage_givenUp (i := n) (s := u) (by rwa [hcb])
    have hbit := hround.bitmap
    rw [hcb] at hbit
    refine ⟨fun c hc => (hround.names c (by omega)).trans (h.later c (by omega)), fun c hc hne => ?_, fun b hb => ?_, ?_⟩
    · rw [hbit]
      by_cases hb : s.cacheBitmap c = s.cacheBitmap n
      · rw [hb, Function.update_self]
      · rw [Function.update_of_ne hb]
        refine h.named c ?_ hne
        have : c ≠ n := by
          rintro rfl
          exact hb rfl
        omega
    · rw [hbit, Function.update_of_ne (hb n (by omega) h₀).symm]
      exact h.unnamed b fun c hc => hb c (by omega)
    · rw [hround.disk]
      exact h.size.trans (writtenBack_size n u)

theorem syncPages_marked (n : Nat) (s : State) : Marked n s (syncPages n s) := by
  induction n with
  | zero => exact ⟨fun _ _ => rfl, fun c hc => absurd hc (Nat.not_lt_zero c), fun _ _ => rfl, Nat.le_refl _⟩
  | succ n ih => exact ih.next

end Sync

end CS330.ObjStore
