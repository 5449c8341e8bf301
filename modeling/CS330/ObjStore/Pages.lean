import CS330.ObjStore.Cursor

/-! Invariants of the page cache.

A property of the bitmap, the pages and the disk is kept by every walk of the
cached build if it is kept by the few things a walk does to them (`PageRule`). `X`
are the blocks that were taken and not stored to yet: the property may say less
about those, and no call ends with one. -/
namespace CS330.ObjStore

/-- Only slots and the log changed, and the cursor did not move. -/
structure Aside (s t : State) : Prop where
  eq : t = {s with obj := t.obj, log := t.log}
  pages : pageCalls t.log = pageCalls s.log

theorem Quiet.aside {s t : State} (h : Quiet s t) : Aside s t := by
  refine ⟨?_, h.pages⟩
  rw [h.eq]

structure PageRule (I : (Int → Prop) → State → Prop) : Prop where
  mono : ∀ {X Y : Int → Prop} {s}, (∀ b, X b → Y b) → I X s → I Y s
  aside : ∀ {X s t}, Aside s t → I X s → I X t
  /-- A block with no page is written on the disk. -/
  direct : ∀ {X s b} {blk : Block}, 0 ≤ b → s.blockBitmap b = 0 ∨ X b ∧ s.blockBitmap b = 1 → I X s →
    I X (s.setDisk b blk)
  take : ∀ {X s t b}, DataBlock s b → s.blockBitmap b = 0 → Took b s t → I X s →
    I (fun b' => X b' ∨ b' = b) t
  newPage : ∀ {X s t b c dirty blk}, NewPage b c dirty blk s t →
    (dirty = false → 0 ≤ b → b < s.disk.size → blk = s.disk.blocks b) → I X s →
    I (fun b' => X b' ∧ (b' = b → dirty = false)) t
  /-- A block is stored on its page. -/
  rewrite : ∀ {X s b} {blk : Block}, 1 < s.blockBitmap b → I X s →
    I (fun b' => X b' ∧ b' ≠ b) ((s.setPage (s.blockBitmap b) blk).setDirty (s.blockBitmap b) true)

/-! ### Used blocks stay used -/

section Used
variable {build : Build} {F : Prop} {s t : State} {b : Int}

theorem NewPage.used {c : Nat} {dirty : Bool} {blk : Block} {b' : Int} (h : NewPage b c dirty blk s t)
    (hb : s.blockBitmap b' ≠ 0) : t.blockBitmap b' ≠ 0 := by
  have hc := (nextPage_bounds s.lastCacheIndex).1
  rw [← h.next] at hc
  rw [h.bitmap]
  by_cases hne : b' = b
  · rw [hne, Function.update_self]
    omega
  · rwa [Function.update_of_ne hne]

theorem writeBlock_bitmap (addr : Nat) (buf : Block) (s : State) :
    (writeBlock b addr buf s).2.blockBitmap = s.blockBitmap := by
  unfold writeBlock
  dsimp only
  split_ifs <;> rfl

theorem store_used_of_used {addr : Nat} {buf : Block} {b' : Int} (hl : Live (store build b addr buf s).2)
    (hb : s.blockBitmap b' ≠ 0) : (store build b addr buf s).2.blockBitmap b' ≠ 0 := by
  rcases store_cases hl with ⟨-, t, hq, heq⟩ | ⟨-, -, -, t, hq, heq⟩ | ⟨-, -, hp⟩
  · rw [heq, writeBlock_bitmap, hq.eq]
    exact hb
  · rw [heq, hq.eq]
    exact hb
  · exact hp.used hb

theorem newBlock_used {r : Int × State} (hr : getNewDatablock s = r) {b' : Int}
    (hb : s.blockBitmap b' ≠ 0 ∨ b' = r.1) : (setBlockBitmap r.1 r.2).blockBitmap b' ≠ 0 := by
  have htook := (alloc_cases s).1
  rw [hr] at htook
  rw [htook.bitmap]
  by_cases hne : b' = r.1
  · rw [hne, Function.update_self]
    decide
  · rw [Function.update_of_ne hne]
    exact hb.resolve_right hne

theorem Walk.used (h : Walk build F s t) (hl : Live t) (hb : s.blockBitmap b ≠ 0) :
    t.blockBitmap b ≠ 0 := by
  induction h with
  | refl s => exact hb
  | trans _ h₂ ih₁ ih₂ => exact ih₂ hl (ih₁ (h₂.steady.live hl) hb)
  | fetch b' ha buf s =>
    rcases fetch_cases hl with ⟨hq, -⟩ | ⟨-, -, -, hp⟩
    · rw [hq.eq]
      exact hb
    · exact hp.used hb
  | store b' buf s => exact store_used_of_used hl hb
  | entry buf hr => exact store_used_of_used hl (newBlock_used hr (.inl hb))
  | table buf hr _ ih =>
    refine store_used_of_used hl (ih ((store_steady ..).live hl) ?_)
    rw [initializeBlock, writeBlock_bitmap]
    exact newBlock_used hr (.inl hb)
  | slot x o s => exact hb
  | locked s ht hlog =>
    rw [ht]
    exact hb
  | fault _ s => exact hb

end Used

/-! ### Walks -/

section Rule
variable {I : (Int → Prop) → State → Prop} {X : Int → Prop} {F : Prop} {s t : State}

theorem PageRule.writeBlock (hI : PageRule I) {b : Int} {buf : Block}
    (hb : s.blockBitmap b = 0 ∨ X b ∧ s.blockBitmap b = 1) (h : I X s) :
    I X (writeBlock b 0 buf s).2 := by
  have haside : Aside s (s.emit (.writeBlock b (s.blockBitmap b))) := ⟨rfl, rfl⟩
  rcases Int.lt_or_le b 0 with hneg | hpos
  · rw [writeBlock_negative rfl hneg]
    exact hI.aside haside h
  · rw [writeBlock_inside rfl hpos]
    exact hI.direct hpos hb (hI.aside haside h)

theorem PageRule.fetch (hI : PageRule I) {b : Int} {addr : Nat} {buf : Block} (ha : addr % 4096 = 0)
    (hl : Live (ObjStore.fetch .cached b addr buf s).2.2) (h : I X s) :
    I X (ObjStore.fetch .cached b addr buf s).2.2 := by
  rcases fetch_cases hl with ⟨hq, -⟩ | ⟨-, -, -, hp⟩
  · exact hI.aside hq.aside h
  · refine hI.mono (fun _ hX => hX.1) (hI.newPage hp (fun _ h₀ h₁ => ?_) h)
    rw [readBlock_inside ha h₀ h₁]

/-- A block that was used is not pending once it has been stored to. -/
theorem PageRule.store_used (hI : PageRule I) {b : Int} {buf : Block} (hb : s.blockBitmap b ≠ 0)
    (hl : Live (ObjStore.store .cached b 0 buf s).2) (h : I X s) :
    I (fun b' => X b' ∧ b' ≠ b) (ObjStore.store .cached b 0 buf s).2 := by
  rcases store_cases hl with ⟨hor, -⟩ | ⟨-, -, hlt, t, hq, heq⟩ | ⟨-, -, hp⟩
  · exact absurd (hor.resolve_left (by decide)) hb
  · have hbit : t.blockBitmap = s.blockBitmap := by rw [hq.eq]
    rw [heq, ← hbit]
    exact hI.rewrite (by rw [hbit]; exact hlt) (hI.aside hq.aside h)
  · exact hI.mono (fun _ hX => ⟨hX.1, fun he => by cases hX.2 he⟩)
      (hI.newPage hp (fun hd => by cases hd) h)

theorem PageRule.store (hI : PageRule I) {b : Int} {buf : Block}
    (hl : Live (ObjStore.store .cached b 0 buf s).2) (h : I X s) :
    I X (ObjStore.store .cached b 0 buf s).2 := by
  by_cases hb : s.blockBitmap b = 0
  · rw [store_free hb]
    exact hI.writeBlock (.inl hb) (hI.aside ⟨rfl, rfl⟩ h)
  · exact hI.mono (fun _ hX => hX.1) (hI.store_used hb hl h)

theorem PageRule.newBlock (hI : PageRule I) {r : Int × State} (hr : getNewDatablock s = r)
    (hf : ¬ Failed (setBlockBitmap r.1 r.2)) (h : I X s) :
    I (fun b' => X b' ∨ b' = r.1) (setBlockBitmap r.1 r.2) := by
  obtain ⟨htook, hcases⟩ := alloc_cases s
  have hfailed := alloc_failed s
  rw [hr] at htook hcases hfailed
  rcases hcases with ⟨hb, -⟩ | ⟨hdata, hb⟩
  · exact absurd (hfailed.mpr (.inr hb)) hf
  · exact hI.take hdata hb htook h

theorem PageRule.walk (hI : PageRule I) (hw : Walk .cached F s t) (hl : Live t) (hf : ¬ Failed t)
    (h : I X s) : I X t := by
  generalize hbuild : Build.cached = build at hw
  induction hw generalizing X with
  | refl s => exact h
  | trans _ h₂ ih₁ ih₂ =>
    exact ih₂ hl hf (ih₁ (h₂.steady.live hl) (fun hf' => hf (h₂.steady.failed hf')) h)
  | fetch b ha buf s =>
    subst hbuild
    exact hI.fetch ha hl h
  | store b buf s =>
    subst hbuild
    exact hI.store hl h
  | entry buf hr =>
    subst hbuild
    have hnew := hI.newBlock hr (fun hf' => hf ((store_steady ..).failed hf')) h
    exact hI.mono (fun b hX => hX.1.resolve_right hX.2)
      (hI.store_used (newBlock_used hr (.inr rfl)) hl hnew)
  | @table buf s t r hr hw ih =>
    subst hbuild
    have hlt : Live t := (store_steady ..).live hl
    have hft : ¬ Failed t := fun hf' => hf ((store_steady ..).failed hf')
    have hinit : Steady (setBlockBitmap r.1 r.2) t := (initializeBlock_calm _ _).steady.trans hw.steady
    have hnew := hI.newBlock hr (fun hf' => hft (hinit.failed hf')) h
    have hbit : (setBlockBitmap r.1 r.2).blockBitmap r.1 = 1 := by simp [setBlockBitmap]
    have hzero : I _ (initializeBlock r.1 (setBlockBitmap r.1 r.2)) :=
      hI.writeBlock (.inr ⟨.inr rfl, hbit⟩) hnew
    have hused : t.blockBitmap r.1 ≠ 0 := by
      refine hw.used hlt ?_
      rw [initializeBlock, writeBlock_bitmap, hbit]
      decide
    exact hI.mono (fun b hX => hX.1.resolve_right hX.2) (hI.store_used hused hl (ih hlt hft hzero))
  | slot x o s => exact hI.aside ⟨rfl, rfl⟩ h
  | locked s ht hlog => exact hI.aside ⟨ht, by rw [hlog]; rfl⟩ h
  | fault _ s => exact hI.aside ⟨rfl, rfl⟩ h

end Rule

end CS330.ObjStore
