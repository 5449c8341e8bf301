import CS330.ObjStore.Alloc

/-! Which object a block belongs to.

`Owned owner s`: every block a live object refers to, by a pointer or by an entry
of one of its tables, is kept for that object at that place and for no other. The
tables are looked at both as a reader sees them and as they are on the disk, for
`free_data_block` reads them there. `Grows W owner owner' s t`: from `s` to `t`
blocks were only taken, and only places in `W` were written to. -/
namespace CS330.ObjStore

/-- A place in an object: one of its pointers, or an entry of one of its tables. -/
inductive Path where
  | ptr (j : Nat)
  | entry (j k : Nat)
  deriving DecidableEq, Repr

/-- The slot and the place a block is kept for. -/
abbrev Owner := Int → Option (Nat × Path)

def LiveSlot (s : State) (x : Nat) : Prop := (s.obj x).id ≠ 0

instance (s : State) (x : Nat) : Decidable (LiveSlot s x) := inferInstanceAs (Decidable (_ ≠ _))

def pointer (s : State) (x j : Nat) : Int := (s.obj x).dataBlockPointers j

theorem liveSlot_congr {s t : State} (h : t.obj = s.obj) (x : Nat) : LiveSlot t x ↔ LiveSlot s x := by
  unfold LiveSlot
  rw [h]

theorem pointer_congr {s t : State} (h : t.obj = s.obj) (x j : Nat) : pointer t x j = pointer s x j := by
  unfold pointer
  rw [h]

/-- Every entry of table `j` of slot `x` is -1 or a block kept for that entry. -/
def TableOwned (owner : Owner) (x j : Nat) (table : Nat → Int) : Prop :=
  ∀ k, k < 1024 → table k = -1 ∨ owner (table k) = some (x, .entry j k)

structure Owned (owner : Owner) (s : State) : Prop where
  used : ∀ b v, owner b = some v → DataBlock s b ∧ s.blockBitmap b ≠ 0
  ptr : ∀ x j, LiveSlot s x → j < 4 → pointer s x j = -1 ∨ owner (pointer s x j) = some (x, .ptr j)
  table : ∀ x j, LiveSlot s x → j < 4 → pointer s x j ≠ -1 →
    TableOwned owner x j (ints (view s (pointer s x j)))
  disk : ∀ x j, LiveSlot s x → j < 4 → pointer s x j ≠ -1 →
    TableOwned owner x j (ints (s.disk.blocks (pointer s x j)))
  slot : ∀ x, LiveSlot s x → x < 1000000 ∧ (s.obj x).id = indexToID x

namespace Owned
variable {owner owner' : Owner} {s t : State}

theorem nonneg (h : Owned owner s) {b : Int} {v : Nat × Path} (hb : owner b = some v) : 0 ≤ b := by
  have := (h.used b v hb).1.1
  omega

theorem pointer_owner (h : Owned owner s) {x j : Nat} (hx : LiveSlot s x) (hj : j < 4)
    (hp : pointer s x j ≠ -1) : owner (pointer s x j) = some (x, .ptr j) :=
  (h.ptr x j hx hj).resolve_left hp

theorem pointer_used (h : Owned owner s) {x j : Nat} (hx : LiveSlot s x) (hj : j < 4)
    (hp : pointer s x j ≠ -1) : s.blockBitmap (pointer s x j) ≠ 0 :=
  (h.used _ _ (h.pointer_owner hx hj hp)).2

theorem pointer_nonneg (h : Owned owner s) {x j : Nat} (hx : LiveSlot s x) (hj : j < 4)
    (hp : pointer s x j ≠ -1) : 0 ≤ pointer s x j := h.nonneg (h.pointer_owner hx hj hp)

/-- The slots stay and no block is given back: only the tables have to be looked
at again. -/
theorem of_tables (h : Owned owner s) (hobj : t.obj = s.obj)
    (htotal : t.totalNumDiskBlocks = s.totalNumDiskBlocks)
    (hused : ∀ b, t.blockBitmap b = 0 → s.blockBitmap b = 0)
    (htable : ∀ x j, LiveSlot s x → j < 4 → pointer s x j ≠ -1 →
      TableOwned owner x j (ints (view t (pointer s x j))) ∧
      TableOwned owner x j (ints (t.disk.blocks (pointer s x j)))) : Owned owner t := by
  have hlive := liveSlot_congr hobj
  have hptr := pointer_congr hobj
  refine ⟨fun b v hb => ?_, fun x j hx hj => ?_, fun x j hx hj hp => ?_, fun x j hx hj hp => ?_,
    fun x hx => ?_⟩
  · have := h.used b v hb
    unfold DataBlock at *
    rw [htotal]
    exact ⟨this.1, fun h₀ => this.2 (hused b h₀)⟩
  · rw [hptr]
    exact h.ptr x j ((hlive x).mp hx) hj
  · rw [hptr] at hp ⊢
    exact (htable x j ((hlive x).mp hx) hj hp).1
  · rw [hptr] at hp ⊢
    exact (htable x j ((hlive x).mp hx) hj hp).2
  · rw [hobj]
    exact h.slot x ((hlive x).mp hx)

theorem same (h : Owned owner s) (hs : Same s t) : Owned owner t := by
  refine h.of_tables hs.obj hs.total (fun b => (hs.used b).mp) fun x j hx hj hp => ?_
  rw [hs.view _ (h.pointer_nonneg hx hj hp), hs.disk]
  exact ⟨h.table x j hx hj hp, h.disk x j hx hj hp⟩

/-- What is stored in a table of a live object must be a table of its blocks. -/
theorem stored (h : Owned owner s) {b : Int} {blk : Block} (hs : Stored b blk s t)
    (htable : ∀ x j, LiveSlot s x → j < 4 → pointer s x j = b → b ≠ -1 →
      TableOwned owner x j (ints blk)) : Owned owner t := by
  refine h.of_tables hs.obj hs.total (fun b => (hs.used b).mp) fun x j hx hj hp => ?_
  have h₀ := h.pointer_nonneg hx hj hp
  by_cases hb : pointer s x j = b
  · have hold := h.disk x j hx hj hp
    rw [hb] at hold hp h₀ ⊢
    have hnew := htable x j hx hj hb hp
    refine ⟨by rw [hs.self h₀]; exact hnew, ?_⟩
    rcases hs.diskSelf with hd | hd
    · rw [hd]
      exact hold
    · rw [hd]
      exact hnew
  · rw [hs.other _ h₀ hb, hs.disk _ hb]
    exact ⟨h.table x j hx hj hp, h.disk x j hx hj hp⟩

/-- Blocks may get owners, as long as they are used. -/
theorem extend (h : Owned owner s) (hkeep : ∀ b v, owner b = some v → owner' b = some v)
    (hused : ∀ b v, owner' b = some v → DataBlock s b ∧ s.blockBitmap b ≠ 0) : Owned owner' s := by
  have htable : ∀ x j t, TableOwned owner x j t → TableOwned owner' x j t :=
    fun x j t ht k hk => (ht k hk).imp id (hkeep _ _)
  exact ⟨hused, fun x j hx hj => (h.ptr x j hx hj).imp id (hkeep _ _),
    fun x j hx hj hp => htable _ _ _ (h.table x j hx hj hp),
    fun x j hx hj hp => htable _ _ _ (h.disk x j hx hj hp), h.slot⟩

/-- A live slot `y` of `t` has what the live slot `z` of `s` had, but for dropped
pointers. -/
structure Inherits (owner owner' : Owner) (s t : State) (z y : Nat) : Prop where
  live : LiveSlot s z
  ptr : ∀ j, j < 4 → pointer t y j = -1 ∨ pointer t y j = pointer s z j
  owner : ∀ b path, owner b = some (z, path) → owner' b = some (y, path)
  blocks : ∀ j, j < 4 → pointer s z j ≠ -1 → view t (pointer s z j) = view s (pointer s z j) ∧
    t.disk.blocks (pointer s z j) = s.disk.blocks (pointer s z j)

/-- Slots may be filled, given up or moved, pointers be dropped and blocks be freed,
as long as what live objects still refer to stays. -/
theorem of_slots (h : Owned owner s) (htotal : t.totalNumDiskBlocks = s.totalNumDiskBlocks)
    (hused : ∀ b v, owner' b = some v → (∃ w, owner b = some w) ∧ t.blockBitmap b ≠ 0)
    (hslots : ∀ y, LiveSlot t y → y < 1000000 ∧ (t.obj y).id = indexToID y ∧
      ((∀ j, j < 4 → pointer t y j = -1) ∨ ∃ z, Inherits owner owner' s t z y)) : Owned owner' t := by
  have htables : ∀ y j, LiveSlot t y → j < 4 → pointer t y j ≠ -1 →
      TableOwned owner' y j (ints (view t (pointer t y j))) ∧
      TableOwned owner' y j (ints (t.disk.blocks (pointer t y j))) := by
    intro y j hy hj hp
    obtain ⟨-, -, hnone | ⟨z, hz⟩⟩ := hslots y hy
    · exact absurd (hnone j hj) hp
    · have hq := (hz.ptr j hj).resolve_left hp
      rw [hq] at hp ⊢
      rw [(hz.blocks j hj hp).1, (hz.blocks j hj hp).2]
      exact ⟨fun k hk => (h.table z j hz.live hj hp k hk).imp id (hz.owner _ _),
        fun k hk => (h.disk z j hz.live hj hp k hk).imp id (hz.owner _ _)⟩
  refine ⟨fun b v hb => ?_, fun y j hy hj => ?_, fun y j hy hj hp => (htables y j hy hj hp).1,
    fun y j hy hj hp => (htables y j hy hj hp).2, fun y hy => ⟨(hslots y hy).1, (hslots y hy).2.1⟩⟩
  · obtain ⟨⟨w, hw⟩, hb⟩ := hused b v hb
    unfold DataBlock
    rw [htotal]
    exact ⟨(h.used b w hw).1, hb⟩
  · obtain ⟨-, -, hnone | ⟨z, hz⟩⟩ := hslots y hy
    · exact .inl (hnone j hj)
    · rcases hz.ptr j hj with hp | hp
      · exact .inl hp
      · rw [hp]
        exact (h.ptr z j hz.live hj).imp id (hz.owner _ _)

end Owned

/-! ### Growing -/

structure Grows (W : Nat × Path → Prop) (owner owner' : Owner) (s t : State) : Prop where
  total : t.totalNumDiskBlocks = s.totalNumDiskBlocks
  keeps : ∀ b v, owner b = some v → owner' b = some v
  new : ∀ b v, owner' b = some v → owner b = some v ∨ W v ∧ s.blockBitmap b = 0
  used : ∀ b, s.blockBitmap b ≠ 0 → t.blockBitmap b ≠ 0
  taken : ∀ b, 0 ≤ b → t.blockBitmap b ≠ 0 → s.blockBitmap b ≠ 0 ∨ ∃ v, owner' b = some v
  other : ∀ b v, owner b = some v → ¬ W v → view t b = view s b ∧ t.disk.blocks b = s.disk.blocks b

namespace Grows
variable {W V : Nat × Path → Prop} {owner owner' owner'' : Owner} {s t u : State}

theorem mono (h : Grows V owner owner' s t) (hVW : ∀ v, V v → W v) : Grows W owner owner' s t :=
  ⟨h.total, h.keeps, fun b v hb => (h.new b v hb).imp id fun hv => ⟨hVW v hv.1, hv.2⟩, h.used, h.taken,
    fun b v hb hv => h.other b v hb fun hV => hv (hVW v hV)⟩

theorem free (h : Grows W owner owner' s t) (b : Int) (hb : t.blockBitmap b = 0) :
    s.blockBitmap b = 0 :=
  Classical.not_not.mp fun hs => h.used b hs hb

theorem trans (h₁ : Grows W owner owner' s t) (h₂ : Grows W owner' owner'' t u) :
    Grows W owner owner'' s u := by
  refine ⟨h₂.total.trans h₁.total, fun b v hb => h₂.keeps b v (h₁.keeps b v hb), fun b v hb => ?_,
    fun b hb => h₂.used b (h₁.used b hb), fun b h₀ hb => ?_, fun b v hb hv => ?_⟩
  · rcases h₂.new b v hb with hb | ⟨hv, hz⟩
    · exact h₁.new b v hb
    · exact .inr ⟨hv, by by_contra hs; exact h₁.used b hs hz⟩
  · rcases h₂.taken b h₀ hb with hb | hb
    · exact (h₁.taken b h₀ hb).imp id fun ⟨v, hv⟩ => ⟨v, h₂.keeps b v hv⟩
    · exact .inr hb
  · have h := h₁.other b v hb hv
    have h' := h₂.other b v (h₁.keeps b v hb) hv
    exact ⟨h'.1.trans h.1, h'.2.trans h.2⟩

theorem of_same (h : Same s t) (hown : Owned owner s) : Grows W owner owner s t :=
  ⟨h.total, fun _ _ hb => hb, fun _ _ hb => .inl hb, fun b hb ht => hb ((h.used b).mp ht),
    fun b _ hb => .inl fun hs => hb ((h.used b).mpr hs),
    fun b _ hb _ => ⟨h.view b (hown.nonneg hb), by rw [h.disk]⟩⟩

/-- Storing a block whose place, if it has one, is in `W`. -/
theorem of_stored {b : Int} {blk : Block} (h : Stored b blk s t) (hown : Owned owner s)
    (hW : ∀ v, owner b = some v → W v) : Grows W owner owner s t := by
  refine ⟨h.total, fun _ _ hb => hb, fun _ _ hb => .inl hb, fun b' hb ht => hb ((h.used b').mp ht),
    fun b' _ hb => .inl fun hs => hb ((h.used b').mpr hs), fun b' v hb hv => ?_⟩
  have hne : b' ≠ b := by
    rintro rfl
    exact hv (hW v hb)
  exact ⟨h.other b' (hown.nonneg hb) hne, h.disk b' hne⟩

/-- No free block is left. -/
theorem full (h : Grows W owner owner' s t) (hs : ∀ b, DataBlock s b → s.blockBitmap b ≠ 0) (b : Int)
    (hb : DataBlock t b) : t.blockBitmap b ≠ 0 := by
  unfold DataBlock at hb
  rw [h.total] at hb
  exact h.used b (hs b hb)

end Grows

/-! ### Block steps

`Advance` is `Grows` with what the steps of a write keep besides: the invariants
hold after it, a failed allocation means that every data block is used, and
without one no event of the log is harmful. -/

/-- The bitmap is indexed inside its bounds, and only used data blocks are written. -/
def Event.Harmless (total : Nat) : Event → Prop
  | .bitmap b => 0 ≤ b ∧ b < bitmapSize
  | .writeBlock b mark => (dataBlocksStart : Int) ≤ b ∧ b < total ∧ mark ≠ 0
  | _ => True

theorem Event.Internal.harmless {e : Event} (h : e.Internal) (total : Nat) : e.Harmless total := by
  cases e <;> trivial

structure Advance (build : Build) (W : Nat × Path → Prop) (owner owner' : Owner) (s t : State) :
    Prop where
  inv : BlockInv build t
  owned : Owned owner' t
  grows : Grows W owner owner' s t
  failed : Failed s → Failed t
  full : Failed t → Failed s ∨ ∀ b, DataBlock t b → t.blockBitmap b ≠ 0
  harmless : ¬ Failed t → Emits (Event.Harmless t.totalNumDiskBlocks) s t

namespace Advance
variable {build : Build} {W V : Nat × Path → Prop} {owner owner' owner'' : Owner} {s t u : State}

theorem refl (hinv : BlockInv build s) (hown : Owned owner s) : Advance build W owner owner s s :=
  ⟨hinv, hown, .of_same (.refl s) hown, id, .inl, fun _ => .of_log_eq rfl⟩

theorem mono (h : Advance build V owner owner' s t) (hVW : ∀ v, V v → W v) :
    Advance build W owner owner' s t :=
  ⟨h.inv, h.owned, h.grows.mono hVW, h.failed, h.full, h.harmless⟩

theorem trans (h₁ : Advance build W owner owner' s t) (h₂ : Advance build W owner' owner'' t u) :
    Advance build W owner owner'' s u := by
  refine ⟨h₂.inv, h₂.owned, h₁.grows.trans h₂.grows, fun hf => h₂.failed (h₁.failed hf), fun hf => ?_,
    fun hf => ?_⟩
  · rcases h₂.full hf with hf | hf
    · exact (h₁.full hf).imp id h₂.grows.full
    · exact .inr hf
  · have h := h₁.harmless fun ht => hf (h₂.failed ht)
    rw [← h₂.grows.total] at h
    exact h.trans (h₂.harmless hf)

end Advance

section Steps
variable {build : Build} {W : Nat × Path → Prop} {owner : Owner} {b : Int} {addr : Nat} {buf : Block}
  {s : State}

theorem DataBlock.inBitmap (hinv : BlockInv build s) (h : DataBlock s b) : 0 ≤ b ∧ b < bitmapSize := by
  have h₁ := h.1
  have h₂ := h.2
  have := hinv.total
  have := hinv.fits
  omega

theorem fetch_advance (hinv : BlockInv build s) (hown : Owned owner s) (ha : addr % 4096 = 0)
    (hb : DataBlock s b ∨ Failed s) (hl : Live (fetch build b addr buf s).2.2) :
    Advance build W owner owner s (fetch build b addr buf s).2.2 := by
  have hsame := fetch_same hinv ha hl
  have hfailed := (fetch_emits hl).failed (by simp [Event.Internal])
  refine ⟨fetch_inv hinv hl, hown.same hsame, .of_same hsame hown, hfailed.mpr,
    fun h => .inl (hfailed.mp h), fun hf => (fetch_emits hl).mono fun e he => ?_⟩
  rcases he with he | rfl
  · exact he.harmless _
  · exact (hb.resolve_right fun h => hf (hfailed.mpr h)).inBitmap hinv

theorem store_advance (hinv : BlockInv build s) (hown : Owned owner s) (ha : addr % 4096 = 0)
    (hlt : b < bitmapSize) (hb : DataBlock s b ∧ s.blockBitmap b ≠ 0 ∨ Failed s)
    (hW : ∀ v, owner b = some v → W v)
    (htable : ∀ x j, LiveSlot s x → j < 4 → pointer s x j = b → b ≠ -1 →
      TableOwned owner x j (ints buf)) (hl : Live (store build b addr buf s).2) :
    Advance build W owner owner s (store build b addr buf s).2 := by
  obtain ⟨hinv', hstored, -⟩ := store_spec hinv ha hlt hl
  have hfailed := (store_emits hl).failed (by simp [Event.Internal])
  refine ⟨hinv', hown.stored hstored htable, .of_stored hstored hown hW, hfailed.mpr,
    fun h => .inl (hfailed.mp h), fun hf => (store_emits hl).mono fun e he => ?_⟩
  have hok := hb.resolve_right fun h => hf (hfailed.mpr h)
  rcases he with he | rfl | rfl
  · exact he.harmless _
  · exact hok.1.inBitmap hinv
  · rw [hstored.total]
    exact ⟨hok.1.1, hok.1.2, hok.2⟩

/-- A free block has no owner. -/
theorem Owned.unowned (hown : Owned owner s) (hb : s.blockBitmap b = 0) : owner b = none := by
  cases h : owner b with
  | none => rfl
  | some v => exact absurd hb (hown.used b v h).2

theorem took_grows {t : State} (h : Took b s t) (hown : Owned owner s)
    (hb : b = -1 ∨ s.blockBitmap b = 0) {owner' : Owner} (hkeep : ∀ b v, owner b = some v → owner' b = some v)
    (hnew : ∀ b' v, owner' b' = some v → owner b' = some v ∨ W v ∧ s.blockBitmap b' = 0)
    (htaken : 0 ≤ b → ∃ v, owner' b = some v) : Grows W owner owner' s t := by
  refine ⟨by rw [h.eq], hkeep, hnew, fun b' hs ht => hs ((h.used b').mp ht).1, fun b' h₀ ht => ?_,
    fun b' v hv _ => ⟨h.view ?_, by rw [h.eq]⟩⟩
  · by_cases hne : b' = b
    · subst hne
      exact .inr (htaken h₀)
    · exact .inl fun hs => ht ((h.used b').mpr ⟨hs, hne⟩)
  · rcases hb with rfl | hb
    · exact .inl fun hne => by
        have := hown.nonneg hv
        omega
    · exact .inr (by omega)

/-- `get_new_datablock` and `set_block_bitmap` on what it returned, for place `v`. -/
theorem alloc_advance (hinv : BlockInv build s) (hown : Owned owner s) {v : Nat × Path} (hv : W v)
    {r : Int × State} (hr : getNewDatablock s = r) :
    (setBlockBitmap r.1 r.2).obj = s.obj ∧ (setBlockBitmap r.1 r.2).disk = s.disk ∧
    (setBlockBitmap r.1 r.2).blockBitmap r.1 = 1 ∧
    (r.1 = -1 ∧ Failed (setBlockBitmap r.1 r.2) ∧
        Advance build W owner owner s (setBlockBitmap r.1 r.2) ∨
      DataBlock s r.1 ∧ s.blockBitmap r.1 = 0 ∧ (Failed (setBlockBitmap r.1 r.2) ↔ Failed s) ∧
        Advance build W owner (Function.update owner r.1 (some v)) s (setBlockBitmap r.1 r.2)) := by
  obtain ⟨htook, hcases⟩ := alloc_cases s
  have hfailed := alloc_failed s
  have hemits := @alloc_emits (Event.Harmless s.totalNumDiskBlocks) s (fun _ he => he.harmless _) trivial
  rw [hr] at htook hcases hfailed hemits
  generalize setBlockBitmap r.1 r.2 = t at *
  have hused : ∀ b', t.blockBitmap b' = 0 → s.blockBitmap b' = 0 := fun b' h => ((htook.used b').mp h).1
  have hobj : t.obj = s.obj := by rw [htook.eq]
  have hdisk : t.disk = s.disk := by rw [htook.eq]
  have htotal : t.totalNumDiskBlocks = s.totalNumDiskBlocks := by rw [htook.eq]
  have hown' : Owned owner t := by
    refine hown.of_tables hobj htotal hused fun x j hx hj hp => ?_
    have h₀ := hown.pointer_nonneg hx hj hp
    have hview : view t (pointer s x j) = view s (pointer s x j) := by
      refine htook.view ?_
      rcases hcases with ⟨hb, -⟩ | ⟨-, hb⟩
      · exact .inl fun h => by omega
      · exact .inr (by omega)
    rw [hview, hdisk]
    exact ⟨hown.table x j hx hj hp, hown.disk x j hx hj hp⟩
  refine ⟨hobj, hdisk, by rw [htook.bitmap, Function.update_self], ?_⟩
  rcases hcases with ⟨hb, hall⟩ | ⟨hb, hz⟩
  · have hft := hfailed.mpr (.inr hb)
    have hgrows : Grows W owner owner s t :=
      took_grows htook hown (.inl hb) (fun _ _ h => h) (fun _ _ h => .inl h) fun h => by omega
    exact .inl ⟨hb, hft, htook.inv hinv (.inl hb), hown', hgrows, fun _ => hft,
      fun _ => .inr (hgrows.full hall), fun h => absurd hft h⟩
  · have hbits := hb.inBitmap hinv
    have hiff : Failed t ↔ Failed s := by
      have hne : r.1 ≠ -1 := by omega
      simp [hfailed, hne]
    have hkeep : ∀ b' w, owner b' = some w → Function.update owner r.1 (some v) b' = some w := by
      intro b' w hw
      rw [Function.update_of_ne, hw]
      rintro rfl
      rw [hown.unowned hz] at hw
      cases hw
    have hcase : ∀ b' w, Function.update owner r.1 (some v) b' = some w →
        owner b' = some w ∨ b' = r.1 ∧ w = v := by
      intro b' w hw
      by_cases hbb : b' = r.1
      · rw [hbb, Function.update_self] at hw
        exact .inr ⟨hbb, (Option.some.inj hw).symm⟩
      · rw [Function.update_of_ne hbb] at hw
        exact .inl hw
    have hgrows : Grows W owner (Function.update owner r.1 (some v)) s t := by
      refine took_grows htook hown (.inr hz) hkeep (fun b' w hw => (hcase b' w hw).imp id ?_)
        fun _ => ⟨v, Function.update_self ..⟩
      rintro ⟨rfl, rfl⟩
      exact ⟨hv, hz⟩
    refine .inr ⟨hb, hz, hiff, htook.inv hinv (.inr hb), hown'.extend hkeep fun b' w hw => ?_, hgrows,
      hiff.mpr, fun h => .inl (hiff.mp h), fun _ => ?_⟩
    · rcases hcase b' w hw with hw | ⟨rfl, -⟩
      · exact hown'.used b' w hw
      · unfold DataBlock
        rw [htotal, htook.bitmap, Function.update_self]
        exact ⟨hb, by decide⟩
    · rw [htotal]
      refine hemits hbits fun i h₁ h₂ => ?_
      have := hinv.total
      have := hinv.fits
      exact ⟨by omega, by omega⟩

end Steps

end CS330.ObjStore
