import CS330.ObjStore.Slots
import CS330.ObjStore.Trees

/-! What the directory operations do to slots, blocks and trees.

None of them moves or copies a block. `create_object` fills a free slot,
`rename_object` moves the pointers of one slot to another, and `destroy_object`
gives back blocks that were its own. -/
namespace CS330.ObjStore
open Spec Probe

section Moved
variable {owner : Owner} {s t : State} {y z : Nat}

theorem tableAt_moved (hown : Owned owner s) (hz : LiveSlot s z)
    (hptr : ∀ j, j < 4 → pointer t y j = pointer s z j)
    (hview : ∀ b path, owner b = some (z, path) → view t b = view s b) {j : Nat} (hj : j < 4) (k : Nat) :
    tableAt t y j k = tableAt s z j k := by
  unfold tableAt
  rw [hptr j hj]
  split
  · rfl
  · rename_i hp
    rw [hview _ _ (hown.pointer_owner hz hj hp)]

/-- Slot `y` has the tree slot `z` had. -/
theorem treeOf_moved (hown : Owned owner s) (hz : LiveSlot s z)
    (hptr : ∀ j, j < 4 → pointer t y j = pointer s z j)
    (hview : ∀ b path, owner b = some (z, path) → view t b = view s b) : treeOf t y = treeOf s z := by
  funext j
  rcases Nat.lt_or_ge j 4 with hj | hj
  · unfold treeOf
    rw [hptr j hj]
    split
    · congr 1
      funext k
      rw [tableAt_moved hown hz hptr hview hj k]
      split
      · rename_i hk
        rw [hview _ _ (hown.entry_owner hz hj hk.1 hk.2)]
      · rfl
    · rfl
  · rw [treeOf_high hj, treeOf_high hj]

/-- A slot whose pointers are all -1. -/
theorem treeOf_empty (h : ∀ j, j < 4 → pointer t y j = -1) : treeOf t y = Tree.empty := by
  funext j
  refine if_neg fun hj => hj.2 (h j hj.1)

theorem Owned.slotsOk (hown : Owned owner s) : SlotsOk s := hown.slot

theorem Owned.numbered (hown : Owned owner s) : Numbered s := hown.slotsOk.numbered

end Moved

/-! ### Creating and renaming -/

/-- Only slots and the log changed. -/
def OnlySlots (s t : State) : Prop := t = {s with obj := t.obj, log := t.log}

section Slots
variable {build : Build} {owner : Owner} {s t : State}

theorem OnlySlots.inv (h : OnlySlots s t) (hinv : BlockInv build s) : BlockInv build t := by
  rw [h]
  exact ⟨hinv.total, hinv.fits, hinv.range, hinv.page, hinv.pageLt, hinv.uncached⟩

theorem OnlySlots.view (h : OnlySlots s t) (b : Int) : view t b = view s b := by
  rw [h]
  rfl

theorem OnlySlots.bitmap (h : OnlySlots s t) : t.blockBitmap = s.blockBitmap := by rw [h]

theorem OnlySlots.disk (h : OnlySlots s t) : t.disk = s.disk := by rw [h]

theorem OnlySlots.total (h : OnlySlots s t) : t.totalNumDiskBlocks = s.totalNumDiskBlocks := by rw [h]

/-- What `create_object` did to the slots. -/
theorem createObject_slots {key : Key} {r : Int × State} (h : createObject key s = some r) :
    OnlySlots s r.2 ∧ ((r.1 = -1 ∧ r.2.obj = s.obj) ∨
      ∃ x, x < 1000000 ∧ ¬ LiveSlot s x ∧ r.1 = indexToID x ∧
        r.2.obj = Function.update s.obj x (newObject key x)) := by
  rcases createObject_cases h with ⟨h₁, h₂, -⟩ | ⟨x, -, hlt, hx, h₁, h₂⟩
  · rw [h₂]
    exact ⟨rfl, .inl ⟨h₁, rfl⟩⟩
  · rw [h₂]
    exact ⟨rfl, .inr ⟨x, hlt, hx, h₁, rfl⟩⟩

theorem newSlot_owned {key : Key} {x : Nat} (hown : Owned owner s) (ht : OnlySlots s t) (hx : x < 1000000)
    (hobj : t.obj = Function.update s.obj x (newObject key x)) : Owned owner t := by
  refine hown.of_slots ht.total (fun b v hb => ⟨⟨v, hb⟩, ?_⟩) fun y hy => ?_
  · rw [ht.bitmap]
    exact (hown.used b v hb).2
  · by_cases hyx : y = x
    · subst hyx
      rw [hobj, Function.update_self]
      refine ⟨hx, rfl, .inl fun j _ => ?_⟩
      unfold pointer
      rw [hobj, Function.update_self]
      rfl
    · have hobj_y : t.obj y = s.obj y := by rw [hobj, Function.update_of_ne hyx]
      have hy : LiveSlot s y := by
        unfold LiveSlot at hy ⊢
        rwa [hobj_y] at hy
      rw [hobj_y]
      refine ⟨(hown.slot y hy).1, (hown.slot y hy).2, .inr ⟨y, hy, fun j _ => .inr ?_, fun _ _ hb => hb,
        fun j _ _ => ⟨ht.view _, by rw [ht.disk]⟩⟩⟩
      unfold pointer
      rw [hobj_y]

/-- Moves the owner of slot `z`'s blocks to slot `y`. -/
def Owner.move (owner : Owner) (z y : Nat) : Owner := fun b =>
  (owner b).map fun v => if v.1 = z then (y, v.2) else v

theorem movedSlot_owned {x z : Nat} {o : Object} (hown : Owned owner s) (ht : OnlySlots s t)
    (hz : LiveSlot s z) (hx : x < 1000000) (hid : o.id = indexToID x)
    (hptr : o.dataBlockPointers = (s.obj z).dataBlockPointers)
    (hobj : t.obj = Function.update (Function.update s.obj x o) z {s.obj z with id := 0}) :
    Owned (owner.move z x) t ∧ ∀ b path, owner b = some (z, path) → owner.move z x b = some (x, path) := by
  have hmove : ∀ b path, owner b = some (z, path) → owner.move z x b = some (x, path) := by
    intro b path hb
    unfold Owner.move
    rw [hb]
    simp
  refine ⟨hown.of_slots ht.total (fun b v hb => ?_) fun y hy => ?_, hmove⟩
  · unfold Owner.move at hb
    obtain ⟨w, hw, -⟩ := Option.map_eq_some_iff.mp hb
    refine ⟨⟨w, hw⟩, ?_⟩
    rw [ht.bitmap]
    exact (hown.used b w hw).2
  · have hyz : y ≠ z := by
      rintro rfl
      unfold LiveSlot at hy
      rw [hobj, Function.update_self] at hy
      exact hy rfl
    by_cases hyx : y = x
    · subst hyx
      have hobj_y : t.obj y = o := by rw [hobj, Function.update_of_ne hyz, Function.update_self]
      rw [hobj_y]
      refine ⟨hx, hid, .inr ⟨z, hz, fun j _ => .inr ?_, hmove,
        fun j _ _ => ⟨ht.view _, by rw [ht.disk]⟩⟩⟩
      unfold pointer
      rw [hobj_y, hptr]
    · have hobj_y : t.obj y = s.obj y := by
        rw [hobj, Function.update_of_ne hyz, Function.update_of_ne hyx]
      have hy : LiveSlot s y := by
        unfold LiveSlot at hy ⊢
        rwa [hobj_y] at hy
      rw [hobj_y]
      refine ⟨(hown.slot y hy).1, (hown.slot y hy).2, .inr ⟨y, hy, fun j _ => .inr ?_, fun b path hb => ?_,
        fun j _ _ => ⟨ht.view _, by rw [ht.disk]⟩⟩⟩
      · unfold pointer
        rw [hobj_y]
      · unfold Owner.move
        rw [hb]
        simp [hyz]

/-- The object `rename_object` puts in the new slot. -/
def renamedObject (newname : Key) (x : Nat) (old : Object) : Object :=
  {newObject newname x with size := old.size, dataBlockPointers := old.dataBlockPointers}

/-- What `rename_object` did, if it came back. -/
theorem renameObject_cases {key newname : Key} {r : Int × State} (hs : Numbered s)
    (h : renameObject key newname s = some r) : OnlySlots s r.2 ∧
    ((32 < newname.bytes.length ∧ r.1 = -1 ∧ r.2.obj = s.obj) ∨
      (newname.bytes.length ≤ 32 ∧ probe (slotHolds s key) 1000000 1000000 (hash key) = none ∧
        r.1 = -1 ∧ r.2.obj = s.obj) ∨
      (newname.bytes.length ≤ 32 ∧ ∃ z x, probe (slotHolds s key) 1000000 1000000 (hash key) = some z ∧
        LiveSlot s z ∧ probe (freeOrHolds s newname) 1000000 1000000 (hash newname) = some x ∧
        ((LiveSlot s x ∧ r.1 = -1 ∧ r.2.obj = s.obj) ∨
          (¬ LiveSlot s x ∧ x < 1000000 ∧ r.1 = indexToID x ∧
            r.2.obj = Function.update (Function.update s.obj x (renamedObject newname x (s.obj z))) z
              {s.obj z with id := 0})))) := by
  unfold renameObject at h
  split at h
  · rename_i hlen
    cases h
    exact ⟨rfl, .inl ⟨hlen, rfl, rfl⟩⟩
  rename_i hlen
  rcases findObjectId_cases hs key with ⟨hf, hp⟩ | ⟨z, hp, hz, hf⟩
  · rw [if_pos hf] at h
    cases h
    exact ⟨rfl, .inr (.inl ⟨by omega, hp, rfl, rfl⟩)⟩
  · have hid : ∀ i : Nat, indexToID i ≠ -1 := fun i => (indexToID_ne i).2
    rw [if_neg (by rw [hf]; exact hid z), hf, idToIndex_indexToID] at h
    obtain ⟨r', hr', hr⟩ := Option.map_eq_some_iff.mp h
    rcases createObject_cases hr' with ⟨h₁, h₂, x, hx, hlive⟩ | ⟨x, hx, hlt, hfree, h₁, h₂⟩
    · rw [if_pos h₁, h₂] at hr
      rw [← hr]
      exact ⟨rfl, .inr (.inr ⟨by omega, z, x, hp, hz, hx, .inl ⟨hlive, rfl, rfl⟩⟩)⟩
    · rw [if_neg (by rw [h₁]; exact hid x), h₁, h₂, idToIndex_indexToID] at hr
      have hzx : z ≠ x := fun heq => hfree (heq ▸ hz)
      rw [← hr]
      refine ⟨rfl, .inr (.inr ⟨by omega, z, x, hp, hz, hx, .inr ⟨hfree, hlt, rfl, ?_⟩⟩)⟩
      simp [State.setObj, State.emit, Function.update_of_ne hzx, renamedObject]

/-! ### Destroying -/

/-- Drops the owner of slot `x`'s blocks. -/
def Owner.drop (owner : Owner) (x : Nat) : Owner := fun b =>
  (owner b).filter fun v => v.1 ≠ x

theorem drop_eq_some {x : Nat} {b : Int} {v : Nat × Path} :
    owner.drop x b = some v ↔ owner b = some v ∧ v.1 ≠ x := by
  unfold Owner.drop
  rw [Option.filter_eq_some_iff]
  simp

/-- Every block `destroy_object` clears was the object's own. -/
theorem freedByPointers_owner {x : Nat} {b : Int} (hinv : BlockInv build s) (hown : Owned owner s)
    (hx : LiveSlot s x) (h : FreedByPointers s (s.obj x).dataBlockPointers 4 0 b) :
    ∃ path, owner b = some (x, path) := by
  obtain ⟨j, -, hj, hb, hall⟩ := h
  have hp : pointer s x j ≠ -1 := hall j (Nat.zero_le j) (Nat.le_refl j)
  rcases hb with ⟨k, -, hk, hb, hne⟩ | rfl
  · have hnonneg := hown.pointer_nonneg hx (by omega) hp
    have hread := @readBlock_inside s (pointer s x j) 0 zeroBlock rfl hnonneg
      (hinv.inside (hown.pointer_used hx (by omega) hp) hnonneg)
    unfold pointer at hread
    rw [hread] at hb hne
    have := (hown.disk x j hx (by omega) hp k (by omega)).resolve_left
      (hne k (Nat.zero_le k) (Nat.le_refl k))
    exact ⟨_, hb ▸ this⟩
  · exact ⟨_, hown.pointer_owner hx (by omega) hp⟩

/-- What `destroy_object` did. -/
theorem destroyObject_cases (key : Key) (hs : Numbered s) :
    (probe (slotHolds s key) 1000000 1000000 (hash key) = none ∧ destroyObject key s = (-1, s)) ∨
    ∃ x, probe (slotHolds s key) 1000000 1000000 (hash key) = some x ∧ LiveSlot s x ∧
      (destroyObject key s).1 = 0 ∧ ∃ t, FreedSet
        (FreedByPointers s (s.obj x).dataBlockPointers 4 0) s t ∧
        t = freePointers (s.obj x).dataBlockPointers 4 0 s ∧
        (destroyObject key s).2 = t.setObj x {s.obj x with id := 0} := by
  unfold destroyObject
  dsimp only
  rcases findObjectId_cases hs key with ⟨hf, hp⟩ | ⟨x, hp, hx, hf⟩
  · rw [if_pos hf]
    exact .inl ⟨hp, rfl⟩
  · have hid : indexToID x ≠ -1 := (indexToID_ne x).2
    rw [if_neg (by rw [hf]; exact hid), hf, idToIndex_indexToID, if_neg hx]
    have hfreed := freePointers_freed (s.obj x).dataBlockPointers 4 0 s
    refine .inr ⟨x, hp, hx, rfl, _, hfreed, rfl, ?_⟩
    rw [hfreed.obj]

theorem destroyed_owned {x : Nat} (hinv : BlockInv build s) (hown : Owned owner s) (hx : LiveSlot s x)
    (hfreed : FreedSet (FreedByPointers s (s.obj x).dataBlockPointers 4 0) s t) :
    Owned (owner.drop x) (t.setObj x {s.obj x with id := 0}) ∧
      ∀ b y path, y ≠ x → owner b = some (y, path) →
        view (t.setObj x {s.obj x with id := 0}) b = view s b := by
  have hnot : ∀ b y path, y ≠ x → owner b = some (y, path) →
      ¬ FreedByPointers s (s.obj x).dataBlockPointers 4 0 b := by
    intro b y path hyx hb hP
    obtain ⟨path', hb'⟩ := freedByPointers_owner hinv hown hx hP
    rw [hb] at hb'
    injection hb' with hb'
    injection hb' with hb'
    exact hyx hb'
  have hview : ∀ b y path, y ≠ x → owner b = some (y, path) →
      view (t.setObj x {s.obj x with id := 0}) b = view s b :=
    fun b y path hyx hb => hfreed.view (hnot b y path hyx hb)
  refine ⟨hown.of_slots hfreed.total (fun b v hb => ?_) fun y hy => ?_, hview⟩
  · obtain ⟨hb, hv⟩ := drop_eq_some.mp hb
    refine ⟨⟨v, hb⟩, ?_⟩
    show t.blockBitmap b ≠ 0
    rw [hfreed.kept b (hnot b v.1 v.2 hv hb)]
    exact (hown.used b v hb).2
  · have hyx : y ≠ x := by
      rintro rfl
      unfold LiveSlot at hy
      simp at hy
    have hobj_y : (t.setObj x {s.obj x with id := 0}).obj y = s.obj y := by
      rw [State.setObj_obj, Function.update_of_ne hyx, hfreed.obj]
    have hy : LiveSlot s y := by
      unfold LiveSlot at hy ⊢
      rwa [hobj_y] at hy
    rw [hobj_y]
    refine ⟨(hown.slot y hy).1, (hown.slot y hy).2, .inr ⟨y, hy, fun j _ => .inr ?_,
      fun b path hb => drop_eq_some.mpr ⟨hb, hyx⟩, fun j hj hp => ⟨?_, ?_⟩⟩⟩
    · unfold pointer
      rw [hobj_y]
    · exact hview _ y _ hyx (hown.pointer_owner hy hj hp)
    · show t.disk.blocks _ = _
      rw [hfreed.disk]

end Slots

/-! ### Any call

Whatever the offsets and sizes, and whether or not blocks ran out. -/

structure Sound (build : Build) (s : State) : Prop where
  inv : BlockInv build s
  owned : ∃ owner, Owned owner s

section Calls
variable {build : Build} {owner : Owner} {x : Nat} {s t : State}

theorem Kept.sound (h : Kept build s t) (hs : Sound build s) : Sound build t :=
  ⟨h.inv, hs.owned.imp fun _ hown => hown.same h.same⟩

theorem objstoreRead_kept {id size : Int} {offset : Nat} (hs : Sound build s)
    (hl : Live (objstoreRead build id size offset s).2.2) :
    Kept build s (objstoreRead build id size offset s).2.2 := by
  obtain ⟨hinv, owner, hown⟩ := hs
  unfold objstoreRead at hl ⊢
  dsimp only at hl ⊢
  split_ifs at hl ⊢ with h₁ h₂ h₃
  · exact .refl hinv
  · exact (Kept.refl hinv).fault
  · exact .refl hinv
  · exact (readObject_spec hinv hown h₃ hl).2

theorem fillupSizeDetails_kept {id : Int} (hs : Sound build s)
    (hl : Live (fillupSizeDetails build id s).2.2.2) :
    Kept build s (fillupSizeDetails build id s).2.2.2 := by
  obtain ⟨hinv, owner, hown⟩ := hs
  unfold fillupSizeDetails at hl ⊢
  dsimp only at hl ⊢
  split_ifs at hl ⊢ with h₁ h₂ h₃
  · exact .refl hinv
  · exact (Kept.refl hinv).fault
  · exact .refl hinv
  · exact (countPointers_spec 4 0 0 rfl hinv hown h₃ hl).2

theorem readIndirectHelper_kept {b : Int} {blockOffset cap : Nat} {buf : Buffer} (hinv : BlockInv build s)
    (hl : Live (readIndirectHelper build b blockOffset buf cap s).2) :
    Kept build s (readIndirectHelper build b blockOffset buf cap s).2 := by
  unfold readIndirectHelper at hl ⊢
  dsimp only at hl ⊢
  split_ifs at hl ⊢ with h₁ h₂
  · exact fetch_kept hinv rfl hl
  · have hl₂ := (fault_calm _).steady.live hl
    have hkept := fetch_kept hinv rfl ((fetch_steady ..).live hl₂)
    exact (hkept.trans (fetch_kept hkept.inv rfl hl₂)).fault
  · have hkept := fetch_kept hinv rfl ((fetch_steady ..).live hl)
    exact hkept.trans (fetch_kept hkept.inv rfl hl)

theorem fillBuffer_kept {buf : Buffer} {size : Int} {start offset cap : Nat} (hinv : BlockInv build s)
    (hl : Live (fillBuffer build x buf size start offset cap s).2) :
    Kept build s (fillBuffer build x buf size start offset cap s).2 := by
  have hold : Live (oldBytes build x start offset cap s).2 →
      Kept build s (oldBytes build x start offset cap s).2 := by
    intro hl
    unfold oldBytes at hl ⊢
    split_ifs at hl ⊢
    · exact (Kept.refl hinv).fault
    · exact readIndirectHelper_kept hinv hl
    · exact .refl hinv
  unfold fillBuffer at hl ⊢
  dsimp only at hl ⊢
  split_ifs at hl ⊢
  · exact (hold ((fault_calm _).steady.live hl)).fault
  · exact hold hl

/-- Any write, wherever it starts. -/
theorem writeObject_advance {buf : Buffer} {size : Int} {offset : Nat} (hinv : BlockInv build s)
    (hown : Owned owner s) (hx : LiveSlot s x) (hl : Live (writeObject build x buf size offset s).2) :
    ∃ u owner', Kept build s u ∧
      Advance build (fun v => v.1 = x) owner owner' u (writeObject build x buf size offset s).2 := by
  unfold writeObject at hl ⊢
  split at hl
  · have hfault := (Kept.refl hinv).fault
    exact ⟨_, owner, hfault, .refl hfault.inv (hown.same hfault.same)⟩
  rename_i start _
  dsimp only at hl ⊢
  have hfill := (writePointers_walk ..).steady.live hl
  have hkept := fillBuffer_kept hinv hfill
  have hx' := (liveSlot_congr hkept.same.obj x).mpr hx
  obtain ⟨owner', hP⟩ := writePointers_spec (4 - start / 1024) (start / 1024) (start % 1024) (by omega)
    (by omega) hkept.inv (hown.same hkept.same) hx' ((Steady.of_log_eq rfl).live hl)
  exact ⟨_, owner', hkept, finishWrite_advance _ (hP.adv.mono fun v hv => hv.1)⟩

theorem objstoreWrite_sound {id size : Int} {buf : Buffer} {offset : Nat} (hs : Sound build s)
    (hl : Live (objstoreWrite build id buf size offset s).2) :
    Sound build (objstoreWrite build id buf size offset s).2 := by
  obtain ⟨hinv, owner, hown⟩ := hs
  unfold objstoreWrite at hl ⊢
  dsimp only at hl ⊢
  split_ifs at hl ⊢ with h₁ h₂ h₃
  · exact ⟨hinv, owner, hown⟩
  · exact (Kept.refl hinv).fault.sound ⟨hinv, owner, hown⟩
  · exact ⟨hinv, owner, hown⟩
  · obtain ⟨u, owner', -, hadv⟩ := writeObject_advance hinv hown h₃ hl
    exact ⟨hadv.inv, owner', hadv.owned⟩

theorem createObject_sound {key : Key} {r : Int × State} (hs : Sound build s)
    (h : createObject key s = some r) : Sound build r.2 := by
  obtain ⟨hinv, owner, hown⟩ := hs
  obtain ⟨honly, ⟨-, hobj⟩ | ⟨x, hx, -, -, hobj⟩⟩ := createObject_slots h
  · refine ⟨honly.inv hinv, owner, hown.same ⟨hobj, honly.total, honly.disk, fun b _ => honly.view b, ?_⟩⟩
    exact fun b => by rw [honly.bitmap]
  · exact ⟨honly.inv hinv, owner, newSlot_owned hown honly hx hobj⟩

theorem renameObject_sound {key newname : Key} {r : Int × State} (hs : Sound build s)
    (h : renameObject key newname s = some r) : Sound build r.2 := by
  obtain ⟨hinv, owner, hown⟩ := hs
  obtain ⟨honly, hcases⟩ := renameObject_cases hown.numbered h
  have hsame : r.2.obj = s.obj → Owned owner r.2 := fun hobj =>
    hown.same ⟨hobj, honly.total, honly.disk, fun b _ => honly.view b, fun b => by rw [honly.bitmap]⟩
  refine ⟨honly.inv hinv, ?_⟩
  rcases hcases with ⟨-, -, hobj⟩ | ⟨-, -, -, hobj⟩ | ⟨-, z, x, -, hz, -, ⟨-, -, hobj⟩ | ⟨-, hx, -, hobj⟩⟩
  · exact ⟨owner, hsame hobj⟩
  · exact ⟨owner, hsame hobj⟩
  · exact ⟨owner, hsame hobj⟩
  · exact ⟨_, (movedSlot_owned (o := renamedObject newname x (s.obj z)) hown honly hz hx rfl rfl hobj).1⟩

theorem destroyObject_sound {key : Key} (hs : Sound build s) : Sound build (destroyObject key s).2 := by
  obtain ⟨hinv, owner, hown⟩ := hs
  rcases destroyObject_cases key hown.numbered with ⟨-, h⟩ | ⟨x, -, hx, -, t, hfreed, ht, h⟩
  · rw [h]
    exact ⟨hinv, owner, hown⟩
  · rw [h]
    have hinv' : BlockInv build t := ht ▸ freePointers_inv _ 4 0 hinv
    exact ⟨⟨hinv'.total, hinv'.fits, hinv'.range, hinv'.page, hinv'.pageLt, hinv'.uncached⟩, _,
      (destroyed_owned hinv hown hx hfreed).1⟩

end Calls

end CS330.ObjStore
