import CS330.ObjStore.EntryWrites

/-! What `write_indirect_block` does to one pointer.

When `get_new_datablock` fails for the table itself, the loop runs over a table of zeros that
belongs to nobody and writes block 0; it is covered too, for the state after it is
reachable. -/
namespace CS330.ObjStore
open Spec

/-- Entry `k` of table `j` of slot `x`, -1 if there is no table. -/
def tableAt (s : State) (x j k : Nat) : Int :=
  if pointer s x j = -1 then -1 else ints (view s (pointer s x j)) k

/-- The block at a place. -/
def blockAt (s : State) (x : Nat) : Path → Int
  | .ptr j => pointer s x j
  | .entry j k => tableAt s x j k

/-- The places `write_indirect_block` on pointer `j` fills. -/
def InWrite (blockOffset offset size j : Nat) : Path → Prop
  | .ptr j' => j' = j
  | .entry j' k => j' = j ∧ blockOffset ≤ k ∧ k < 1024 ∧ offset + (k - blockOffset) * 4096 < size

section Pointer
variable {build : Build} {buf : Buffer} {blockOffset offset size : Nat} {x j : Nat} {p : Int}
  {owner : Owner} {s : State}

structure IndirectTaken (build : Build) (owner owner' : Owner) (x j : Nat) (p : Int) (s : State)
    (a : Int × State) : Prop where
  adv : Advance build (fun v => v = (x, .ptr j)) owner owner' s a.2
  obj : a.2.obj = s.obj
  fresh : ∀ b v, owner' b = some v → owner b = some v ∨ v = (x, .ptr j) ∧ p = -1 ∧ a.1 = b
  filled : p = -1 → a.1 = -1 ∨ s.blockBitmap a.1 = 0
  short : Failed a.2 ↔ Failed s ∨ a.1 = -1
  outcome : a.1 = -1 ∧ p = -1 ∧ a.2.blockBitmap (-1) ≤ 1 ∨
    owner' a.1 = some (x, .ptr j) ∧ (p ≠ -1 → a = (p, s)) ∧
      (p = -1 → view a.2 a.1 = ofInts (fun _ => -1) ∧ a.2.disk.blocks a.1 = ofInts (fun _ => -1))

theorem initializeBlock_failed (q : Int) (s : State) : Failed (initializeBlock q s) ↔ Failed s :=
  (writeBlock_emits (P := fun e => e ≠ .newDatablock (-1)) q 0 _ s (by simp)).failed (by simp)

/-- `initialize_block` on -1 does nothing. -/
theorem initializeBlock_negative {W : Nat × Path → Prop} (hinv : BlockInv build s)
    (hown : Owned owner s) (hf : Failed s) :
    Quiet s (initializeBlock (-1) s) ∧ Advance build W owner owner s (initializeBlock (-1) s) := by
  have hquiet : Quiet s (initializeBlock (-1) s) := by
    rw [initializeBlock, writeBlock_negative rfl (by decide)]
    exact ⟨rfl, rfl⟩
  have hf' := (initializeBlock_failed (-1) s).mpr hf
  exact ⟨hquiet, hquiet.inv hinv, hown.same hquiet.same, .of_same hquiet.same hown, fun _ => hf',
    fun _ => .inl hf, fun h => absurd hf' h⟩

/-- `initialize_block` on a block just taken. -/
theorem initializeBlock_taken {W : Nat × Path → Prop} {q : Int} (hinv : BlockInv build s)
    (hown : Owned owner s) (hdata : DataBlock s q) (hbit : s.blockBitmap q = 1)
    (hW : ∀ v, owner q = some v → W v) (hptr : ∀ y k, LiveSlot s y → k < 4 → pointer s y k ≠ q) :
    Stored q (ofInts fun _ => -1) s (initializeBlock q s) ∧
      (initializeBlock q s).disk.blocks q = ofInts (fun _ => -1) ∧
      Advance build W owner owner s (initializeBlock q s) := by
  have hbits := hdata.inBitmap hinv
  obtain ⟨hinv', hstored, -⟩ := @writeBlock_stored build q 0 (ofInts fun _ => -1) s hinv rfl hbits.2 hbit.le
  have hfailed := initializeBlock_failed q s
  refine ⟨hstored, ?_, hinv', hown.stored hstored fun y k hy hk hq _ => absurd hq (hptr y k hy hk),
    .of_stored hstored hown hW, hfailed.mpr, fun h => .inl (hfailed.mp h), fun _ => ?_⟩
  · rw [initializeBlock, writeBlock_inside rfl hbits.1]
    simp
  · refine writeBlock_emits q 0 _ s ?_
    have htotal : (initializeBlock q s).totalNumDiskBlocks = s.totalNumDiskBlocks := hstored.total
    rw [htotal, hbit]
    exact ⟨hdata.1, hdata.2, by decide⟩

theorem indirectBlock_spec (hinv : BlockInv build s) (hown : Owned owner s)
    (hp : p = -1 ∨ owner p = some (x, .ptr j)) :
    ∃ owner', IndirectTaken build owner owner' x j p s (indirectBlock p s) := by
  rcases hp with rfl | hp
  · obtain ⟨⟨q, u⟩, hr⟩ : ∃ r, getNewDatablock s = r := ⟨_, rfl⟩
    obtain ⟨hobj, hdisk, hbit, hcases⟩ :=
      alloc_advance (W := fun v => v = (x, .ptr j)) hinv hown rfl hr
    have heq : indirectBlock (-1) s = (q, initializeBlock q (setBlockBitmap q u)) := by
      rw [indirectBlock, if_pos (by decide), hr]
    rw [heq]
    dsimp only at hobj hbit hcases
    generalize setBlockBitmap q u = t at *
    have hfailed := initializeBlock_failed q t
    rcases hcases with ⟨rfl, hf, hadv⟩ | ⟨hdata, hz, hiff, hadv⟩
    · obtain ⟨hquiet, hadv'⟩ := initializeBlock_negative (W := fun v => v = (x, .ptr j)) hadv.inv
        hadv.owned hf
      refine ⟨owner, hadv.trans hadv', ?_, fun _ _ h => .inl h, fun _ => .inl rfl,
        iff_of_true (hfailed.mpr hf) (.inr rfl), .inl ⟨rfl, rfl, ?_⟩⟩
      · rw [hquiet.eq]
        exact hobj
      · rw [hquiet.eq]
        exact hbit.le
    · have hnonneg := (hdata.inBitmap hinv).1
      have hself : Function.update owner q (some (x, Path.ptr j)) q = some (x, .ptr j) :=
        Function.update_self ..
      obtain ⟨hstored, hblk, hadv'⟩ := initializeBlock_taken (W := fun v => v = (x, .ptr j)) hadv.inv
        hadv.owned (hadv.owned.used q _ hself).1 hbit
        (fun v hv => (Option.some.inj (hself.symm.trans hv)).symm) fun y k hy hk hq => by
          rw [liveSlot_congr hobj] at hy
          rw [pointer_congr hobj] at hq
          have hne : pointer s y k ≠ -1 := fun h => by omega
          exact hown.pointer_used hy hk hne (hq ▸ hz)
      refine ⟨_, hadv.trans hadv', hstored.obj.trans hobj, fun b v hb => ?_, fun _ => .inr hz, ?_,
        .inr ⟨hself, fun h => absurd rfl h, fun _ => ⟨hstored.self hnonneg, hblk⟩⟩⟩
      · by_cases hbq : b = q
        · subst hbq
          exact .inr ⟨(Option.some.inj (hself.symm.trans hb)).symm, rfl, rfl⟩
        · rw [Function.update_of_ne hbq] at hb
          exact .inl hb
      · have hne : q ≠ -1 := by omega
        simp [hfailed, hiff, hne]
  · have hnonneg := hown.nonneg hp
    rw [show indirectBlock p s = (p, s) from if_neg (by omega)]
    have hne : p ≠ -1 := by omega
    exact ⟨owner, .refl hinv hown, rfl, fun _ _ h => .inl h, fun h => absurd h hne, by simp [hne],
      .inr ⟨hp, fun _ => rfl, fun h => absurd h hne⟩⟩

/-- What the table of pointer `j` holds after a write from entry `blockOffset` on. -/
structure SubtreeWritten (buf : Buffer) (blockOffset offset size x j : Nat) (s t : State) : Prop where
  ptr : pointer t x j ≠ -1
  below : ∀ k, k < blockOffset → tableAt t x j k = tableAt s x j k ∧
    (tableAt s x j k ≠ -1 → view t (tableAt s x j k) = view s (tableAt s x j k))
  written : ∀ k, blockOffset ≤ k → k < 1024 → offset + (k - blockOffset) * 4096 < size →
    tableAt t x j k ≠ -1 ∧ (tableAt s x j k ≠ -1 → tableAt t x j k = tableAt s x j k) ∧
      view t (tableAt t x j k) = buf.page (offset + (k - blockOffset) * 4096)
  above : ∀ k, blockOffset ≤ k → k < 1024 → size ≤ offset + (k - blockOffset) * 4096 →
    tableAt t x j k = -1

/-- The places below pointer `j` that a write from entry `blockOffset` on may touch. -/
def Below (blockOffset x j : Nat) (v : Nat × Path) : Prop :=
  v = (x, .ptr j) ∨ ∃ k, blockOffset ≤ k ∧ v = (x, .entry j k)

structure PointerWritten (build : Build) (buf : Buffer) (blockOffset offset size x j : Nat)
    (owner owner' : Owner) (s t : State) : Prop where
  adv : Advance build (Below blockOffset x j) owner owner' s t
  obj : t.obj = Function.update s.obj x {s.obj x with
    dataBlockPointers := Function.update (s.obj x).dataBlockPointers j (pointer t x j)}
  kept : pointer s x j ≠ -1 → pointer t x j = pointer s x j
  fresh : ∀ b v, owner' b = some v → owner b = some v ∨ v.1 = x ∧
    InWrite blockOffset offset size j v.2 ∧ blockAt s x v.2 = -1 ∧ blockAt t x v.2 = b
  filled : ∀ path, InWrite blockOffset offset size j path → blockAt s x path = -1 →
    blockAt t x path = -1 ∨ s.blockBitmap (blockAt t x path) = 0
  short : Failed t → Failed s ∨ ∃ path, InWrite blockOffset offset size j path ∧
    blockAt s x path = -1 ∧ ∀ b, owner' b = some (x, path) → owner b = some (x, path)
  subtree : ¬ Failed t → SubtreeWritten buf blockOffset offset size x j s t

theorem setPointer_live {q : Int} (y : Nat) : LiveSlot (setPointer x j q s) y ↔ LiveSlot s y := by
  unfold LiveSlot setPointer
  by_cases hy : y = x
  · subst hy
    simp
  · simp [hy]

theorem setPointer_pointer {q : Int} (y k : Nat) :
    pointer (setPointer x j q s) y k = if y = x ∧ k = j then q else pointer s y k := by
  unfold pointer setPointer
  by_cases hy : y = x
  · subst hy
    by_cases hk : k = j
    · simp [hk]
    · simp [hk]
  · simp [hy]

theorem setPointer_id {q : Int} (y : Nat) : ((setPointer x j q s).obj y).id = (s.obj y).id := by
  unfold setPointer
  by_cases hy : y = x
  · subst hy
    simp
  · simp [hy]

theorem setPointer_owned {q : Int} (hown : Owned owner s)
    (hq : q = -1 ∨ owner q = some (x, .ptr j) ∧ TableOwned owner x j (ints (view s q)) ∧
      TableOwned owner x j (ints (s.disk.blocks q))) : Owned owner (setPointer x j q s) := by
  have htables : ∀ y k, LiveSlot s y → k < 4 → pointer (setPointer x j q s) y k ≠ -1 →
      TableOwned owner y k (ints (view s (pointer (setPointer x j q s) y k))) ∧
      TableOwned owner y k (ints (s.disk.blocks (pointer (setPointer x j q s) y k))) := by
    intro y k hy hk hp
    rw [setPointer_pointer] at hp ⊢
    split at hp
    · rename_i h
      rw [if_pos h, h.1, h.2]
      exact (hq.resolve_left hp).2
    · rename_i h
      rw [if_neg h]
      exact ⟨hown.table y k hy hk hp, hown.disk y k hy hk hp⟩
  refine ⟨hown.used, fun y k hy hk => ?_, fun y k hy hk hp => ?_, fun y k hy hk hp => ?_,
    fun y hy => ?_⟩
  · rw [setPointer_live] at hy
    rw [setPointer_pointer]
    split
    · rename_i h
      rw [h.1, h.2]
      exact hq.imp id And.left
    · exact hown.ptr y k hy hk
  · exact (htables y k (setPointer_live y |>.mp hy) hk hp).1
  · exact (htables y k (setPointer_live y |>.mp hy) hk hp).2
  · rw [setPointer_id]
    exact hown.slot y (setPointer_live y |>.mp hy)

/-- A table of owned blocks comes back from a block as it was. -/
theorem TableOwned.ints_ofInts {table : Nat → Int} (h : TableOwned owner x j table)
    (hown : Owned owner s) (hinv : BlockInv build s) {k : Nat} (hk : k < 1024) :
    ints (ofInts table) k = table k := by
  rw [ObjStore.ints_ofInts table hk]
  rcases h k hk with h | h
  · rw [h]
    rfl
  · have := (hown.used _ _ h).1.inBitmap hinv
    unfold bitmapSize at this
    exact Bytes.int32_eq (by omega) (by omega)

theorem ints_zeroBlock {k : Nat} (hk : k < 1024) : ints zeroBlock k = 0 := by
  rw [ints, dif_pos hk]
  exact (by decide : Bytes.le32 0 0 0 0 = 0)

/-- What -1 is fetched to: the buffer stays as it was mapped. -/
theorem fetch_negative (hb : s.blockBitmap (-1) ≤ 1) (hl : Live (fetch build (-1) 0 zeroBlock s).2.2) :
    (fetch build (-1) 0 zeroBlock s).2.1 = zeroBlock := by
  have hread := @readBlock_negative s (-1) 0 zeroBlock (by decide)
  rcases fetch_cases hl with ⟨-, hr⟩ | ⟨-, -, hr, -⟩
  · rw [if_neg fun h => absurd h.2 (Nat.not_lt.mpr hb), hread] at hr
    exact congrArg Prod.snd hr
  · rw [hr, hread]

/-- The end of `write_indirect_block`: the table is stored, and fetched again. -/
theorem putTable_spec {q : Int} {table : Nat → Int} (hinv : BlockInv build s) (hown : Owned owner s)
    (hq : owner q = some (x, .ptr j)) (htable : TableOwned owner x j table)
    {t : State} (ht : (fetch build q 0 (ofInts table) (store build q 0 (ofInts table) s).2).2.2 = t)
    (hl : Live t) :
    Advance build (fun v => v = (x, .ptr j)) owner owner s t ∧ t.obj = s.obj ∧
      view t q = ofInts table ∧ (Failed t ↔ Failed s) ∧
      (t.disk.blocks q = s.disk.blocks q ∨ t.disk.blocks q = ofInts table) := by
  subst ht
  have hl' := (fetch_steady ..).live hl
  have hused := hown.used _ _ hq
  have hbits := hused.1.inBitmap hinv
  obtain ⟨hinv', hstored, -⟩ := store_spec hinv rfl hbits.2 hl'
  have hself : ∀ v, owner q = some v → v = (x, .ptr j) :=
    fun v hv => (Option.some.inj (hq.symm.trans hv)).symm
  have hadv : Advance build (fun v => v = (x, .ptr j)) owner owner s
      (store build q 0 (ofInts table) s).2 := by
    refine store_advance hinv hown rfl hbits.2 (.inl hused) hself (fun y k hy hk hp hne => ?_) hl'
    have hyk := hself _ (hp ▸ hown.pointer_owner hy hk (hp ▸ hne))
    injection hyk with h₁ h₂
    injection h₂ with h₂
    subst h₁ h₂
    exact fun i hi => by
      rw [htable.ints_ofInts hown hinv hi]
      exact htable i hi
  have hfailed : Failed (store build q 0 (ofInts table) s).2 ↔ Failed s :=
    (store_emits hl').failed (by simp [Event.Internal])
  have hdata : DataBlock (store build q 0 (ofInts table) s).2 q := (hadv.owned.used _ _ hq).1
  have hsame := fetch_same hinv' rfl hl
  refine ⟨hadv.trans (fetch_advance hinv' hadv.owned rfl (.inl hdata) hl), hsame.obj.trans hstored.obj,
    ?_, ((fetch_emits hl).failed (by simp [Event.Internal])).trans hfailed, ?_⟩
  · rw [hsame.view q hbits.1]
    exact hstored.self hbits.1
  · rw [hsame.disk]
    exact hstored.diskSelf

/-- The same for a table that has no block. -/
theorem putTable_negative {W : Nat × Path → Prop} {table : Nat → Int} (hinv : BlockInv build s)
    (hown : Owned owner s) (hf : Failed s)
    {t : State} (ht : (fetch build (-1) 0 (ofInts table) (store build (-1) 0 (ofInts table) s).2).2.2 = t)
    (hl : Live t) : Advance build W owner owner s t ∧ t.obj = s.obj := by
  subst ht
  have hl' := (fetch_steady ..).live hl
  obtain ⟨hinv', hstored, -⟩ := store_spec hinv rfl (by decide) hl'
  have hadv : Advance build W owner owner s (store build (-1) 0 (ofInts table) s).2 := by
    refine store_advance hinv hown rfl (by decide) (.inr hf) (fun v hv => ?_)
      (fun _ _ _ _ _ h => absurd rfl h) hl'
    exact absurd (hown.nonneg hv) (by decide)
  exact ⟨hadv.trans (fetch_advance hinv' hadv.owned rfl (.inr (hadv.failed hf)) hl),
    (fetch_same hinv' rfl hl).obj.trans hstored.obj⟩

theorem setPointer_advance {W : Nat × Path → Prop} {owner' : Owner} {q : Int} {t : State}
    (h : Advance build W owner owner' s t) (hown : Owned owner' (setPointer x j q t)) :
    Advance build W owner owner' s (setPointer x j q t) :=
  ⟨⟨h.inv.total, h.inv.fits, h.inv.range, h.inv.page, h.inv.pageLt, h.inv.uncached⟩, hown,
    ⟨h.grows.total, h.grows.keeps, h.grows.new, h.grows.used, h.grows.taken, h.grows.other⟩, h.failed,
    h.full, h.harmless⟩

theorem setPointer_obj {q : Int} {t : State} (h : t.obj = s.obj) :
    (setPointer x j q t).obj = Function.update s.obj x {s.obj x with
      dataBlockPointers := Function.update (s.obj x).dataBlockPointers j
        (pointer (setPointer x j q t) x j)} := by
  rw [setPointer_pointer, if_pos ⟨rfl, rfl⟩]
  unfold setPointer
  rw [State.setObj_obj, h]

/-- No block was left for the table. -/
theorem writePointer_negative {f : Int × Block × State} {e : Nat × (Nat → Int) × State} {s₁ t : State}
    {table : Nat → Int} {owner₁ : Owner} (hbo : blockOffset ≤ 1024)
    (hA : IndirectTaken build owner owner₁ x j (pointer s x j) s (-1, s₁))
    (hptr : pointer s x j = -1) (hbit : s₁.blockBitmap (-1) ≤ 1)
    (hf : fetch build (-1) 0 zeroBlock s₁ = f)
    (he : writeEntries build buf blockOffset offset size (1024 - blockOffset) blockOffset
      (ints f.2.1) f.2.2 = e)
    (ht : (fetch build (-1) 0 (ofInts table) (store build (-1) 0 (ofInts table) e.2.2).2).2.2 = t)
    (hl : Live t) :
    ∃ owner', PointerWritten build buf blockOffset offset size x j owner owner' s
      (setPointer x j (-1) t) := by
  have hle : Live e.2.2 := (store_steady ..).live ((fetch_steady ..).live (ht ▸ hl))
  have hlf : Live f.2.2 := (writeEntries_walk ..).steady.live (he ▸ hle)
  have hf₁ : Failed s₁ := hA.short.mpr (.inr rfl)
  subst hf
  have hadvf : Advance build (Below blockOffset x j) owner₁ owner₁ s₁
      (fetch build (-1) 0 zeroBlock s₁).2.2 := fetch_advance hA.adv.inv hA.adv.owned rfl (.inr hf₁) hlf
  have hzero : (fetch build (-1) 0 zeroBlock s₁).2.1 = zeroBlock := fetch_negative hbit hlf
  have htable : TableOk owner₁ x j (-1) (ints (fetch build (-1) 0 zeroBlock s₁).2.1) := by
    rw [hzero]
    exact fun k hk => .inr (.inr ⟨rfl, ints_zeroBlock hk⟩)
  subst he
  obtain ⟨owner₂, hE⟩ := writeEntries_spec (1024 - blockOffset) blockOffset (by omega) hadvf.inv
    hadvf.owned htable (fun _ => hadvf.failed hf₁) hle
  have hobjf := (fetch_same hA.adv.inv rfl hlf).obj
  generalize writeEntries build buf blockOffset offset size (1024 - blockOffset) blockOffset
    (ints (fetch build (-1) 0 zeroBlock s₁).2.1) (fetch build (-1) 0 zeroBlock s₁).2.2 = e at *
  have hfe : Failed e.2.2 := hE.adv.failed (hadvf.failed hf₁)
  obtain ⟨hadvt, hobjt⟩ := @putTable_negative build owner₂ e.2.2 (Below blockOffset x j) table
    hE.adv.inv hE.adv.owned hfe t ht hl
  have hadvA : Advance build (Below blockOffset x j) owner owner₁ s s₁ := hA.adv.mono fun v hv => .inl hv
  have hadvE := hE.adv.mono fun v hv => (.inr hv : Below blockOffset x j v)
  have hadv := ((hadvA.trans hadvf).trans hadvE).trans hadvt
  have hobj : t.obj = s.obj := hobjt.trans (hE.obj.trans (hobjf.trans hA.obj))
  have hfresh : ∀ b v, owner₂ b = some v → owner b = some v := by
    intro b v hb
    rcases hE.fresh b v hb with hb | ⟨k, -, hk, -, hblk, -⟩
    · refine (hA.fresh b v hb).resolve_right fun h => ?_
      have := hA.adv.owned.nonneg hb
      have : (-1 : Int) = b := h.2.2
      omega
    · have := hE.upper
      rw [hzero, ints_zeroBlock (by omega)] at hblk
      cases hblk
  refine ⟨owner₂, setPointer_advance hadv (setPointer_owned hadv.owned (.inl rfl)), setPointer_obj hobj,
    fun h => absurd hptr h, fun b v hb => .inl (hfresh b v hb), fun path hin _ => .inl ?_,
    fun _ => .inr ⟨.ptr j, rfl, hptr, fun b hb => hfresh b _ hb⟩,
    fun h => absurd (hadvt.failed hfe) h⟩
  have hneg : pointer (setPointer x j (-1) t) x j = -1 := by rw [setPointer_pointer, if_pos ⟨rfl, rfl⟩]
  cases path with
  | ptr j' =>
    obtain rfl : j' = j := hin
    exact hneg
  | entry j' k =>
    obtain rfl : j' = j := hin.1
    exact if_pos hneg

/-- The table the loop starts from. -/
theorem IndirectTaken.table {owner₁ : Owner} {q : Int} {s₁ : State} (hown : Owned owner s)
    (hx : LiveSlot s x) (hj : j < 4)
    (hA : IndirectTaken build owner owner₁ x j (pointer s x j) s (q, s₁)) (hq : q ≠ -1) :
    owner₁ q = some (x, .ptr j) ∧ (pointer s x j ≠ -1 → q = pointer s x j) ∧
      (∀ k, k < 1024 → ints (view s₁ q) k = tableAt s x j k) ∧
      TableOwned owner₁ x j (ints (view s₁ q)) ∧ TableOwned owner₁ x j (ints (s₁.disk.blocks q)) := by
  obtain ⟨hself, hold, hnew⟩ := hA.outcome.resolve_left fun h => hq h.1
  dsimp only at hself hold hnew
  by_cases hp : pointer s x j = -1
  · obtain ⟨hview, hdisk⟩ := hnew hp
    have hone : ∀ k, k < 1024 → ints (ofInts fun _ => -1) k = -1 := by
      intro k hk
      rw [ints_ofInts _ hk]
      rfl
    rw [hview, hdisk]
    refine ⟨hself, fun h => absurd hp h, fun k hk => ?_, fun k hk => .inl (hone k hk),
      fun k hk => .inl (hone k hk)⟩
    rw [hone k hk, tableAt, if_pos hp]
  · have heq := hold hp
    injection heq with h₁ h₂
    subst h₁ h₂
    exact ⟨hself, fun _ => rfl, fun k _ => by rw [tableAt, if_neg hp],
      hA.adv.owned.table x j hx hj hp, hA.adv.owned.disk x j hx hj hp⟩

/-- `write_indirect_block` with a block for the table. -/
theorem writePointer_some {f : Int × Block × State} {e : Nat × (Nat → Int) × State} {s₁ t : State}
    {q : Int} {owner₁ : Owner} (hbo : blockOffset ≤ 1024) (hown : Owned owner s) (hx : LiveSlot s x)
    (hj : j < 4) (hA : IndirectTaken build owner owner₁ x j (pointer s x j) s (q, s₁)) (hq : q ≠ -1)
    (hf : fetch build q 0 zeroBlock s₁ = f)
    (he : writeEntries build buf blockOffset offset size (1024 - blockOffset) blockOffset
      (ints f.2.1) f.2.2 = e)
    (ht : (fetch build q 0 (ofInts fun i => if e.1 ≤ i then -1 else e.2.1 i)
      (store build q 0 (ofInts fun i => if e.1 ≤ i then -1 else e.2.1 i) e.2.2).2).2.2 = t)
    (hl : Live t) :
    ∃ owner', PointerWritten build buf blockOffset offset size x j owner owner' s
      (setPointer x j q t) := by
  have hle : Live e.2.2 := (store_steady ..).live ((fetch_steady ..).live (ht ▸ hl))
  have hlf : Live f.2.2 := (writeEntries_walk ..).steady.live (he ▸ hle)
  subst hf
  have hinv₁ : BlockInv build s₁ := hA.adv.inv
  have hown₁ : Owned owner₁ s₁ := hA.adv.owned
  obtain ⟨hself, hkeep, hold, htab, htabdisk⟩ := hA.table hown hx hj hq
  have hused := hown₁.used _ _ hself
  have hnonneg := hown₁.nonneg hself
  have hadvf : Advance build (Below blockOffset x j) owner₁ owner₁ s₁
      (fetch build q 0 zeroBlock s₁).2.2 := fetch_advance hinv₁ hown₁ rfl (.inl hused.1) hlf
  have hsamef := fetch_same hinv₁ rfl hlf
  have hfailf : Failed (fetch build q 0 zeroBlock s₁).2.2 ↔ Failed s₁ :=
    (fetch_emits hlf).failed (by simp [Event.Internal])
  have hvalue : (fetch build q 0 zeroBlock s₁).2.1 = view s₁ q :=
    (fetch_value hinv₁ rfl hnonneg (hinv₁.inside hused.2 hnonneg) hlf).2
  rw [hvalue] at he
  generalize (fetch build q 0 zeroBlock s₁).2.2 = s₂ at *
  subst he
  obtain ⟨owner₂, hE⟩ := writeEntries_spec (q := q) (1024 - blockOffset) blockOffset (by omega) hadvf.inv
    hadvf.owned (fun k hk => (htab k hk).imp id .inl) (fun h => absurd h hq) hle
  generalize writeEntries build buf blockOffset offset size (1024 - blockOffset) blockOffset
    (ints (view s₁ q)) s₂ = e at *
  obtain ⟨stop, table, s₃⟩ := e
  dsimp only at ht hle
  have htable₂ : ∀ k, k < 1024 → table k = -1 ∨ owner₂ (table k) = some (x, .entry j k) :=
    fun k hk => (hE.table k hk).imp id fun h => h.resolve_right fun h => hq h.1
  have hcut : TableOwned owner₂ x j fun i => if stop ≤ i then -1 else table i := by
    intro k hk
    dsimp only
    split
    · exact .inl rfl
    · exact htable₂ k hk
  have hself₂ : owner₂ q = some (x, .ptr j) := hE.adv.grows.keeps _ _ hself
  have hptrW : ¬ ∃ k, blockOffset ≤ k ∧ ((x, Path.ptr j) : Nat × Path) = (x, .entry j k) := by
    rintro ⟨k, -, h⟩
    cases h
  obtain ⟨hadvt, hobjt, hviewt, hfailt, hdiskt⟩ :=
    putTable_spec hE.adv.inv hE.adv.owned hself₂ hcut ht hl
  have hdisk : TableOwned owner₂ x j (ints (t.disk.blocks q)) := by
    rcases hdiskt with h | h
    · rw [h, (hE.adv.grows.other _ _ hself hptrW).2, hsamef.disk]
      exact fun k hk => (htabdisk k hk).imp id (hE.adv.grows.keeps _ _)
    · rw [h]
      exact fun k hk => by
        rw [hcut.ints_ofInts hE.adv.owned hE.adv.inv hk]
        exact hcut k hk
  have hview : TableOwned owner₂ x j (ints (view t q)) := by
    rw [hviewt]
    exact fun k hk => by
      rw [hcut.ints_ofInts hE.adv.owned hE.adv.inv hk]
      exact hcut k hk
  have hupper : stop ≤ blockOffset + (1024 - blockOffset) := hE.upper
  have hlower : blockOffset ≤ stop := hE.lower
  have hadv₂ := (hA.adv.mono fun v hv => (.inl hv : Below blockOffset x j v)).trans
    (hadvf.trans (hE.adv.mono fun v hv => .inr hv))
  have hadv : Advance build (Below blockOffset x j) owner owner₂ s t :=
    hadv₂.trans (hadvt.mono fun v hv => .inl hv)
  have hptr : pointer (setPointer x j q t) x j = q := by rw [setPointer_pointer, if_pos ⟨rfl, rfl⟩]
  have htab_u : ∀ k, k < 1024 →
      tableAt (setPointer x j q t) x j k = if stop ≤ k then -1 else table k := by
    intro k hk
    rw [tableAt, hptr, if_neg hq]
    show ints (view t q) k = _
    rw [hviewt, hcut.ints_ofInts hE.adv.owned hE.adv.inv hk]
  refine ⟨owner₂, setPointer_advance hadv (setPointer_owned hadv.owned (.inr ⟨hself₂, hview, hdisk⟩)),
    setPointer_obj (hobjt.trans (hE.obj.trans (hsamef.obj.trans hA.obj))),
    fun h => hptr.trans (hkeep h), fun b v hb => ?_, fun path hin hmiss => ?_, fun hf => ?_,
    fun hf => ?_⟩
  · rcases hE.fresh b v hb with hb | ⟨k, hk, hk', rfl, hblk, htk⟩
    · rcases hA.fresh b v hb with hb | ⟨rfl, hp, hqb⟩
      · exact .inl hb
      · exact .inr ⟨rfl, rfl, hp, hptr.trans hqb⟩
    · have hk' : k < stop := hk'
      refine .inr ⟨rfl, ⟨rfl, hk, by omega, hE.inside k hk hk'⟩, ?_, ?_⟩
      · exact (hold k (by omega)).symm.trans hblk
      · exact (htab_u k (by omega)).trans ((if_neg (by omega)).trans htk)
  · cases path with
    | ptr j' =>
      obtain rfl : j' = j := hin
      show pointer (setPointer x j' q t) x j' = -1 ∨ s.blockBitmap (pointer (setPointer x j' q t) x j') = 0
      rw [hptr]
      exact hA.filled hmiss
    | entry j' k =>
      obtain ⟨rfl, hk, hk', -⟩ := hin
      show tableAt (setPointer x j' q t) x j' k = -1 ∨
        s.blockBitmap (tableAt (setPointer x j' q t) x j' k) = 0
      rw [htab_u k hk']
      split
      · exact .inl rfl
      · exact (hE.filled k ((hold k hk').trans hmiss)).imp id fun h =>
          hA.adv.grows.free _ (hadvf.grows.free _ h)
  · rcases hE.short (hfailt.mp hf) with hf | ⟨k, hk, hk', hpos, hblk, htk⟩
    · exact .inl ((hA.short.mp (hfailf.mp hf)).resolve_right hq)
    · refine .inr ⟨.entry j k, ⟨rfl, hk, by omega, hpos⟩, (hold k (by omega)).symm.trans hblk,
        fun b hb => ?_⟩
      rcases hE.fresh b _ hb with hb | ⟨k', -, -, heq, -, htb⟩
      · exact (hA.fresh b _ hb).resolve_right fun h => by cases h.1
      · injection heq with _ heq
        injection heq with _ heq
        subst heq
        have := hE.adv.owned.nonneg hb
        have h₁ : table k = b := htb
        have h₂ : table k = -1 := htk
        omega
  · have hf₃ : ¬ Failed s₃ := fun h => hf (hfailt.mpr h)
    obtain ⟨hend, hall⟩ := hE.complete hf₃
    dsimp only at hend hall
    refine ⟨by rw [hptr]; exact hq, fun k hk => ?_, fun k hk hk' hpos => ?_, fun k hk hk' hpos => ?_⟩
    · have htk : table k = ints (view s₁ q) k := hE.kept k (.inl hk)
      refine ⟨?_, fun hne => ?_⟩
      · rw [htab_u k (by omega), if_neg (by omega), htk, hold k (by omega)]
      · have hown_k : owner (tableAt s x j k) = some (x, .entry j k) := by
          have hp : pointer s x j ≠ -1 := fun h => hne (if_pos h)
          unfold tableAt at hne ⊢
          rw [if_neg hp] at hne ⊢
          exact (hown.table x j hx hj hp k (by omega)).resolve_left hne
        refine (hadv.grows.other _ _ hown_k ?_).1
        rintro (h | ⟨k', hk', h⟩)
        · cases h
        · injection h with _ h
          injection h with _ h
          omega
    · have hlt : k < stop := by omega
      have hne : table k ≠ -1 := hall k hk hlt
      have hown_k := (htable₂ k hk').resolve_left hne
      rw [htab_u k hk', if_neg (by omega)]
      refine ⟨hne, fun h => ?_, ?_⟩
      · rw [← hold k hk'] at h ⊢
        exact hE.kept k (.inr h)
      · have hcontent : view s₃ (table k) = buf.page (offset + (k - blockOffset) * 4096) :=
          hE.content k hk hlt hown_k
        rw [← hcontent]
        refine (hadvt.grows.other _ _ hown_k ?_).1
        intro h
        cases h
    · have hge : stop ≤ k := by
        by_contra hlt
        have := hE.inside k hk (Nat.not_le.mp hlt)
        omega
      rw [htab_u k hk', if_pos hge]

theorem writePointer_spec (hinv : BlockInv build s) (hown : Owned owner s) (hx : LiveSlot s x)
    (hj : j < 4) (hbo : blockOffset ≤ 1024) {r : Int × State}
    (hr : writeIndirectBlock build (pointer s x j) blockOffset buf offset size s = r) (hl : Live r.2) :
    ∃ owner', PointerWritten build buf blockOffset offset size x j owner owner' s
      (setPointer x j r.1 r.2) := by
  obtain ⟨owner₁, hA⟩ := indirectBlock_spec hinv hown (hown.ptr x j hx hj)
  subst hr
  unfold writeIndirectBlock at hl ⊢
  dsimp only at hl ⊢
  generalize indirectBlock (pointer s x j) s = a at *
  obtain ⟨q, s₁⟩ := a
  by_cases hq : q = -1
  · subst hq
    have hout := hA.outcome.resolve_right fun h => by
      have : (0 : Int) ≤ -1 := hA.adv.owned.nonneg h.1
      omega
    exact writePointer_negative hbo hA hout.2.1 hout.2.2 rfl rfl rfl hl
  · exact writePointer_some hbo hown hx hj hA hq rfl rfl rfl hl

end Pointer

end CS330.ObjStore
