import CS330.ObjStore.PointerWrites

/-! What a write does to the blocks of an object: the loop over its pointers, and the whole
write. Each result says who owns what afterwards and, when no allocation failed, what the
tables hold. -/
namespace CS330.ObjStore
open Spec

/-! ### The loop over the pointers -/

def Path.index : Path → Nat
  | .ptr j => j
  | .entry j _ => j

/-- Nothing below pointer `j` of slot `x` changed. -/
structure SameSubtree (x j : Nat) (s t : State) : Prop where
  ptr : pointer t x j = pointer s x j
  table : ∀ k, tableAt t x j k = tableAt s x j k
  view : ∀ k, k < 1024 → tableAt s x j k ≠ -1 → view t (tableAt s x j k) = view s (tableAt s x j k)

section Subtree
variable {build : Build} {buf : Buffer} {blockOffset offset size : Nat} {x j : Nat}
  {owner owner' : Owner} {s t u : State}

theorem Owned.entry_owner (hown : Owned owner s) (hx : LiveSlot s x) (hj : j < 4) {k : Nat}
    (hk : k < 1024) (hne : tableAt s x j k ≠ -1) : owner (tableAt s x j k) = some (x, .entry j k) := by
  have hp : pointer s x j ≠ -1 := fun h => hne (if_pos h)
  unfold tableAt at hne ⊢
  rw [if_neg hp] at hne ⊢
  exact (hown.table x j hx hj hp k hk).resolve_left hne

/-- What is not in `W` did not change. -/
theorem Grows.sameSubtree {W : Nat × Path → Prop} (h : Grows W owner owner' s t)
    (hown : Owned owner s) (hx : LiveSlot s x) (hj : j < 4) (hptr : pointer t x j = pointer s x j)
    (hW : ∀ path : Path, path.index = j → ¬ W (x, path)) : SameSubtree x j s t := by
  refine ⟨hptr, fun k => ?_, fun k hk hne => ?_⟩
  · unfold tableAt
    rw [hptr]
    split
    · rfl
    · rename_i hp
      rw [(h.other _ _ (hown.pointer_owner hx hj hp) (hW _ rfl)).1]
  · exact (h.other _ _ (hown.entry_owner hx hj hk hne) (hW _ rfl)).1

theorem SameSubtree.blockAt (h : SameSubtree x j s t) {path : Path} (hp : path.index = j) :
    blockAt t x path = blockAt s x path := by
  subst hp
  cases path with
  | ptr j => exact h.ptr
  | entry j k => exact h.table k

theorem SubtreeWritten.after (h : SubtreeWritten buf blockOffset offset size x j u t)
    (hs : SameSubtree x j s u) (hbo : blockOffset ≤ 1024) :
    SubtreeWritten buf blockOffset offset size x j s t := by
  refine ⟨h.ptr, fun k hk => ?_, fun k hk hk' hpos => ?_, h.above⟩
  · have := h.below k hk
    rw [hs.table] at this
    exact ⟨this.1, fun hne => (this.2 hne).trans (hs.view k (by omega) hne)⟩
  · have := h.written k hk hk' hpos
    rwa [hs.table] at this

theorem SubtreeWritten.before (h : SubtreeWritten buf blockOffset offset size x j s u)
    (ht : SameSubtree x j u t) (hbo : blockOffset ≤ 1024) :
    SubtreeWritten buf blockOffset offset size x j s t := by
  refine ⟨by rw [ht.ptr]; exact h.ptr, fun k hk => ?_, fun k hk hk' hpos => ?_,
    fun k hk hk' hpos => by rw [ht.table]; exact h.above k hk hk' hpos⟩
  · obtain ⟨h₁, h₂⟩ := h.below k hk
    rw [ht.table]
    refine ⟨h₁, fun hne => ?_⟩
    rw [← h₂ hne, ← h₁]
    exact ht.view k (by omega) (by rwa [h₁])
  · obtain ⟨h₁, h₂, h₃⟩ := h.written k hk hk' hpos
    rw [ht.table]
    exact ⟨h₁, h₂, by rw [← h₃]; exact ht.view k hk' h₁⟩

end Subtree

/-- What the loop of `objstore_write`, run from pointer `i` on, leaves. -/
structure PointersWritten (build : Build) (x : Nat) (buf : Buffer) (size : Int) (cap first n i : Nat)
    (blockOffset : Nat) (owner owner' : Owner) (s : State) (r : Nat × State) : Prop where
  adv : Advance build (fun v => v.1 = x ∧ i ≤ v.2.index) owner owner' s r.2
  lower : i ≤ r.1
  upper : r.1 ≤ i + n
  inside : ∀ j, i ≤ j → j < r.1 → (((j - first) * 4194304 : Nat) : Int) < size
  stop : r.1 = i + n ∨ size ≤ ((r.1 - first) * 4194304 : Nat)
  others : ∀ y, y ≠ x → r.2.obj y = s.obj y
  fields : (r.2.obj x).id = (s.obj x).id ∧ (r.2.obj x).size = (s.obj x).size ∧
    (r.2.obj x).key = (s.obj x).key
  outside : ∀ j, j < i ∨ r.1 ≤ j → pointer r.2 x j = pointer s x j
  kept : ∀ j, pointer s x j ≠ -1 → pointer r.2 x j = pointer s x j
  fresh : ∀ b v, owner' b = some v → owner b = some v ∨ v.1 = x ∧
    (i ≤ v.2.index ∧ v.2.index < r.1 ∧ InWrite (startAt i blockOffset v.2.index)
      ((v.2.index - first) * 4194304) cap v.2.index v.2) ∧
    blockAt s x v.2 = -1 ∧ blockAt r.2 x v.2 = b
  filled : ∀ path : Path, (i ≤ path.index ∧ path.index < r.1 ∧
    InWrite (startAt i blockOffset path.index) ((path.index - first) * 4194304) cap path.index path) →
    blockAt s x path = -1 → blockAt r.2 x path = -1 ∨ s.blockBitmap (blockAt r.2 x path) = 0
  short : Failed r.2 → Failed s ∨ ∃ path : Path, (i ≤ path.index ∧ path.index < r.1 ∧
    InWrite (startAt i blockOffset path.index) ((path.index - first) * 4194304) cap path.index path) ∧
    blockAt s x path = -1 ∧ ∀ b, owner' b = some (x, path) → owner b = some (x, path)
  subtree : ¬ Failed r.2 → ∀ j, i ≤ j → j < r.1 →
    SubtreeWritten buf (startAt i blockOffset j) ((j - first) * 4194304) cap x j s r.2

section Pointers
variable {build : Build} {x : Nat} {buf : Buffer} {size : Int} {cap first n i blockOffset : Nat}
  {owner : Owner} {s : State}

theorem PointersWritten.here (hinv : BlockInv build s) (hown : Owned owner s)
    (hstop : n = 0 ∨ size ≤ ((i - first) * 4194304 : Nat)) :
    PointersWritten build x buf size cap first n i blockOffset owner owner s (i, s) where
  adv := .refl hinv hown
  lower := Nat.le_refl i
  upper := Nat.le_add_right i n
  inside := fun j h h' => absurd h' (Nat.not_lt.mpr h)
  stop := hstop.imp (fun h => by rw [h]; rfl) id
  others := fun _ _ => rfl
  fields := ⟨rfl, rfl, rfl⟩
  outside := fun _ _ => rfl
  kept := fun _ _ => rfl
  fresh := fun _ _ h => .inl h
  filled := fun _ _ h => .inl h
  short := .inl
  subtree := fun _ j h h' => absurd h' (Nat.not_lt.mpr h)

theorem InWrite.index {offset j : Nat} {path : Path} (h : InWrite blockOffset offset cap j path) :
    path.index = j := by
  cases path with
  | ptr j' => exact h
  | entry j' k => exact h.1

theorem PointerWritten.pointer_ne {offset j : Nat} {owner' : Owner} {u : State}
    (h : PointerWritten build buf blockOffset offset cap x j owner owner' s u) {k : Nat} (hk : k ≠ j) :
    pointer u x k = pointer s x k := by
  unfold pointer
  rw [h.obj]
  simp [hk]

/-- One pointer, and then the rest of the loop. -/
theorem PointerWritten.next {owner₁ owner₂ : Owner} {u : State} {r : Nat × State}
    (hown : Owned owner s) (hx : LiveSlot s x) (hi : i + (n + 1) = 4) (hbo : blockOffset ≤ 1024)
    (hlt : (((i - first) * 4194304 : Nat) : Int) < size)
    (h : PointerWritten build buf blockOffset ((i - first) * 4194304) cap x i owner owner₁ s u)
    (hr : PointersWritten build x buf size cap first n (i + 1) 0 owner₁ owner₂ u r) :
    PointersWritten build x buf size cap first (n + 1) i blockOffset owner owner₂ s r := by
  have hlower := hr.lower
  have hupper := hr.upper
  have hux : LiveSlot u x := by
    unfold LiveSlot at hx ⊢
    rw [h.obj]
    simpa using hx
  -- the first pointer's step leaves the later subtrees alone, and the rest of the loop the first
  have hlater : ∀ j, j < 4 → j ≠ i → SameSubtree x j s u := by
    intro j hj hne
    refine h.adv.grows.sameSubtree hown hx hj (h.pointer_ne hne) fun path hp hW => ?_
    rcases hW with hW | ⟨k, -, hW⟩
    · injection hW with _ hW
      subst hW
      exact hne hp.symm
    · injection hW with _ hW
      subst hW
      exact hne hp.symm
  have hfirst : SameSubtree x i u r.2 :=
    hr.adv.grows.sameSubtree h.adv.owned hux (by omega) (hr.outside i (.inl (by omega)))
      fun path hp hW => by
        have : i + 1 ≤ path.index := hW.2
        omega
  have hadv : Advance build (fun v => v.1 = x ∧ i ≤ v.2.index) owner owner₁ s u := by
    refine h.adv.mono fun v hv => ?_
    rcases hv with rfl | ⟨k, -, rfl⟩
    · exact ⟨rfl, Nat.le_refl i⟩
    · exact ⟨rfl, Nat.le_refl i⟩
  have hadv₂ : Advance build (fun v => v.1 = x ∧ i ≤ v.2.index) owner₁ owner₂ u r.2 :=
    hr.adv.mono fun v hv => ⟨hv.1, by omega⟩
  refine ⟨hadv.trans hadv₂, by omega, by omega, fun j hj hj' => ?_, hr.stop.imp (fun h => by omega) id,
    fun y hy => ?_, ?_, fun j hj => ?_, fun j hj => ?_, fun b v hb => ?_,
    fun path ⟨hi₁, hi₂, hin⟩ hmiss => ?_, fun hf => ?_, fun hf j hj hj' => ?_⟩
  · rcases Nat.eq_or_lt_of_le hj with rfl | hlt'
    · exact hlt
    · exact hr.inside j hlt' hj'
  · rw [hr.others y hy, h.obj, Function.update_of_ne hy]
  · obtain ⟨h₁, h₂, h₃⟩ := hr.fields
    rw [h₁, h₂, h₃, h.obj, Function.update_self]
    exact ⟨rfl, rfl, rfl⟩
  · rw [hr.outside j (hj.imp (fun h => by omega) id)]
    exact h.pointer_ne (by omega)
  · have hu : pointer u x j = pointer s x j := by
      by_cases hji : j = i
      · subst hji
        exact h.kept hj
      · exact h.pointer_ne hji
    rw [hr.kept j (by rwa [hu]), hu]
  · rcases hr.fresh b v hb with hb | ⟨hv, ⟨hi₁, hi₂, hin⟩, hs, ht⟩
    · rcases h.fresh b v hb with hb | ⟨hv, hin, hs, ht⟩
      · exact .inl hb
      · have hidx := hin.index
        refine .inr ⟨hv, ⟨by omega, by omega, ?_⟩, hs, (hfirst.blockAt hidx).trans ht⟩
        rw [hidx, startAt_self]
        exact hin
    · refine .inr ⟨hv, ⟨by omega, hi₂, by rw [← startAt_next hi₁]; exact hin⟩, ?_, ht⟩
      rw [← (hlater v.2.index (by omega) (by omega)).blockAt rfl]
      exact hs
  · rcases Nat.eq_or_lt_of_le hi₁ with hidx | hlt'
    · rw [← hidx, startAt_self] at hin
      rw [hfirst.blockAt hidx.symm]
      exact h.filled path hin hmiss
    · rw [← startAt_next hlt'] at hin
      rw [← (hlater path.index (by omega) (by omega)).blockAt rfl] at hmiss
      exact (hr.filled path ⟨hlt', hi₂, hin⟩ hmiss).imp id (h.adv.grows.free _)
  · rcases hr.short hf with hf | ⟨path, ⟨hi₁, hi₂, hin⟩, hs, hnew⟩
    · refine (h.short hf).imp id fun ⟨path, hin, hs, hnew⟩ => ?_
      have hidx := hin.index
      refine ⟨path, ⟨by omega, by omega, by rw [hidx, startAt_self]; exact hin⟩, hs, fun b hb => ?_⟩
      rcases hr.fresh b _ hb with hb | ⟨-, ⟨hi₁, -⟩, -⟩
      · exact hnew b hb
      · have : i + 1 ≤ path.index := hi₁
        omega
    · refine .inr ⟨path, ⟨by omega, hi₂, by rw [← startAt_next hi₁]; exact hin⟩, ?_, fun b hb => ?_⟩
      · rw [← (hlater path.index (by omega) (by omega)).blockAt rfl]
        exact hs
      · refine (h.fresh b _ (hnew b hb)).resolve_right fun h => ?_
        have : path.index = i := h.2.1.index
        omega
  · have hfu : ¬ Failed u := fun h => hf (hr.adv.failed h)
    rcases Nat.eq_or_lt_of_le hj with rfl | hlt'
    · rw [startAt_self]
      exact (h.subtree hfu).before hfirst hbo
    · rw [← startAt_next hlt']
      refine (hr.subtree hf j hlt' hj').after (hlater j (by omega) (by omega)) ?_
      unfold startAt
      split <;> omega

theorem writePointers_spec (n i blockOffset : Nat) {owner : Owner} {s : State}
    (hi : i + n = 4 ∨ n = 0) (hbo : blockOffset ≤ 1024) (hinv : BlockInv build s) (hown : Owned owner s)
    (hx : LiveSlot s x) (hl : Live (writePointers build x buf size cap first n i blockOffset s).2) :
    ∃ owner', PointersWritten build x buf size cap first n i blockOffset owner owner' s
      (writePointers build x buf size cap first n i blockOffset s) := by
  induction n generalizing i blockOffset owner s with
  | zero => exact ⟨owner, .here hinv hown (.inl rfl)⟩
  | succ n ih =>
    rw [writePointers] at hl ⊢
    dsimp only at hl ⊢
    split at hl
    · rename_i hpos
      rw [if_pos hpos]
      exact ⟨owner, .here hinv hown (.inr hpos)⟩
    rename_i hpos
    rw [if_neg hpos]
    have hl₁ : Live (writeIndirectBlock build (pointer s x i) blockOffset buf ((i - first) * 4194304)
        cap s).2 := by
      have hset := (writePointers_walk ..).steady.live hl
      exact hset
    obtain ⟨owner₁, hP⟩ := writePointer_spec hinv hown hx (by omega) hbo rfl hl₁
    have hux : LiveSlot (setPointer x i (writeIndirectBlock build (pointer s x i) blockOffset buf
        ((i - first) * 4194304) cap s).1 (writeIndirectBlock build (pointer s x i) blockOffset buf
        ((i - first) * 4194304) cap s).2) x := by
      unfold LiveSlot at hx ⊢
      rw [hP.obj]
      simpa using hx
    obtain ⟨owner₂, hR⟩ := ih (i + 1) 0 (by omega) (by omega) hP.adv.inv hP.adv.owned hux hl
    exact ⟨owner₂, hP.next hown hx (by omega) hbo (by omega) hR⟩

end Pointers

/-! ### The whole write -/

section Write
variable {build : Build} {x : Nat} {buf : Buffer} {size : Int} {offset : Nat} {owner : Owner} {s : State}

/-- A write that starts on a block boundary reads nothing first. -/
theorem fillBuffer_aligned {start : Nat} (ha : offset % 4096 = 0) (hsize : 0 ≤ size) :
    fillBuffer build x buf size start offset (capOf size) s =
      (fun k => if k < size.toNat then buf k else 0, s) := by
  have hcap := capOf_spec hsize
  unfold fillBuffer oldBytes
  dsimp only
  rw [ha, if_neg (by decide), if_neg (by omega)]
  refine Prod.ext (funext fun k => ?_) rfl
  simp [zeroBuffer]

theorem finishWrite_pointer (i y j : Nat) : pointer (finishWrite x i size s) y j =
    if y = x ∧ i ≤ j ∧ j < 4 then -1 else pointer s y j := by
  unfold pointer finishWrite
  by_cases hy : y = x
  · subst hy
    simp
  · simp [hy]

theorem finishWrite_live (i y : Nat) : LiveSlot (finishWrite x i size s) y ↔ LiveSlot s y := by
  unfold LiveSlot finishWrite
  by_cases hy : y = x
  · subst hy
    simp
  · simp [hy]

theorem finishWrite_advance {W : Nat × Path → Prop} {owner' : Owner} {t : State} (i : Nat)
    (h : Advance build W owner owner' s t) :
    Advance build W owner owner' s (finishWrite x i size t) := by
  refine ⟨⟨h.inv.total, h.inv.fits, h.inv.range, h.inv.page, h.inv.pageLt, h.inv.uncached⟩, ?_,
    ⟨h.grows.total, h.grows.keeps, h.grows.new, h.grows.used, h.grows.taken, h.grows.other⟩, h.failed,
    h.full, h.harmless⟩
  refine h.owned.of_slots rfl (fun b v hb => ⟨⟨v, hb⟩, (h.owned.used b v hb).2⟩) fun y hy => ?_
  have hy := (finishWrite_live i y).mp hy
  have hid : ((finishWrite x i size t).obj y).id = (t.obj y).id := by
    unfold finishWrite
    by_cases hyx : y = x
    · subst hyx
      simp
    · simp [hyx]
  rw [hid]
  refine ⟨(h.owned.slot y hy).1, (h.owned.slot y hy).2, .inr ⟨y, hy, fun j _ => ?_, fun _ _ hb => hb,
    fun _ _ _ => ⟨rfl, rfl⟩⟩⟩
  rw [finishWrite_pointer]
  split
  · exact .inl rfl
  · exact .inr rfl

/-- Pointer `j` is reached by a write of `size` bytes at `offset`. -/
def ActivePointer (size : Int) (offset j : Nat) : Prop :=
  firstOf offset ≤ j ∧ j < 4 ∧ (((j - firstOf offset) * 4194304 : Nat) : Int) < size

/-- The places a write of `size` bytes at `offset` fills. -/
def WritePlace (size : Int) (offset : Nat) (path : Path) : Prop :=
  ActivePointer size offset path.index ∧
    InWrite (startAt (firstOf offset) (entryOf offset) path.index)
      ((path.index - firstOf offset) * 4194304) (capOf size) path.index path

/-- What a write that starts on a block boundary leaves. -/
structure ObjectWritten (build : Build) (x : Nat) (buf : Buffer) (size : Int) (offset : Nat)
    (owner owner' : Owner) (s t : State) : Prop where
  adv : Advance build (fun v => v.1 = x) owner owner' s t
  others : ∀ y, y ≠ x → t.obj y = s.obj y
  id : (t.obj x).id = (s.obj x).id
  key : (t.obj x).key = (s.obj x).key
  newSize : (t.obj x).size = offset + size
  fresh : ∀ b v, owner' b = some v → owner b = some v ∨ v.1 = x ∧ WritePlace size offset v.2 ∧
    blockAt s x v.2 = -1 ∧ blockAt t x v.2 = b
  filled : ∀ path, WritePlace size offset path → blockAt s x path = -1 →
    blockAt t x path = -1 ∨ s.blockBitmap (blockAt t x path) = 0
  short : Failed t → Failed s ∨ ∃ path, WritePlace size offset path ∧ blockAt s x path = -1 ∧
    ∀ b, owner' b = some (x, path) → owner b = some (x, path)
  before : ∀ j, j < firstOf offset → j < 4 → SameSubtree x j s t
  active : ¬ Failed t → ∀ j, ActivePointer size offset j →
    SubtreeWritten (padded buf size) (startAt (firstOf offset) (entryOf offset) j)
      ((j - firstOf offset) * 4194304) (capOf size) x j s t
  after : ∀ j, firstOf offset ≤ j → j < 4 → size ≤ ((j - firstOf offset) * 4194304 : Nat) →
    pointer t x j = -1
  kept : ∀ j, ActivePointer size offset j → pointer s x j ≠ -1 → pointer t x j = pointer s x j

theorem SameSubtree.finishWrite {j i : Nat} {t : State} (h : SameSubtree x j s t) (hj : j < i) :
    SameSubtree x j s (ObjStore.finishWrite x i size t) := by
  have hptr : pointer (ObjStore.finishWrite x i size t) x j = pointer t x j := by
    rw [finishWrite_pointer, if_neg (by omega)]
  refine ⟨hptr.trans h.ptr, fun k => ?_, h.view⟩
  rw [← h.table k]
  unfold tableAt
  rw [hptr]
  rfl

theorem finishWrite_blockAt {i : Nat} {path : Path} (hp : path.index < i) :
    blockAt (finishWrite x i size s) x path = blockAt s x path :=
  (SameSubtree.finishWrite ⟨rfl, fun _ => rfl, fun _ _ _ => rfl⟩ hp).blockAt rfl

/-- The last lines of `objstore_write` after its loop. -/
theorem PointersWritten.finish {owner' : Owner} {r : Nat × State} (hsize : 0 ≤ size)
    (hend : offset + size ≤ 16777216) (hown : Owned owner s) (hx : LiveSlot s x)
    (h : PointersWritten build x (padded buf size) size (capOf size) (firstOf offset)
      (4 - firstOf offset) (firstOf offset) (entryOf offset) owner owner' s r) :
    ObjectWritten build x buf size offset owner owner' s
      (finishWrite x r.1 (Bytes.int32 (offset + size)) r.2) := by
  have hlower := h.lower
  have hupper := h.upper
  have hactive : ∀ j, ActivePointer size offset j ↔ firstOf offset ≤ j ∧ j < r.1 := by
    intro j
    unfold ActivePointer
    constructor
    · rintro ⟨h₁, h₂, h₃⟩
      refine ⟨h₁, ?_⟩
      rcases h.stop with hs | hs <;> omega
    · rintro ⟨h₁, h₂⟩
      exact ⟨h₁, by omega, h.inside j h₁ h₂⟩
  have hplace : ∀ path, WritePlace size offset path ↔ firstOf offset ≤ path.index ∧ path.index < r.1 ∧
      InWrite (startAt (firstOf offset) (entryOf offset) path.index)
        ((path.index - firstOf offset) * 4194304) (capOf size) path.index path := by
    intro path
    unfold WritePlace
    rw [hactive, and_assoc]
  have hadv : Advance build (fun v => v.1 = x) owner owner' s r.2 := h.adv.mono fun v hv => hv.1
  obtain ⟨hid, -, hkey⟩ := h.fields
  refine ⟨finishWrite_advance r.1 hadv, fun y hy => ?_, ?_, ?_, ?_, fun b v hb => ?_,
    fun path hin hmiss => ?_, fun hf => ?_, fun j hj hj4 => ?_, fun hf j hj => ?_,
    fun j hj hj4 hs => ?_, fun j hj hp => ?_⟩
  · rw [← h.others y hy]
    exact Function.update_of_ne hy _ _
  · rw [← hid]
    simp [finishWrite]
  · rw [← hkey]
    simp [finishWrite]
  · rw [Bytes.int32_eq (by omega) (by omega)]
    simp [finishWrite]
  · refine (h.fresh b v hb).imp id fun ⟨hv, hin, hs, ht⟩ => ⟨hv, (hplace v.2).mpr hin, hs, ?_⟩
    rw [finishWrite_blockAt hin.2.1]
    exact ht
  · have hin := (hplace path).mp hin
    rw [finishWrite_blockAt hin.2.1]
    exact h.filled path hin hmiss
  · refine (h.short hf).imp id fun ⟨path, hin, hs, hnew⟩ => ⟨path, (hplace path).mpr hin, hs, hnew⟩
  · refine SameSubtree.finishWrite ?_ (by omega)
    refine h.adv.grows.sameSubtree hown hx hj4 (h.outside j (.inl hj)) fun path hp hW => ?_
    have : firstOf offset ≤ path.index := hW.2
    omega
  · obtain ⟨h₁, h₂⟩ := (hactive j).mp hj
    refine (h.subtree hf j h₁ h₂).before
      (SameSubtree.finishWrite ⟨rfl, fun _ => rfl, fun _ _ _ => rfl⟩ h₂) ?_
    unfold startAt entryOf
    split <;> omega
  · rw [finishWrite_pointer, if_pos]
    refine ⟨rfl, ?_, hj4⟩
    by_contra hlt
    have := h.inside j hj (by omega)
    omega
  · obtain ⟨-, hlt⟩ := (hactive j).mp hj
    rw [finishWrite_pointer, if_neg (by omega)]
    exact h.kept j hp

theorem writeObject_spec (ha : offset % 4096 = 0) (hsize : 0 ≤ size) (hend : offset + size ≤ 16777216)
    (hinv : BlockInv build s) (hown : Owned owner s) (hx : LiveSlot s x)
    (hl : Live (writeObject build x buf size offset s).2) :
    (writeObject build x buf size offset s).1 = size ∧
      ∃ owner', ObjectWritten build x buf size offset owner owner' s
        (writeObject build x buf size offset s).2 := by
  unfold writeObject at hl ⊢
  rw [startBlock_small (by omega)] at hl ⊢
  dsimp only at hl ⊢
  refine ⟨rfl, ?_⟩
  have hfill := @fillBuffer_aligned build x buf size offset s (offset / 4096) ha hsize
  unfold capOf at hfill
  rw [hfill] at hl ⊢
  dsimp only at hl ⊢
  obtain ⟨owner', hP⟩ := @writePointers_spec build x (padded buf size) size (capOf size)
    (firstOf offset) (4 - firstOf offset) (firstOf offset) (entryOf offset) owner s
    (by rw [firstOf_eq]; omega) (entryOf_lt offset).le hinv hown hx hl
  exact ⟨owner', hP.finish hsize hend hown hx⟩

end Write

end CS330.ObjStore
