import CS330.ObjStore.Writes

/-! What a read returns.

Byte `a` of the buffer comes from the entry that lies `a / 4096` entries behind the
first, and only if no entry from the first to that one is missing: the loop of
`read_indirect_block` stops at a -1. -/
namespace CS330.ObjStore
open Spec

/-- Only where blocks are kept may have changed. -/
structure Kept (build : Build) (s t : State) : Prop where
  inv : BlockInv build t
  same : Same s t

theorem Kept.refl {build : Build} {s : State} (h : BlockInv build s) : Kept build s s :=
  ⟨h, .refl s⟩

theorem Kept.trans {build : Build} {s t u : State} (h₁ : Kept build s t) (h₂ : Kept build t u) :
    Kept build s u := ⟨h₂.inv, h₁.same.trans h₂.same⟩

theorem Quiet.kept {build : Build} {s t : State} (h : Quiet s t) (hinv : BlockInv build s) :
    Kept build s t := ⟨h.inv hinv, h.same⟩

theorem Kept.fault {build : Build} {s t : State} (h : Kept build s t) : Kept build s (t.emit .fault) :=
  h.trans (Quiet.kept ⟨rfl, rfl⟩ h.inv)

theorem fetch_kept {build : Build} {b : Int} {addr : Nat} {buf : Block} {s : State}
    (hinv : BlockInv build s) (ha : addr % 4096 = 0) (hl : Live (fetch build b addr buf s).2.2) :
    Kept build s (fetch build b addr buf s).2.2 := ⟨fetch_inv hinv hl, fetch_same hinv ha hl⟩

/-! ### One table -/

section Entries
variable {build : Build} {owner : Owner} {x j : Nat} {blockOffset offset size : Nat}

/-- The entry byte `a` of the buffer comes from. -/
def entryOfByte (blockOffset offset a : Nat) : Nat := blockOffset + (a - offset) / 4096

/-- Byte `a` is filled from entry `i` on. -/
def Filled (table : Nat → Int) (blockOffset offset size i a : Nat) : Prop :=
  offset ≤ a ∧ i ≤ entryOfByte blockOffset offset a ∧ entryOfByte blockOffset offset a < 1024 ∧
    offset + (entryOfByte blockOffset offset a - blockOffset) * 4096 < size ∧
    ∀ k, i ≤ k → k ≤ entryOfByte blockOffset offset a → table k ≠ -1

theorem putPage_inside {buf : Buffer} {pos a : Nat} {blk : Block} (h₁ : pos ≤ a) (h₂ : a < pos + 4096) :
    buf.putPage pos blk a = blk (Fin.ofNat 4096 (a - pos)) := by
  unfold Buffer.putPage
  rw [dif_pos ⟨h₁, h₂⟩]
  congr 1
  exact Fin.ext (Nat.mod_eq_of_lt (by omega)).symm

theorem putPage_outside {buf : Buffer} {pos a : Nat} {blk : Block} (h : a < pos ∨ pos + 4096 ≤ a) :
    buf.putPage pos blk a = buf a := by
  unfold Buffer.putPage
  rw [dif_neg (by omega)]

theorem filled_step {block : Nat → Int} {i a : Nat} (hi : i < 1024) (hbo : blockOffset ≤ i)
    (hpos : offset + (i - blockOffset) * 4096 < size) (hb : block i ≠ -1) :
    Filled block blockOffset offset size i a ↔
      (offset + (i - blockOffset) * 4096 ≤ a ∧ a < offset + (i - blockOffset) * 4096 + 4096) ∨
        Filled block blockOffset offset size (i + 1) a := by
  unfold Filled entryOfByte
  constructor
  · rintro ⟨h₁, h₂, h₃, h₄, h₅⟩
    rcases Nat.eq_or_lt_of_le h₂ with heq | hlt
    · exact .inl (by omega)
    · exact .inr ⟨h₁, hlt, h₃, h₄, fun k hk hk' => h₅ k (by omega) hk'⟩
  · rintro (⟨h₁, h₂⟩ | ⟨h₁, h₂, h₃, h₄, h₅⟩)
    · have heq : blockOffset + (a - offset) / 4096 = i := by omega
      rw [heq]
      exact ⟨by omega, Nat.le_refl i, hi, hpos, fun k hk hk' => by rwa [Nat.le_antisymm hk' hk]⟩
    · refine ⟨h₁, by omega, h₃, h₄, fun k hk hk' => ?_⟩
      rcases Nat.eq_or_lt_of_le hk with rfl | hlt
      · exact hb
      · exact h₅ k hlt hk'

theorem readEntries_spec (n i : Nat) {block : Nat → Int} {buf : Buffer} {s : State}
    (hin : i + n = 1024) (hbo : blockOffset ≤ i) (ha : offset % 4096 = 0) (hinv : BlockInv build s)
    (hown : Owned owner s) (htable : TableOwned owner x j block)
    (hl : Live (readEntries build block blockOffset offset size n i buf s).2) :
    Kept build s (readEntries build block blockOffset offset size n i buf s).2 ∧
    ∀ a, (Filled block blockOffset offset size i a →
        (readEntries build block blockOffset offset size n i buf s).1 a =
          view s (block (entryOfByte blockOffset offset a)) (Fin.ofNat 4096 a)) ∧
      (¬ Filled block blockOffset offset size i a →
        (readEntries build block blockOffset offset size n i buf s).1 a = buf a) := by
  induction n generalizing i buf s with
  | zero =>
    refine ⟨.refl hinv, fun a => ⟨fun h => ?_, fun _ => rfl⟩⟩
    have := h.2.1
    have := h.2.2.1
    omega
  | succ n ih =>
    rw [readEntries] at hl ⊢
    dsimp only at hl ⊢
    split at hl
    · rename_i hpos
      rw [if_pos hpos]
      refine ⟨.refl hinv, fun a => ⟨fun h => ?_, fun _ => rfl⟩⟩
      obtain ⟨-, h₂, -, h₄, -⟩ := h
      omega
    rename_i hpos
    rw [if_neg hpos]
    split at hl
    · rename_i hb
      rw [if_pos hb]
      refine ⟨.refl hinv, fun a => ⟨fun h => ?_, fun _ => rfl⟩⟩
      exact absurd hb (h.2.2.2.2 i (Nat.le_refl i) h.2.1)
    rename_i hb
    rw [if_neg hb]
    have hown_i := (htable i (by omega)).resolve_left hb
    have hnonneg := hown.nonneg hown_i
    have hl' : Live (fetch build (block i) (offset + (i - blockOffset) * 4096)
        (buf.page (offset + (i - blockOffset) * 4096)) s).2.2 := by
      split at hl
      · exact hl
      · exact (readEntries_walk _ _ ha ..).steady.live hl
    obtain ⟨hstatus, hvalue⟩ := fetch_value hinv (by omega) hnonneg
      (hinv.inside (hown.used _ _ hown_i).2 hnonneg) hl'
    have hkept := fetch_kept hinv (by omega) hl'
    rw [hstatus, if_neg (by decide)] at hl ⊢
    rw [hvalue] at hl ⊢
    obtain ⟨hkept', hbytes⟩ := ih (i + 1) (by omega) (by omega) hkept.inv (hown.same hkept.same) hl
    refine ⟨hkept.trans hkept', fun a => ?_⟩
    rw [filled_step (by omega) hbo (by omega) hb]
    obtain ⟨hin, hout⟩ := hbytes a
    refine ⟨fun h => ?_, fun h => ?_⟩
    · by_cases hnext : Filled block blockOffset offset size (i + 1) a
      · rw [hin hnext]
        have hk := (htable _ hnext.2.2.1).resolve_left
          (hnext.2.2.2.2 _ hnext.2.1 (Nat.le_refl _))
        rw [hkept.same.view _ (hown.nonneg hk)]
      · obtain ⟨h₁, h₂⟩ := h.resolve_right hnext
        have heq : entryOfByte blockOffset offset a = i := by
          unfold entryOfByte
          omega
        rw [hout hnext, putPage_inside h₁ h₂, heq]
        congr 1
        apply Fin.ext
        simp only [Fin.val_ofNat]
        omega
    · rw [hout fun hnext => h (.inr hnext), putPage_outside]
      by_contra hnot
      exact h (.inl (by omega))

end Entries

/-! ### The pointers -/

section Pointers
variable {build : Build} {owner : Owner} {x j : Nat} {s t : State}

theorem Same.subtree (h : Same s t) (hown : Owned owner s) (hx : LiveSlot s x) (hj : j < 4) :
    SameSubtree x j s t :=
  (Grows.of_same (W := fun _ => False) h hown).sameSubtree hown hx hj (pointer_congr h.obj x j)
    fun _ _ h => h

theorem Owned.tableAt_owned (hown : Owned owner s) (hx : LiveSlot s x) (hj : j < 4) :
    TableOwned owner x j (tableAt s x j) := by
  intro k hk
  by_cases hne : tableAt s x j k = -1
  · exact .inl hne
  · exact .inr (hown.entry_owner hx hj hk hne)

theorem readIndirectBlock_spec {blockOffset offset size : Nat} {buf : Buffer}
    (hbo : blockOffset ≤ 1024) (ha : offset % 4096 = 0) (hinv : BlockInv build s) (hown : Owned owner s)
    (hx : LiveSlot s x) (hj : j < 4)
    (hl : Live (readIndirectBlock build (pointer s x j) blockOffset buf offset size s).2) :
    Kept build s (readIndirectBlock build (pointer s x j) blockOffset buf offset size s).2 ∧
    ∀ a, (Filled (tableAt s x j) blockOffset offset size blockOffset a →
        (readIndirectBlock build (pointer s x j) blockOffset buf offset size s).1 a =
          view s (tableAt s x j (entryOfByte blockOffset offset a)) (Fin.ofNat 4096 a)) ∧
      (¬ Filled (tableAt s x j) blockOffset offset size blockOffset a →
        (readIndirectBlock build (pointer s x j) blockOffset buf offset size s).1 a = buf a) := by
  by_cases hp : pointer s x j = -1
  · have heq : readIndirectBlock build (pointer s x j) blockOffset buf offset size s = (buf, s) := by
      rw [readIndirectBlock, if_pos (by omega)]
    rw [heq]
    refine ⟨.refl hinv, fun a => ⟨fun h => ?_, fun _ => rfl⟩⟩
    exact absurd (if_pos hp) (h.2.2.2.2 blockOffset (Nat.le_refl _) h.2.1)
  · have hnonneg := hown.pointer_nonneg hx hj hp
    unfold readIndirectBlock at hl ⊢
    rw [if_neg (by omega)] at hl ⊢
    dsimp only at hl ⊢
    have hl' := (readEntries_walk _ _ ha ..).steady.live hl
    have hkept := fetch_kept hinv rfl hl'
    have hvalue := (fetch_value hinv rfl hnonneg (hinv.inside (hown.pointer_used hx hj hp) hnonneg) hl').2
    have htable : ints (view s (pointer s x j)) = tableAt s x j := by
      funext k
      rw [tableAt, if_neg hp]
    rw [hvalue, htable] at hl ⊢
    have hown' := hown.same hkept.same
    obtain ⟨hkept', hbytes⟩ := readEntries_spec (1024 - blockOffset) blockOffset (by omega)
      (Nat.le_refl _) ha hkept.inv hown' (hown.tableAt_owned hx hj) hl
    refine ⟨hkept.trans hkept', fun a => ⟨fun h => ?_, (hbytes a).2⟩⟩
    rw [(hbytes a).1 h]
    have hne := h.2.2.2.2 _ h.2.1 (Nat.le_refl _)
    rw [(hkept.same.subtree hown hx hj).view _ h.2.2.1 hne]

/-- Byte `a` of a read is filled from pointer `i` on. -/
def FilledFrom (s : State) (x cap first i blockOffset a : Nat) : Prop :=
  i ≤ first + a / 4194304 ∧ first + a / 4194304 < 4 ∧
    Filled (tableAt s x (first + a / 4194304)) (startAt i blockOffset (first + a / 4194304))
      (a / 4194304 * 4194304) cap (startAt i blockOffset (first + a / 4194304)) a

/-- The block byte `a` comes from. -/
def sourceOf (s : State) (x first i blockOffset a : Nat) : Int :=
  tableAt s x (first + a / 4194304)
    (entryOfByte (startAt i blockOffset (first + a / 4194304)) (a / 4194304 * 4194304) a)

theorem filledFrom_step {cap first i blockOffset a : Nat} (hi : i < 4) (hfirst : first ≤ i) :
    FilledFrom s x cap first i blockOffset a ↔
      Filled (tableAt s x i) blockOffset ((i - first) * 4194304) cap blockOffset a ∨
        FilledFrom s x cap first (i + 1) 0 a := by
  unfold FilledFrom
  constructor
  · rintro ⟨h₁, h₂, h₃⟩
    rcases Nat.eq_or_lt_of_le h₁ with heq | hlt
    · rw [← heq, startAt_self, show a / 4194304 * 4194304 = (i - first) * 4194304 by omega] at h₃
      exact .inl h₃
    · rw [← startAt_next hlt] at h₃
      exact .inr ⟨hlt, h₂, h₃⟩
  · rintro (h | ⟨h₁, h₂, h₃⟩)
    · have heq : first + a / 4194304 = i := by
        have h₁ := h.1
        have h₂ := h.2.2.1
        unfold entryOfByte at h₂
        omega
      rw [heq, startAt_self, show a / 4194304 * 4194304 = (i - first) * 4194304 by omega]
      exact ⟨Nat.le_refl i, hi, h⟩
    · rw [startAt_next h₁] at h₃
      exact ⟨by omega, h₂, h₃⟩

theorem sourceOf_next {cap first i blockOffset a : Nat} (h : FilledFrom s x cap first (i + 1) 0 a) :
    sourceOf s x first (i + 1) 0 a = sourceOf s x first i blockOffset a := by
  unfold sourceOf
  rw [startAt_next h.1]

theorem sourceOf_here {cap first i blockOffset a : Nat} (hfirst : first ≤ i)
    (h : Filled (tableAt s x i) blockOffset ((i - first) * 4194304) cap blockOffset a) :
    sourceOf s x first i blockOffset a =
      tableAt s x i (entryOfByte blockOffset ((i - first) * 4194304) a) := by
  have h₁ := h.1
  have h₂ := h.2.2.1
  unfold entryOfByte at h₂
  have heq : first + a / 4194304 = i := by omega
  unfold sourceOf
  rw [heq, startAt_self, show a / 4194304 * 4194304 = (i - first) * 4194304 by omega]

/-- What a read gets does not depend on where blocks are kept. -/
theorem Same.filledFrom (h : Same s t) (hown : Owned owner s) (hx : LiveSlot s x)
    {cap first i blockOffset a : Nat} :
    FilledFrom t x cap first i blockOffset a ↔ FilledFrom s x cap first i blockOffset a := by
  unfold FilledFrom
  constructor
  · rintro ⟨h₁, h₂, h₃⟩
    rw [funext (h.subtree hown hx h₂).table] at h₃
    exact ⟨h₁, h₂, h₃⟩
  · rintro ⟨h₁, h₂, h₃⟩
    rw [← funext (h.subtree hown hx h₂).table] at h₃
    exact ⟨h₁, h₂, h₃⟩

theorem Same.source (h : Same s t) (hown : Owned owner s) (hx : LiveSlot s x)
    {cap first i blockOffset a : Nat} (hf : FilledFrom s x cap first i blockOffset a) :
    ObjStore.view t (sourceOf t x first i blockOffset a) =
      ObjStore.view s (sourceOf s x first i blockOffset a) := by
  unfold sourceOf
  rw [(h.subtree hown hx hf.2.1).table]
  have hin := hf.2.2
  exact (h.subtree hown hx hf.2.1).view _ hin.2.2.1 (hin.2.2.2.2 _ hin.2.1 (Nat.le_refl _))

theorem readPointers_spec {size : Int} {first : Nat} (n i blockOffset : Nat) {buf : Buffer} {s : State}
    (hsize : 0 ≤ size) (hin : i + n = 4 ∨ n = 0 ∧ 4 ≤ i) (hfirst : first ≤ i)
    (hbo : blockOffset ≤ 1024) (hinv : BlockInv build s) (hown : Owned owner s) (hx : LiveSlot s x)
    (hl : Live (readPointers build x size (capOf size) first n i blockOffset buf s).2) :
    Kept build s (readPointers build x size (capOf size) first n i blockOffset buf s).2 ∧
    ∀ a, (FilledFrom s x (capOf size) first i blockOffset a →
        (readPointers build x size (capOf size) first n i blockOffset buf s).1 a =
          view s (sourceOf s x first i blockOffset a) (Fin.ofNat 4096 a)) ∧
      (¬ FilledFrom s x (capOf size) first i blockOffset a →
        (readPointers build x size (capOf size) first n i blockOffset buf s).1 a = buf a) := by
  induction n generalizing i blockOffset buf s with
  | zero =>
    refine ⟨.refl hinv, fun a => ⟨fun h => ?_, fun _ => rfl⟩⟩
    have := h.1
    have := h.2.1
    omega
  | succ n ih =>
    rw [readPointers] at hl ⊢
    dsimp only at hl ⊢
    rw [show (s.obj x).dataBlockPointers i = pointer s x i from rfl] at hl ⊢
    split at hl
    · rename_i hpos
      rw [if_pos hpos]
      refine ⟨.refl hinv, fun a => ⟨fun h => ?_, fun _ => rfl⟩⟩
      have hcap := capOf_le hsize (by omega) hpos
      have h₁ := h.1
      have h₄ := h.2.2.2.2.2.1
      omega
    rename_i hpos
    rw [if_neg hpos]
    have hl' := (readPointers_walk ..).steady.live hl
    obtain ⟨hkept, hbytes⟩ := @readIndirectBlock_spec build owner x i s blockOffset
      ((i - first) * 4194304) (capOf size) buf hbo (by omega) hinv hown hx (by omega) hl'
    generalize readIndirectBlock build (pointer s x i) blockOffset buf ((i - first) * 4194304)
      (capOf size) s = r at *
    have hown' := hown.same hkept.same
    have hx' := (liveSlot_congr hkept.same.obj x).mpr hx
    obtain ⟨hkept', hrest⟩ := ih (i + 1) 0 (by omega) (by omega) (by omega) hkept.inv hown' hx' hl
    refine ⟨hkept.trans hkept', fun a => ?_⟩
    rw [filledFrom_step (by omega) hfirst]
    obtain ⟨hin', hout'⟩ := hrest a
    rw [hkept.same.filledFrom hown hx] at hin' hout'
    refine ⟨fun h => ?_, fun h => ?_⟩
    · by_cases hnext : FilledFrom s x (capOf size) first (i + 1) 0 a
      · rw [hin' hnext, hkept.same.source hown hx hnext, sourceOf_next hnext]
      · have hhere := h.resolve_right hnext
        rw [hout' hnext, (hbytes a).1 hhere, sourceOf_here hfirst hhere]
    · rw [hout' fun hnext => h (.inr hnext)]
      exact (hbytes a).2 fun hhere => h (.inl hhere)

end Pointers

end CS330.ObjStore
