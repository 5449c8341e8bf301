import CS330.ObjStore.Reads

/-! The tree an object's blocks make, and what the operations on one object do to it.

`treeOf` forgets which blocks hold the contents. Reading and measuring an object
give what its tree says, in both builds; a write that found its blocks gives the
written tree, and leaves every other object's tree as it was. -/
namespace CS330.ObjStore
open Spec

def treeOf (s : State) (x : Nat) : Tree := fun j =>
  if j < 4 ∧ pointer s x j ≠ -1 then
    some fun k => if k < 1024 ∧ tableAt s x j k ≠ -1 then some (view s (tableAt s x j k)) else none
  else none

section Tree
variable {build : Build} {owner : Owner} {x j k : Nat} {s t : State}

theorem treeOf_entry : (treeOf s x).entry j k =
    if j < 4 ∧ k < 1024 ∧ tableAt s x j k ≠ -1 then some (view s (tableAt s x j k)) else none := by
  unfold Tree.entry treeOf
  by_cases hj : j < 4 ∧ pointer s x j ≠ -1
  · rw [if_pos hj]
    simp [hj.1]
  · rw [if_neg hj]
    refine (if_neg ?_).symm
    rintro ⟨h₁, -, h₃⟩
    exact hj ⟨h₁, fun h => h₃ (if_pos h)⟩

theorem SameSubtree.treeOf (h : SameSubtree x j s t) : ObjStore.treeOf t x j = ObjStore.treeOf s x j := by
  unfold ObjStore.treeOf
  rw [h.ptr]
  split
  · congr 1
    funext k
    rw [h.table k]
    split
    · rename_i hk
      rw [h.view k hk.1 hk.2]
    · rfl
  · rfl

theorem treeOf_some (hj : j < 4) (hp : pointer s x j ≠ -1) : treeOf s x j = some fun k =>
    if k < 1024 ∧ tableAt s x j k ≠ -1 then some (view s (tableAt s x j k)) else none :=
  if_pos ⟨hj, hp⟩

theorem treeOf_high (h : 4 ≤ j) : treeOf s x j = none := if_neg (by omega)

/-- Trees are the same when every subtree is. -/
theorem treeOf_congr (h : ∀ j, j < 4 → SameSubtree x j s t) : treeOf t x = treeOf s x := by
  funext j
  rcases Nat.lt_or_ge j 4 with hj | hj
  · exact (h j hj).treeOf
  · rw [treeOf_high hj, treeOf_high hj]

theorem Same.treeOf (h : Same s t) (hown : Owned owner s) (hx : LiveSlot s x) :
    ObjStore.treeOf t x = ObjStore.treeOf s x :=
  treeOf_congr fun _ hj => h.subtree hown hx hj

/-! ### Reading -/

theorem filledFrom_reads {size : Int} {offset a : Nat} :
    FilledFrom s x (capOf size) (firstOf offset) (firstOf offset) (entryOf offset) a ↔
      firstOf offset + a / 4194304 < 4 ∧
      startAt (firstOf offset) (entryOf offset) (firstOf offset + a / 4194304) + a % 4194304 / 4096 < 1024 ∧
      a / 4096 * 4096 < capOf size ∧
      (treeOf s x).Reads (firstOf offset + a / 4194304)
        (startAt (firstOf offset) (entryOf offset) (firstOf offset + a / 4194304))
        (startAt (firstOf offset) (entryOf offset) (firstOf offset + a / 4194304) + a % 4194304 / 4096) := by
  unfold FilledFrom Filled entryOfByte
  generalize startAt (firstOf offset) (entryOf offset) (firstOf offset + a / 4194304) = start
  have hk : (a - a / 4194304 * 4194304) / 4096 = a % 4194304 / 4096 := by omega
  have hpage : a / 4194304 * 4194304 + (start + a % 4194304 / 4096 - start) * 4096 = a / 4096 * 4096 := by
    omega
  rw [hk, hpage]
  constructor
  · rintro ⟨-, hj, -, -, hk, hpos, hall⟩
    refine ⟨hj, hk, hpos, fun i hi hs => ?_⟩
    rw [treeOf_entry, if_pos ⟨hj, by omega, hall i hs (by omega)⟩]
    rfl
  · rintro ⟨hj, hk, hpos, hall⟩
    refine ⟨Nat.le_add_right _ _, hj, Nat.div_mul_le_self a 4194304, Nat.le_add_right _ _, hk, hpos,
      fun i hs hi h => ?_⟩
    have := hall i (by omega) hs
    rw [treeOf_entry, if_neg (fun hc => hc.2.2 h)] at this
    cases this

theorem readPointers_negative {size : Int} {cap first n i blockOffset : Nat} {buf : Buffer}
    (h : size < 0) : readPointers build x size cap first n i blockOffset buf s = (buf, s) := by
  cases n with
  | zero => rfl
  | succ n =>
    rw [readPointers]
    exact if_pos (by omega)

theorem sourceOf_eq {first i blockOffset a : Nat} : sourceOf s x first i blockOffset a =
    tableAt s x (first + a / 4194304)
      (startAt i blockOffset (first + a / 4194304) + a % 4194304 / 4096) := by
  unfold sourceOf entryOfByte
  rw [show (a - a / 4194304 * 4194304) / 4096 = a % 4194304 / 4096 by omega]

/-- One byte of the buffer `objstore_read` fills. -/
theorem readPointers_byte {size : Int} {offset : Nat} (hsize : 0 ≤ size) (hinv : BlockInv build s)
    (hown : Owned owner s) (hx : LiveSlot s x)
    (hl : Live (readPointers build x size (capOf size) (firstOf offset) (4 - firstOf offset)
      (firstOf offset) (entryOf offset) zeroBuffer s).2) :
    Kept build s (readPointers build x size (capOf size) (firstOf offset) (4 - firstOf offset)
      (firstOf offset) (entryOf offset) zeroBuffer s).2 ∧
    ∀ a, (readPointers build x size (capOf size) (firstOf offset) (4 - firstOf offset)
      (firstOf offset) (entryOf offset) zeroBuffer s).1 a = (treeOf s x).byte size offset a := by
  obtain ⟨hkept, hbytes⟩ := @readPointers_spec build owner x size (firstOf offset) (4 - firstOf offset)
    (firstOf offset) (entryOf offset) zeroBuffer s hsize (by rw [firstOf_eq]; omega) (Nat.le_refl _)
    (entryOf_lt offset).le hinv hown hx hl
  refine ⟨hkept, fun a => ?_⟩
  unfold Tree.byte
  dsimp only
  by_cases hf : FilledFrom s x (capOf size) (firstOf offset) (firstOf offset) (entryOf offset) a
  · rw [if_pos (filledFrom_reads.mp hf)]
    refine ((hbytes a).1 hf).trans ?_
    obtain ⟨hj, hk, -, hall⟩ := filledFrom_reads.mp hf
    have hsome := hall _ (Nat.lt_succ_self _) (Nat.le_add_right _ _)
    rw [treeOf_entry] at hsome ⊢
    split at hsome
    · rename_i hne
      rw [if_pos hne, sourceOf_eq]
      rfl
    · cases hsome
  · rw [if_neg fun h => hf (filledFrom_reads.mpr h)]
    exact (hbytes a).2 hf

/-- `objstore_read` returns the bytes of the tree. -/
theorem readObject_spec {size : Int} {offset : Nat} (hinv : BlockInv build s) (hown : Owned owner s)
    (hx : LiveSlot s x) (hl : Live (readObject build x size offset s).2.2) :
    ((readObject build x size offset s).1, (readObject build x size offset s).2.1) =
        (treeOf s x).readAt size offset ∧
      Kept build s (readObject build x size offset s).2.2 := by
  unfold readObject at hl ⊢
  unfold Tree.readAt
  cases hstart : startBlock offset with
  | none =>
    rw [hstart] at hl
    exact ⟨rfl, (Kept.refl hinv).fault⟩
  | some start =>
    rw [hstart] at hl
    dsimp only at hl ⊢
    have hfirst : firstOf (start * 4096 + offset % 4096) = start / 1024 := by unfold firstOf; omega
    have hentry : entryOf (start * 4096 + offset % 4096) = start % 1024 := by unfold entryOf; omega
    have hskip : (start * 4096 + offset % 4096) % 4096 = offset % 4096 := by omega
    have hcap : (auxPages size * 4096).toNat = capOf size := rfl
    rw [hcap, ← hfirst, ← hentry] at hl ⊢
    generalize hr : readPointers build x size (capOf size) (firstOf (start * 4096 + offset % 4096))
      (4 - firstOf (start * 4096 + offset % 4096)) (firstOf (start * 4096 + offset % 4096))
      (entryOf (start * 4096 + offset % 4096)) zeroBuffer s = r at hl ⊢
    have hlr : Live r.2 := by
      split at hl
      · exact (fault_calm _).steady.live hl
      · exact hl
    have hbytes : Kept build s r.2 ∧ (List.range size.toNat).map (fun i => r.1 (i + offset % 4096)) =
        (treeOf s x).read size (start * 4096 + offset % 4096) := by
      unfold Tree.read
      rw [hskip]
      rcases Int.lt_or_le size 0 with hneg | hsize
      · rw [readPointers_negative hneg] at hr
        rw [Int.toNat_of_nonpos (by omega), ← hr]
        exact ⟨.refl hinv, rfl⟩
      · rw [← hr] at hlr ⊢
        obtain ⟨hkept, hbyte⟩ := readPointers_byte hsize hinv hown hx hlr
        exact ⟨hkept, List.map_congr_left fun i _ => hbyte _⟩
    refine ⟨by rw [hbytes.2], ?_⟩
    split
    · exact hbytes.1.fault
    · exact hbytes.1

/-! ### Measuring -/

theorem countEntries_eq {block : Nat → Int} (n i : Nat) (hin : i + n ≤ 1024) (hj : j < 4)
    (hblock : ∀ k, k < 1024 → block k = tableAt s x j k)
    (htable : ∀ k, k < 1024 → block k = -1 ∨ 0 ≤ block k) :
    countEntries block n i = Tree.prefixLength (fun k => ((treeOf s x).entry j k).isSome) n i := by
  induction n generalizing i with
  | zero => rfl
  | succ n ih =>
    unfold countEntries Tree.prefixLength
    rw [ih (i + 1) (by omega), treeOf_entry, ← hblock i (by omega)]
    rcases htable i (by omega) with h | h
    · rw [h]
      simp
    · have hne : block i ≠ -1 := by omega
      have hi : i < 1024 := by omega
      simp [hj, hi, hne, Int.not_lt.mpr h]

theorem calNumberBlocks_spec (hinv : BlockInv build s) (hown : Owned owner s) (hx : LiveSlot s x)
    (hj : j < 4) (hp : pointer s x j ≠ -1) (hl : Live (calNumberBlocks build (pointer s x j) s).2) :
    (calNumberBlocks build (pointer s x j) s).1 =
        Tree.prefixLength (fun k => ((treeOf s x).entry j k).isSome) 1024 0 ∧
      Kept build s (calNumberBlocks build (pointer s x j) s).2 := by
  have hnonneg := hown.pointer_nonneg hx hj hp
  unfold calNumberBlocks at hl ⊢
  rw [if_neg (by omega)] at hl ⊢
  dsimp only at hl ⊢
  have hvalue := (fetch_value hinv rfl hnonneg (hinv.inside (hown.pointer_used hx hj hp) hnonneg) hl).2
  refine ⟨?_, fetch_kept hinv rfl hl⟩
  rw [hvalue]
  refine countEntries_eq 1024 0 (by omega) hj (fun k _ => by rw [tableAt, if_neg hp]) fun k hk => ?_
  exact (hown.table x j hx hj hp k hk).imp id hown.nonneg

theorem countPointers_spec (n i m : Nat) {s : State} (hin : i + n = 4) (hinv : BlockInv build s)
    (hown : Owned owner s) (hx : LiveSlot s x) (hl : Live (countPointers build x n i m s).2) :
    (countPointers build x n i m s).1 = m + (treeOf s x).blocksFrom n i ∧
      Kept build s (countPointers build x n i m s).2 := by
  induction n generalizing i m s with
  | zero => exact ⟨rfl, .refl hinv⟩
  | succ n ih =>
    rw [countPointers] at hl ⊢
    dsimp only at hl ⊢
    rw [show (s.obj x).dataBlockPointers i = pointer s x i from rfl] at hl ⊢
    unfold Tree.blocksFrom
    by_cases hp : pointer s x i = -1
    · have hnone : treeOf s x i = none := if_neg fun h => h.2 hp
      rw [if_pos (by omega), hnone]
      exact ⟨rfl, .refl hinv⟩
    · have hsome : (treeOf s x i).isSome := by
        rw [treeOf_some (by omega) hp]
        rfl
      have hnonneg := hown.pointer_nonneg hx (by omega) hp
      rw [if_neg (by omega)] at hl ⊢
      rw [if_pos hsome]
      obtain ⟨hcount, hkept⟩ := calNumberBlocks_spec hinv hown hx (by omega) hp
        ((countPointers_walk ..).steady.live hl)
      have hx' := (liveSlot_congr hkept.same.obj x).mpr hx
      obtain ⟨hrest, hkept'⟩ := ih (i + 1) _ (by omega) hkept.inv (hown.same hkept.same) hx' hl
      refine ⟨?_, hkept.trans hkept'⟩
      rw [hrest, hcount, hkept.same.treeOf hown hx, Nat.add_assoc]

/-! ### Writing -/

/-- A write that found its blocks leaves the written tree. -/
theorem ObjectWritten.tree {buf : Buffer} {size : Int} {offset : Nat} {owner' : Owner}
    (h : ObjectWritten build x buf size offset owner owner' s t) (hf : ¬ Failed t) :
    treeOf t x = (treeOf s x).write buf size offset := by
  funext j
  unfold Tree.write
  dsimp only
  by_cases hbefore : j < firstOf offset
  · rw [if_pos hbefore]
    rcases Nat.lt_or_ge j 4 with hj | hj
    · exact (h.before j hbefore hj).treeOf
    · rw [treeOf_high hj, treeOf_high hj]
  · rw [if_neg hbefore]
    by_cases hafter : 4 ≤ j ∨ size ≤ ((j - firstOf offset) * 4194304 : Nat)
    · rw [if_pos hafter]
      refine if_neg fun hp => ?_
      exact hp.2 (h.after j (by omega) hp.1 (by omega))
    · rw [if_neg hafter]
      have hsub := h.active hf j ⟨by omega, by omega, by omega⟩
      have hstart := startAt_le (i := firstOf offset) (entryOf_lt offset).le j
      generalize startAt (firstOf offset) (entryOf offset) j = start at *
      rw [treeOf_some (by omega) hsub.ptr]
      congr 1
      funext k
      by_cases hk : k < start
      · obtain ⟨h₁, h₂⟩ := hsub.below k hk
        rw [if_pos hk, h₁, treeOf_entry]
        have hj : j < 4 := by omega
        have hk' : k < 1024 := by omega
        by_cases hne : tableAt s x j k = -1
        · rw [if_neg fun h => h.2 hne, if_neg fun h => h.2.2 hne]
        · rw [if_pos ⟨hk', hne⟩, if_pos ⟨hj, hk', hne⟩, h₂ hne]
      · rw [if_neg hk]
        by_cases hin : k < 1024 ∧ (j - firstOf offset) * 4194304 + (k - start) * 4096 < capOf size
        · obtain ⟨h₁, -, h₃⟩ := hsub.written k (by omega) hin.1 hin.2
          rw [if_pos hin, if_pos ⟨hin.1, h₁⟩, h₃]
        · rw [if_neg hin]
          refine if_neg fun hne => hne.2 (hsub.above k (by omega) hne.1 ?_)
          by_contra hlt
          exact hin ⟨hne.1, by omega⟩

/-- A write leaves the other objects alone. -/
theorem ObjectWritten.tree_other {buf : Buffer} {size : Int} {offset : Nat} {owner' : Owner} {y : Nat}
    (h : ObjectWritten build x buf size offset owner owner' s t) (hown : Owned owner s)
    (hy : LiveSlot s y) (hyx : y ≠ x) : treeOf t y = treeOf s y := by
  refine treeOf_congr fun j hj => h.adv.grows.sameSubtree hown hy hj ?_ fun path _ hW => hyx hW
  unfold pointer
  rw [h.others y hyx]

end Tree

end CS330.ObjStore
