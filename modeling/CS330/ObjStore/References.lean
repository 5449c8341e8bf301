import CS330.ObjStore.Sound
import CS330.ObjStore.Space
import CS330.Spec.Content

/-! Which blocks the objects refer to, and which a deletion gives back.

`destroy_object` goes by the pointers up to the first -1 and, for each, by the copy of
its table on the disk up to the first -1 there. It gives back the object's blocks
and no others exactly when nothing stands behind a -1 and the copies are up to
date (`InSync`). -/
namespace CS330.ObjStore
open Spec

/-- Block `b` stands at the place `path` of the object in slot `x`. -/
def Refers (s : State) (x : Nat) (path : Path) (b : Int) : Prop :=
  LiveSlot s x ∧ path.Valid ∧ blockAt s x path = b ∧ b ≠ -1

section Refers
variable {build : Build} {owner : Owner} {x y z : Nat} {path path' : Path} {b : Int} {s t : State}

theorem Refers.keptFor (h : Refers s x path b) (hown : Owned owner s) : owner b = some (x, path) := by
  obtain ⟨hx, hv, rfl, hb⟩ := h
  exact hown.blockAt_owner hv hx hb

theorem Refers.unique (h : Refers s x path b) (h' : Refers s y path' b) (hown : Owned owner s) :
    x = y ∧ path = path' := by
  have := (h.keptFor hown).symm.trans (h'.keptFor hown)
  exact Prod.mk.inj (Option.some.inj this)

theorem Refers.used (h : Refers s x path b) (hown : Owned owner s) : DataBlock s b ∧ s.blockBitmap b ≠ 0 :=
  hown.used b _ (h.keptFor hown)

theorem blockAt_moved (hown : Owned owner s) (hz : LiveSlot s z) (hptr : ∀ j, j < 4 → pointer t y j = pointer s z j)
    (hview : ∀ b path, owner b = some (z, path) → view t b = view s b) (hv : path.Valid) :
    blockAt t y path = blockAt s z path := by
  cases path with
  | ptr j => exact hptr j hv
  | entry j k => exact tableAt_moved hown hz hptr hview hv.1 k

/-- What slot `z` referred to, slot `y` does afterwards. -/
theorem Refers.moved (h : Refers s z path b) (hown : Owned owner s) (hy : LiveSlot t y)
    (hptr : ∀ j, j < 4 → pointer t y j = pointer s z j)
    (hview : ∀ b path, owner b = some (z, path) → view t b = view s b) : Refers t y path b := by
  obtain ⟨hz, hv, hb, hne⟩ := h
  exact ⟨hy, hv, (blockAt_moved hown hz hptr hview hv).trans hb, hne⟩

end Refers

/-! ### Deleting an object -/

/-- The table has `m` entries, and its copy has the same ones and then ends. -/
structure CopyOf (table copy : Nat → Int) (m : Nat) : Prop where
  le : m ≤ 1024
  same : ∀ k, k < m → table k ≠ -1 ∧ copy k = table k
  rest : ∀ k, m ≤ k → k < 1024 → table k = -1
  ends : m < 1024 → copy m = -1

/-- Nothing of the object stands behind a -1, and the disk has its tables. -/
structure InSync (s : State) (x : Nat) : Prop where
  packed : ∀ i j, i ≤ j → j < 4 → pointer s x j ≠ -1 → pointer s x i ≠ -1
  table : ∀ j, j < 4 → pointer s x j ≠ -1 →
    ∃ m, CopyOf (ints (view s (pointer s x j))) (ints (s.disk.blocks (pointer s x j))) m

section Listed
variable {table copy : Nat → Int} {m : Nat} {b : Int}

theorem CopyOf.listed (h : CopyOf table copy m) :
    Listed copy 1024 0 b ↔ ∃ k, k < 1024 ∧ table k = b ∧ b ≠ -1 := by
  have hle := h.le
  constructor
  · rintro ⟨k, -, hk, rfl, hbefore⟩
    have hkm : k < m := Nat.not_le.mp fun hmk => hbefore m (Nat.zero_le m) hmk (h.ends (by omega))
    obtain ⟨hne, heq⟩ := h.same k hkm
    exact ⟨k, by omega, heq.symm, heq ▸ hne⟩
  · rintro ⟨k, hk, rfl, hne⟩
    have hkm : k < m := Nat.not_le.mp fun hmk => hne (h.rest k hmk hk)
    refine ⟨k, Nat.zero_le k, by omega, (h.same k hkm).2, fun l _ hl => ?_⟩
    rw [(h.same l (by omega)).2]
    exact (h.same l (by omega)).1

/-- Where a table ends. -/
theorem exists_end (copy : Nat → Int) :
    ∃ m, m ≤ 1024 ∧ (∀ k, k < m → copy k ≠ -1) ∧ (m < 1024 → copy m = -1) := by
  by_cases h : ∃ k, k < 1024 ∧ copy k = -1
  · obtain ⟨hlt, hend⟩ := Nat.find_spec h
    exact ⟨Nat.find h, by omega, fun k hk heq => Nat.find_min h hk ⟨by omega, heq⟩, fun _ => hend⟩
  · exact ⟨1024, Nat.le_refl _, fun k hk heq => h ⟨k, hk, heq⟩, fun hlt => absurd hlt (Nat.lt_irrefl _)⟩

/-- Tables whose blocks are kept for their places agree when the listed blocks do. -/
theorem copyOf_of_listed {owner : Owner} {x j : Nat} (htable : TableOwned owner x j table)
    (hcopy : TableOwned owner x j copy)
    (h : ∀ b, Listed copy 1024 0 b ↔ ∃ k, k < 1024 ∧ table k = b ∧ b ≠ -1) : ∃ m, CopyOf table copy m := by
  obtain ⟨m, hle, hin, hends⟩ := exists_end copy
  have howner : ∀ (u : Nat → Int), TableOwned owner x j u → ∀ k, k < 1024 → u k ≠ -1 →
      owner (u k) = some (x, .entry j k) := fun u hu k hk hne => (hu k hk).resolve_left hne
  have hplace : ∀ k l, owner (copy k) = some (x, .entry j k) → owner (table l) = some (x, .entry j l) →
      table l = copy k → l = k := by
    intro k l hk hl heq
    rw [heq, hk] at hl
    cases hl
    rfl
  refine ⟨m, hle, fun k hk => ?_, fun k hmk hk => ?_, hends⟩
  · have hne := hin k hk
    obtain ⟨l, hl, heq, -⟩ := (h (copy k)).mp ⟨k, Nat.zero_le k, by omega, rfl, fun i _ hi => hin i (by omega)⟩
    obtain rfl := hplace k l (howner copy hcopy k (by omega) hne)
      (howner table htable l hl (heq ▸ hne)) heq
    exact ⟨heq ▸ hne, heq.symm⟩
  · by_contra hne
    obtain ⟨l, -, hl, heq, hbefore⟩ := (h (table k)).mpr ⟨k, hk, rfl, hne⟩
    obtain rfl := hplace l k (howner copy hcopy l (by omega) (heq ▸ hne)) (howner table htable k hk hne) heq.symm
    exact hbefore m (Nat.zero_le m) hmk (hends (by omega))

end Listed

section Destroy
variable {build : Build} {owner : Owner} {x : Nat} {b : Int} {s : State}

theorem freedBy_iff (hinv : BlockInv build s) (hown : Owned owner s) (hx : LiveSlot s x) {j : Nat} (hj : j < 4)
    (hp : pointer s x j ≠ -1) : FreedBy s (pointer s x j) b ↔
      Listed (ints (s.disk.blocks (pointer s x j))) 1024 0 b ∨ b = pointer s x j := by
  have h₀ := hown.pointer_nonneg hx hj hp
  have h₁ := hinv.inside (hown.pointer_used hx hj hp) h₀
  rw [FreedBy, readBlock_inside rfl h₀ h₁]

theorem refers_entry (hx : LiveSlot s x) {j k : Nat} (hj : j < 4) (hk : k < 1024) (hp : pointer s x j ≠ -1)
    (hb : ints (view s (pointer s x j)) k = b) (hne : b ≠ -1) : Refers s x (.entry j k) b :=
  ⟨hx, ⟨hj, hk⟩, (if_neg hp).trans hb, hne⟩

theorem Refers.entry {j k : Nat} (h : Refers s x (.entry j k) b) :
    pointer s x j ≠ -1 ∧ ints (view s (pointer s x j)) k = b := by
  obtain ⟨-, -, hb, hne⟩ := h
  have hp : pointer s x j ≠ -1 := fun hp => hne (hb.symm.trans (if_pos hp))
  exact ⟨hp, (if_neg hp).symm.trans hb⟩

/-- The blocks given back are the object's, if the disk knows them. -/
theorem InSync.freed (hsync : InSync s x) (hinv : BlockInv build s) (hown : Owned owner s) (hx : LiveSlot s x) :
    FreedByPointers s (s.obj x).dataBlockPointers 4 0 b ↔ ∃ path, Refers s x path b := by
  constructor
  · rintro ⟨j, -, hj, hfreed, hbefore⟩
    have hj : j < 4 := by omega
    have hp : pointer s x j ≠ -1 := hbefore j (Nat.zero_le j) (Nat.le_refl j)
    rcases (freedBy_iff hinv hown hx hj hp).mp hfreed with hlisted | rfl
    · obtain ⟨m, hm⟩ := hsync.table j hj hp
      obtain ⟨k, hk, hb, hne⟩ := hm.listed.mp hlisted
      exact ⟨.entry j k, refers_entry hx hj hk hp hb hne⟩
    · exact ⟨.ptr j, hx, hj, rfl, hp⟩
  · rintro ⟨path, h⟩
    have hreach : ∀ j, j < 4 → pointer s x j ≠ -1 → FreedBy s (pointer s x j) b →
        FreedByPointers s (s.obj x).dataBlockPointers 4 0 b := fun j hj hp hfreed =>
      ⟨j, Nat.zero_le j, by omega, hfreed, fun i _ hi => hsync.packed i j hi hj hp⟩
    cases path with
    | ptr j =>
      obtain ⟨-, hj, rfl, hp⟩ := h
      exact hreach j hj hp (.inr rfl)
    | entry j k =>
      obtain ⟨hp, hb⟩ := h.entry
      obtain ⟨-, ⟨hj, hk⟩, -, hne⟩ := h
      obtain ⟨m, hm⟩ := hsync.table j hj hp
      exact hreach j hj hp ((freedBy_iff hinv hown hx hj hp).mpr (.inl (hm.listed.mpr ⟨k, hk, hb, hne⟩)))

/-- A block the deletion gives back was kept for a place it goes by. -/
theorem freed_place (hinv : BlockInv build s) (hown : Owned owner s) (hx : LiveSlot s x)
    (h : FreedByPointers s (s.obj x).dataBlockPointers 4 0 b) :
    ∃ j, j < 4 ∧ (∀ i, i ≤ j → pointer s x i ≠ -1) ∧
      (b = pointer s x j ∧ owner b = some (x, .ptr j) ∨
        Listed (ints (s.disk.blocks (pointer s x j))) 1024 0 b ∧ ∃ k, owner b = some (x, .entry j k)) := by
  obtain ⟨j, -, hj, hfreed, hbefore⟩ := h
  have hj : j < 4 := by omega
  have hp : pointer s x j ≠ -1 := hbefore j (Nat.zero_le j) (Nat.le_refl j)
  refine ⟨j, hj, fun i hi => hbefore i (Nat.zero_le i) hi, ?_⟩
  rcases (freedBy_iff hinv hown hx hj hp).mp hfreed with hlisted | rfl
  · obtain ⟨k, -, hk, rfl, hent⟩ := id hlisted
    exact .inr ⟨hlisted, k, (hown.disk x j hx hj hp k (by omega)).resolve_left (hent k (Nat.zero_le k) (Nat.le_refl k))⟩
  · exact .inl ⟨rfl, hown.pointer_owner hx hj hp⟩

theorem inSync_of_freed (hinv : BlockInv build s) (hown : Owned owner s) (hx : LiveSlot s x)
    (h : ∀ b, FreedByPointers s (s.obj x).dataBlockPointers 4 0 b ↔ ∃ path, Refers s x path b) : InSync s x := by
  -- A pointer can only be given back as itself, so the loop came to it.
  have hpacked : ∀ i j, i ≤ j → j < 4 → pointer s x j ≠ -1 → pointer s x i ≠ -1 := by
    intro i j hij hj hp
    have howner := hown.pointer_owner hx hj hp
    obtain ⟨j', -, hbefore, hplace⟩ := freed_place hinv hown hx ((h _).mpr ⟨.ptr j, hx, hj, rfl, hp⟩)
    rcases hplace with ⟨-, howner'⟩ | ⟨-, k, howner'⟩ <;> cases howner.symm.trans howner'
    exact hbefore i hij
  refine ⟨hpacked, fun j hj hp => copyOf_of_listed (hown.table x j hx hj hp) (hown.disk x j hx hj hp) fun b => ?_⟩
  constructor
  · intro hlisted
    obtain ⟨path, hrefers⟩ := (h b).mp ⟨j, Nat.zero_le j, by omega,
      (freedBy_iff hinv hown hx hj hp).mpr (.inl hlisted), fun i _ hi => hpacked i j hi hj hp⟩
    obtain ⟨k, -, hk, rfl, hent⟩ := hlisted
    have hne := hent k (Nat.zero_le k) (Nat.le_refl k)
    have howner := (hown.disk x j hx hj hp k (by omega)).resolve_left hne
    cases howner.symm.trans (hrefers.keptFor hown)
    exact ⟨k, by omega, hrefers.entry.2, hne⟩
  · rintro ⟨k, hk, hb, hne⟩
    have hrefers := refers_entry hx hj hk hp hb hne
    obtain ⟨j', -, -, hplace⟩ := freed_place hinv hown hx ((h b).mpr ⟨_, hrefers⟩)
    have howner := hrefers.keptFor hown
    rcases hplace with ⟨-, howner'⟩ | ⟨hlisted, k', howner'⟩ <;> cases howner.symm.trans howner'
    exact hlisted

/-- A deletion gives back exactly the object's blocks if and only if the disk knows them. -/
theorem freed_iff_inSync (hinv : BlockInv build s) (hown : Owned owner s) (hx : LiveSlot s x) :
    (∀ b, FreedByPointers s (s.obj x).dataBlockPointers 4 0 b ↔ ∃ path, Refers s x path b) ↔ InSync s x :=
  ⟨inSync_of_freed hinv hown hx, fun hsync _ => hsync.freed hinv hown hx⟩

end Destroy

end CS330.ObjStore
