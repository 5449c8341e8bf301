import CS330.ObjStore.Exec

/-! Unmounting and mounting again.

What `objstore_destroy` writes, `objstore_init` reads back: the bitmap, if every
entry is 0 or 1, and every slot whose fields are ints. `Synced s u`: the pages of
`s` have been written back, so `u` keeps every used block on the disk. From there
the mounted store has the same objects with the same contents (`Remounted`). -/
namespace CS330.ObjStore
open Bytes Spec

/-! ### The super object on the disk -/

/-- Block `b` of the super object. -/
def superBlock (s : State) (b : Int) : Block := fun k => s.superByte (b.toNat * 4096 + k.val)

/-- The disk after the first `n` blocks of the super object were written. -/
def superDisk (n : Nat) (s : State) : Disk where
  size := max s.disk.size n
  blocks := fun b => if 0 ≤ b ∧ b < n then superBlock s b else s.disk.blocks b

theorem writeSuper_eq (n : Nat) (s : State) :
    writeSuper n s = {s with disk := superDisk n s, log := (writeSuper n s).log} := by
  induction n with
  | zero =>
    have hdisk : superDisk 0 s = s.disk := by
      unfold superDisk
      have hnone : ∀ b : Int, ¬ (0 ≤ b ∧ b < ((0 : Nat) : Int)) := by omega
      simp only [if_neg (hnone _), Nat.max_zero]
    rw [hdisk]
    rfl
  | succ n ih =>
    have hsuper : (fun k : Fin 4096 => (writeSuper n s).superByte (n * 4096 + k.val)) = superBlock s n := by
      rw [ih]
      rfl
    have hdisk : superDisk (n + 1) s =
        ⟨max (superDisk n s).size ((n : Int).toNat + 1),
          Function.update (superDisk n s).blocks n (superBlock s n)⟩ := by
      unfold superDisk
      congr 1
      · show max _ _ = max (max _ _) _
        omega
      · funext b
        by_cases hb : b = n
        · rw [hb, Function.update_self, if_pos (by omega)]
        · rw [Function.update_of_ne hb]
          dsimp only
          by_cases hlt : 0 ≤ b ∧ b < n
          · rw [if_pos hlt, if_pos (by omega)]
          · rw [if_neg hlt, if_neg (by omega)]
    have hstep : (writeSuper (n + 1) s) =
        ((writeSuper n s).emit (.writeBlock n ((writeSuper n s).blockBitmap n))).setDisk n (superBlock s n) := by
      rw [← hsuper]
      exact congrArg Prod.snd (writeBlock_inside (by omega) (by omega))
    rw [hstep, hdisk]
    rw [ih]
    rfl

/-- `objstore_init` reads the bytes that `objstore_destroy` wrote. -/
theorem superMemory_superDisk {n : Nat} {s u : State} (hs : s.disk = superDisk n u) {a : Nat}
    (ha : a < n * 4096) : superMemory s a = u.superByte a := by
  have hsize : (a / 4096 : Nat) < s.disk.size := by
    rw [hs]
    show a / 4096 < max _ n
    omega
  unfold superMemory
  rw [readBlock_inside (by omega) (by omega) (by omega), hs]
  show (if _ then _ else _ : Block) _ = _
  rw [if_pos (by omega)]
  show u.superByte ((a / 4096 : Nat) * 4096 + a % 4096) = _
  congr 1
  omega

theorem superByte_bitmap {u : State} {b k : Nat} (hb : b < bitmapSize) (hk : k < 2) :
    u.superByte (40 + 2 * b + k) = byteOf (u.blockBitmap b) k := by
  unfold bitmapSize at hb
  unfold State.superByte
  rw [if_neg (by omega), if_pos (by omega), show (40 + 2 * b + k - 40) / 2 = b by omega,
    show (40 + 2 * b + k - 40) % 2 = k by omega]

theorem superByte_obj {u : State} {i k : Nat} (hi : i < 1000000) (hk : k < 56) :
    u.superByte (16810024 + 56 * i + k) = (u.obj i).byte k := by
  unfold State.superByte
  rw [if_neg (by omega), if_neg (by omega), if_neg (by omega), if_pos (by omega),
    show (16810024 + 56 * i + k - 16810024) / 56 = i by omega,
    show (16810024 + 56 * i + k - 16810024) % 56 = k by omega]

/-! ### What is read back -/

section Mounted
variable {u : State} {m : Nat → UInt8}

theorem mounted_bitmap (hm : ∀ a, a < 72941568 → m a = u.superByte a) {b : Int} (h₀ : 0 ≤ b)
    (hb : b < bitmapSize) (hv : u.blockBitmap b < 65536) : bitmapOfBytes m b = u.blockBitmap b := by
  obtain ⟨n, rfl⟩ := Int.eq_ofNat_of_zero_le h₀
  have hn : n < bitmapSize := by omega
  have hbytes : ∀ k < 2, m (40 + 2 * n + k) = byteOf (u.blockBitmap n) k := by
    intro k hk
    rw [hm _ (by unfold bitmapSize at hn; omega), superByte_bitmap hn hk]
  unfold bitmapOfBytes
  rw [if_pos ⟨h₀, hb⟩, Int.toNat_natCast, hbytes 1 (by omega)]
  have hfirst := hbytes 0 (by omega)
  rw [Nat.add_zero] at hfirst
  rw [hfirst]
  exact le16_byteOf hv

/-- The int whose bytes lie at `k` of slot `i`. -/
theorem mounted_int (hm : ∀ a, a < 72941568 → m a = u.superByte a) {i k : Nat} {v : Int}
    (hi : i < 1000000) (hk : k + 3 < 56) (hv : ∀ j < 4, (u.obj i).byte (k + j) = byteOf v j) :
    intAt m (16810024 + 56 * i + k) = int32 v := by
  have hbyte : ∀ j < 4, m (16810024 + 56 * i + k + j) = byteOf v j := by
    intro j hj
    rw [hm _ (by omega), Nat.add_assoc, superByte_obj hi (by omega), hv j hj]
  have hfirst := hbyte 0 (by omega)
  rw [Nat.add_zero] at hfirst
  unfold intAt
  rw [hbyte 1 (by omega), hbyte 2 (by omega), hbyte 3 (by omega), hfirst]
  exact le32_byteOf v

theorem mounted_obj (hm : ∀ a, a < 72941568 → m a = u.superByte a) {i : Nat} (hi : i < 1000000) :
    (objOfBytes m i).id = int32 (u.obj i).id ∧ (objOfBytes m i).size = int32 (u.obj i).size ∧
      (∀ n, n < 32 → (objOfBytes m i).key n = (u.obj i).key n) ∧
      ∀ j, j < 4 → (objOfBytes m i).dataBlockPointers j = int32 ((u.obj i).dataBlockPointers j) := by
  unfold objOfBytes
  rw [if_pos hi]
  unfold Object.ofBytes
  dsimp only
  refine ⟨?_, ?_, fun n hn => ?_, fun j hj => ?_⟩
  · have hid := @mounted_int u m hm i 0 (u.obj i).id hi (by omega) fun j hj => by
      rw [Nat.zero_add]
      exact if_pos hj
    rwa [Nat.add_zero] at hid
  · refine mounted_int hm hi (by omega) fun j hj => ?_
    unfold Object.byte
    rw [if_neg (by omega), if_pos (by omega), Nat.add_sub_cancel_left]
  · rw [hm _ (by omega), Nat.add_assoc, superByte_obj hi (by omega)]
    unfold Object.byte
    rw [if_neg (by omega), if_neg (by omega), if_pos (by omega), Nat.add_sub_cancel_left]
  · rw [Nat.add_assoc]
    refine mounted_int hm hi (by omega) fun k hk => ?_
    unfold Object.byte
    rw [if_neg (by omega), if_neg (by omega), if_neg (by omega),
      show (40 + 4 * j + k - 40) / 4 = j by omega, show (40 + 4 * j + k - 40) % 4 = k by omega]

/-- `t` is what `objstore_init` makes of the super object of `u`. -/
structure Mounted (u t : State) : Prop where
  bitmap : ∀ b : Int, 0 ≤ b → b < bitmapSize → u.blockBitmap b < 65536 → t.blockBitmap b = u.blockBitmap b
  outside : ∀ b : Int, ¬ (0 ≤ b ∧ b < bitmapSize) → t.blockBitmap b = 0
  obj : ∀ i, i < 1000000 → (t.obj i).id = int32 (u.obj i).id ∧ (t.obj i).size = int32 (u.obj i).size ∧
    (∀ n, n < 32 → (t.obj i).key n = (u.obj i).key n) ∧
    ∀ j, j < 4 → (t.obj i).dataBlockPointers j = int32 ((u.obj i).dataBlockPointers j)
  high : ∀ i, ¬ i < 1000000 → (t.obj i).id = 0
  size : t.disk.size = max u.disk.size dataBlocksStart
  blocks : ∀ b : Int, dataBlocksStart ≤ b → t.disk.blocks b = u.disk.blocks b
  total : t.totalNumDiskBlocks = t.disk.size
  fresh : t.log = [] ∧ t.lastCacheIndex = 1 ∧ ∀ c, t.cacheBitmap c = 0 ∧ t.dirtyFlag c = false

theorem objstoreInit_mounted {s : State} (hs : s.disk = superDisk dataBlocksStart u) :
    Mounted u (objstoreInit s) := by
  have hmem : ∀ a, a < 72941568 → superMemory s a = u.superByte a := fun a ha =>
    superMemory_superDisk hs (by unfold dataBlocksStart; omega)
  refine ⟨fun b h₀ hb hv => mounted_bitmap hmem h₀ hb hv, fun b hb => if_neg hb,
    fun i hi => mounted_obj hmem hi, fun i hi => ?_, ?_, fun b hb => ?_, rfl, rfl, rfl,
    fun _ => ⟨rfl, rfl⟩⟩
  · show (objOfBytes _ i).id = 0
    unfold objOfBytes
    rw [if_neg hi]
    rfl
  · show s.disk.size = _
    rw [hs]
    rfl
  · show s.disk.blocks b = _
    rw [hs]
    exact if_neg (by omega)

theorem writeSuper_mounted (u : State) : Mounted u (objstoreInit (writeSuper dataBlocksStart u)) :=
  objstoreInit_mounted (congrArg State.disk (writeSuper_eq dataBlocksStart u))

end Mounted

/-! ### The mounted store -/

/-- `u` is `s` with every used block on the disk and no page named in the bitmap. -/
structure Synced (s u : State) : Prop where
  obj : u.obj = s.obj
  size : s.disk.size ≤ u.disk.size
  fits : u.disk.size ≤ bitmapSize
  unpaged : ∀ b, u.blockBitmap b ≤ 1
  range : ∀ b, u.blockBitmap b ≠ 0 → b = -1 ∨ DataBlock s b
  used : ∀ b, s.blockBitmap b ≠ 0 → u.blockBitmap b ≠ 0
  disk : ∀ b, DataBlock s b → s.blockBitmap b ≠ 0 → u.disk.blocks b = view s b

/-- The same objects, with the same contents; nothing is cached. -/
structure Remounted (s t : State) : Prop where
  live : ∀ x, LiveSlot t x ↔ LiveSlot s x
  size : ∀ x, LiveSlot s x → (t.obj x).size = (s.obj x).size
  key : ∀ x n, LiveSlot s x → n < 32 → (t.obj x).key n = (s.obj x).key n
  pointer : ∀ x j, LiveSlot s x → j < 4 → pointer t x j = pointer s x j
  unpaged : ∀ b, t.blockBitmap b ≤ 1
  used : ∀ b, DataBlock s b → s.blockBitmap b ≠ 0 → t.blockBitmap b ≠ 0
  view : ∀ b, DataBlock s b → s.blockBitmap b ≠ 0 → view t b = view s b
  disk : ∀ b, DataBlock s b → s.blockBitmap b ≠ 0 → t.disk.blocks b = ObjStore.view s b

section Remount
variable {build : Build} {s u : State}

theorem BlockInv.synced (h : BlockInv .uncached s) : Synced s s :=
  ⟨rfl, Nat.le_refl _, h.fits, h.uncached rfl, h.range, fun _ => id, fun b _ _ =>
    (if_neg (by have := h.uncached rfl b; omega)).symm⟩

theorem DataBlock.bounds {b : Int} (h : DataBlock s b) (hinv : BlockInv build s) :
    0 ≤ b ∧ b < bitmapSize := by
  have h₁ := hinv.total
  have h₂ := hinv.fits
  have h₃ := h.1
  have h₄ := h.2
  omega

section
variable {t : State}

theorem Mounted.dataBlock (ht : Mounted u t) (hinv : BlockInv build s) (hu : Synced s u) {b : Int}
    (hb : DataBlock s b) : DataBlock t b ∧ t.blockBitmap b = u.blockBitmap b ∧
      t.disk.blocks b = u.disk.blocks b := by
  obtain ⟨h₀, h₁⟩ := hb.bounds hinv
  have hle := hu.unpaged b
  have htotal := hinv.total
  have hsize := hu.size
  refine ⟨⟨hb.1, ?_⟩, ht.bitmap b h₀ h₁ (by omega), ht.blocks b hb.1⟩
  have := hb.2
  rw [ht.total, ht.size]
  omega

theorem Mounted.unpaged (ht : Mounted u t) (hu : Synced s u) (b : Int) : t.blockBitmap b ≤ 1 := by
  have hle := hu.unpaged b
  by_cases hb : 0 ≤ b ∧ b < bitmapSize
  · rw [ht.bitmap b hb.1 hb.2 (by omega)]
    exact hle
  · rw [ht.outside b hb]
    exact Nat.zero_le _

/-- The fields of live slots are ints. -/
def FieldsFit (s : State) : Prop :=
  ∀ x, LiveSlot s x → -2147483648 ≤ (s.obj x).size ∧ (s.obj x).size < 2147483648

theorem Mounted.live (ht : Mounted u t) (hu : Synced s u) (hslot : SlotsOk s) (x : Nat) :
    LiveSlot t x ↔ LiveSlot s x := by
  unfold LiveSlot
  by_cases hx : x < 1000000
  · rw [(ht.obj x hx).1, hu.obj]
    by_cases hlive : (s.obj x).id = 0
    · rw [hlive]
      exact iff_of_false (by decide) (by decide)
    · have hid := (hslot x hlive).2
      unfold indexToID at hid
      rw [int32_eq (by omega) (by omega)]
  · rw [ht.high x hx]
    exact iff_of_false (by simp) fun h => hx (hslot x h).1

theorem Mounted.remounted (ht : Mounted u t) {owner : Owner} (hinv : BlockInv build s)
    (hown : Owned owner s) (hu : Synced s u) (hfit : FieldsFit s) : Remounted s t := by
  have hlive := ht.live hu hown.slotsOk
  have hview : ∀ b, view t b = t.disk.blocks b := fun b => if_neg (by have := ht.unpaged hu b; omega)
  refine ⟨hlive, fun x hx => ?_, fun x n hx hn => ?_, fun x j hx hj => ?_, ht.unpaged hu,
    fun b hb hbit => ?_, fun b hb hbit => ?_, fun b hb hbit => ?_⟩
  · rw [(ht.obj x (hown.slot x hx).1).2.1, hu.obj, int32_eq (hfit x hx).1 (hfit x hx).2]
  · rw [(ht.obj x (hown.slot x hx).1).2.2.1 n hn, hu.obj]
  · show (t.obj x).dataBlockPointers j = _
    rw [(ht.obj x (hown.slot x hx).1).2.2.2 j hj, hu.obj]
    show int32 (pointer s x j) = pointer s x j
    rcases hown.ptr x j hx hj with hp | hp
    · rw [hp]
      decide
    · have hbounds := (hown.used _ _ hp).1.bounds hinv
      unfold bitmapSize at hbounds
      exact int32_eq (by omega) (by omega)
  · rw [(ht.dataBlock hinv hu hb).2.1]
    exact hu.used b hbit
  · rw [hview, (ht.dataBlock hinv hu hb).2.2]
    exact hu.disk b hb hbit
  · rw [(ht.dataBlock hinv hu hb).2.2]
    exact hu.disk b hb hbit

theorem Mounted.inv (ht : Mounted u t) (hinv : BlockInv build s) (hu : Synced s u) : BlockInv build t := by
  have hle := ht.unpaged hu
  refine ⟨by rw [ht.total], ?_, fun b hb => ?_, fun b hb => ?_, fun b => ?_, fun _ => hle⟩
  · have := hu.fits
    rw [ht.size]
    unfold dataBlocksStart bitmapSize at *
    omega
  · by_cases hin : 0 ≤ b ∧ b < bitmapSize
    · have hub := hu.unpaged b
      rw [ht.bitmap b hin.1 hin.2 (by omega)] at hb
      exact (hu.range b hb).imp id fun h => (ht.dataBlock hinv hu h).1
    · exact absurd (ht.outside b hin) hb
  · have := hle b
    omega
  · have := hle b
    unfold cachePages
    omega

theorem Mounted.owned (ht : Mounted u t) {owner : Owner} (hinv : BlockInv build s)
    (hown : Owned owner s) (hu : Synced s u) (hfit : FieldsFit s) : Owned owner t := by
  have hr := ht.remounted hinv hown hu hfit
  have htable : ∀ x j, LiveSlot t x → j < 4 → pointer t x j ≠ -1 →
      view t (pointer t x j) = view s (pointer s x j) ∧
      t.disk.blocks (pointer t x j) = view s (pointer s x j) ∧
      TableOwned owner x j (ints (view s (pointer s x j))) := by
    intro x j hx hj hp
    have hx' := (hr.live x).mp hx
    rw [hr.pointer x j hx' hj] at hp ⊢
    obtain ⟨hb, hbit⟩ := hown.used _ _ (hown.pointer_owner hx' hj hp)
    exact ⟨hr.view _ hb hbit, hr.disk _ hb hbit, hown.table x j hx' hj hp⟩
  refine ⟨fun b v hb => ?_, fun x j hx hj => ?_, fun x j hx hj hp => ?_, fun x j hx hj hp => ?_,
    fun x hx => ?_⟩
  · obtain ⟨hdata, hbit⟩ := hown.used b v hb
    exact ⟨(ht.dataBlock hinv hu hdata).1, hr.used b hdata hbit⟩
  · have hx' := (hr.live x).mp hx
    rw [hr.pointer x j hx' hj]
    exact hown.ptr x j hx' hj
  · obtain ⟨hv, -, htab⟩ := htable x j hx hj hp
    rw [hv]
    exact htab
  · obtain ⟨-, hd, htab⟩ := htable x j hx hj hp
    rw [hd]
    exact htab
  · have hx' := (hr.live x).mp hx
    obtain ⟨hlt, hid⟩ := hown.slot x hx'
    refine ⟨hlt, ?_⟩
    rw [(ht.obj x hlt).1, hu.obj, hid]
    unfold indexToID
    exact int32_eq (by omega) (by omega)

/-- The objects' contents are the same. -/
theorem Remounted.tree {owner : Owner} (h : Remounted s t) (hown : Owned owner s) {x : Nat}
    (hx : LiveSlot s x) : treeOf t x = treeOf s x :=
  treeOf_moved hown hx (h.pointer x · hx) fun b _ hb =>
    h.view b (hown.used b _ hb).1 (hown.used b _ hb).2

end

end Remount

end CS330.ObjStore
