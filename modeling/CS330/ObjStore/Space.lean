import CS330.ObjStore.Effects
import Mathlib.Data.Finset.Card
import Mathlib.Data.Finset.Prod

/-! Whether a write finds its blocks.

A write needs one block for each place it fills that has none yet: `missing`. It
runs out of blocks exactly when there are more of these than free data blocks
(`ObjectWritten.failed_iff`), which can be told before the call. -/
namespace CS330.ObjStore
open Spec Bytes

/-- The place is one an object has. -/
def Path.Valid : Path → Prop
  | .ptr j => j < 4
  | .entry j k => j < 4 ∧ k < 1024

instance : DecidablePred Path.Valid
  | .ptr j => inferInstanceAs (Decidable (j < 4))
  | .entry j k => inferInstanceAs (Decidable (j < 4 ∧ k < 1024))

def places : Finset Path :=
  (Finset.range 4).image .ptr ∪ (Finset.range 4 ×ˢ Finset.range 1024).image fun v => .entry v.1 v.2

instance (blockOffset offset size j : Nat) : DecidablePred (InWrite blockOffset offset size j)
  | .ptr j' => inferInstanceAs (Decidable (j' = j))
  | .entry j' k => inferInstanceAs (Decidable (j' = j ∧ blockOffset ≤ k ∧ k < 1024 ∧ _ < size))

instance (size : Int) (offset : Nat) : DecidablePred (WritePlace size offset) := fun path =>
  inferInstanceAs (Decidable ((_ ∧ _ ∧ _) ∧ InWrite _ _ _ _ path))

/-- The places a write fills that have no block. -/
def missing (s : State) (x : Nat) (size : Int) (offset : Nat) : Finset Path :=
  places.filter fun path => WritePlace size offset path ∧ blockAt s x path = -1

/-- The blocks `get_new_datablock` looks at. -/
def dataBlocks (s : State) : Finset Int :=
  (Finset.range (s.totalNumDiskBlocks - dataBlocksStart)).image fun i => ((dataBlocksStart + i : Nat) : Int)

def freeBlocks (s : State) : Finset Int := (dataBlocks s).filter fun b => s.blockBitmap b = 0

section Space
variable {build : Build} {owner owner' : Owner} {x : Nat} {buf : Buffer} {size : Int} {offset : Nat}
  {s t : State}

theorem mem_freeBlocks {b : Int} : b ∈ freeBlocks s ↔ DataBlock s b ∧ s.blockBitmap b = 0 := by
  have hdata : b ∈ dataBlocks s ↔ DataBlock s b := by
    unfold dataBlocks DataBlock
    rw [Finset.mem_image]
    constructor
    · rintro ⟨i, hi, rfl⟩
      rw [Finset.mem_range] at hi
      omega
    · rintro ⟨hlow, hhigh⟩
      exact ⟨b.toNat - dataBlocksStart, Finset.mem_range.mpr (by omega), by omega⟩
  unfold freeBlocks
  rw [Finset.mem_filter, hdata]

theorem mem_places {path : Path} : path ∈ places ↔ path.Valid := by
  unfold places
  rw [Finset.mem_union, Finset.mem_image, Finset.mem_image]
  cases path <;> simp [Path.Valid]

theorem WritePlace.valid {path : Path} (h : WritePlace size offset path) : path.Valid := by
  obtain ⟨⟨-, hj, -⟩, hin⟩ := h
  cases path with
  | ptr j => exact hj
  | entry j k => exact ⟨hj, hin.2.2.1⟩

theorem mem_missing {path : Path} :
    path ∈ missing s x size offset ↔ WritePlace size offset path ∧ blockAt s x path = -1 := by
  unfold missing
  rw [Finset.mem_filter, and_iff_right_of_imp fun h => mem_places.mpr h.1.valid]

theorem Owned.blockAt_owner (hown : Owned owner s) {path : Path} (hv : path.Valid)
    (hx : LiveSlot s x) (hb : blockAt s x path ≠ -1) : owner (blockAt s x path) = some (x, path) := by
  cases path with
  | ptr j => exact hown.pointer_owner hx hv hb
  | entry j k =>
    have hp : pointer s x j ≠ -1 := fun hp => hb (if_pos hp)
    have heq : blockAt s x (.entry j k) = ints (view s (pointer s x j)) k := if_neg hp
    rw [heq] at hb ⊢
    exact (hown.table x j hx hv.1 hp k hv.2).resolve_left hb

namespace ObjectWritten

/-- When no allocation failed, every place of the write has its block. -/
theorem blockAt_ne (h : ObjectWritten build x buf size offset owner owner' s t) (hf : ¬ Failed t)
    {path : Path} (hp : WritePlace size offset path) : blockAt t x path ≠ -1 := by
  obtain ⟨hj, hin⟩ := hp
  have hsub := h.active hf path.index hj
  cases path with
  | ptr j => exact hsub.ptr
  | entry j k => exact (hsub.written k hin.2.1 hin.2.2.1 hin.2.2.2).1

/-- The new blocks are different free ones. -/
theorem enough (h : ObjectWritten build x buf size offset owner owner' s t) (hx : LiveSlot s x)
    (hf : ¬ Failed t) : (missing s x size offset).card ≤ (freeBlocks s).card := by
  have hxt : LiveSlot t x := by
    unfold LiveSlot
    rw [h.id]
    exact hx
  have howner : ∀ path, WritePlace size offset path → owner' (blockAt t x path) = some (x, path) :=
    fun path hp => h.adv.owned.blockAt_owner hp.valid hxt (h.blockAt_ne hf hp)
  refine Finset.card_le_card_of_injOn (blockAt t x) (fun path hmem => ?_) fun p hp q hq heq => ?_
  · obtain ⟨hp, hmiss⟩ := mem_missing.mp hmem
    obtain ⟨hdata, -⟩ := h.adv.owned.used _ _ (howner path hp)
    unfold DataBlock at hdata
    rw [h.adv.grows.total] at hdata
    exact mem_freeBlocks.mpr ⟨hdata, (h.filled path hp hmiss).resolve_left (h.blockAt_ne hf hp)⟩
  · have hp' := howner p (mem_missing.mp hp).1
    have hq' := howner q (mem_missing.mp hq).1
    rw [heq, hq'] at hp'
    exact (Prod.mk.inj (Option.some.inj hp')).2.symm

/-- When one failed, every free block went to a place, and one place is left without. -/
theorem notEnough (h : ObjectWritten build x buf size offset owner owner' s t) (hown : Owned owner s)
    (hs : ¬ Failed s) (hf : Failed t) : (freeBlocks s).card < (missing s x size offset).card := by
  obtain ⟨path₀, hplace, hmiss, hleft⟩ := (h.short hf).resolve_left hs
  have hfull := (h.adv.full hf).resolve_left hs
  have hmem : path₀ ∈ missing s x size offset := mem_missing.mpr ⟨hplace, hmiss⟩
  have hsub : freeBlocks s ⊆ ((missing s x size offset).erase path₀).image (blockAt t x) := by
    intro b hb
    obtain ⟨hdata, hzero⟩ := mem_freeBlocks.mp hb
    have hnot : ∀ v, owner b ≠ some v := fun v hv => (hown.used b v hv).2 hzero
    have hnonneg : 0 ≤ b := by
      have := hdata.1
      omega
    have hused : t.blockBitmap b ≠ 0 := by
      refine hfull b ?_
      unfold DataBlock at hdata ⊢
      rwa [h.adv.grows.total]
    obtain ⟨⟨y, path⟩, hv⟩ := (h.adv.grows.taken b hnonneg hused).resolve_left fun hne => hne hzero
    obtain ⟨rfl, hp, hs, ht⟩ := (h.fresh b _ hv).resolve_left (hnot _)
    refine Finset.mem_image.mpr ⟨path, Finset.mem_erase.mpr ⟨?_, mem_missing.mpr ⟨hp, hs⟩⟩, ht⟩
    rintro rfl
    exact hnot _ (hleft b hv)
  calc (freeBlocks s).card
      ≤ (((missing s x size offset).erase path₀).image (blockAt t x)).card := Finset.card_le_card hsub
    _ ≤ ((missing s x size offset).erase path₀).card := Finset.card_image_le
    _ < (missing s x size offset).card := Finset.card_erase_lt_of_mem hmem

theorem failed_iff (h : ObjectWritten build x buf size offset owner owner' s t) (hown : Owned owner s)
    (hx : LiveSlot s x) (hs : ¬ Failed s) :
    ¬ Failed t ↔ (missing s x size offset).card ≤ (freeBlocks s).card :=
  ⟨h.enough hx, fun hle hf => Nat.not_lt.mpr hle (h.notEnough hown hs hf)⟩

end ObjectWritten

/-- A write to an object runs out of blocks exactly when more are missing than free. -/
theorem objstoreWrite_failed {id : Int} {data : List UInt8} (hs : Sound build s)
    (hreg : (Op.write id data offset).Regular) (hid : 2 ≤ id) (hx : LiveSlot s (idToIndex id))
    (hl : Live (objstoreWrite build id (bufferOf data) (int32 data.length) offset s).2)
    (hf : ¬ Failed s) :
    ¬ Failed (objstoreWrite build id (bufferOf data) (int32 data.length) offset s).2 ↔
      (missing s (idToIndex id) (Files.taken data offset) offset).card ≤ (freeBlocks s).card := by
  obtain ⟨-, owner, owner', hown, hw⟩ := objstoreWrite_live hs hreg hid hx hl
  exact hw.failed_iff hown hx hf

/-! ### Short writes -/

/-- A write of at most one block into an object without blocks needs two of them. -/
theorem missing_block (hsize : size ≤ 4096) (h₀ : 0 ≤ size) :
    missing s x size 0 ⊆ {.ptr 0, .entry 0 0} := by
  intro path hmem
  obtain ⟨⟨⟨-, -, hj⟩, hin⟩, -⟩ := mem_missing.mp hmem
  have hcap := capOf_le h₀ (by decide : 4096 % 4096 = 0) hsize
  rw [Finset.mem_insert, Finset.mem_singleton]
  cases path with
  | ptr j =>
    left
    congr 1
    have hj : (((j - firstOf 0) * 4194304 : Nat) : Int) < size := hj
    have : firstOf 0 = 0 := rfl
    omega
  | entry j k =>
    right
    obtain ⟨-, -, -, hk⟩ := hin
    have hj : (((j - firstOf 0) * 4194304 : Nat) : Int) < size := hj
    have hf : firstOf 0 = 0 := rfl
    rw [hf] at hj hk
    obtain rfl : j = 0 := by omega
    have he : startAt 0 (entryOf 0) (Path.index (.entry 0 k)) = 0 := rfl
    rw [he] at hk
    obtain rfl : k = 0 := by
      dsimp only [Path.index] at hk
      omega
    rfl

theorem freeBlocks_card (h : ∀ b, s.blockBitmap b = 0) :
    (freeBlocks s).card = s.totalNumDiskBlocks - dataBlocksStart := by
  unfold freeBlocks dataBlocks
  rw [Finset.filter_true_of_mem fun b _ => h b, Finset.card_image_of_injective _ fun i j hij => ?_,
    Finset.card_range]
  have hij : ((dataBlocksStart + i : Nat) : Int) = (dataBlocksStart + j : Nat) := hij
  omega

end Space

end CS330.ObjStore
