import CS330.ObjStore.Owners
import CS330.Spec.Tree

/-! What a write does to one table.

One entry, and the loop over the table. Each result says who owns what afterwards and, when no
allocation failed, what the table holds. -/
namespace CS330.ObjStore
open Spec

/-- Like `TableOwned` for the table in memory of a write to indirect block `q`,
which is all zeros when there was no block for it. -/
def TableOk (owner : Owner) (x j : Nat) (q : Int) (table : Nat → Int) : Prop :=
  ∀ k, k < 1024 → table k = -1 ∨ owner (table k) = some (x, .entry j k) ∨ q = -1 ∧ table k = 0

/-! ### One entry -/

section Entry
variable {build : Build} {owner : Owner} {x j : Nat} {q : Int} {block : Nat → Int} {i : Nat} {s : State}

structure EntryTaken (build : Build) (owner owner' : Owner) (x j : Nat) (q : Int) (block : Nat → Int)
    (i : Nat) (s : State) (a : (Nat → Int) × State) : Prop where
  adv : Advance build (fun v => v = (x, .entry j i)) owner owner' s a.2
  obj : a.2.obj = s.obj
  table : TableOk owner' x j q a.1
  kept : ∀ k, k ≠ i ∨ block k ≠ -1 → a.1 k = block k
  fresh : ∀ b v, owner' b = some v →
    owner b = some v ∨ v = (x, .entry j i) ∧ block i = -1 ∧ a.1 i = b
  filled : block i = -1 → a.1 i = -1 ∨ s.blockBitmap (a.1 i) = 0
  short : Failed a.2 ↔ Failed s ∨ a.1 i = -1

theorem entryBlock_spec (hinv : BlockInv build s) (hown : Owned owner s)
    (htable : TableOk owner x j q block) (hi : i < 1024) :
    ∃ owner', EntryTaken build owner owner' x j q block i s (entryBlock block i s) := by
  by_cases hb : block i = -1
  · obtain ⟨r, hr⟩ : ∃ r, getNewDatablock s = r := ⟨_, rfl⟩
    obtain ⟨hobj, -, -, hcases⟩ :=
      alloc_advance (W := fun v => v = (x, .entry j i)) hinv hown rfl hr
    have heq : entryBlock block i s = (Function.update block i r.1, setBlockBitmap r.1 r.2) := by
      rw [entryBlock, if_pos hb, hr]
    have hkept : ∀ k, k ≠ i ∨ block k ≠ -1 → Function.update block i r.1 k = block k := by
      intro k hk
      rw [Function.update_of_ne]
      rintro rfl
      exact hk.elim (· rfl) (· hb)
    rw [heq]
    rcases hcases with ⟨hneg, hf, hadv⟩ | ⟨hdata, hfree, hiff, hadv⟩
    · refine ⟨owner, hadv, hobj, fun k hk => ?_, hkept, fun b v h => .inl h,
        fun _ => .inl (by simp [hneg]), iff_of_true hf (.inr (by simp [hneg]))⟩
      by_cases hki : k = i
      · exact .inl (by simp [hki, hneg])
      · dsimp only
        rw [hkept k (.inl hki)]
        exact htable k hk
    · have hnonneg := (hdata.inBitmap hinv).1
      refine ⟨_, hadv, hobj, fun k hk => ?_, hkept, fun b v h => ?_,
        fun _ => .inr (by simpa using hfree), ?_⟩
      · by_cases hki : k = i
        · subst hki
          exact .inr (.inl (by simp))
        · dsimp only
          rw [hkept k (.inl hki)]
          exact (htable k hk).imp id (.imp (hadv.grows.keeps _ _) id)
      · by_cases hbr : b = r.1
        · subst hbr
          rw [Function.update_self] at h
          exact .inr ⟨(Option.some.inj h).symm, hb, Function.update_self ..⟩
        · rw [Function.update_of_ne hbr] at h
          exact .inl h
      · have hne : r.1 ≠ -1 := by omega
        simp [hiff, hne]
  · rw [show entryBlock block i s = (block, s) from if_neg hb]
    exact ⟨owner, .refl hinv hown, rfl, htable, fun _ _ => rfl, fun _ _ h => .inl h,
      fun h => absurd h hb, by simp [hb]⟩

end Entry

/-! ### The loop over a table -/

section Entries
variable {build : Build} {buf : Buffer} {blockOffset offset size : Nat} {x j : Nat} {q : Int}

/-- What the loop of `write_indirect_block`, run from entry `i` on, leaves. -/
structure EntriesWritten (build : Build) (buf : Buffer) (blockOffset offset size x j : Nat) (q : Int)
    (n i : Nat) (owner owner' : Owner) (block : Nat → Int) (s : State)
    (r : Nat × (Nat → Int) × State) : Prop where
  adv : Advance build (fun v => ∃ k, i ≤ k ∧ v = (x, .entry j k)) owner owner' s r.2.2
  obj : r.2.2.obj = s.obj
  table : TableOk owner' x j q r.2.1
  lower : i ≤ r.1
  upper : r.1 ≤ i + n
  inside : ∀ k, i ≤ k → k < r.1 → offset + (k - blockOffset) * 4096 < size
  kept : ∀ k, k < i ∨ block k ≠ -1 → r.2.1 k = block k
  fresh : ∀ b v, owner' b = some v → owner b = some v ∨
    ∃ k, i ≤ k ∧ k < r.1 ∧ v = (x, .entry j k) ∧ block k = -1 ∧ r.2.1 k = b
  filled : ∀ k, block k = -1 → r.2.1 k = -1 ∨ s.blockBitmap (r.2.1 k) = 0
  content : ∀ k, i ≤ k → k < r.1 → owner' (r.2.1 k) = some (x, .entry j k) →
    view r.2.2 (r.2.1 k) = buf.page (offset + (k - blockOffset) * 4096)
  complete : ¬ Failed r.2.2 → (r.1 = i + n ∨ size ≤ offset + (r.1 - blockOffset) * 4096) ∧
    ∀ k, i ≤ k → k < r.1 → r.2.1 k ≠ -1
  short : Failed r.2.2 → Failed s ∨
    ∃ k, i ≤ k ∧ k < i + n ∧ offset + (k - blockOffset) * 4096 < size ∧ block k = -1 ∧ r.2.1 k = -1

variable {n i : Nat} {owner : Owner} {block : Nat → Int} {s : State}

/-- The loop stops where it is. -/
theorem EntriesWritten.here (hinv : BlockInv build s) (hown : Owned owner s)
    (htable : TableOk owner x j q block) (hstop : n = 0 ∨ size ≤ offset + (i - blockOffset) * 4096) :
    EntriesWritten build buf blockOffset offset size x j q n i owner owner block s (i, block, s) where
  adv := .refl hinv hown
  obj := rfl
  table := htable
  lower := Nat.le_refl i
  upper := Nat.le_add_right i n
  inside := fun k h h' => absurd h' (Nat.not_lt.mpr h)
  kept := fun _ _ => rfl
  fresh := fun _ _ h => .inl h
  filled := fun _ h => .inl h
  content := fun k h h' => absurd h' (Nat.not_lt.mpr h)
  complete := fun _ => ⟨hstop.imp (fun h => by rw [h]; rfl) id,
    fun k h h' => absurd h' (Nat.not_lt.mpr h)⟩
  short := .inl

/-- A block of the table in memory is none, the entry's own, or block 0 of a table
that is nobody's. -/
theorem TableOk.entry_owner (htable : TableOk owner x j q block) (hown : Owned owner s) (hi : i < 1024)
    {v : Nat × Path} (hv : owner (block i) = some v) : v = (x, .entry j i) := by
  have hdata := (hown.used _ v hv).1.1
  unfold dataBlocksStart at hdata
  rcases htable i hi with h | h | ⟨-, h⟩
  · omega
  · rw [h] at hv
    exact (Option.some.inj hv).symm
  · omega

/-- One round: the entry gets a block if it has none, and the block is stored. -/
theorem writeEntry_spec {page : Block} (hinv : BlockInv build s) (hown : Owned owner s)
    (htable : TableOk owner x j q block) (hq : q = -1 → Failed s) (hi : i < 1024)
    (hl : Live (store build ((entryBlock block i s).1 i) 0 page (entryBlock block i s).2).2) :
    ∃ owner', EntryTaken build owner owner' x j q block i s ((entryBlock block i s).1,
        (store build ((entryBlock block i s).1 i) 0 page (entryBlock block i s).2).2) ∧
      (owner' ((entryBlock block i s).1 i) = some (x, .entry j i) →
        view (store build ((entryBlock block i s).1 i) 0 page (entryBlock block i s).2).2
          ((entryBlock block i s).1 i) = page) ∧
      ((store build ((entryBlock block i s).1 i) 0 page (entryBlock block i s).2).1 < 0 →
        (entryBlock block i s).1 i = -1) := by
  obtain ⟨owner', hE⟩ := entryBlock_spec hinv hown htable hi
  generalize entryBlock block i s = a at hl hE ⊢
  obtain ⟨table, u⟩ := a
  dsimp only at hl hE ⊢
  have hcases : table i = -1 ∨ owner' (table i) = some (x, .entry j i) ∨ q = -1 ∧ table i = 0 :=
    hE.table i hi
  have hinv' : BlockInv build u := hE.adv.inv
  have hown' : Owned owner' u := hE.adv.owned
  have hlt : table i < bitmapSize := by
    rcases hcases with h | h | ⟨-, h⟩
    · rw [h]
      decide
    · exact ((hown'.used _ _ h).1.inBitmap hinv').2
    · rw [h]
      decide
  have hok : DataBlock u (table i) ∧ u.blockBitmap (table i) ≠ 0 ∨ Failed u := by
    rcases hcases with h | h | ⟨h, -⟩
    · exact .inr (hE.short.mpr (.inr h))
    · exact .inl (hown'.used _ _ h)
    · exact .inr (hE.adv.failed (hq h))
  have hown_i : ∀ v, owner' (table i) = some v → v = (x, .entry j i) :=
    fun v hv => hE.table.entry_owner hown' hi hv
  obtain ⟨-, hstored, hstatus⟩ := store_spec hinv' rfl hlt hl
  have hadv : Advance build (fun v => v = (x, .entry j i)) owner' owner' u
      (store build (table i) 0 page u).2 := by
    refine store_advance hinv' hown' rfl hlt hok hown_i (fun y j' hy hj' hp hne => ?_) hl
    have := hown_i _ (hp ▸ hown'.pointer_owner hy hj' (hp ▸ hne))
    cases this
  have hfailed : Failed (store build (table i) 0 page u).2 ↔ Failed u :=
    (store_emits hl).failed (by simp [Event.Internal])
  refine ⟨owner', ⟨hE.adv.trans hadv, hstored.obj.trans hE.obj, hE.table, hE.kept, hE.fresh,
    hE.filled, hfailed.trans hE.short⟩, fun h => hstored.self (hown'.nonneg h), fun hneg => ?_⟩
  rcases hcases with h | h | ⟨-, h⟩
  · exact h
  · have := hstatus (hown'.nonneg h)
    omega
  · have := hstatus (by omega)
    omega

theorem EntryTaken.missing {owner' : Owner} {table : Nat → Int} {t : State}
    (h : EntryTaken build owner owner' x j q block i s (table, t)) (hi : table i = -1) :
    block i = -1 := by
  by_contra hb
  have : table i = block i := h.kept i (.inr hb)
  exact hb (this ▸ hi)

theorem EntryTaken.advance {owner' : Owner} {table : Nat → Int} {t : State}
    (h : EntryTaken build owner owner' x j q block i s (table, t)) :
    Advance build (fun v => ∃ k, i ≤ k ∧ v = (x, .entry j k)) owner owner' s t :=
  h.adv.mono fun _ hv => ⟨i, Nat.le_refl i, hv⟩

/-- `write_block` failed, which it only does on block -1. -/
theorem EntryTaken.broken {owner' : Owner} {table : Nat → Int} {t : State}
    (h : EntryTaken build owner owner' x j q block i s (table, t)) (hi : table i = -1)
    (hpos : offset + (i - blockOffset) * 4096 < size) :
    EntriesWritten build buf blockOffset offset size x j q (n + 1) i owner owner' block s
      (i, table, t) where
  adv := h.advance
  obj := h.obj
  table := h.table
  lower := Nat.le_refl i
  upper := Nat.le_add_right i _
  inside := fun k h h' => absurd h' (Nat.not_lt.mpr h)
  kept := fun k hk => h.kept k (hk.imp (fun h => by omega) id)
  fresh := fun b v hb => by
    refine .inl ((h.fresh b v hb).resolve_right fun hv => ?_)
    have := h.adv.owned.nonneg hb
    have : table i = b := hv.2.2
    omega
  filled := fun k hk => by
    by_cases hki : k = i
    · exact .inl (hki ▸ hi)
    · exact .inl ((h.kept k (.inl hki)).trans hk)
  content := fun k h h' => absurd h' (Nat.not_lt.mpr h)
  complete := fun hf => absurd (h.short.mpr (.inr hi)) hf
  short := fun _ => .inr ⟨i, Nat.le_refl i, by omega, hpos, h.missing hi, hi⟩

/-- One round, and then the rest of the loop. -/
theorem EntryTaken.next {owner₁ owner₂ : Owner} {table : Nat → Int} {t : State}
    {r : Nat × (Nat → Int) × State} (hi : i < 1024)
    (h : EntryTaken build owner owner₁ x j q block i s (table, t))
    (hview : owner₁ (table i) = some (x, .entry j i) →
      view t (table i) = buf.page (offset + (i - blockOffset) * 4096))
    (hpos : offset + (i - blockOffset) * 4096 < size)
    (hr : EntriesWritten build buf blockOffset offset size x j q n (i + 1) owner₁ owner₂ table t r) :
    EntriesWritten build buf blockOffset offset size x j q (n + 1) i owner owner₂ block s r := by
  have hlower := hr.lower
  have hupper := hr.upper
  have hkept : ∀ k, k ≠ i ∨ block k ≠ -1 → table k = block k := h.kept
  have hsame : ∀ k, k ≠ i → table k = block k := fun k hk => hkept k (.inl hk)
  have hfinal : r.2.1 i = table i := hr.kept i (.inl (by omega))
  have hadv₂ : Advance build (fun v => ∃ k, i ≤ k ∧ v = (x, .entry j k)) owner₁ owner₂ t r.2.2 :=
    hr.adv.mono fun v ⟨k, hk, hv⟩ => ⟨k, by omega, hv⟩
  refine ⟨h.advance.trans hadv₂, hr.obj.trans h.obj, hr.table, by omega, by omega,
    fun k hk hk' => ?_, fun k hk => ?_, fun b v hb => ?_, fun k hk => ?_, fun k hk hk' hv => ?_,
    fun hf => ?_, fun hf => ?_⟩
  · rcases Nat.eq_or_lt_of_le hk with rfl | hlt
    · exact hpos
    · exact hr.inside k hlt hk'
  · have hk' : table k = block k := hkept k (hk.imp (fun h => by omega) id)
    rw [hr.kept k (hk.imp (fun h => by omega) fun h => by rwa [hk']), hk']
  · rcases hr.fresh b v hb with hb | ⟨k, hk, hk', hv, hbk, hrb⟩
    · rcases h.fresh b v hb with hb | ⟨hv, hbi, hib⟩
      · exact .inl hb
      · exact .inr ⟨i, Nat.le_refl i, by omega, hv, hbi, by rw [hfinal]; exact hib⟩
    · exact .inr ⟨k, by omega, hk', hv, by rw [← hsame k (by omega)]; exact hbk, hrb⟩
  · by_cases hki : k = i
    · subst hki
      rw [hfinal]
      exact h.filled hk
    · exact (hr.filled k ((hsame k hki).trans hk)).imp id (h.adv.grows.free _)
  · rcases Nat.eq_or_lt_of_le hk with rfl | hlt
    · rw [hfinal] at hv ⊢
      have hv₁ : owner₁ (table i) = some (x, .entry j i) := by
        have hdata := (hr.adv.owned.used _ _ hv).1.1
        unfold dataBlocksStart at hdata
        have htable₁ : TableOk owner₁ x j q table := h.table
        rcases htable₁ i hi with h | h | ⟨-, h⟩
        · exact absurd hdata (by rw [h]; decide)
        · exact h
        · exact absurd hdata (by rw [h]; decide)
      rw [(hr.adv.grows.other _ _ hv₁ ?_).1]
      · exact hview hv₁
      · rintro ⟨k, hk, heq⟩
        injection heq with _ heq
        injection heq with _ heq
        omega
    · exact hr.content k hlt hk' hv
  · obtain ⟨hend, hall⟩ := hr.complete hf
    refine ⟨hend.imp (fun h => by omega) id, fun k hk hk' => ?_⟩
    rcases Nat.eq_or_lt_of_le hk with rfl | hlt
    · rw [hfinal]
      intro hneg
      exact hf (hr.adv.failed (h.short.mpr (.inr hneg)))
    · exact hall k hlt hk'
  · rcases hr.short hf with hf | ⟨k, hk, hk', hpos', hb, hr⟩
    · refine (h.short.mp hf).imp id fun hi => ?_
      exact ⟨i, Nat.le_refl i, by omega, hpos, h.missing hi, by rw [hfinal]; exact hi⟩
    · exact .inr ⟨k, by omega, by omega, hpos', by rw [← hsame k (by omega)]; exact hb, hr⟩

theorem writeEntries_spec (n i : Nat) {owner : Owner} {block : Nat → Int} {s : State}
    (hin : i + n ≤ 1024) (hinv : BlockInv build s) (hown : Owned owner s)
    (htable : TableOk owner x j q block) (hq : q = -1 → Failed s)
    (hl : Live (writeEntries build buf blockOffset offset size n i block s).2.2) :
    ∃ owner', EntriesWritten build buf blockOffset offset size x j q n i owner owner' block s
      (writeEntries build buf blockOffset offset size n i block s) := by
  induction n generalizing i owner block s with
  | zero => exact ⟨owner, .here hinv hown htable (.inl rfl)⟩
  | succ n ih =>
    rw [writeEntries] at hl ⊢
    dsimp only at hl ⊢
    split at hl
    · rename_i hpos
      rw [if_pos hpos]
      exact ⟨owner, .here hinv hown htable (.inr hpos)⟩
    rename_i hpos
    rw [if_neg hpos]
    have hround : Live (store build ((entryBlock block i s).1 i) 0
        (buf.page (offset + (i - blockOffset) * 4096)) (entryBlock block i s).2).2 := by
      split at hl
      · exact hl
      · exact (writeEntries_walk ..).steady.live hl
    obtain ⟨owner₁, hE, hview, hneg⟩ := writeEntry_spec hinv hown htable hq (by omega) hround
    split
    · rename_i hstatus
      exact ⟨owner₁, hE.broken (hneg hstatus) (by omega)⟩
    · rename_i hstatus
      rw [if_neg hstatus] at hl
      obtain ⟨owner₂, hR⟩ := ih (i + 1) (by omega) hE.adv.inv hE.adv.owned hE.table
        (fun h => hE.adv.failed (hq h)) hl
      exact ⟨owner₂, hE.next (by omega) hview (by omega) hR⟩

end Entries

end CS330.ObjStore
