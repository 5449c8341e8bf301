import CS330.ObjStore.Beside
import CS330.ObjStore.Fresh
import CS330.ObjStore.Names
import CS330.ObjStore.Standing
import CS330.Spec.KeyMap
import Mathlib.Data.List.GetD

/-! The object directory: which keys a slot answers to, when creation ends, what a renaming
moves, and when the whole is a map. -/
namespace CS330.ObjStore
open Bytes Machine Probe Spec

/-! ### Keys -/

section Keys
variable {key key' : Key}

theorem strcmpEq_iff {mem : Nat → UInt8} (bytes : List UInt8) (n : Nat) : strcmpEq mem n bytes = true ↔
    (∀ k, k < bytes.length → mem (n + k) = bytes.getD k 0) ∧ mem (n + bytes.length) = 0 := by
  induction bytes generalizing n with
  | nil => simp [strcmpEq]
  | cons c rest ih =>
    rw [strcmpEq, Bool.and_eq_true, ih, beq_iff_eq, ← and_assoc, List.length_cons,
      Nat.add_right_comm n 1, Nat.add_assoc n]
    refine and_congr_left fun _ => ?_
    constructor
    · rintro ⟨hc, hrest⟩ k hk
      cases k with
      | zero => simpa using hc
      | succ k =>
        have := hrest k (by omega)
        rw [Nat.add_right_comm, Nat.add_assoc] at this
        simpa using this
    · intro h
      refine ⟨by simpa using h 0 (by omega), fun k hk => ?_⟩
      have := h (k + 1) (by omega)
      rw [Nat.add_right_comm, Nat.add_assoc]
      simpa using this

theorem getD_ne_zero (key : Key) (n : Nat) : key.bytes.getD n 0 ≠ 0 ↔ n < key.bytes.length := by
  constructor
  · intro h
    by_contra hn
    exact h (List.getD_eq_default _ _ (by omega))
  · intro hn h
    rw [List.getD_eq_getElem _ _ hn] at h
    exact key.noNul (h ▸ List.getElem_mem hn)

/-- A slot answers to its own key alone, and if that has 32 bytes only when the low byte of the
first pointer ends it. -/
theorem strcmpEq_filled {obj : Nat → Object} {i : Nat} (hlen : key.bytes.length ≤ 32)
    (hlen' : key'.bytes.length ≤ 32) (hfill : (obj i).key = strncpyKey key) :
    strcmpEq (keyMemory obj i) 0 key'.bytes = true ↔
      key = key' ∧ (key.bytes.length = 32 → keyMemory obj i 32 = 0) := by
  have hmem : ∀ n, n < 32 → keyMemory obj i n = key.bytes.getD n 0 := by
    intro n hn
    rw [keyMemory_key obj i hn, hfill, strncpyKey, if_pos hn]
  have hend : ∀ n, n < 32 → (keyMemory obj i n = 0 ↔ key.bytes.length ≤ n) := by
    intro n hn
    rw [hmem n hn, ← not_lt, ← getD_ne_zero, not_not]
  rw [strcmpEq_iff]
  simp only [Nat.zero_add]
  constructor
  · rintro ⟨hbytes, hnul⟩
    have hle : key'.bytes.length ≤ key.bytes.length := by
      by_contra hlt
      have := hbytes key.bytes.length (by omega)
      rw [(hend _ (by omega)).mpr (Nat.le_refl _)] at this
      exact (getD_ne_zero key' _).mpr (by omega) this.symm
    have heq : key.bytes.length = key'.bytes.length := by
      rcases Nat.lt_or_ge key'.bytes.length 32 with h | h
      · have := (hend _ h).mp hnul
        omega
      · omega
    refine ⟨?_, fun h => by rwa [← heq, h] at hnul⟩
    have hlist : key.bytes = key'.bytes := by
      refine List.ext_getElem heq fun k hk hk' => ?_
      have := hbytes k hk'
      rwa [hmem k (by omega), List.getD_eq_getElem _ _ hk, List.getD_eq_getElem _ _ hk'] at this
    cases key
    cases key'
    congr 1
  · rintro ⟨rfl, hlast⟩
    refine ⟨fun k hk => hmem k (by omega), ?_⟩
    rcases Nat.lt_or_ge key.bytes.length 32 with h | h
    · exact (hend _ h).mpr (Nat.le_refl _)
    · have h32 : key.bytes.length = 32 := by omega
      rw [h32]
      exact hlast h32

/-- Behind the field comes the first pointer. -/
theorem keyMemory_pointer (obj : Nat → Object) (i : Nat) :
    keyMemory obj i 32 = 0 ↔ (obj i).dataBlockPointers 0 % 256 = 0 := by
  have hbyte : keyMemory obj i 32 = byteOf ((obj i).dataBlockPointers 0) 0 := by
    unfold keyMemory
    rw [show (56 * i + 8 + 32) / 56 = i by omega, show (56 * i + 8 + 32) % 56 = 40 by omega]
    rfl
  have hval := byteOf_toNat ((obj i).dataBlockPointers 0) 0
  rw [pow_zero, Int.ediv_one] at hval
  rw [hbyte, ← hval, ← UInt8.toNat_inj]
  simp

end Keys

/-- **A slot answers to exactly its key, if that ends.** Whatever becomes of the pointers of the
object that `create_object` made, the `strcmp` on its slot accepts the keys of 1 to 32 bytes that
are its own exactly when its own has at most 31 bytes or the low byte of its first pointer is 0. -/
theorem key_comparison_exact {key : Key} (hlen : key.bytes.length ≤ 32) {s t u : State} {id : Int}
    (hcreate : createObject key s = some (id, t)) (hid : id ≠ -1)
    (hkey : (u.obj (idToIndex id)).key = (t.obj (idToIndex id)).key) (hpos : 1 ≤ key.bytes.length) :
    (∀ key' : Key, 1 ≤ key'.bytes.length → key'.bytes.length ≤ 32 →
      (strcmpEq (keyMemory u.obj (idToIndex id)) 0 key'.bytes = true ↔ key = key')) ↔
    key.bytes.length ≤ 31 ∨ (u.obj (idToIndex id)).dataBlockPointers 0 % 256 = 0 := by
  have hfill : (u.obj (idToIndex id)).key = strncpyKey key := by
    rcases createObject_cases hcreate with ⟨h, -⟩ | ⟨x, -, -, -, rfl, rfl⟩
    · exact absurd h hid
    · rw [hkey, idToIndex_indexToID]
      simp [newObject]
  rw [← keyMemory_pointer]
  constructor
  · intro h
    by_cases h31 : key.bytes.length ≤ 31
    · exact .inl h31
    · exact .inr (((strcmpEq_filled hlen hlen hfill).mp ((h key hpos hlen).mpr rfl)).2 (by omega))
  · intro h key' _ hlen'
    rw [strcmpEq_filled hlen hlen' hfill, and_iff_left]
    intro h32
    exact h.resolve_left (by omega)

theorem key_comparison_exact_short :
    createObject keyA (mount (zeroDisk 17812)) = some (indexToID (hash keyA), created keyA (mount (zeroDisk 17812))) ∧
    ∀ key' : Key, 1 ≤ key'.bytes.length → key'.bytes.length ≤ 32 →
      (strcmpEq (keyMemory (created keyA (mount (zeroDisk 17812))).obj (hash keyA)) 0 key'.bytes = true ↔
        keyA = key') := by
  have hcreate := createObject_free keyA ((mount_zero 17812).2 (hash keyA))
  have h := (key_comparison_exact (by decide) hcreate (indexToID_ne _).2 rfl (by decide)).mpr (.inl (by decide))
  rw [idToIndex_indexToID] at h
  exact ⟨hcreate, h⟩

/-- Thirty-two bytes without a NUL. -/
def longKey : Key := ⟨List.replicate 32 97, by decide⟩

/-- The pointers are -1 after the creation, and a key of 32 bytes is not found again: a second
creation makes a second object. -/
theorem key_comparison_exact_long : ∃ t r, createObject longKey (mount (zeroDisk 17812)) =
      some (indexToID (hash longKey), t) ∧
    strcmpEq (keyMemory t.obj (hash longKey)) 0 longKey.bytes = false ∧ findObjectId longKey t = -1 ∧
    createObject longKey t = some r ∧ r.1 ≠ -1 := by
  have hlive : ∀ x, LiveSlot (created longKey (mount (zeroDisk 17812))) x → x = hash longKey := by
    intro x hx
    by_contra hne
    rw [LiveSlot, created_other longKey _ hne] at hx
    exact (mount_zero 17812).2 x hx
  have hno : strcmpEq (keyMemory (created longKey (mount (zeroDisk 17812))).obj (hash longKey)) 0
      longKey.bytes = false := by
    rw [← Bool.not_eq_true, @strcmpEq_filled longKey longKey _ _ (by decide) (by decide) (by rw [created_obj]; rfl),
      keyMemory_pointer, created_obj]
    decide
  have hholds : ∀ x, ¬ (LiveSlot (created longKey (mount (zeroDisk 17812))) x ∧
      strcmpEq (keyMemory (created longKey (mount (zeroDisk 17812))).obj x) 0 longKey.bytes = true) := by
    rintro x ⟨hx, hcmp⟩
    rw [hlive x hx, hno] at hcmp
    cases hcmp
  have hfree : ∃ x, x < 1000000 ∧ ¬ LiveSlot (created longKey (mount (zeroDisk 17812))) x := by
    by_cases h0 : hash longKey = 0
    · exact ⟨1, by decide, fun h => by have := hlive 1 h; omega⟩
    · exact ⟨0, by decide, fun h => h0 (hlive 0 h).symm⟩
  obtain ⟨x, hx, hxfree⟩ := hfree
  obtain ⟨r, hr⟩ := createObject_isSome.mpr (Room.of_free longKey hx hxfree)
  refine ⟨_, r, createObject_free longKey ((mount_zero 17812).2 (hash longKey)), hno, ?_, hr, ?_⟩
  · rw [findObjectId_eq, (probe_round_none (hash_lt longKey)).mpr]
    · rfl
    · intro x _
      by_contra hslot
      have hslot : slotHolds (created longKey (mount (zeroDisk 17812))) longKey x = true := by simpa using hslot
      exact hholds x ⟨slotHolds_live hslot, by simp_all [slotHolds]⟩
  · rcases createObject_cases hr with ⟨-, -, y, hy, hylive⟩ | ⟨y, -, -, -, h, -⟩
    · have hpos := ((probe_round (hash_lt longKey)).mp hy).2.1
      have hid : ((created longKey (mount (zeroDisk 17812))).obj y).id ≠ 0 := hylive
      exact absurd ⟨hylive, by simpa [freeOrHolds, hid] using hpos⟩ (hholds y)
    · rw [h]
      exact (indexToID_ne y).2

/-! ### Creation -/

/-- The call comes back with no mutex held, and with -1 and the directory as it was if no slot
is free. -/
def Ends (build : Build) (op : Op) (s : State) : Prop :=
  ∃ v t, step build op s = some (.val v, t) ∧ held t.log = some [] ∧
    ((∀ x, x < 1000000 → LiveSlot s x) → v = -1 ∧ t.obj = s.obj)

section Creation
variable {build : Build} {key newname : Key} {s : State}

/-- What creates an object needs a free slot. -/
theorem createObject_full {r : Int × State} (h : createObject key s = some r)
    (hfull : ∀ x, x < 1000000 → LiveSlot s x) : r.1 = -1 ∧ r.2.obj = s.obj := by
  rcases createObject_cases h with ⟨hv, ht, -⟩ | ⟨x, -, hx, hfree, -⟩
  · exact ⟨hv, by rw [ht]; rfl⟩
  · exact absurd (hfull x hx) hfree

theorem create_ends (hs : Calling s) : Ends build (.create key) s ↔ Room key s := by
  rw [← createObject_isSome]
  have hstep := step_create_eq build key hs
  constructor
  · rintro ⟨v, t, h, -⟩
    rw [hstep] at h
    obtain ⟨r, hr, -⟩ := Option.map_eq_some_iff.mp h
    exact ⟨r, hr⟩
  · intro ⟨r, hr⟩
    rw [hr, Option.map_some] at hstep
    exact ⟨r.1, r.2, hstep, (step_calling hs hstep).free, createObject_full hr⟩

theorem rename_ends (hs : Calling s) : Ends build (.rename key newname) s ↔
    32 < newname.bytes.length ∨ findObjectId key s = -1 ∨ Room newname s := by
  rw [← createObject_isSome]
  have hstep := step_rename_eq build key newname hs
  by_cases hlong : 32 < newname.bytes.length
  · rw [renameObject, if_pos hlong, Option.map_some] at hstep
    exact iff_of_true ⟨-1, s, hstep, hs.free, fun _ => ⟨rfl, rfl⟩⟩ (.inl hlong)
  by_cases hnone : findObjectId key s = -1
  · rw [renameObject, if_neg hlong, if_pos hnone, Option.map_some] at hstep
    exact iff_of_true ⟨-1, s, hstep, hs.free, fun _ => ⟨rfl, rfl⟩⟩ (.inr (.inl hnone))
  rw [or_iff_right hlong, or_iff_right hnone]
  rw [renameObject, if_neg hlong, if_neg hnone] at hstep
  constructor
  · rintro ⟨v, t, h, -⟩
    rw [hstep] at h
    obtain ⟨q, hq, -⟩ := Option.map_eq_some_iff.mp h
    obtain ⟨r, hr, -⟩ := Option.map_eq_some_iff.mp hq
    exact ⟨r, hr⟩
  · intro ⟨r, hr⟩
    rw [hr, Option.map_some, Option.map_some] at hstep
    refine ⟨_, _, hstep, (step_calling hs hstep).free, fun hfull => ?_⟩
    obtain ⟨hv, hobj⟩ := createObject_full hr hfull
    rw [if_pos hv]
    exact ⟨rfl, hobj⟩

end Creation

/-- **Creation ends exactly when there is room.** In every reachable state of either build, a
creation comes back as it should if some slot is free or holds the key, and its loop never ends
otherwise; a renaming also comes back if it is refused before it creates. -/
theorem creation_ends_iff {build : Build} {n : Nat} {s : State}
    (h : Reaches (step build) (fun _ _ _ => True) (mount (zeroDisk n)) s) (key newname : Key) :
    (Ends build (.create key) s ↔ Room key s) ∧ (¬ Room key s → ∀ n, createProbe s key n (hash key) = none) ∧
    (Ends build (.rename key newname) s ↔
      32 < newname.bytes.length ∨ findObjectId key s = -1 ∨ Room newname s) :=
  have hs := reaches_calling h
  ⟨create_ends hs, createProbe_forever, rename_ends hs⟩

theorem creation_ends_iff_empty : Ends .cached (.create keyA) (mount (zeroDisk 17812)) :=
  (creation_ends_iff .start keyA keyA).1.mpr (Room.of_free keyA (hash_lt keyA) ((mount_zero 17812).2 _))

/-- Directories of any size are reached. -/
theorem exists_directory (build : Build) (n k : Nat) (hk : k ≤ 1000000) :
    ∃ s, Reaches (step build) (fun _ _ _ => True) (mount (zeroDisk n)) s ∧
      ∃ X : Finset Nat, X.card = k ∧ X ⊆ Finset.range 1000000 ∧ ∀ x, LiveSlot s x ↔ x ∈ X := by
  induction k with
  | zero => exact ⟨_, .start, ∅, rfl, Finset.empty_subset _, fun x => by simp [(mount_zero n).2]⟩
  | succ k ih =>
    obtain ⟨s, hreach, X, hcard, hsub, hlive⟩ := ih (by omega)
    obtain ⟨key, x, t, hx, hxX, hcreate, -, hnext⟩ := createObject_more hlive (by omega)
    have hstep : step build (.create key) s = some (.val (indexToID x), t) := by
      rw [step_create_eq build key (reaches_calling hreach), hcreate, Option.map_some]
    exact ⟨t, .step hreach hstep trivial, insert x X, by rw [Finset.card_insert_of_notMem hxX, hcard],
      Finset.insert_subset (Finset.mem_range.mpr hx) hsub, hnext⟩

/-- With every slot live the creation of one more key never ends. -/
theorem creation_ends_iff_full : ∃ s key,
    Reaches (step .uncached) (fun _ _ _ => True) (mount (zeroDisk 17812)) s ∧
      (∀ x, x < 1000000 → LiveSlot s x) ∧ key.bytes.length ≤ 31 ∧
      (∀ n, createProbe s key n (hash key) = none) ∧ step .uncached (.create key) s = none ∧
      ¬ Ends .uncached (.create key) s := by
  obtain ⟨s, hreach, X, hcard, hsub, hlive⟩ := exists_directory .uncached 17812 1000000 (Nat.le_refl _)
  have hX : X = Finset.range 1000000 := Finset.eq_of_subset_of_card_le hsub (by rw [Finset.card_range, hcard])
  obtain ⟨key, hshort, hfresh⟩ := exists_fresh X (by omega) fun x => (s.obj x).name
  have hfull : ∀ x, x < 1000000 → LiveSlot s x := fun x hx => (hlive x).mpr (hX ▸ Finset.mem_range.mpr hx)
  have hroom : ¬ Room key s := by
    rw [room_iff hshort]
    intro ⟨x, hx, h⟩
    exact hfresh x ((hlive x).mp (hfull x hx)) (h.resolve_left (not_not_intro (hfull x hx)))
  have hs := reaches_calling hreach
  refine ⟨s, key, hreach, hfull, hshort, createProbe_forever hroom, ?_, fun h => hroom ((create_ends hs).mp h)⟩
  rw [step_create_eq .uncached key hs, Option.map_eq_none_iff, Option.eq_none_iff_forall_ne_some]
  exact fun r hr => hroom (createObject_isSome.mp ⟨r, hr⟩)

/-! ### Renaming -/

/-- What a renaming that returned `id` is for. -/
structure Renamed (build : Build) (key newname : Key) (s : State) (id : Int) (t : State) : Prop where
  /-- the bitmaps, the cache and the disk -/
  frame : t = {s with obj := t.obj, log := t.log}
  found : findObjectId newname t = id
  given : ∃ z, findObjectId key s = indexToID z ∧ ¬ LiveSlot t z
  answers : AnswersAs build (findObjectId key s) s id t
  others : ∀ y, LiveSlot s y → indexToID y ≠ findObjectId key s →
    t.obj y = s.obj y ∧ AnswersAs build (indexToID y) s (indexToID y) t
  free : ∀ y, ¬ LiveSlot s y → indexToID y ≠ id → t.obj y = s.obj y

section Renaming
variable {build : Build} {key newname : Key} {s t : State} {x y z : Nat}

/-- The slot that a renaming fills is the nearest one with the new name. -/
theorem findObjectId_renamed (hk : newname.bytes.length ≤ 31)
    (hplace : probe (freeOrHolds s newname) 1000000 1000000 (hash newname) = some x) (hx : ¬ LiveSlot s x)
    (hz : LiveSlot s z) (hobj : t.obj = Function.update (Function.update s.obj x
      (renamedObject newname x (s.obj z))) z {s.obj z with id := 0}) : findObjectId newname t = indexToID x := by
  have hzx : x ≠ z := fun h => hx (h ▸ hz)
  have hhere : t.obj x = renamedObject newname x (s.obj z) := by
    rw [hobj, Function.update_of_ne hzx, Function.update_self]
  obtain ⟨hlt, -, hnear⟩ := (probe_round (hash_lt newname)).mp hplace
  have hprobe : probe (slotHolds t newname) 1000000 1000000 (hash newname) = some x := by
    refine (probe_round (hash_lt newname)).mpr ⟨hlt, ?_, fun k hk' hdist => ?_⟩
    · rw [slotHolds_iff hk, LiveSlot, hhere]
      exact ⟨(indexToID_ne x).1, name_renamedObject hk _⟩
    · have hold := hnear k hk' hdist
      rw [← Bool.not_eq_true, freeOrHolds_iff hk, not_or, not_not] at hold
      have hkx : k ≠ x := fun h => hx (h ▸ hold.1)
      rw [← Bool.not_eq_true, slotHolds_iff hk]
      rintro ⟨hlive, hname⟩
      by_cases hkz : k = z
      · rw [LiveSlot, hobj, hkz, Function.update_self] at hlive
        exact hlive rfl
      · rw [hobj, Function.update_of_ne hkz, Function.update_of_ne hkx] at hname
        exact hold.2 hname
  rw [findObjectId_eq, hprobe]
  show (t.obj x).id = _
  rw [hhere]
  rfl

end Renaming

/-- **A renaming moves one object.** In every reachable state of either build with a free slot,
a renaming to a key of at most 31 bytes comes back: with -1 and nothing changed, or with the id
under which the new key is found afterwards and through which the object answers as before, its
old slot free and everything else as it was. -/
theorem rename_moves {build : Build} {n : Nat} {s : State}
    (h : Reaches (step build) (fun _ _ _ => True) (mount (zeroDisk n)) s)
    (hfree : ∃ x, x < 1000000 ∧ ¬ LiveSlot s x) (key : Key) {newname : Key}
    (hk : newname.bytes.length ≤ 31) : ∃ v t, step build (.rename key newname) s = some (.val v, t) ∧
      (v = -1 → t = {s with log := t.log}) ∧ (v ≠ -1 → Renamed build key newname s v t) := by
  have hs := reaches_calling h
  have hslots := reaches_slotsOk h
  obtain ⟨y, hy, hyfree⟩ := hfree
  obtain ⟨v, t, hend, -⟩ := (@rename_ends build key newname s hs).mpr (.inr (.inr (Room.of_free newname hy hyfree)))
  have ht := step_calling hs hend
  have hmap := (step_rename_eq build key newname hs).symm.trans hend
  obtain ⟨q, hq, hval⟩ := Option.map_eq_some_iff.mp hmap
  cases hval
  obtain ⟨honly, hcases⟩ := renameObject_cases hslots.numbered hq
  have hrefused : q.1 = -1 → q.2.obj = s.obj → ∃ v t, step build (.rename key newname) s = some (.val v, t) ∧
      (v = -1 → t = {s with log := t.log}) ∧ (v ≠ -1 → Renamed build key newname s v t) := by
    intro hv hobj
    refine ⟨q.1, q.2, hend, fun _ => ?_, fun h => absurd hv h⟩
    rw [OnlySlots, hobj] at honly
    exact honly
  rcases hcases with ⟨-, hv, hobj⟩ | ⟨-, -, hv, hobj⟩ | ⟨-, z, x, hz, hzlive, hx, ⟨-, hv, hobj⟩ | ⟨hxfree, hxlt, hv, hobj⟩⟩
  · exact hrefused hv hobj
  · exact hrefused hv hobj
  · exact hrefused hv hobj
  refine ⟨q.1, q.2, hend, fun h => absurd (hv.symm.trans h) (indexToID_ne x).2, fun _ => ?_⟩
  rw [hv]
  have hzx : x ≠ z := fun h => hxfree (h ▸ hzlive)
  have hfind : findObjectId key s = indexToID z := by
    rw [findObjectId_eq, hz]
    exact (hslots z hzlive).2
  have hhere : q.2.obj x = renamedObject newname x (s.obj z) := by
    rw [hobj, Function.update_of_ne hzx, Function.update_self]
  have hother : ∀ y, y ≠ z → y ≠ x → q.2.obj y = s.obj y := fun y hyz hyx => by
    rw [hobj, Function.update_of_ne hyz, Function.update_of_ne hyx]
  refine ⟨honly, findObjectId_renamed hk hx hxfree hzlive hobj, ⟨z, hfind, ?_⟩, ?_, fun y hy hyz => ?_,
    fun y hy hyx => ?_⟩
  · rw [LiveSlot, hobj, Function.update_self]
    exact not_not_intro rfl
  · rw [hfind]
    refine SameObject.answersAs ⟨⟨(hslots z hzlive).1, hzlive⟩, ⟨hxlt, ?_⟩, ?_, ?_⟩ honly hs ht
    · rw [hhere]
      exact (indexToID_ne x).1
    · rw [hhere, renamedObject]
    · rw [hhere, renamedObject]
  · have heq := hother y (fun h => hyz (by rw [hfind, h])) (fun h => hxfree (h ▸ hy))
    refine ⟨heq, SameObject.answersAs ⟨⟨(hslots y hy).1, hy⟩, ⟨(hslots y hy).1, ?_⟩, ?_, ?_⟩ honly hs ht⟩
    · rw [heq]
      exact hy
    · rw [heq]
    · rw [heq]
  · exact hother y (fun h => hy (h ▸ hzlive)) fun h => hyx (by rw [h])

set_option maxRecDepth 100000 in
theorem rename_moves_created : ∃ v t,
    step .cached (.rename keyA keyB) (created keyA (mount (zeroDisk 17812))) = some (.val v, t) ∧ v = 177673 ∧
      Renamed .cached keyA keyB (created keyA (mount (zeroDisk 17812))) v t := by
  have hrun : (step .cached (.rename keyA keyB) (created keyA (mount (zeroDisk 17812)))).map Prod.fst =
      some (.val 177673) := by decide +kernel
  have hfree : ¬ LiveSlot (created keyA (mount (zeroDisk 17812))) 0 := by
    rw [LiveSlot, created_other keyA _ (by decide)]
    exact (mount_zero 17812).2 0
  obtain ⟨v, t, hstep, -, hmoved⟩ := rename_moves (created_reaches .cached trivial) ⟨0, by decide, hfree⟩ keyA
    (show keyB.bytes.length ≤ 31 by decide)
  rw [hstep] at hrun
  obtain rfl : v = 177673 := by simpa using hrun
  exact ⟨_, t, hstep, rfl, hmoved (by decide)⟩

/-! ### The directory as a map -/

/-- Unless all slots are live, the call comes back as it does on a map, and no name stands in two
slots. -/
def AsMap (build : Build) (op : Op) (s : State) : Prop :=
  (∃ x, x < 1000000 ∧ ¬ LiveSlot s x) → ∃ v t, step build op s = some (.val v, t) ∧
    KeyMap.Step op (namesOf s).holder v (namesOf t).holder ∧ (namesOf t).Single

section Map
variable {build : Build} {op : Op} {s t : State}

/-- With a free slot every call of the directory comes back. -/
theorem directory_returns (hs : Calling s) (hop : OfDirectory op) (hfree : ∃ x, x < 1000000 ∧ ¬ LiveSlot s x) :
    ∃ r t, step build op s = some (r, t) := by
  obtain ⟨x, hx, hfree⟩ := hfree
  cases op with
  | create key =>
    obtain ⟨v, t, h, -⟩ := (@create_ends build key s hs).mpr (Room.of_free key hx hfree)
    exact ⟨_, t, h⟩
  | find key => exact ⟨_, s, step_some.mpr ⟨rfl, hs.returned⟩⟩
  | destroy key => exact ⟨_, _, step_destroy_eq build key hs⟩
  | rename key newname =>
    obtain ⟨v, t, h, -⟩ := (@rename_ends build key newname s hs).mpr (.inr (.inr (Room.of_free newname hx hfree)))
    exact ⟨_, t, h⟩
  | _ => exact hop.elim

theorem step_asMap {r : Ret} (hs : Sound build s) (hsingle : (namesOf s).Single) (hop : OfDirectory op)
    (hkeys : op.ShortKeys) (h : step build op s = some (r, t)) : ∃ v, r = .val v ∧
      (KeyMap.Step op (namesOf s).holder v (namesOf t).holder ∧ (namesOf t).Single ↔ (namesOf s).ClearFor op) :=
  Store.step_map hop hsingle (exec_directory hs (step_some.mp h).1 hop hkeys)

theorem asMap_iff (hs : Sound build s) (hcall : Calling s) (hsingle : (namesOf s).Single) (hop : OfDirectory op)
    (hkeys : op.ShortKeys) : AsMap build op s ↔ (namesOf s).ClearFor op := by
  by_cases hfree : ∃ x, x < 1000000 ∧ ¬ LiveSlot s x
  · obtain ⟨r, t, h⟩ := @directory_returns build op s hcall hop hfree
    obtain ⟨v, rfl, hiff⟩ := step_asMap hs hsingle hop hkeys h
    rw [← hiff]
    constructor
    · intro hmap
      obtain ⟨v', t', h', hstep⟩ := hmap hfree
      cases h.symm.trans h'
      exact hstep
    · exact fun hstep _ => ⟨v, t, h, hstep⟩
  · push Not at hfree
    refine iff_of_true (fun ⟨x, hx, hx'⟩ => absurd (hfree x hx) hx') (Names.clearFor_full (fun y hy hnone => ?_) op)
    exact namesOf_eq_none.mp hnone (hfree y hy)

end Map

/-- **The directory is a map exactly while every way is clear.** A run of calls of the directory
with keys of at most 31 bytes, from the empty directory of either build, goes as on a finite map
from keys to objects wherever a slot is free, if no call creates a key that stands in a slot
behind a free one (seen from its hash on), and only then. -/
theorem directory_map_iff {build : Build} {n : Nat} (hn : n ≤ bitmapSize) {ops : List Op}
    (hops : ∀ op ∈ ops, OfDirectory op ∧ op.ShortKeys) :
    Each (step build) (AsMap build) ops (mount (zeroDisk n)) ↔
      Each (step build) (fun op s => (namesOf s).ClearFor op) ops (mount (zeroDisk n)) := by
  refine each_congr (I := fun s => Sound build s ∧ Calling s ∧ (namesOf s).Single) ?_ ?_ ?_
  · intro op s hmem ⟨hs, hcall, hsingle⟩
    exact asMap_iff hs hcall hsingle (hops op hmem).1 (hops op hmem).2
  · intro op s r t hmem ⟨hs, hcall, hsingle⟩ hmap h
    obtain ⟨hop, hkeys⟩ := hops op hmem
    obtain ⟨v, -, hiff⟩ := step_asMap hs hsingle hop hkeys h
    have hne : op ≠ .remount := by
      rintro rfl
      exact hop
    exact ⟨exec_sound hs (step_some.mp h).1 hne (step_some.mp h).2.1, step_calling hcall h,
      (hiff.mpr ((asMap_iff hs hcall hsingle hop hkeys).mp hmap)).2⟩
  · refine ⟨mount_sound build hn, mount_calling n, ?_⟩
    have hnone : ∀ x, namesOf (mount (zeroDisk n)) x = none := fun x => namesOf_free ((mount_zero n).2 x)
    exact ⟨fun x key h => by simp [hnone] at h, fun x y key h => by simp [hnone] at h⟩

theorem directory_map_iff_created :
    Each (step .uncached) (AsMap .uncached) [.create keyA, .find keyA] (mount (zeroDisk 17812)) := by
  refine (directory_map_iff (by decide) (by simp [OfDirectory, Op.ShortKeys, keyA])).mpr
    ⟨fun x y hx => ?_, fun r t _ => ⟨trivial, fun _ _ _ => trivial⟩⟩
  simp [namesOf_free ((mount_zero 17812).2 x)] at hx

/-- Two keys with one hash. -/
def keyAz : Key := ⟨[97, 122], by decide⟩

def keyBY : Key := ⟨[98, 89], by decide⟩

set_option maxRecDepth 100000 in
/-- The second of two keys with one hash goes to the next slot. Once the first is destroyed it is
created a second time, in front of itself. -/
theorem directory_map_iff_hole : ∃ rs s t,
    runAll (step .uncached) [.create keyAz, .create keyBY, .destroy keyAz] (mount (zeroDisk 17812)) = some (rs, s) ∧
    findObjectId keyBY s = 863235 ∧ step .uncached (.create keyBY) s = some (.val 863234, t) ∧
    LiveSlot t 863232 ∧ LiveSlot t 863233 ∧ (t.obj 863232).name = keyBY ∧ (t.obj 863233).name = keyBY := by
  have hrun : (runAll (step .uncached) [.create keyAz, .create keyBY, .destroy keyAz] (mount (zeroDisk 17812))).map
      (fun q => (findObjectId keyBY q.2, (step .uncached (.create keyBY) q.2).map fun q =>
        (q.1, [863232, 863233].map fun x => ((q.2.obj x).id, (q.2.obj x).name)))) =
      some (863235, some (.val 863234, [(863234, keyBY), (863235, keyBY)])) := by
    decide +kernel
  obtain ⟨⟨rs, s⟩, hrun, hval⟩ := Option.map_eq_some_iff.mp hrun
  obtain ⟨hfind, hcreate⟩ := Prod.mk.inj hval
  obtain ⟨⟨r, t⟩, hstep, hval⟩ := Option.map_eq_some_iff.mp hcreate
  obtain ⟨rfl, ⟨hid, hname⟩, hid', hname'⟩ : r = .val 863234 ∧ (_ ∧ _) ∧ _ ∧ _ := by
    simpa only [Prod.mk.injEq, List.map_cons, List.map_nil, List.cons.injEq, and_true] using hval
  refine ⟨rs, s, t, hrun, hfind, hstep, ?_, ?_, hname, hname'⟩
  · rw [LiveSlot, hid]
    decide
  · rw [LiveSlot, hid']
    decide

end CS330.ObjStore
