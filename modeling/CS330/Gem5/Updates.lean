import CS330.Gem5.Prefixes

/-! Insertion into the trie and removal from it.

Either changes what stands under one handle and nothing else, and leaves a trie in which every
kid extends its parent's prefix. `insert` fails only where the handle has a value already, `remove`
only where it has none. -/
namespace CS330.Gem5.Node
open TopBits

variable {n : Nat} {V : Type}

section Bits
variable {w : Nat} {kid0 kid1 kid : Node n V} {b : Bool}

theorem bitAt_ne_null (h : kid.bitAt w = some b) : kid ≠ null := by
  intro hnull
  rw [hnull] at h
  cases h

theorem Apart.replace0 (ha : Apart w kid0 kid1) (h0 : kid0.bitAt w = some b) (h : kid.bitAt w = some b) :
    Apart w kid kid1 := by
  rcases ha with hnull | ⟨-, hne⟩
  · exact .inl hnull
  · rw [h0] at hne
    exact .inr ⟨bitAt_ne_null h, by rw [h]; exact hne⟩

end Bits

/-! ### Insertion -/

section Insert
variable {w wn : Nat} {k key mask kidKey kidMask : BitVec n} {value kidValue : Option V}
  {kid0 kid1 kid t t' : Node n V} {val : V}

/-- The walk ends at the last bit of the new prefix, or where the kid's key has another bit. -/
theorem walkDown_spec (hn : wn ≤ n) : ∀ (fuel c : Nat), wn < c + fuel → c ≤ wn → Agree c key kidKey →
    ∃ c', walkDown key (TopBits.mask n wn) kidKey fuel (TopBits.mask n c) = TopBits.mask n c' ∧ c ≤ c' ∧ c' ≤ wn ∧
      Agree c' key kidKey ∧ (c' < wn → key.getMsbD c' ≠ kidKey.getMsbD c') := by
  intro fuel
  induction fuel with
  | zero => intro c hf hc; omega
  | succ fuel ih =>
    intro c hf hc ha
    simp only [walkDown, extend_mask]
    split
    · rename_i hdone
      refine ⟨c, rfl, Nat.le_refl c, hc, ha, fun hlt hbit => ?_⟩
      rcases hdone with hdiff | hlast
      · exact hdiff ((and_mask_eq (by omega)).mpr (ha.succ hbit))
      · exact absurd (mask_inj (by omega) hn hlast) (by omega)
    · rename_i hgo
      have hne : c ≠ wn := fun he => hgo (.inr (by rw [he]))
      have hagree : Agree (c + 1) key kidKey :=
        (and_mask_eq (by omega)).mp (Decidable.not_not.mp fun hdiff => hgo (.inl hdiff))
      obtain ⟨c', he, hle, hrest⟩ := ih (c + 1) (by omega) (by omega) hagree
      exact ⟨c', he, by omega, hrest⟩

/-- A subtree with one more value, still on the side of the new key. -/
structure Grown (w : Nat) (k key mask : BitVec n) (val : V) (t t' : Node n V) : Prop where
  fits : t'.Fits w k
  bit : t'.bitAt w = some (key.getMsbD w)
  holds : ∀ h v, t'.Holds h v ↔ ((key, mask) = h ∧ val = v) ∨ t.Holds h v

theorem holds_new (h : Handle n) (v : V) : (new key mask val).Holds h v ↔ (key &&& mask, mask) = h ∧ val = v := by
  simp [new, Holds]

theorem new_good (hn : wn ≤ n) (hkey : key &&& TopBits.mask n wn = key) :
    Good wn key (TopBits.mask n wn) (null : Node n V) null :=
  ⟨hn, rfl, hkey, trivial, trivial, .inl rfl⟩

theorem new_fits (hn : wn ≤ n) (hw : w < wn) (hkey : key &&& TopBits.mask n wn = key) (ha : Agree w key k) :
    (new key (TopBits.mask n wn) val).Fits w k := by
  rw [new, hkey]
  exact fits_node.mpr ⟨wn, hw, ha, fun hv => absurd hv (by simp), new_good hn hkey⟩

theorem grown_new (hn : wn ≤ n) (hw : w < wn) (hkey : key &&& TopBits.mask n wn = key) (ha : Agree w key k) :
    Grown w k key (TopBits.mask n wn) val null (new key (TopBits.mask n wn) val) where
  fits := new_fits hn hw hkey ha
  bit := by rw [new, hkey]; rfl
  holds h v := by
    rw [holds_new, hkey]
    exact (or_false _).symm.to_iff

/-- The new value in front of a kid. -/
theorem grown_above (hn : wn ≤ n) (hw : w < wn) (hkey : key &&& TopBits.mask n wn = key) (ha : Agree w key k)
    (hkid : kid.Fits wn key) :
    Grown w k key (TopBits.mask n wn) val kid (node key (TopBits.mask n wn) (some val) kid null) where
  fits := fits_node.mpr ⟨wn, hw, ha, fun hv => absurd hv (by simp), hn, rfl, hkey, hkid, trivial, .inl rfl⟩
  bit := rfl
  holds h v := by simp [Holds]

/-- The new value beside a kid, under a node for the bits they share. -/
theorem grown_beside {c : Nat} (hn : wn ≤ n) (hw : w < c) (hc : c < wn) (hkey : key &&& TopBits.mask n wn = key)
    (ha : Agree w key k) (hkid : kid.Fits c key) (hnull : kid ≠ null) (hbit : kid.bitAt c ≠ some (key.getMsbD c)) :
    Grown w k key (TopBits.mask n wn) val kid
      (node (key &&& TopBits.mask n c) (TopBits.mask n c) none kid (new key (TopBits.mask n wn) val)) := by
  have hshort : Agree c key (key &&& TopBits.mask n c) := (and_mask_agree key).symm
  have hnew : (new key (TopBits.mask n wn) val).bitAt c = some (key.getMsbD c) := by
    rw [new, hkey]
    rfl
  refine ⟨fits_node.mpr ⟨c, hw, (hshort.symm.mono (by omega)).trans ha, fun _ => bitAt_ne_null hnew, ?_⟩, ?_, ?_⟩
  · exact ⟨by omega, rfl, by rw [BitVec.and_assoc, BitVec.and_self], hkid.weaken (Nat.le_refl c) hshort,
      new_fits hn hc hkey hshort, .inr ⟨hnull, by rw [hnew]; exact hbit⟩⟩
  · exact congrArg some (hshort.symm w hw)
  · intro h v
    have hnone : ¬ ((key &&& TopBits.mask n c, TopBits.mask n c) = h ∧ (none : Option V) = some v) := by simp
    simp only [Holds, hnone, false_or, holds_new, hkey]
    exact or_comm

/-- A kid on the other side of the first bit is not the right leg. -/
theorem addToLeg_skip (hn : wn ≤ n) (hw : w < wn) (hnull : kid ≠ null) (hkid : kid.Fits w k) (ha : Agree w key k)
    (hbit : kid.bitAt w ≠ some (key.getMsbD w)) :
    addToLeg key (TopBits.mask n wn) val (TopBits.mask n w) kid = none := by
  cases kid with
  | null => exact absurd rfl hnull
  | node kidKey kidMask kidValue a b =>
    obtain ⟨w', -, hka, -⟩ := fits_node.mp hkid
    obtain ⟨c, he, hle, hcn, hagree, -⟩ := walkDown_spec hn (n + 1) w (by omega) (by omega) (ha.trans hka.symm)
    have hc : c = w := by
      refine Nat.le_antisymm (Nat.le_of_not_lt fun hlt => hbit ?_) hle
      exact congrArg some (hagree w hlt).symm
    simp only [addToLeg, he, hc, if_true]

/-- Down the right leg, in front of a kid or beside it. -/
theorem addToLeg_grows (val : V) (hn : wn ≤ n) (hw : w < wn) (hkey : key &&& TopBits.mask n wn = key)
    (hkid : kid.Fits w k) (ha : Agree w key k) (hbit : kid.bitAt w = some (key.getMsbD w))
    (hafter : kid.goesAfter key (TopBits.mask n wn) = false) :
    ∃ t', addToLeg key (TopBits.mask n wn) val (TopBits.mask n w) kid = some t' ∧
      Grown w k key (TopBits.mask n wn) val kid t' := by
  cases kid with
  | null => cases hbit
  | node kidKey kidMask kidValue a b =>
    obtain ⟨w', hw', hka, hv, hgood⟩ := fits_node.mp hkid
    obtain ⟨c, he, hle, hcn, hagree, hdiff⟩ := walkDown_spec hn (n + 1) w (by omega) (by omega) (ha.trans hka.symm)
    have hwc : w < c := by
      refine Nat.lt_of_le_of_ne hle fun heq => ?_
      rw [← heq] at hdiff
      exact hdiff hw (Option.some.inj hbit).symm
    -- the walk stops in front of the kid, as the new prefix does not go after it
    have hcw' : c < w' := by
      refine Nat.lt_of_not_le fun hle' => ?_
      rw [(hgood.goesAfter key).mpr ⟨hagree.mono hle', by omega⟩] at hafter
      cases hafter
    have hfits : (node kidKey kidMask kidValue a b).Fits c key := fits_node.mpr ⟨w', hcw', hagree.symm, hv, hgood⟩
    have hne : TopBits.mask n c ≠ TopBits.mask n w := fun h => absurd (mask_inj (by omega) (by omega) h) (by omega)
    simp only [addToLeg, he, hne, if_false]
    split
    · rename_i heq
      have hcwn : c = wn := mask_inj (by omega) hn heq
      subst hcwn
      rw [hkey]
      exact ⟨_, rfl, grown_above hn hw hkey ha hfits⟩
    · rename_i hcne
      have hlt : c < wn := Nat.lt_of_le_of_ne hcn fun h => hcne (by rw [h])
      refine ⟨_, rfl, grown_beside hn hwc hlt hkey ha hfits (by simp) fun h => ?_⟩
      exact hdiff hlt (Option.some.inj h).symm

/-- A node with a new kid. -/
theorem Good.grown0 (hg : Good w k mask kid0 kid1) (hgrown : Grown w k key newMask val kid0 t')
    (hside : kid0 = null ∧ kid1 = null ∨ kid0.bitAt w = some (key.getMsbD w)) : Good w k mask t' kid1 where
  le := hg.le
  mask_eq := hg.mask_eq
  key_eq := hg.key_eq
  fits0 := hgrown.fits
  fits1 := hg.fits1
  apart := by
    rcases hside with ⟨-, hnull⟩ | hbit
    · exact .inl hnull
    · exact hg.apart.replace0 hbit hgrown.bit

theorem Good.grown1 (hg : Good w k mask kid0 kid1) (hgrown : Grown w k key newMask val kid1 t')
    (h0 : kid0 ≠ null) (hside : kid0.bitAt w ≠ some (key.getMsbD w)) : Good w k mask kid0 t' where
  le := hg.le
  mask_eq := hg.mask_eq
  key_eq := hg.key_eq
  fits0 := hg.fits0
  fits1 := hgrown.fits
  apart := .inr ⟨h0, by rw [hgrown.bit]; exact hside⟩

theorem holds_kid0 (hh : ∀ h v, t'.Holds h v ↔ ((key, newMask) = h ∧ val = v) ∨ kid0.Holds h v) (h : Handle n) (v : V) :
    (node k mask value t' kid1).Holds h v ↔ ((key, newMask) = h ∧ val = v) ∨
    (node k mask value kid0 kid1).Holds h v := by
  simp only [Holds, hh]
  grind

theorem holds_kid1 (hh : ∀ h v, t'.Holds h v ↔ ((key, newMask) = h ∧ val = v) ∨ kid1.Holds h v) (h : Handle n) (v : V) :
    (node k mask value kid0 t').Holds h v ↔ ((key, newMask) = h ∧ val = v) ∨
    (node k mask value kid0 kid1).Holds h v := by
  simp only [Holds, hh]
  grind

/-- A node after an insertion at it or below it. -/
structure Inserted (w wn : Nat) (k mask : BitVec n) (value : Option V) (kid0 kid1 : Node n V) (key : BitVec n) (val : V)
    (value' : Option V) (kid0' kid1' : Node n V) : Prop where
  good : Good w k mask kid0' kid1'
  value_eq : value' = value ∨ value' = some val ∧ w = wn
  kid1_ne : kid1 ≠ null → kid1' ≠ null
  holds : ∀ h v, (node k mask value' kid0' kid1').Holds h v ↔
    ((key, TopBits.mask n wn) = h ∧ val = v) ∨ (node k mask value kid0 kid1).Holds h v

theorem Inserted.of_kid0 (hg : Good w k mask kid0 kid1) (hgrown : Grown w k key (TopBits.mask n wn) val kid0 t')
    (hside : kid0 = null ∧ kid1 = null ∨ kid0.bitAt w = some (key.getMsbD w)) :
    Inserted w wn k mask value kid0 kid1 key val value t' kid1 :=
  ⟨hg.grown0 hgrown hside, .inl rfl, id, holds_kid0 hgrown.holds⟩

theorem Inserted.of_kid1 (hg : Good w k mask kid0 kid1) (hgrown : Grown w k key (TopBits.mask n wn) val kid1 t')
    (h0 : kid0 ≠ null) (hside : kid0.bitAt w ≠ some (key.getMsbD w)) :
    Inserted w wn k mask value kid0 kid1 key val value kid0 t' :=
  ⟨hg.grown1 hgrown h0 hside, .inl rfl, fun _ => bitAt_ne_null hgrown.bit, holds_kid1 hgrown.holds⟩

/-- The other kid's bit is the key's. -/
theorem Apart.bit1 (ha : Apart w kid0 kid1) (h1 : kid1 ≠ null) (hside : kid0.bitAt w ≠ some (key.getMsbD w)) :
    kid1.bitAt w = some (key.getMsbD w) := by
  rcases ha with hnull | ⟨h0, hne⟩
  · exact absurd hnull h1
  · cases kid0 with
    | null => exact absurd rfl h0
    | node k0 m0 v0 a0 b0 =>
      cases kid1 with
      | null => exact absurd rfl h1
      | node k1 m1 v1 a1 b1 =>
        simp only [bitAt, ne_eq, Option.some.injEq] at hne hside ⊢
        cases hk0 : k0.getMsbD w <;> cases hk1 : k1.getMsbD w <;> cases hk : key.getMsbD w <;> simp_all

theorem Good.place (hg : Good w k mask kid0 kid1) (hn : wn ≤ n) (hle : w ≤ wn) (hkey : key &&& TopBits.mask n wn = key)
    (ha : Agree w key k) (hfree : ∀ v, ¬ (node k mask value kid0 kid1).Holds (key, TopBits.mask n wn) v)
    (h0 : kid0.goesAfter key (TopBits.mask n wn) = false) (h1 : kid1.goesAfter key (TopBits.mask n wn) = false) :
    ∃ value' kid0' kid1', (node k mask value kid0 kid1).place key (TopBits.mask n wn) val =
      some (node k mask value' kid0' kid1') ∧ Inserted w wn k mask value kid0 kid1 key val value' kid0' kid1' := by
  have hmask := hg.mask_eq
  simp only [Node.place]
  split
  · -- the node stands for the new prefix, and has no value yet
    rename_i heq
    have hw : w = wn := mask_inj hg.le hn (by rw [← hmask, heq])
    subst hw
    have hkk : k = key := (eq_of_agree hg.le hkey (by rw [← hmask]; exact hg.key_eq) ha).symm
    subst hkk
    cases value with
    | some v => exact absurd (Or.inl ⟨by rw [heq], rfl⟩) (hfree v)
    | none =>
      refine ⟨some val, kid0, kid1, rfl, hg, .inr ⟨rfl, rfl⟩, id, fun h v => ?_⟩
      simp [Holds, hmask]
  · rename_i hne
    have hw : w < wn := Nat.lt_of_le_of_ne hle fun h => hne (by rw [hmask, h])
    rw [hmask]
    by_cases hnull0 : kid0 = null
    · have hnull1 : kid1 = null := hg.apart.resolve_right fun h => h.1 hnull0
      subst hnull0
      exact ⟨value, _, kid1, rfl, hmask ▸ .of_kid0 hg (grown_new hn hw hkey ha) (.inl ⟨rfl, hnull1⟩)⟩
    · by_cases hside : kid0.bitAt w = some (key.getMsbD w)
      · obtain ⟨t', he, hgrown⟩ := addToLeg_grows val hn hw hkey hg.fits0 ha hside h0
        rw [he]
        exact ⟨value, t', kid1, rfl, hmask ▸ .of_kid0 hg hgrown (.inr hside)⟩
      · rw [addToLeg_skip hn hw hnull0 hg.fits0 ha hside]
        by_cases hnull1 : kid1 = null
        · subst hnull1
          exact ⟨value, kid0, _, rfl, hmask ▸ .of_kid1 hg (grown_new hn hw hkey ha) hnull0 hside⟩
        · obtain ⟨t', he, hgrown⟩ := addToLeg_grows val hn hw hkey hg.fits1 ha (hg.apart.bit1 hnull1 hside) h1
          exact ⟨value, kid0, t', by rw [he]; rfl, hmask ▸ .of_kid1 hg hgrown hnull0 hside⟩

theorem goesAfter_matches (h : t.goesAfter key newMask = true) : t.matchesKey key = true := by
  cases t with
  | null => cases h
  | node key' mask' value' a b =>
    simp only [Node.goesAfter, Bool.and_eq_true] at h
    exact h.1

theorem Good.insertBelow (hg : Good w k mask kid0 kid1) (hn : wn ≤ n) (hle : w ≤ wn)
    (hkey : key &&& TopBits.mask n wn = key) (ha : Agree w key k)
    (hfree : ∀ v, ¬ (node k mask value kid0 kid1).Holds (key, TopBits.mask n wn) v)
    (h0 : kid0.goesAfter key (TopBits.mask n wn) = true →
      ∃ t', kid0.insertBelow key (TopBits.mask n wn) val = some t' ∧ Grown w k key (TopBits.mask n wn) val kid0 t')
    (h1 : kid1.goesAfter key (TopBits.mask n wn) = true →
      ∃ t', kid1.insertBelow key (TopBits.mask n wn) val = some t' ∧ Grown w k key (TopBits.mask n wn) val kid1 t') :
    ∃ value' kid0' kid1', (node k mask value kid0 kid1).insertBelow key (TopBits.mask n wn) val =
      some (node k mask value' kid0' kid1') ∧ Inserted w wn k mask value kid0 kid1 key val value' kid0' kid1' := by
  simp only [Node.insertBelow]
  split
  · rename_i hafter
    obtain ⟨t', he, hgrown⟩ := h0 hafter
    rw [he]
    exact ⟨value, t', kid1, rfl, .of_kid0 hg hgrown (.inr (hg.fits0.matches_bit (goesAfter_matches hafter)))⟩
  · rename_i hnot0
    split
    · rename_i hafter
      obtain ⟨t', he, hgrown⟩ := h1 hafter
      have hbit := hg.fits1.matches_bit (goesAfter_matches hafter)
      obtain ⟨hnull0, hne⟩ := hg.apart.resolve_left (bitAt_ne_null hbit)
      rw [he]
      exact ⟨value, kid0, t', rfl, .of_kid1 hg hgrown hnull0 (by rw [← hbit]; exact hne)⟩
    · rename_i hnot1
      exact hg.place hn hle hkey ha hfree (by simpa using hnot0) (by simpa using hnot1)

/-- A subtree that the new prefix goes after takes the value in. -/
theorem Fits.insertBelow (ht : t.Fits w k) (hn : wn ≤ n) (hkey : key &&& TopBits.mask n wn = key)
    (hfree : ∀ v, ¬ t.Holds (key, TopBits.mask n wn) v) (hafter : t.goesAfter key (TopBits.mask n wn) = true) :
    ∃ t', t.insertBelow key (TopBits.mask n wn) val = some t' ∧ Grown w k key (TopBits.mask n wn) val t t' := by
  induction t generalizing w k with
  | null => cases hafter
  | node k' mask value kid0 kid1 ih0 ih1 =>
    obtain ⟨w', hw', ha', hv, hg⟩ := fits_node.mp ht
    obtain ⟨hagree, hle⟩ := (hg.goesAfter key).mp hafter
    obtain ⟨value', kid0', kid1', he, hins⟩ := hg.insertBelow hn hle hkey hagree hfree
      (ih0 hg.fits0 fun v hh => hfree v (.inr (.inl hh))) (ih1 hg.fits1 fun v hh => hfree v (.inr (.inr hh)))
    refine ⟨_, he, fits_node.mpr ⟨w', hw', ha', fun hnone => ?_, hins.good⟩, congrArg some (hagree w hw').symm,
      hins.holds⟩
    rcases hins.value_eq with heq | ⟨hsome, -⟩
    · exact hins.kid1_ne (hv (by rw [← heq, hnone]))
    · rw [hnone] at hsome
      cases hsome

end Insert

/-! ### Removal -/

section Remove
variable {w u : Nat} {k key mask : BitVec n} {value : Option V} {kid0 kid1 kid t : Node n V} {handle : Handle n}
  {root : Bool} {v : V}

/-- A node after a removal at it or below it: it is still there, or went and left a subtree. -/
inductive Left (root : Bool) (w : Nat) (key mask : BitVec n) (value : Option V) : Bool × Node n V → Prop where
  | kept {value' kid0' kid1'} (good : Good w key mask kid0' kid1') (value_eq : value' = value ∨ value' = none)
    (full : root = false → value' = none → kid1' ≠ null) :
    Left root w key mask value (false, node key mask value' kid0' kid1')
  | gone {rest : Node n V} (inner : root = false) (fits : rest.Fits w key) : Left root w key mask value (true, rest)

theorem isNull_iff : kid.isNull = true ↔ kid = null := by
  cases kid <;> simp [isNull]

/-- Of two kids one of which may have gone, the first is there if any is. -/
theorem exists_kids (h0 : kid0.Fits w key) (h1 : kid1.Fits w key)
    (hap : kid0 = null ∨ kid1 = null ∨ kid0.bitAt w ≠ kid1.bitAt w) :
    ∃ a b, (if !kid1.isNull && kid0.isNull then (kid1, null) else (kid0, kid1)) = (a, b) ∧ a.Fits w key ∧ b.Fits w key ∧
      Apart w a b ∧ ∀ h v, a.Holds h v ∨ b.Holds h v ↔ kid0.Holds h v ∨ kid1.Holds h v := by
  by_cases hn0 : kid0 = null
  · subst hn0
    by_cases hn1 : kid1 = null
    · subst hn1
      exact ⟨null, null, rfl, h0, h1, .inl rfl, fun h v => Iff.rfl⟩
    · refine ⟨kid1, null, ?_, h1, h0, .inl rfl, fun h v => or_comm⟩
      simp [isNull_iff, hn1]
  · refine ⟨kid0, kid1, ?_, h0, h1, ?_, fun h v => Iff.rfl⟩
    · simp [isNull_iff, hn0]
    · exact (hap.resolve_left hn0).imp id fun hne => ⟨hn0, hne⟩

theorem left_tidy (root : Bool) (value : Option V) (hg : Good w key mask t t') (h0 : kid0.Fits w key)
    (h1 : kid1.Fits w key) (hap : kid0 = null ∨ kid1 = null ∨ kid0.bitAt w ≠ kid1.bitAt w) :
    Left root w key mask value (tidy root key mask value kid0 kid1) ∧
      ∀ h v, (tidy root key mask value kid0 kid1).2.Holds h v ↔ (node key mask value kid0 kid1).Holds h v := by
  obtain ⟨a, b, he, ha, hb, hab, hiff⟩ := exists_kids h0 h1 hap
  simp only [tidy, he]
  split
  · rename_i hgone
    simp only [Bool.and_eq_true, isNull_iff, Option.isNone_iff_eq_none, Bool.not_eq_true'] at hgone
    obtain ⟨⟨rfl, rfl⟩, hroot⟩ := hgone
    refine ⟨.gone hroot ha, fun h v => ?_⟩
    have := hiff h v
    simp only [Holds, or_false] at this ⊢
    simp [this]
  · rename_i hkept
    simp only [Bool.and_eq_true, isNull_iff, Option.isNone_iff_eq_none, Bool.not_eq_true'] at hkept
    refine ⟨.kept ⟨hg.le, hg.mask_eq, hg.key_eq, ha, hb, hab⟩ (.inl rfl) ?_, fun h v => ?_⟩
    · exact fun hroot hnone hnull => hkept ⟨⟨hnull, hnone⟩, hroot⟩
    · simp only [Holds, hiff]

/-- The kid that a removal leaves in its parent. -/
theorem Left.beneath {r : Bool × Node n V} (hl : Left false u key mask value r) (hw : w < u) (ha : Agree w key k) :
    r.2.Fits w k ∧ (r.2 = null ∨ r.2.bitAt w = some (key.getMsbD w)) ∧ (r.1 = false → r.2 ≠ null) := by
  cases hl with
  | kept good value_eq full => exact ⟨fits_node.mpr ⟨u, hw, ha, full rfl, good⟩, .inr rfl, fun _ => by simp⟩
  | @gone rest inner fits =>
    refine ⟨fits.weaken (by omega) ha, ?_, fun h => by cases h⟩
    cases rest with
    | null => exact .inl rfl
    | node k' m' v' a b =>
      obtain ⟨u', hu, ha', -⟩ := fits_node.mp fits
      exact .inr (congrArg some (ha' w hw))

/-- A node keeps the handles of its subtree in front of it. -/
theorem Fits.after (ht : t.Fits w k) (hh : t.Holds handle v) : t.goesAfter handle.1 handle.2 = true := by
  cases t with
  | null => exact hh.elim
  | node key mask value kid0 kid1 =>
    obtain ⟨w', -, -, -, hg⟩ := fits_node.mp ht
    obtain ⟨u, hle, -, hmask, -, ha⟩ := hg.holds hh
    rw [hmask]
    exact (hg.goesAfter handle.1).mpr ⟨ha, hle⟩

/-- Two kids do not hold one handle. -/
theorem Good.not_both (hg : Good w key mask kid0 kid1) (h0 : kid0.goesAfter handle.1 handle.2 = true)
    (h1 : kid1.goesAfter handle.1 handle.2 = true) : False := by
  have hb0 := hg.fits0.matches_bit (goesAfter_matches h0)
  have hb1 := hg.fits1.matches_bit (goesAfter_matches h1)
  exact (hg.apart.resolve_left (bitAt_ne_null hb1)).2 (hb0.trans hb1.symm)

/-- A node's own handle is no handle below it. -/
theorem Fits.not_own (hle : w ≤ n) (hmask : mask = TopBits.mask n w) (ht : t.Fits w k) : ¬ t.Holds (key, mask) v := by
  intro hh
  obtain ⟨w', hw, hn, hm, -⟩ := ht.holds hh
  exact absurd (mask_inj hle hn (by rw [← hmask]; exact hm)) (by omega)

/-- A subtree without one of its values, in the place where it was. -/
structure Cut (w : Nat) (k : BitVec n) (handle : Handle n) (t : Node n V) (r : Bool × Node n V) : Prop where
  fits : r.2.Fits w k
  bit : r.2 = null ∨ r.2.bitAt w = t.bitAt w
  stays : r.1 = false → r.2 ≠ null
  holds : ∀ h v, r.2.Holds h v ↔ t.Holds h v ∧ h ≠ handle

theorem Good.removeOwn (hg : Good w key mask kid0 kid1) (hh : (node key mask value kid0 kid1).Holds (key, mask) v)
    (hroot : root = true → value = none) : ∃ r, (node key mask value kid0 kid1).removeBelow (key, mask) root = some r ∧
      Left root w key mask value r ∧
        ∀ h v, r.2.Holds h v ↔ (node key mask value kid0 kid1).Holds h v ∧ h ≠ (key, mask) := by
  have hne0 : ∀ h v, kid0.Holds h v → h ≠ (key, mask) := fun h v hk he => hg.fits0.not_own hg.le hg.mask_eq (he ▸ hk)
  have hne1 : ∀ h v, kid1.Holds h v → h ≠ (key, mask) := fun h v hk he => hg.fits1.not_own hg.le hg.mask_eq (he ▸ hk)
  have hvalue : value = some v := by
    rcases hh with ⟨-, hv⟩ | hk | hk
    · exact hv
    · exact absurd rfl (hne0 _ _ hk)
    · exact absurd rfl (hne1 _ _ hk)
  have hinner : root = false := by
    cases root with
    | false => rfl
    | true => exact absurd (hroot rfl) (by simp [hvalue])
  subst hvalue hinner
  by_cases hnull : kid1 = null
  · subst hnull
    refine ⟨(true, kid0), by simp [Node.removeBelow, isNull], .gone rfl hg.fits0, fun h v' => ?_⟩
    have := hne0 h v'
    simp only [Holds]
    grind
  · refine ⟨(false, node key mask none kid0 kid1), by simp [Node.removeBelow, isNull_iff, hnull],
      .kept hg (.inr rfl) fun _ _ => hnull, fun h v' => ?_⟩
    have h0 := hne0 h v'
    have h1 := hne1 h v'
    simp only [Holds]
    grind

/-- A node whose kids are as given after a removal below one of them. -/
theorem left_kids {gone : Bool} (hg : Good w key mask t t') (h0 : kid0.Fits w key) (h1 : kid1.Fits w key)
    (hap : kid0 = null ∨ kid1 = null ∨ kid0.bitAt w ≠ kid1.bitAt w)
    (hkept : gone = false → Apart w kid0 kid1 ∧ (root = false → value = none → kid1 ≠ null)) {r : Bool × Node n V}
    (hr : (if gone then tidy root key mask value kid0 kid1 else (false, node key mask value kid0 kid1)) = r) :
    Left root w key mask value r ∧ ∀ h v, r.2.Holds h v ↔ (node key mask value kid0 kid1).Holds h v := by
  subst hr
  cases gone with
  | true => exact left_tidy root value hg h0 h1 hap
  | false =>
    obtain ⟨hapart, hfull⟩ := hkept rfl
    exact ⟨.kept ⟨hg.le, hg.mask_eq, hg.key_eq, h0, h1, hapart⟩ (.inl rfl) hfull, fun _ _ => Iff.rfl⟩

/-- A removal below the first kid. -/
theorem Good.cut0 {r r' : Bool × Node n V} (hg : Good w key mask kid0 kid1) (hown : (key, mask) ≠ handle)
    (hcut : Cut w key handle kid0 r) (hother : ∀ v, ¬ kid1.Holds handle v)
    (hfull : root = false → value = none → kid1 ≠ null)
    (hr' : (if r.1 then tidy root key mask value r.2 kid1 else (false, node key mask value r.2 kid1)) = r') :
    Left root w key mask value r' ∧ ∀ h v, r'.2.Holds h v ↔ (node key mask value kid0 kid1).Holds h v ∧ h ≠ handle := by
  have hap : r.2 = null ∨ kid1 = null ∨ r.2.bitAt w ≠ kid1.bitAt w := by
    refine hcut.bit.imp id fun hbit => hg.apart.imp id fun hne => ?_
    rw [hbit]
    exact hne.2
  have hkept : r.1 = false → Apart w r.2 kid1 := fun hstays =>
    (hap.resolve_left (hcut.stays hstays)).imp id fun hne => ⟨hcut.stays hstays, hne⟩
  obtain ⟨hleft, hiff⟩ := left_kids hg hcut.fits hg.fits1 hap (fun hstays => ⟨hkept hstays, hfull⟩) hr'
  refine ⟨hleft, fun h v => (hiff h v).trans ?_⟩
  have hne : kid1.Holds h v → h ≠ handle := fun hk he => hother v (he ▸ hk)
  simp only [Holds, hcut.holds]
  grind

/-- A removal below the second kid. -/
theorem Good.cut1 {r r' : Bool × Node n V} (hg : Good w key mask kid0 kid1) (hown : (key, mask) ≠ handle)
    (hcut : Cut w key handle kid1 r) (hother : ∀ v, ¬ kid0.Holds handle v) (hthere : kid1 ≠ null)
    (hr' : (if r.1 then tidy root key mask value kid0 r.2 else (false, node key mask value kid0 r.2)) = r') :
    Left root w key mask value r' ∧ ∀ h v, r'.2.Holds h v ↔ (node key mask value kid0 kid1).Holds h v ∧ h ≠ handle := by
  obtain ⟨hnull0, hne⟩ := hg.apart.resolve_left hthere
  have hap : r.2 = null ∨ kid0.bitAt w ≠ r.2.bitAt w := hcut.bit.imp id fun hbit => by rw [hbit]; exact hne
  have hkept : r.1 = false → Apart w kid0 r.2 := fun hstays => .inr ⟨hnull0, hap.resolve_left (hcut.stays hstays)⟩
  obtain ⟨hleft, hiff⟩ := left_kids hg hg.fits0 hcut.fits (.inr hap)
    (fun hstays => ⟨hkept hstays, fun _ _ => hcut.stays hstays⟩) hr'
  refine ⟨hleft, fun h v => (hiff h v).trans ?_⟩
  have hne' : kid0.Holds h v → h ≠ handle := fun hk he => hother v (he ▸ hk)
  simp only [Holds, hcut.holds]
  grind

theorem Good.removeBelow (hg : Good w key mask kid0 kid1) (hh : (node key mask value kid0 kid1).Holds handle v)
    (hroot : root = true → value = none) (hfull : root = false → value = none → kid1 ≠ null)
    (ih0 : kid0.Holds handle v → ∃ r, kid0.removeBelow handle false = some r ∧ Cut w key handle kid0 r)
    (ih1 : kid1.Holds handle v → ∃ r, kid1.removeBelow handle false = some r ∧ Cut w key handle kid1 r) :
    ∃ r, (node key mask value kid0 kid1).removeBelow handle root = some r ∧ Left root w key mask value r ∧
      ∀ h v, r.2.Holds h v ↔ (node key mask value kid0 kid1).Holds h v ∧ h ≠ handle := by
  by_cases hown : (key, mask) = handle
  · subst hown
    exact hg.removeOwn hh hroot
  · simp only [Node.removeBelow, hown, if_false]
    rcases hh with ⟨he, -⟩ | hk | hk
    · exact absurd he hown
    · have hafter := hg.fits0.after hk
      obtain ⟨r, he, hcut⟩ := ih0 hk
      refine ⟨_, by rw [if_pos hafter, he]; rfl, hg.cut0 hown hcut (fun v' hk' => ?_) hfull rfl⟩
      exact hg.not_both hafter (hg.fits1.after hk')
    · have hafter := hg.fits1.after hk
      have hnot : kid0.goesAfter handle.1 handle.2 = false := by
        rw [← Bool.not_eq_true]
        exact fun h0 => hg.not_both h0 hafter
      obtain ⟨r, he, hcut⟩ := ih1 hk
      refine ⟨_, by rw [if_neg (by simp [hnot]), if_pos hafter, he]; rfl, hg.cut1 hown hcut (fun v' hk' => ?_) ?_ rfl⟩
      · exact hg.not_both (hg.fits0.after hk') hafter
      · exact bitAt_ne_null (hg.fits1.matches_bit (goesAfter_matches hafter))

/-- A value of a subtree can be taken out. -/
theorem Fits.removeBelow (ht : t.Fits w k) (hh : t.Holds handle v) :
    ∃ r, t.removeBelow handle false = some r ∧ Cut w k handle t r := by
  induction t generalizing w k with
  | null => exact hh.elim
  | node key mask value kid0 kid1 ih0 ih1 =>
    obtain ⟨w', hw, ha, hv, hg⟩ := fits_node.mp ht
    obtain ⟨r, he, hleft, hholds⟩ := hg.removeBelow hh (fun h : false = true => by cases h) (fun _ => hv)
      (ih0 hg.fits0) (ih1 hg.fits1)
    obtain ⟨hfits, hbit, hstays⟩ := hleft.beneath hw ha
    exact ⟨r, he, hfits, hbit, hstays, hholds⟩

theorem valueAt_holds (h : t.valueAt handle = some v) : t.Holds handle v := by
  induction t with
  | null => cases h
  | node key mask value kid0 kid1 ih0 ih1 =>
    simp only [valueAt] at h
    split at h
    · rename_i he
      exact .inl ⟨he, h⟩
    · split at h
      · exact .inr (.inl (ih0 h))
      · split at h
        · exact .inr (.inr (ih1 h))
        · cases h

theorem Good.valueAt (hg : Good w key mask kid0 kid1) (hh : (node key mask value kid0 kid1).Holds handle v)
    (h0 : kid0.Holds handle v → kid0.valueAt handle = some v)
    (h1 : kid1.Holds handle v → kid1.valueAt handle = some v) :
    (node key mask value kid0 kid1).valueAt handle = some v := by
  simp only [Node.valueAt]
  by_cases hown : (key, mask) = handle
  · subst hown
    rw [if_pos rfl]
    rcases hh with ⟨-, hv⟩ | hk | hk
    · exact hv
    · exact absurd hk (hg.fits0.not_own hg.le hg.mask_eq)
    · exact absurd hk (hg.fits1.not_own hg.le hg.mask_eq)
  · rw [if_neg hown]
    rcases hh with ⟨he, -⟩ | hk | hk
    · exact absurd he hown
    · rw [if_pos (hg.fits0.after hk)]
      exact h0 hk
    · rw [if_neg fun h => hg.not_both h (hg.fits1.after hk), if_pos (hg.fits1.after hk)]
      exact h1 hk

theorem Fits.valueAt (ht : t.Fits w k) (hh : t.Holds handle v) : t.valueAt handle = some v := by
  induction t generalizing w k with
  | null => exact hh.elim
  | node key mask value kid0 kid1 ih0 ih1 =>
    obtain ⟨w', -, -, -, hg⟩ := fits_node.mp ht
    exact hg.valueAt hh (ih0 hg.fits0) (ih1 hg.fits1)

end Remove

/-! ### The whole trie -/

section Whole
variable {t : Node n V} {h : Handle n} {v val : V}

/-- A trie with its head: no bits and no value. -/
def Whole : Node n V → Prop
  | null => False
  | node key mask value kid0 kid1 => value = none ∧ Good 0 key mask kid0 kid1

theorem head_whole : Whole (head : Node n V) :=
  ⟨rfl, Nat.zero_le n, mask_zero.symm, BitVec.zero_and, trivial, trivial, .inl rfl⟩

theorem not_holds_head : ¬ (head : Node n V).Holds h v := by
  simp [head, Holds]

theorem Whole.valueAt_iff (ht : Whole t) : t.valueAt h = some v ↔ t.Holds h v := by
  refine ⟨valueAt_holds, fun hh => ?_⟩
  cases t with
  | null => exact ht.elim
  | node key mask value kid0 kid1 => exact ht.2.valueAt hh ht.2.fits0.valueAt ht.2.fits1.valueAt

theorem Whole.finds (ht : Whole t) (key : BitVec n) : t.Finds key (t.lookupNode key) := by
  cases t with
  | null => exact ht.elim
  | node k mask value kid0 kid1 =>
    exact ht.2.finds (fun i hi => by omega) ht.2.fits0.finds ht.2.fits1.finds

/-- A value under a free handle is taken in. -/
theorem Whole.insert (val : V) (ht : Whole t) {width : Nat} (hn : 0 < n) (hpos : 0 < width) (key : BitVec n)
    (hfree : ∀ v, ¬ t.Holds (key &&& TopBits.mask n width, TopBits.mask n width) v) :
    ∃ t', t.insert key width val = some ((key &&& TopBits.mask n width, TopBits.mask n width), t') ∧ Whole t' ∧
      ∀ h v, t'.Holds h v ↔ ((key &&& TopBits.mask n width, TopBits.mask n width) = h ∧ val = v) ∨ t.Holds h v := by
  cases t with
  | null => exact ht.elim
  | node k mask value kid0 kid1 =>
    obtain ⟨hvalue, hg⟩ := ht
    simp only [Node.insert]
    rw [mask_min width] at hfree ⊢
    have hkey : key &&& TopBits.mask n (min width n) &&& TopBits.mask n (min width n) =
        key &&& TopBits.mask n (min width n) := by
      rw [BitVec.and_assoc, BitVec.and_self]
    obtain ⟨value', kid0', kid1', he, hins⟩ := hg.insertBelow (by omega) (by omega) hkey (fun i hi => by omega) hfree
      (hg.fits0.insertBelow (by omega) hkey fun v hh => hfree v (.inr (.inl hh)))
      (hg.fits1.insertBelow (by omega) hkey fun v hh => hfree v (.inr (.inr hh)))
    rw [he]
    refine ⟨_, rfl, ⟨?_, hins.good⟩, hins.holds⟩
    rcases hins.value_eq with heq | ⟨-, hw⟩
    · exact heq.trans hvalue
    · omega

/-- A value that is there can be taken out. -/
theorem Whole.remove (ht : Whole t) (hh : t.Holds h v) : ∃ t', t.remove h = some (some v, t') ∧ Whole t' ∧
    ∀ h' v', t'.Holds h' v' ↔ t.Holds h' v' ∧ h' ≠ h := by
  have hat := ht.valueAt_iff.mpr hh
  cases t with
  | null => exact ht.elim
  | node k mask value kid0 kid1 =>
    obtain ⟨hvalue, hg⟩ := ht
    obtain ⟨r, he, hleft, hholds⟩ := hg.removeBelow hh (fun _ : true = true => hvalue) (fun h => by cases h)
      hg.fits0.removeBelow hg.fits1.removeBelow
    refine ⟨r.2, by rw [Node.remove, he, hat]; rfl, ?_, hholds⟩
    cases hleft with
    | kept good value_eq full => exact ⟨value_eq.elim (fun h => h.trans hvalue) id, good⟩
    | gone inner fits => cases inner

theorem Whole.clear (ht : Whole t) : Whole t.clear ∧ ∀ h v, ¬ t.clear.Holds h v := by
  cases t with
  | null => exact ht.elim
  | node k mask value kid0 kid1 =>
    obtain ⟨rfl, hg⟩ := ht
    exact ⟨⟨rfl, hg.le, hg.mask_eq, hg.key_eq, trivial, trivial, .inl rfl⟩, fun h v => by simp [Node.clear, Holds]⟩

end Whole

end CS330.Gem5.Node
