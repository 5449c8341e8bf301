import CS330.Gem5.Trie

/-! The trie as a map from prefixes to values.

A handle is a prefix: some leading bits and their mask. `Holds` says which values stand under which
handles. In a trie built by `insert` and `remove` (`Good`) every kid extends its parent's prefix, the
two kids of a node differ in the first bit behind it, and a node without a value has two kids. Then
`insert` adds one value, `remove` takes one away, neither ever fails, and `lookup` finds the
shortest prefix of its key. -/
namespace CS330.Gem5.Node
open TopBits

variable {n : Nat} {V : Type}

def Holds (h : Handle n) (v : V) : Node n V → Prop
  | null => False
  | node key mask value kid0 kid1 => ((key, mask) = h ∧ value = some v) ∨ kid0.Holds h v ∨ kid1.Holds h v

/-- The handle is a prefix of the key. -/
def Covers (h : Handle n) (key : BitVec n) : Prop := key &&& h.2 = h.1

/-- Bit `w` of a node's key. -/
def bitAt (w : Nat) : Node n V → Option Bool
  | null => none
  | node key .. => some (key.getMsbD w)

/-- Kids below a node of `w` bits. -/
def Apart (w : Nat) (kid0 kid1 : Node n V) : Prop := kid1 = null ∨ kid0 ≠ null ∧ kid0.bitAt w ≠ kid1.bitAt w

/-- A subtree below a node of `w` bits. -/
def Fits (w : Nat) (k : BitVec n) : Node n V → Prop
  | null => True
  | node key mask value kid0 kid1 => ∃ w', w < w' ∧ w' ≤ n ∧ mask = TopBits.mask n w' ∧ key &&& mask = key ∧
      Agree w key k ∧ (value = none → kid1 ≠ null) ∧ kid0.Fits w' key ∧ kid1.Fits w' key ∧ Apart w' kid0 kid1

/-- A node of `w` bits. -/
structure Good (w : Nat) (key mask : BitVec n) (kid0 kid1 : Node n V) : Prop where
  le : w ≤ n
  mask_eq : mask = TopBits.mask n w
  key_eq : key &&& mask = key
  fits0 : kid0.Fits w key
  fits1 : kid1.Fits w key
  apart : Apart w kid0 kid1

section Facts
variable {w wn u : Nat} {k key mask newMask : BitVec n} {value : Option V} {kid0 kid1 t : Node n V} {h : Handle n}
  {v val : V}

theorem fits_node : (node key mask value kid0 kid1).Fits w k ↔ ∃ w', w < w' ∧ Agree w key k ∧
    (value = none → kid1 ≠ null) ∧ Good w' key mask kid0 kid1 := by
  constructor
  · rintro ⟨w', hw, hn, hm, hk, ha, hv, h0, h1, hap⟩
    exact ⟨w', hw, ha, hv, hn, hm, hk, h0, h1, hap⟩
  · rintro ⟨w', hw, ha, hv, hn, hm, hk, h0, h1, hap⟩
    exact ⟨w', hw, hn, hm, hk, ha, hv, h0, h1, hap⟩

/-- Where the handles of a subtree stand. -/
theorem Fits.holds (ht : t.Fits w k) (hh : t.Holds h v) : ∃ w', w < w' ∧ w' ≤ n ∧ h.2 = TopBits.mask n w' ∧
    h.1 &&& h.2 = h.1 ∧ Agree w h.1 k := by
  induction t generalizing w k with
  | null => exact hh.elim
  | node key mask value kid0 kid1 ih0 ih1 =>
    obtain ⟨w', hw, ha, -, hgood⟩ := fits_node.mp ht
    rcases hh with ⟨rfl, -⟩ | hh | hh
    · exact ⟨w', hw, hgood.le, hgood.mask_eq, hgood.key_eq, ha⟩
    · obtain ⟨w'', hw', hn, hm, hk, ha'⟩ := ih0 hgood.fits0 hh
      exact ⟨w'', by omega, hn, hm, hk, (ha'.mono (by omega)).trans ha⟩
    · obtain ⟨w'', hw', hn, hm, hk, ha'⟩ := ih1 hgood.fits1 hh
      exact ⟨w'', by omega, hn, hm, hk, (ha'.mono (by omega)).trans ha⟩

/-- The handles below a node, or its own. -/
theorem Good.holds (hg : Good w key mask kid0 kid1) (hh : (node key mask value kid0 kid1).Holds h v) :
    ∃ w', w ≤ w' ∧ w' ≤ n ∧ h.2 = TopBits.mask n w' ∧ h.1 &&& h.2 = h.1 ∧ Agree w h.1 key := by
  rcases hh with ⟨rfl, -⟩ | hh | hh
  · exact ⟨w, Nat.le_refl w, hg.le, hg.mask_eq, hg.key_eq, .refl w key⟩
  · obtain ⟨w', hw, hrest⟩ := hg.fits0.holds hh
    exact ⟨w', by omega, hrest⟩
  · obtain ⟨w', hw, hrest⟩ := hg.fits1.holds hh
    exact ⟨w', by omega, hrest⟩

theorem Fits.weaken (ht : t.Fits w k) (hu : u ≤ w) {k' : BitVec n} (ha : Agree u k k') : t.Fits u k' := by
  cases t with
  | null => trivial
  | node key mask value kid0 kid1 =>
    obtain ⟨w', hw, ha', hv, hgood⟩ := fits_node.mp ht
    exact fits_node.mpr ⟨w', by omega, (ha'.mono hu).trans ha, hv, hgood⟩

theorem Good.matchesKey (hg : Good w key mask kid0 kid1) (k : BitVec n) :
    (node key mask value kid0 kid1).matchesKey k = true ↔ Agree w k key := by
  have hk := hg.key_eq
  rw [hg.mask_eq] at hk
  simp only [Node.matchesKey, beq_iff_eq]
  rw [hg.mask_eq]
  exact eq_and_mask hg.le hk

theorem Good.goesAfter (hg : Good w key mask kid0 kid1) (k : BitVec n) :
    (node key mask value kid0 kid1).goesAfter k (TopBits.mask n wn) = true ↔ Agree w k key ∧ w ≤ wn := by
  simp only [Node.goesAfter, Bool.and_eq_true, hg.matchesKey, beq_iff_eq]
  rw [hg.mask_eq, mask_and_mask hg.le]

/-- Under a handle of a subtree, the subtree's own prefix. -/
theorem Good.covers (hg : Good w key mask kid0 kid1) (hh : (node key mask value kid0 kid1).Holds h v) {k : BitVec n}
    (hc : Covers h k) : Agree w k key := by
  obtain ⟨w', hw, hn, hm, hk, ha⟩ := hg.holds hh
  have hcov : Agree w' k h.1 := (eq_and_mask hn (by rw [← hm]; exact hk)).mp (by rw [← hm]; exact hc)
  exact (hcov.mono hw).trans ha

/-- A subtree on the other side of a bit does not cover the key. -/
theorem Fits.elsewhere (ht : t.Fits w k) (hbit : t.bitAt w ≠ some (key.getMsbD w)) (hh : t.Holds h v) :
    ¬ Covers h key := by
  intro hc
  cases t with
  | null => exact hh
  | node k' m' v' a b =>
    obtain ⟨w', hw, -, -, hgood⟩ := fits_node.mp ht
    exact hbit (congrArg some (hgood.covers hh hc w hw).symm)

end Facts

/-! ### Looking up -/

section Lookup
variable {w : Nat} {k key mask : BitVec n} {value : Option V} {kid0 kid1 t : Node n V} {h : Handle n} {v : V}

/-- A kid that does not match the key covers it nowhere. -/
theorem Fits.not_matches (ht : t.Fits w k) (hm : t.matchesKey key = false) (hh : t.Holds h v) : ¬ Covers h key := by
  intro hc
  cases t with
  | null => exact hh
  | node k0 m0 v0 a0 b0 =>
    obtain ⟨w0, -, -, -, hg0⟩ := fits_node.mp ht
    rw [(hg0.matchesKey key).mpr (hg0.covers hh hc)] at hm
    cases hm

theorem Fits.matches_bit (ht : t.Fits w k) (hm : t.matchesKey key = true) : t.bitAt w = some (key.getMsbD w) := by
  cases t with
  | null => cases hm
  | node k0 m0 v0 a0 b0 =>
    obtain ⟨w0, hw0, -, -, hg0⟩ := fits_node.mp ht
    exact congrArg some ((hg0.matchesKey key).mp hm w hw0).symm

/-- The shortest prefix of the key, or none if there is none. -/
def Finds (key : BitVec n) (t : Node n V) : Option (Handle n × V) → Prop
  | some (h, v) => t.Holds h v ∧ Covers h key ∧ ∀ h' v', t.Holds h' v' → Covers h' key → h.2 &&& h'.2 = h.2
  | none => ∀ h v, t.Holds h v → ¬ Covers h key

theorem Finds.of_kid {r : Option (Handle n × V)} {kid : Node n V} (hr : kid.Finds key r)
    (hkid : ∀ h v, kid.Holds h v → t.Holds h v) (honly : ∀ h v, t.Holds h v → Covers h key → kid.Holds h v) :
    t.Finds key r := by
  match r, hr with
  | some (h, v), ⟨hh, hc, hmin⟩ => exact ⟨hkid h v hh, hc, fun h' v' hh' hc' => hmin h' v' (honly h' v' hh' hc') hc'⟩
  | none, hr => exact fun h v hh hc => hr h v (honly h v hh hc) hc

theorem Good.finds (hg : Good w k mask kid0 kid1) (hm : Agree w key k)
    (h0 : kid0.matchesKey key = true → kid0.Finds key (kid0.lookupNode key))
    (h1 : kid1.matchesKey key = true → kid1.Finds key (kid1.lookupNode key)) :
    (node k mask value kid0 kid1).Finds key ((node k mask value kid0 kid1).lookupNode key) := by
  cases value with
  | some val =>
    have hmatch : (node k mask (some val) kid0 kid1).matchesKey key = true := (hg.matchesKey key).mpr hm
    refine ⟨.inl ⟨rfl, rfl⟩, beq_iff_eq.mp hmatch, fun h' v' hh' _ => ?_⟩
    obtain ⟨w', hw, -, hmask, -⟩ := hg.holds hh'
    rw [hmask, hg.mask_eq]
    exact (mask_and_mask hg.le).mpr hw
  | none =>
    simp only [lookupNode]
    split
    · rename_i hm0
      refine (h0 hm0).of_kid (fun h v hh => Or.inr (Or.inl hh)) fun h v hh hc => ?_
      rcases hh with ⟨-, hv⟩ | hh | hh
      · cases hv
      · exact hh
      · rcases hg.apart with rfl | ⟨-, hne⟩
        · exact hh.elim
        · rw [hg.fits0.matches_bit hm0] at hne
          exact absurd hc (hg.fits1.elsewhere hne.symm hh)
    · rename_i hm0
      have hnot0 : ∀ h v, kid0.Holds h v → ¬ Covers h key := fun h v hh => hg.fits0.not_matches (by simpa using hm0) hh
      split
      · rename_i hm1
        refine (h1 hm1).of_kid (fun h v hh => Or.inr (Or.inr hh)) fun h v hh hc => ?_
        rcases hh with ⟨-, hv⟩ | hh | hh
        · cases hv
        · exact absurd hc (hnot0 h v hh)
        · exact hh
      · rename_i hm1
        rintro h v (⟨-, hv⟩ | hh | hh)
        · cases hv
        · exact hnot0 h v hh
        · exact hg.fits1.not_matches (by simpa using hm1) hh

theorem Fits.finds (ht : t.Fits w k) (hm : t.matchesKey key = true) : t.Finds key (t.lookupNode key) := by
  induction t generalizing w k with
  | null => cases hm
  | node k' mask value kid0 kid1 ih0 ih1 =>
    obtain ⟨w', -, -, -, hg⟩ := fits_node.mp ht
    exact hg.finds ((hg.matchesKey key).mp hm) (ih0 hg.fits0) (ih1 hg.fits1)

end Lookup

end CS330.Gem5.Node
