import Mathlib.Data.List.Infix
import Mathlib.Logic.Function.Basic

/-! Radix trees in a store of nodes.

A node is a row of entries, and a present entry names the node below it. Where an
entry stands is told by the path to its node and its index there: `entryAt`. In a
tree (`IsTree`) no node is named twice, so changing one entry changes what is found
at one position and below it, and nothing else: adding an empty node adds exactly
one entry (`IsTree.entryAt_attach`), and clearing an entry of the last level removes
exactly one (`IsTree.entryAt_clear`). -/
namespace CS330.Radix

/-- Which entries are present, and the node they name. -/
structure Format (E : Type) where
  present : E → Bool
  target : E → Nat

section Walk
variable {ι E : Type} (F : Format E)

def Format.get (e : E) : Option E := if F.present e then some e else none

def node (rows : Nat → ι → E) : Nat → List ι → Option Nat
  | f, [] => some f
  | f, i :: path => (F.get (rows f i)).bind fun e => node rows (F.target e) path

def entryAt (rows : Nat → ι → E) (root : Nat) (path : List ι) (i : ι) : Option E :=
  (node F rows root path).bind fun f => F.get (rows f i)

/-- The entries a walk goes through. -/
def entries (rows : Nat → ι → E) : Nat → List ι → Option (List E)
  | _, [] => some []
  | f, i :: path => (F.get (rows f i)).bind fun e => (entries rows (F.target e) path).map (e :: ·)

/-- The store with entry `i` of node `f` replaced. -/
def put [DecidableEq ι] (rows : Nat → ι → E) (f : Nat) (i : ι) (e : E) : Nat → ι → E :=
  Function.update rows f (Function.update (rows f) i e)

variable {F} {rows rows' : Nat → ι → E} {root f g : Nat} {p q : List ι} {i j : ι} {e : E}

theorem Format.get_some (h : F.get e = some e') : e' = e ∧ F.present e = true := by
  unfold Format.get at h
  split at h
  · exact ⟨(Option.some.inj h).symm, by assumption⟩
  · cases h

theorem node_append (rows : Nat → ι → E) (f : Nat) (p q : List ι) :
    node F rows f (p ++ q) = (node F rows f p).bind fun g => node F rows g q := by
  induction p generalizing f with
  | nil => rfl
  | cons i p ih =>
    simp only [List.cons_append, node]
    cases F.get (rows f i) with
    | none => rfl
    | some e => exact ih _

theorem node_snoc (rows : Nat → ι → E) (f : Nat) (p : List ι) (i : ι) :
    node F rows f (p ++ [i]) = (entryAt F rows f p i).map F.target := by
  rw [node_append]
  unfold entryAt
  cases node F rows f p with
  | none => rfl
  | some g =>
    simp only [Option.bind_some, node]
    cases F.get (rows g i) <;> rfl

/-- A walk only sees the entries on its way. -/
theorem node_congr (h : ∀ p i f, p ++ [i] <+: q → node F rows root p = some f →
    F.get (rows' f i) = F.get (rows f i)) : node F rows' root q = node F rows root q := by
  induction q using List.reverseRecOn with
  | nil => rfl
  | append_singleton q i ih =>
    have hq := ih fun p j f hp => h p j f (hp.trans (List.prefix_append q [i]))
    rw [node_snoc, node_snoc]
    unfold entryAt
    rw [hq]
    cases hn : node F rows root q with
    | none => rfl
    | some f => simp only [Option.bind_some, h q i f (List.prefix_refl _) hn]

/-- The nodes above a node. -/
theorem node_prefix (h : node F rows root q = some f) (hp : p <+: q) : ∃ g, node F rows root p = some g := by
  obtain ⟨r, rfl⟩ := hp
  rw [node_append] at h
  obtain ⟨g, hg, -⟩ := Option.bind_eq_some_iff.mp h
  exact ⟨g, hg⟩

/-! ### The entries of a walk -/

theorem entries_none : entries F rows f q = none ↔ node F rows f q = none := by
  induction q generalizing f with
  | nil => simp [entries, node]
  | cons i q ih =>
    simp only [entries, node]
    cases F.get (rows f i) with
    | none => simp
    | some e => simpa using ih

theorem entries_snoc (rows : Nat → ι → E) (f : Nat) (p : List ι) (i : ι) : entries F rows f (p ++ [i]) =
    (entries F rows f p).bind fun es => (entryAt F rows f p i).map fun e => es ++ [e] := by
  induction p generalizing f with
  | nil =>
    simp only [List.nil_append, entries, entryAt, node, Option.bind_some]
    cases F.get (rows f i) <;> rfl
  | cons j p ih =>
    simp only [List.cons_append, entries, entryAt, node] at ih ⊢
    cases F.get (rows f j) with
    | none => rfl
    | some e =>
      simp only [Option.bind_some, ih]
      cases entries F rows (F.target e) p with
      | none => rfl
      | some es => simp [Function.comp_def]

theorem mem_entries {es : List E} (h : entries F rows root q = some es) :
    e ∈ es ↔ ∃ p i, p ++ [i] <+: q ∧ entryAt F rows root p i = some e := by
  induction q using List.reverseRecOn generalizing es with
  | nil =>
    cases h
    simp
  | append_singleton q j ih =>
    rw [entries_snoc] at h
    obtain ⟨es', hes, h⟩ := Option.bind_eq_some_iff.mp h
    obtain ⟨e', he, rfl⟩ := Option.map_eq_some_iff.mp h
    rw [List.mem_append, ih hes, List.mem_singleton]
    constructor
    · rintro (⟨p, i, hp, hi⟩ | rfl)
      · exact ⟨p, i, hp.trans (List.prefix_append q [j]), hi⟩
      · exact ⟨q, j, List.prefix_refl _, he⟩
    · rintro ⟨p, i, hp, hi⟩
      rcases List.prefix_concat_iff.mp hp with heq | hp
      · obtain ⟨rfl, hij⟩ := List.append_inj' heq rfl
        cases hij
        exact .inr (Option.some.inj (hi.symm.trans he))
      · exact .inl ⟨p, i, hp, hi⟩

theorem entries_congr (h : ∀ p i, p ++ [i] <+: q → entryAt F rows' root p i = entryAt F rows root p i) :
    entries F rows' root q = entries F rows root q := by
  induction q using List.reverseRecOn with
  | nil => rfl
  | append_singleton q j ih =>
    rw [entries_snoc, entries_snoc, h q j (List.prefix_refl _),
      ih fun p i hp => h p i (hp.trans (List.prefix_append q [j]))]

end Walk

/-- The nodes at depth at most `d` are named once among all nodes of depth at most
`d + 1`: the inner nodes are a tree, and no entry of the last level names one. -/
def IsTree {ι E : Type} (F : Format E) (rows : Nat → ι → E) (root d : Nat) : Prop :=
  ∀ p q f, p.length ≤ d → q.length ≤ d + 1 → node F rows root p = some f →
    node F rows root q = some f → q = p

section Fill
variable {ι E : Type} {F : Format E} {rows : Nat → ι → E} {root d g : Nat} {q : List ι}
  {j : ι}

/-- A node that nothing names can be filled anew. -/
theorem IsTree.node_fill (row : ι → E) (hfresh : ∀ q, q.length ≤ d → node F rows root q ≠ some g)
    (hq : q.length ≤ d + 1) : node F (Function.update rows g row) root q = node F rows root q := by
  refine node_congr fun p i f hpre hf => ?_
  have hlen := hpre.length_le
  rw [List.length_append, List.length_singleton] at hlen
  rw [Function.update_of_ne]
  rintro rfl
  exact hfresh p (by omega) hf

theorem IsTree.entryAt_fill (row : ι → E) (hfresh : ∀ q, q.length ≤ d → node F rows root q ≠ some g)
    (hq : q.length ≤ d) : entryAt F (Function.update rows g row) root q j = entryAt F rows root q j := by
  unfold entryAt
  rw [IsTree.node_fill row hfresh (by omega)]
  cases hn : node F rows root q with
  | none => rfl
  | some f =>
    have hne : f ≠ g := fun hfg => hfresh q hq (hfg ▸ hn)
    simp only [Option.bind_some, Function.update_of_ne hne]

theorem IsTree.fill (h : IsTree F rows root d) (row : ι → E)
    (hfresh : ∀ q, q.length ≤ d → node F rows root q ≠ some g) :
    IsTree F (Function.update rows g row) root d := by
  intro p q f hp hq
  rw [IsTree.node_fill row hfresh (by omega), IsTree.node_fill row hfresh hq]
  exact h p q f hp hq

end Fill

section Change
variable {ι E : Type} [DecidableEq ι] {F : Format E} {rows : Nat → ι → E} {root d f g : Nat}
  {p q : List ι} {i j : ι} {e : E}

theorem put_self (rows : Nat → ι → E) (f : Nat) (i : ι) (e : E) : put rows f i e f i = e := by
  simp [put]

theorem put_other (h : g ≠ f ∨ j ≠ i) : put rows f i e g j = rows g j := by
  unfold put
  by_cases hg : g = f
  · subst hg
    rw [Function.update_self, Function.update_of_ne (h.resolve_left fun h => h rfl)]
  · rw [Function.update_of_ne hg]

/-- Walks that do not pass the entry do not see its change. -/
theorem IsTree.node_put (h : IsTree F rows root d) (hp : p.length ≤ d) (hf : node F rows root p = some f)
    (hq : q.length ≤ d + 1) (hn : ¬ p ++ [i] <+: q) :
    node F (put rows f i e) root q = node F rows root q := by
  refine node_congr fun p' j g hpre hg => ?_
  rw [put_other]
  by_contra hc
  obtain ⟨rfl, rfl⟩ : g = f ∧ j = i := by
    constructor <;> by_contra hne
    · exact hc (.inl hne)
    · exact hc (.inr hne)
  have hlen := hpre.length_le
  rw [List.length_append, List.length_singleton] at hlen
  obtain rfl := h p p' g hp (by omega) hf hg
  exact hn hpre

/-- A walk through the entry goes where it leads now. -/
theorem IsTree.node_put_below (h : IsTree F rows root d) (hp : p.length ≤ d)
    (hf : node F rows root p = some f) (r : List ι) : node F (put rows f i e) root (p ++ [i] ++ r) =
      (F.get e).bind fun e => node F (put rows f i e) (F.target e) r := by
  have hself : ¬ p ++ [i] <+: p := fun hpre => by
    have := hpre.length_le
    rw [List.length_append, List.length_singleton] at this
    omega
  rw [node_append, node_snoc]
  unfold entryAt
  rw [h.node_put hp hf (by omega) hself, hf, Option.bind_some, put_self]
  unfold Format.get
  split
  · rfl
  · rfl

/-! ### Adding a node -/

section Attach
variable (h : IsTree F rows root d) (hp : p.length ≤ d) (hf : node F rows root p = some f)
  (hnone : F.get (rows f i) = none) (he : F.present e = true)
  (hfresh : ∀ q, q.length ≤ d + 1 → node F rows root q ≠ some (F.target e))
  (hempty : p.length < d → ∀ j, F.get (rows (F.target e) j) = none)
include h hp hf hnone he hfresh hempty

/-- The walks after an entry was added that names a fresh node, an empty one unless it is
on the last level. -/
theorem IsTree.node_attach (hq : q.length ≤ d + 1) : node F (put rows f i e) root q =
    if q = p ++ [i] then some (F.target e) else node F rows root q := by
  have hget : F.get e = some e := if_pos he
  by_cases hpre : p ++ [i] <+: q
  · obtain ⟨r, rfl⟩ := hpre
    have hold : ∀ r, r ≠ [] → node F rows root (p ++ [i] ++ r) = none := by
      intro r _
      rw [node_append, node_snoc]
      unfold entryAt
      rw [hf, Option.bind_some, hnone]
      rfl
    rw [h.node_put_below hp hf, hget, Option.bind_some]
    cases r with
    | nil => simp [node]
    | cons j r =>
      have hlt : p.length < d := by
        simp only [List.length_append, List.length_cons] at hq
        omega
      have hne : F.target e ≠ f := fun hgf => hfresh p (by omega) (hgf ▸ hf)
      rw [hold _ (List.cons_ne_nil j r), if_neg (by simp), node, put_other (.inl hne), hempty hlt j]
      rfl
  · rw [h.node_put hp hf hq hpre, if_neg]
    rintro rfl
    exact hpre (List.prefix_refl _)

theorem IsTree.attach : IsTree F (put rows f i e) root d := by
  intro a b x ha hb
  rw [h.node_attach hp hf hnone he hfresh hempty (by omega), h.node_attach hp hf hnone he hfresh hempty hb]
  split
  · split
    · intro _ _
      simp_all
    · intro hx hy
      cases hx
      exact absurd hy (hfresh b hb)
  · split
    · intro hx hy
      cases hy
      exact absurd hx (hfresh a (by omega))
    · exact h a b x ha hb

/-- Exactly one entry was added. -/
theorem IsTree.entryAt_attach (hq : q.length ≤ d) : entryAt F (put rows f i e) root q j =
    if q = p ∧ j = i then some e else entryAt F rows root q j := by
  have hget : F.get e = some e := if_pos he
  unfold entryAt
  rw [h.node_attach hp hf hnone he hfresh hempty (by omega)]
  by_cases hqp : q = p
  · subst hqp
    have hne : q ≠ q ++ [i] := by simp
    rw [if_neg hne, hf, Option.bind_some, Option.bind_some]
    by_cases hji : j = i
    · subst hji
      rw [if_pos ⟨rfl, rfl⟩, put_self, hget]
    · rw [if_neg fun hc => hji hc.2, put_other (.inr hji)]
  · rw [if_neg (show ¬ (q = p ∧ j = i) from fun hc => hqp hc.1)]
    by_cases heq : q = p ++ [i]
    · have hlt : p.length < d := by
        rw [heq, List.length_append, List.length_singleton] at hq
        omega
      have hne : F.target e ≠ f := fun hgf => hfresh p (by omega) (hgf ▸ hf)
      have hnode : node F rows root q = none := by
        rw [heq, node_snoc]
        unfold entryAt
        rw [hf, Option.bind_some, hnone]
        rfl
      rw [if_pos heq, hnode, Option.bind_some, put_other (.inl hne), hempty hlt]
      rfl
    · rw [if_neg heq]
      cases hn : node F rows root q with
      | none => rfl
      | some x =>
        have hx : x ≠ f := by
          rintro rfl
          exact hqp (h p q x hp (by omega) hf hn)
        rw [Option.bind_some, Option.bind_some, put_other (.inl hx)]

end Attach

/-- What adding an entry does to the tree. -/
structure Attached (F : Format E) (rows rows' : Nat → ι → E) (root d : Nat) (p : List ι) (i : ι) (e : E) :
    Prop where
  depth : p.length ≤ d
  parent : ∃ f, node F rows root p = some f
  missing : entryAt F rows root p i = none
  node : ∀ q, q.length ≤ d + 1 →
    node F rows' root q = if q = p ++ [i] then some (F.target e) else node F rows root q
  entry : ∀ q j, q.length ≤ d →
    entryAt F rows' root q j = if q = p ∧ j = i then some e else entryAt F rows root q j
  tree : IsTree F rows' root d

theorem IsTree.attached (h : IsTree F rows root d) (hp : p.length ≤ d) (hf : node F rows root p = some f)
    (hnone : F.get (rows f i) = none) (he : F.present e = true)
    (hfresh : ∀ q, q.length ≤ d + 1 → node F rows root q ≠ some (F.target e))
    (hempty : p.length < d → ∀ j, F.get (rows (F.target e) j) = none) :
    Attached F rows (put rows f i e) root d p i e where
  depth := hp
  parent := ⟨f, hf⟩
  missing := by rw [entryAt, hf, Option.bind_some, hnone]
  node _ := h.node_attach hp hf hnone he hfresh hempty
  entry _ _ := h.entryAt_attach hp hf hnone he hfresh hempty
  tree := h.attach hp hf hnone he hfresh hempty

/-- A node that is emptied after it was attached. -/
theorem IsTree.attached_fill (h : IsTree F rows root d) (hp : p.length ≤ d)
    (hf : node F rows root p = some f) (hnone : F.get (rows f i) = none) (he : F.present e = true)
    (hfresh : ∀ q, q.length ≤ d + 1 → node F rows root q ≠ some (F.target e)) (row : ι → E)
    (hrow : ∀ j, F.get (row j) = none) :
    Attached F rows (Function.update (put rows f i e) (F.target e) row) root d p i e := by
  have hne : F.target e ≠ f := fun hgf => hfresh p (by omega) (hgf ▸ hf)
  have hfresh' : ∀ q, q.length ≤ d → node F rows root q ≠ some (F.target e) :=
    fun q hq => hfresh q (by omega)
  have hwords : Function.update (put rows f i e) (F.target e) row =
      put (Function.update rows (F.target e) row) f i e := by
    unfold put
    rw [Function.update_of_ne (Ne.symm hne), Function.update_comm hne]
  have hnode := fun q hq => IsTree.node_fill (q := q) row hfresh' hq
  have hfill := (h.fill row hfresh').attached (e := e) (i := i) hp ((hnode p (by omega)).trans hf)
    (by rwa [Function.update_of_ne (Ne.symm hne)]) he (fun q hq => by rw [hnode q hq]; exact hfresh q hq)
    (fun _ j => by rw [Function.update_self]; exact hrow j)
  rw [hwords]
  refine ⟨hp, ⟨f, hf⟩, ?_, fun q hq => ?_, fun q j hq => ?_, hfill.tree⟩
  · rw [entryAt, hf, Option.bind_some, hnone]
  · rw [hfill.node q hq, hnode q hq]
  · rw [hfill.entry q j hq, IsTree.entryAt_fill row hfresh' hq]

section
variable {rows' : Nat → ι → E} (h : Attached F rows rows' root d p i e)
include h

/-- No node is lost. -/
theorem Attached.node_mono (hq : q.length ≤ d + 1) (hf : Radix.node F rows root q = some f) :
    Radix.node F rows' root q = some f := by
  rw [h.node q hq, if_neg, hf]
  rintro rfl
  rw [node_snoc, h.missing] at hf
  cases hf

/-- The nodes there are, are the new one and the old ones. -/
theorem Attached.node_cases (hq : q.length ≤ d + 1) (hf : Radix.node F rows' root q = some f) :
    q = p ++ [i] ∧ f = F.target e ∨ Radix.node F rows root q = some f := by
  rw [h.node q hq] at hf
  split at hf
  case isTrue heq => exact .inl ⟨heq, (Option.some.inj hf).symm⟩
  case isFalse => exact .inr hf

end

/-- The walks to other places are as before. -/
theorem Attached.entries {rows' : Nat → ι → E} (h : Attached F rows rows' root d p i e)
    (hq : q.length ≤ d + 1) (hne : q ≠ p ++ [i]) : entries F rows' root q = entries F rows root q := by
  by_cases hpre : p ++ [i] <+: q
  · -- Below the new entry there is nothing yet, and there was nothing before.
    have hold : Radix.node F rows root q = none := by
      obtain ⟨r, rfl⟩ := hpre
      rw [node_append, node_snoc, h.missing]
      rfl
    rw [entries_none.mpr hold, entries_none.mpr (by rw [h.node q hq, if_neg hne, hold])]
  · refine entries_congr fun p' j hp' => ?_
    have hlen := hp'.length_le
    rw [List.length_append, List.length_singleton] at hlen
    rw [h.entry p' j (by omega), if_neg]
    rintro ⟨rfl, rfl⟩
    exact hpre hp'

/-! ### Clearing an entry of the last level -/

section Clear
variable (h : IsTree F rows root d) (hp : p.length = d) (hf : node F rows root p = some f)
  (he : F.present e = false)
include h hp hf he

theorem IsTree.node_clear (hq : q.length ≤ d + 1) : node F (put rows f i e) root q =
    if q = p ++ [i] then none else node F rows root q := by
  have hget : F.get e = none := by simp [Format.get, he]
  by_cases hpre : p ++ [i] <+: q
  · have heq : q = p ++ [i] := by
      refine (hpre.eq_of_length ?_).symm
      have := hpre.length_le
      simp only [List.length_append, List.length_singleton] at this ⊢
      omega
    have hbelow := h.node_put_below (e := e) (i := i) (by omega) hf []
    rw [List.append_nil, hget] at hbelow
    rw [heq, hbelow, if_pos rfl]
    rfl
  · rw [h.node_put (by omega) hf hq hpre, if_neg]
    rintro rfl
    exact hpre (List.prefix_refl _)

theorem IsTree.clear : IsTree F (put rows f i e) root d := by
  intro a b x ha hb
  rw [h.node_clear hp hf he (by omega), h.node_clear hp hf he hb]
  split
  · intro hx
    cases hx
  · split
    · intro _ hy
      cases hy
    · exact h a b x ha hb

theorem IsTree.entryAt_clear (hq : q.length ≤ d) : entryAt F (put rows f i e) root q j =
    if q = p ∧ j = i then none else entryAt F rows root q j := by
  have hget : F.get e = none := by simp [Format.get, he]
  have hne : q ≠ p ++ [i] := by
    rintro rfl
    rw [List.length_append, List.length_singleton] at hq
    omega
  unfold entryAt
  rw [h.node_clear hp hf he (by omega), if_neg hne]
  cases hn : node F rows root q with
  | none => split <;> rfl
  | some x =>
    rw [Option.bind_some, Option.bind_some]
    by_cases hqp : q = p
    · subst hqp
      rw [hf] at hn
      cases hn
      by_cases hji : j = i
      · subst hji
        rw [if_pos ⟨rfl, rfl⟩, put_self, hget]
      · rw [if_neg fun hc => hji hc.2, put_other (.inr hji)]
    · have hx : x ≠ f := by
        rintro rfl
        exact hqp (h p q x (by omega) (by omega) hf hn)
      rw [if_neg fun hc => hqp hc.1, put_other (.inl hx)]

end Clear

/-- What clearing an entry of the last level does to the tree. -/
structure Cleared (F : Format E) (rows rows' : Nat → ι → E) (root d : Nat) (p : List ι) (i : ι) : Prop where
  depth : p.length = d
  node : ∀ q, q.length ≤ d + 1 →
    node F rows' root q = if q = p ++ [i] then none else node F rows root q
  entry : ∀ q j, q.length ≤ d →
    entryAt F rows' root q j = if q = p ∧ j = i then none else entryAt F rows root q j
  tree : IsTree F rows' root d

theorem IsTree.cleared (h : IsTree F rows root d) (hp : p.length = d) (hf : node F rows root p = some f)
    (he : F.present e = false) : Cleared F rows (put rows f i e) root d p i where
  depth := hp
  node _ := h.node_clear hp hf he
  entry _ _ := h.entryAt_clear hp hf he
  tree := h.clear hp hf he

theorem Cleared.entries {rows' : Nat → ι → E} (h : Cleared F rows rows' root d p i)
    (hq : q.length ≤ d + 1) (hne : q ≠ p ++ [i]) : entries F rows' root q = entries F rows root q := by
  refine entries_congr fun p' j hp' => ?_
  have hlen := hp'.length_le
  rw [List.length_append, List.length_singleton] at hlen
  rw [h.entry p' j (by omega), if_neg]
  rintro ⟨rfl, rfl⟩
  refine hne (hp'.eq_of_length ?_).symm
  rw [List.length_append, List.length_singleton, h.depth] at *
  omega

end Change

end CS330.Radix
