import CS330.GemOS.Confined

/-! The permissions on the way to a segment's pages.

Entries take the flags of the segment whose fault made them. As long as no two segments
share an entry below the top level, every entry on the way to a page carries what the
page's own segment asks for (`Respects`), whatever faulted before. -/
namespace CS330.GemOS.Lazy
open Machine

/-- The entries on the way to an address are user-accessible, and writable if the flags say so. -/
def Carries (m : Memory) (pgd a flags : Nat) : Prop := ∀ p i e, p ++ [i] <+: path a →
  m.entry pgd p i = some e → isUser e = true ∧ (isWritable flags = true → isWritable e = true)

structure Respects (s : State) : Prop where
  data_writable : isWritable (s.seg .data).accessFlags = true
  stack_writable : isWritable (s.seg .stack).accessFlags = true
  rodata_readonly : isWritable (s.seg .rodata).accessFlags = false
  /-- No two segments share a level-3 entry. -/
  apart : ∀ j k a b, j ≠ .code → k ≠ .code → (s.seg j).Has a → (s.seg k).Has b →
    l4Index a = l4Index b → l3Index a = l3Index b → j = k
  /-- The level-4 entries are there already. -/
  top : ∀ k a, k ≠ .code → (s.seg k).Has a → ∃ e, s.mem.entry s.current.pgd [] (l4Index a) = some e
  carries : ∀ k a, k ≠ .code → (s.seg k).Has a → Carries s.mem s.current.pgd a (s.seg k).accessFlags

section
variable {alloc : Allocator} {s t : State} {k : MmSeg} {op : Op} {r : Ret} {cr2 errorCode : Nat}

/-- A place below the top on the way to two addresses makes them share a level-3 entry. -/
theorem indices_of_common {p : List (Fin 512)} {i : Fin 512} {a b : Nat} (hp : p ≠ [])
    (ha : p ++ [i] <+: path a) (hb : p ++ [i] <+: path b) : l4Index a = l4Index b ∧ l3Index a = l3Index b := by
  cases p with
  | nil => exact absurd rfl hp
  | cons x p =>
    cases p with
    | nil =>
      simp only [path, List.singleton_append, List.cons_prefix_cons] at ha hb
      exact ⟨ha.1.symm.trans hb.1, ha.2.1.symm.trans hb.2.1⟩
    | cons y p =>
      simp only [path, List.cons_append, List.cons_prefix_cons] at ha hb
      exact ⟨ha.1.symm.trans hb.1, ha.2.1.symm.trans hb.2.1⟩

/-- The entries a fault adds are its own segment's. -/
theorem Respects.grow {m : Memory} {j : MmSeg} (hs : Respects s) (hj : j ≠ .code) (hcr2 : (s.seg j).Has cr2)
    (h : Grow s.current.pgd cr2 (s.seg j).accessFlags 0 s.mem m) : Respects {s with mem := m} := by
  obtain ⟨p, i, g, hlt, hpath, hattach⟩ := h.attached
  have hbelow : p ≠ [] := by
    rintro rfl
    obtain ⟨e, he⟩ := hs.top j cr2 hj hcr2
    have hi : i = l4Index cr2 := by simpa [path] using hpath
    rw [hi] at hattach
    exact absurd (he.symm.trans hattach.missing) (by simp)
  refine ⟨hs.data_writable, hs.stack_writable, hs.rodata_readonly, hs.apart, fun k a hk ha => ?_,
    fun k a hk ha q x e hq he => ?_⟩
  · obtain ⟨e, he⟩ := hs.top k a hk ha
    refine ⟨e, (hattach.entry [] _ (by simp)).trans ?_⟩
    rw [if_neg fun hc => hbelow hc.1.symm]
    exact he
  · have hlen := hq.length_le
    rw [List.length_append, List.length_singleton, path_length] at hlen
    rw [Memory.entry, hattach.entry q x (by omega)] at he
    split at he
    case isTrue hnew =>
      obtain ⟨rfl, rfl⟩ := hnew
      cases he
      obtain ⟨hl4, hl3⟩ := indices_of_common hbelow hpath hq
      obtain rfl := hs.apart j k cr2 a hj hk hcr2 ha hl4 hl3
      refine ⟨makeEntry_user hlt, fun hwr => ?_⟩
      rw [makeEntry_writable hlt]
      exact hwr
    case isFalse => exact hs.carries k a hk ha q x e hq he

theorem Respects.grows {m : Memory} {j : MmSeg} (hs : Respects s) (hj : j ≠ .code) (hcr2 : (s.seg j).Has cr2)
    (h : Grows s.current.pgd cr2 (s.seg j).accessFlags 0 s.mem m) : Respects {s with mem := m} := by
  induction h with
  | refl => exact hs
  | @tail u _ _ hgrow ih => exact Respects.grow (s := {s with mem := u}) ih hj hcr2 hgrow

theorem Respects.fault {o : Outcome} (hs : Respects s) (hc : Confined s)
    (h : handlePageFault alloc cr2 errorCode s = some (o, t)) : Respects t := by
  rcases handlePageFault_cases h with ⟨-, -, rfl⟩ | ⟨j, m, hserved, -, rfl, hm⟩
  · exact hs
  · obtain ⟨hj, hhas, -⟩ := served_has hc.layout hserved
    obtain ⟨-, hgrows, -⟩ := assignPage_spec hc.ledger.tree (Spare.zero _ _) hm
    exact hs.grows hj hhas hgrows

/-- Giving a page back takes an entry of the last level away. -/
theorem Respects.free {m : Memory} {addr : Nat} (hs : Respects s)
    (h : FreePage s.current.pgd addr s.mem m) : Respects {s with mem := m} := by
  cases h with
  | unmapped _ h =>
    subst h
    exact ⟨hs.1, hs.2, hs.3, hs.4, hs.5, hs.6⟩
  | freed _ _ hclear _ _ =>
    refine ⟨hs.1, hs.2, hs.3, hs.4, fun k a hk ha => ?_, fun k a hk ha q x e hq he => ?_⟩
    · obtain ⟨e, he⟩ := hs.top k a hk ha
      refine ⟨e, (hclear.entry [] _ (by simp)).trans ?_⟩
      rw [if_neg fun hc => by simpa [dir] using hc.1]
      exact he
    · have hlen := hq.length_le
      rw [List.length_append, List.length_singleton, path_length] at hlen
      rw [Memory.entry, hclear.entry q x (by omega)] at he
      split at he
      · cases he
      · exact hs.carries k a hk ha q x e hq he

/-- Where `next_free` stands does not matter. -/
theorem Respects.move (hs : Respects s) (k : MmSeg) (v : Nat) : Respects (s.setNextFree k v) := by
  have hsame : ∀ j, ((s.setNextFree k v).seg j).start = (s.seg j).start ∧
      ((s.setNextFree k v).seg j).end_ = (s.seg j).end_ ∧
      ((s.setNextFree k v).seg j).accessFlags = (s.seg j).accessFlags := by
    intro j
    by_cases hj : j = k
    · subst hj
      rw [setNextFree_seg]
      exact ⟨rfl, rfl, rfl⟩
    · rw [setNextFree_other hj]
      exact ⟨rfl, rfl, rfl⟩
  have hhas : ∀ j a, ((s.setNextFree k v).seg j).Has a ↔ (s.seg j).Has a := by
    intro j a
    unfold MmSegment.Has
    rw [(hsame j).1, (hsame j).2.1]
  constructor
  · rw [(hsame _).2.2]
    exact hs.data_writable
  · rw [(hsame _).2.2]
    exact hs.stack_writable
  · rw [(hsame _).2.2]
    exact hs.rodata_readonly
  · intro i j a b hi hj ha hb
    exact hs.apart i j a b hi hj ((hhas i a).mp ha) ((hhas j b).mp hb)
  · intro j a hj ha
    exact hs.top j a hj ((hhas j a).mp ha)
  · intro j a hj ha
    rw [(hsame j).2.2]
    exact hs.carries j a hj ((hhas j a).mp ha)

theorem Respects.shrinkLoop {size : Nat} (hs : Respects s) (hc : Confined s) (hk : Moves k)
    (hroom : (s.seg k).start + size * 4096 ≤ (s.seg k).nextFree) : Respects (shrinkLoop k size s) := by
  refine (Confined.shrinkLoop_rule hk (fun u hu hone hs => ?_) hc hs hroom).2
  have hend := hu.layout.le_end k hk
  have hhigh := hu.layout.high k hk.ne_code
  rw [giveBack_eq (by omega) (by omega)]
  exact Respects.free (hs.move k _) (freeDataPage_spec hu.ledger.tree.tree)

theorem Respects.step (hs : Respects s) (hc : Confined s) (h : step alloc op s = some (r, t))
    (htame : Tame op s) : Respects t := by
  cases op with
  | fault cr2 errorCode =>
    obtain ⟨⟨o, u⟩, hu, heq⟩ := Option.map_eq_some_iff.mp h
    cases heq
    exact hs.fault hc hu
  | expand param1 param2 =>
    obtain ⟨⟨v, u⟩, hu, heq⟩ := Option.map_eq_some_iff.mp h
    cases heq
    rcases syscallExpand_cases hc.layout hu with rfl | ⟨k, w, -, -, -, rfl⟩
    · exact hs
    · exact hs.move k _
  | shrink param1 param2 =>
    obtain ⟨⟨v, u⟩, hu, heq⟩ := Option.map_eq_some_iff.mp h
    cases heq
    rcases syscallShrink_cases hc.layout hu htame with rfl | ⟨k, size, hk, hroom, rfl⟩
    · exact hs
    · exact hs.shrinkLoop hc hk hroom

end

end CS330.GemOS.Lazy
