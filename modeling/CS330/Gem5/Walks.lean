import CS330.Lib.RadixTraits
import CS330.Gem5.Walker
import CS330.Spec.LruPages

/-! What the walker finds in gemOS's tables.

The walker sets the accessed bit of the entries it goes through. A table that differs in such bits only
(`Stamped`) maps the same pages with the same rights (`grant`), and the walker answers with
just these, in at most four reads. -/
namespace CS330.Gem5
open GemOS Radix TopBits

/-- What the walker makes of an entry. -/
structure Traits where
  present : Bool
  writable : Bool
  user : Bool
  large : Bool
  noExec : Bool
  frame : Nat
  /-- What stands above the frame number. -/
  top : Nat

def traits (e : Nat) : Traits :=
  ⟨isPresent e, isWritable e, isUser e, e.testBit 7, e.testBit 63, extractAddrFromPageEntry e, e >>> 52⟩

/-- The frame of a page, and what may be done with it. -/
structure Rights where
  frame : Nat
  writable : Bool
  user : Bool

/-- The rights below an entry. -/
def Rights.through (r : Rights) (x : Traits) : Rights := ⟨x.frame, r.writable && x.writable, r.user && x.user⟩

/-- The rights at the end of a walk from a frame. -/
def rightsFrom (m : Memory) (f : Nat) (q : List (Fin 512)) (r : Rights) : Option Rights :=
  ((entries format m.words f q).map (List.map traits)).map fun xs => xs.foldl Rights.through r

/-- What the tables grant at an address. -/
def grant (m : Memory) (pgd addr : Nat) : Option Rights := rightsFrom m pgd (path addr) ⟨pgd, true, true⟩

/-- The same tables but for accessed bits. -/
structure Stamped (m m' : Memory) : Prop where
  owner : m'.owner = m.owner
  log : m'.log = m.log
  like : ∀ f i, traits (m'.words f i) = traits (m.words f i)

/-- No entry is one of a large page or forbids execution. -/
def Plain (m : Memory) (pgd : Nat) : Prop :=
  ∀ q i e, q.length ≤ 3 → m.entry pgd q i = some e → e.testBit 7 = false ∧ e.testBit 63 = false

section
variable {m m' m'' : Memory} {pgd f addr : Nat} {q : List (Fin 512)} {i : Fin 512} {r : Rights}

theorem traits_format (e e' : Nat) (h : traits e = traits e') :
    format.present e = format.present e' ∧ format.target e = format.target e' :=
  ⟨congrArg Traits.present h, congrArg Traits.frame h⟩

theorem isPresent_testBit (e : Nat) : isPresent e = e.testBit 0 := by
  rw [isPresent_eq, Nat.testBit_eq_decide_div_mod_eq, Nat.pow_zero, Nat.div_one]

theorem isWritable_testBit (e : Nat) : isWritable e = e.testBit 1 := by
  rw [isWritable_eq, Nat.testBit_eq_decide_div_mod_eq]

theorem isUser_testBit (e : Nat) : isUser e = e.testBit 2 := by
  rw [isUser_eq, Nat.testBit_eq_decide_div_mod_eq]

/-- The accessed bit is no trait. -/
theorem traits_accessed (e : Nat) : traits (e ||| 32) = traits e := by
  have hframe : extractAddrFromPageEntry (e ||| 32) = extractAddrFromPageEntry e := by
    rw [extractAddrFromPageEntry, Nat.shiftRight_or_distrib, show 32 >>> 12 =
      0 from rfl, Nat.or_zero, extractAddrFromPageEntry]
  have htop : (e ||| 32) >>> 52 = e >>> 52 := by
    rw [Nat.shiftRight_or_distrib, show 32 >>> 52 = 0 from rfl, Nat.or_zero]
  simp only [traits, isPresent_testBit, isWritable_testBit, isUser_testBit, Nat.testBit_or, hframe, htop]
  rw [show (32 : Nat).testBit 0 = false from rfl, show (32 : Nat).testBit 1 = false from rfl, show (32 :
    Nat).testBit 2 = false from rfl,
    show (32 : Nat).testBit 7 = false from rfl, show (32 : Nat).testBit 63 = false from rfl]
  simp only [Bool.or_false]

theorem Stamped.refl (m : Memory) : Stamped m m := ⟨rfl, rfl, fun _ _ => rfl⟩

theorem Stamped.trans (h : Stamped m m') (h' : Stamped m' m'') : Stamped m m'' :=
  ⟨h'.owner.trans h.owner, h'.log.trans h.log, fun f i => (h'.like f i).trans (h.like f i)⟩

theorem stamped_writeBack (m : Memory) (read : EntryPtr) :
    Stamped m (writeBack read
      (if (m.words read.1 read.2).testBit 5 then none else some (m.words read.1 read.2 ||| 32)) m) := by
  split
  · exact .refl m
  · refine ⟨rfl, rfl, fun f i => ?_⟩
    simp only [writeBack, Memory.write_words, put]
    by_cases hf : f = read.1
    · subst hf
      rw [Function.update_self]
      by_cases hi : i = read.2
      · subst hi
        rw [Function.update_self]
        exact traits_accessed _
      · rw [Function.update_of_ne hi]
    · rw [Function.update_of_ne hf]

theorem Stamped.node (h : Stamped m m') (pgd : Nat) (q : List (Fin 512)) : m'.node pgd q = m.node pgd q :=
  node_traits traits_format h.like pgd q

theorem Stamped.rightsFrom (h : Stamped m m') (f : Nat) (q : List (Fin 512)) (r : Rights) :
    rightsFrom m' f q r = rightsFrom m f q r := by
  simp only [Gem5.rightsFrom, entries_traits traits_format h.like f q]

theorem Stamped.grant (h : Stamped m m') (pgd addr : Nat) : grant m' pgd addr = grant m pgd addr :=
  h.rightsFrom pgd (path addr) _

/-- An entry of the stamped tables is one of the tables before. -/
theorem Stamped.entry {e' : Nat} (h : Stamped m m') (he : m'.entry pgd q i = some e') :
    ∃ e, m.entry pgd q i = some e ∧ traits e' = traits e := by
  have hmap := entryAt_traits traits_format h.like pgd q i
  rw [show entryAt format m'.words pgd q i = some e' from he, Option.map_some] at hmap
  obtain ⟨e, hentry, heq⟩ := Option.map_eq_some_iff.mp hmap.symm
  exact ⟨e, hentry, heq.symm⟩

theorem Stamped.plain (h : Stamped m m') (hplain : Plain m pgd) : Plain m' pgd := by
  intro q i e' hq he'
  obtain ⟨e, he, heq⟩ := h.entry he'
  obtain ⟨h7, h63⟩ := hplain q i e hq he
  exact ⟨(congrArg Traits.large heq).trans h7, (congrArg Traits.noExec heq).trans h63⟩

theorem rightsFrom_nil : rightsFrom m f [] r = some r := rfl

theorem rightsFrom_cons : rightsFrom m f (i :: q) r = if isPresent (m.words f i) then
    rightsFrom m (extractAddrFromPageEntry (m.words f i)) q (r.through (traits (m.words f i))) else none := by
  simp only [rightsFrom, entries]
  by_cases hp : isPresent (m.words f i) = true
  · rw [format_get_some hp, if_pos hp, Option.bind_some, Option.map_map, Option.map_map, Option.map_map]
    rfl
  · rw [format_get_none.mpr (by simpa using hp), if_neg hp]
    rfl

end

/-! ### The walk -/

section Walk
variable {enableNX : Bool} {mode : Mode} {state : WalkState} {pgd f : Nat} {q is : List (Fin 512)} {i : Fin 512}
  {m : Memory} {r : Rights} {va : BitVec 64} {entry : Page} {fuel : Nat}

/-- The result of a walk against what the tables grant. -/
def Answers (va : BitVec 64) (o : Option Rights) : Except Bool Page → Prop
  | .error present => o = none ∧ present = false
  | .ok page => page.logBytes = 12 ∧ page.vaddr = pageOf va ∧ ∃ r, o = some r ∧ page.writable = r.writable ∧
      page.user = r.user ∧ page.paddr = BitVec.ofNat 64 (r.frame * 4096)

/-- A loop that comes to its end and answers. -/
def Ends (va : BitVec 64) (m : Memory) (o : Option Rights) (run : Option (Except Bool Page × Memory)) : Prop :=
  ∃ res m', run = some (res, m') ∧ Stamped m m' ∧ Answers va o res

theorem Plain.bits (hplain : Plain m pgd) (hnode : m.node pgd q = some f) (hq : q.length ≤ 3)
    (hp : isPresent (m.words f i) = true) :
    (m.words f i).testBit 7 = false ∧ (m.words f i).testBit 63 = false := by
  apply hplain q i (m.words f i) hq
  rw [Memory.entry_of_node hnode]
  exact format_get_some hp

theorem node_next (hnode : m.node pgd q = some f) (hp : isPresent (m.words f i) = true) :
    m.node pgd (q ++ [i]) = some (extractAddrFromPageEntry (m.words f i)) := by
  rw [Memory.node_snoc, Memory.entry_of_node hnode, format_get_some hp]
  rfl

/-- A step that reads on. -/
theorem ends_next (state' : WalkState) (j : Fin 512) (next : Nat → Page) (hplain : Plain m pgd)
    (hnode : m.node pgd q = some f) (hq : q.length ≤ 3)
    (hfault : ∀ e, isPresent e = false → stepWalk enableNX mode state e entry = .fault false)
    (hstep : ∀ e, isPresent e = true → e.testBit 7 = false → e.testBit 63 = false →
      stepWalk enableNX mode state e entry = .next state' (extractAddrFromPageEntry e, j) (next e)
        (if e.testBit 5 then none else some (e ||| 32)))
    (hrest : ∀ m', Stamped m m' → isPresent (m.words f i) = true →
      Ends va m' (rightsFrom m' (extractAddrFromPageEntry (m.words f i)) is (r.through (traits (m.words f i))))
        (walkLoop enableNX mode fuel state' (extractAddrFromPageEntry (m.words f i), j) (next (m.words f i)) m')) :
    Ends va m (rightsFrom m f (i :: is) r) (walkLoop enableNX mode (fuel + 1) state (f, i) entry m) := by
  rw [rightsFrom_cons]
  simp only [walkLoop]
  by_cases hp : isPresent (m.words f i) = true
  · obtain ⟨h7, h63⟩ := hplain.bits hnode hq hp
    have hstamped := stamped_writeBack m (f, i)
    obtain ⟨res, m', hrun, hstamped', hans⟩ := hrest _ hstamped hp
    rw [hstep _ hp h7 h63, if_pos hp]
    rw [hstamped.rightsFrom] at hans
    exact ⟨res, m', hrun, hstamped.trans hstamped', hans⟩
  · rw [hfault _ (by simpa using hp), if_neg hp]
    exact ⟨_, m, rfl, .refl m, rfl, rfl⟩

theorem shifted_frame (e : Nat) : e &&& 0xffffffffff <<< 12 = extractAddrFromPageEntry e * 4096 := by
  have hshift : extractAddrFromPageEntry e * 4096 = extractAddrFromPageEntry e <<< 12 := (Nat.shiftLeft_eq _ 12).symm
  rw [hshift, extractAddrFromPageEntry]
  apply Nat.eq_of_testBit_eq
  intro k
  rw [Nat.testBit_and, Nat.testBit_shiftLeft, Nat.testBit_shiftLeft, Nat.testBit_and, Nat.testBit_shiftRight]
  by_cases hk : 12 ≤ k
  · rw [show 12 + (k - 12) = k by omega]
    simp [hk]
  · simp [hk]

theorem pageOf_eq (va : BitVec 64) : va &&& ~~~0xfff#64 = pageOf va := by
  rw [pageOf, show mask 64 52 = ~~~0xfff#64 by decide]

theorem ends_pte (hplain : Plain m pgd) (hnode : m.node pgd q = some f) (hq : q.length ≤ 3) (hva : entry.vaddr = va)
    (hw : entry.writable = r.writable) (hu : entry.user = r.user) (hlog : entry.logBytes = 12) :
    Ends va m (rightsFrom m f [i] r) (walkLoop enableNX mode (fuel + 1) .longPTE (f, i) entry m) := by
  rw [rightsFrom_cons]
  simp only [walkLoop]
  by_cases hp : isPresent (m.words f i) = true
  · obtain ⟨-, h63⟩ := hplain.bits hnode hq hp
    simp only [stepWalk, hp, h63, Bool.false_and, Bool.not_true, Bool.or_self, Bool.false_eq_true, if_false, if_true]
    refine ⟨.ok _, m, rfl, .refl m, hlog, ?_, r.through (traits (m.words f i)), rightsFrom_nil, ?_, ?_, ?_⟩
    · simp only [hva, pageOf_eq]
    · simp only [Rights.through, hw, traits]
    · simp only [Rights.through, hu, traits]
    · simp only [Rights.through, shifted_frame, traits]
  · rw [if_neg hp]
    have hp' : isPresent (m.words f i) = false := by simpa using hp
    exact ⟨.error false, m, by simp [stepWalk, hp'], .refl m, rfl, rfl⟩

theorem ends_pd (hplain : Plain m pgd) (hnode : m.node pgd q = some f) (hq : q.length = 2) (hva : entry.vaddr = va)
    (hw : entry.writable = r.writable) (hu : entry.user = r.user) :
    Ends va m (rightsFrom m f [i, l1Index va.toNat] r) (walkLoop enableNX mode (fuel + 2) .longPD (f, i) entry m) := by
  subst hva
  refine ends_next .longPTE (l1Index entry.vaddr.toNat)
    (fun e => {entry with writable := entry.writable && isWritable e, user := entry.user && isUser e, logBytes := 12})
    hplain hnode (by omega) (fun e hp => by simp [stepWalk, hp]) (fun e hp h7 h63 => ?_) fun m' hm' hp => ?_
  · simp [stepWalk, hp, h7, h63]
  · refine ends_pte (hm'.plain hplain) ((hm'.node pgd _).trans (node_next hnode hp)) (by simp [hq]) rfl ?_ ?_ rfl
    · simp only [Rights.through, traits, hw]
    · simp only [Rights.through, traits, hu]

theorem ends_pdp (hplain : Plain m pgd) (hnode : m.node pgd q = some f) (hq : q.length = 1) (hva : entry.vaddr = va)
    (hw : entry.writable = r.writable) (hu : entry.user = r.user) :
    Ends va m (rightsFrom m f [i, l2Index va.toNat, l1Index va.toNat] r)
      (walkLoop enableNX mode (fuel + 3) .longPDP (f, i) entry m) := by
  subst hva
  refine ends_next .longPD (l2Index entry.vaddr.toNat)
    (fun e => {entry with writable := entry.writable && isWritable e, user := entry.user && isUser e})
    hplain hnode (by omega) (fun e hp => by simp [stepWalk, hp]) (fun e hp h7 h63 => ?_) fun m' hm' hp => ?_
  · simp [stepWalk, hp, h63]
  · refine ends_pd (hm'.plain hplain) ((hm'.node pgd _).trans (node_next hnode hp)) (by simp [hq]) rfl ?_ ?_
    · simp only [Rights.through, traits, hw]
    · simp only [Rights.through, traits, hu]

/-- **The walker finds what the tables grant**, in four reads at most. -/
theorem startWalk_ends (hplain : Plain m pgd) (va : BitVec 64) :
    Ends va m (grant m pgd va.toNat) (startWalk enableNX mode pgd va m) := by
  have hnode : m.node pgd [] = some pgd := rfl
  refine ends_next .longPDP (l3Index va.toNat)
    (fun e => {Tlb.emptyEntry.toPage with
      vaddr := va, writable := isWritable e, user := isUser e, noExec := e.testBit 63})
    hplain hnode (by simp) (fun e hp => by simp [stepWalk, hp]) (fun e hp h7 h63 => ?_) fun m' hm' hp => ?_
  · simp [stepWalk, hp, h63]
  · refine ends_pdp (hm'.plain hplain) ((hm'.node pgd _).trans (node_next hnode hp)) rfl rfl ?_ ?_
    · simp only [Rights.through, traits, Bool.true_and]
    · simp only [Rights.through, traits, Bool.true_and]

end Walk

end CS330.Gem5
