import CS330.GemOS.Built
import CS330.GemOS.Launch

/-! What `prepare_context_mm` builds, stage by stage.

An empty root, then the page of the stack, of the code and of the data, each grown on
the table the one before left. An entry that two walks share was made by the first. -/
namespace CS330.GemOS
open Radix Relation

section Grows
variable {m t : Memory} {pgd addr flags pfn e : Nat} {p : List (Fin 512)} {i : Fin 512}

theorem Grow.entry_mono (h : Grow pgd addr flags pfn m t) (hp : p.length ≤ 3) (he : m.entry pgd p i = some e) :
    t.entry pgd p i = some e := by
  obtain ⟨p', i', g, -, -, hattach⟩ := h.attached
  rw [Memory.entry, hattach.entry p i hp, if_neg]
  · exact he
  · rintro ⟨rfl, rfl⟩
    exact absurd (he.symm.trans hattach.missing) (by simp)

theorem Grow.entry_cases (h : Grow pgd addr flags pfn m t) (hp : p.length ≤ 3) (he : t.entry pgd p i = some e) :
    m.entry pgd p i = some e ∨
      m.entry pgd p i = none ∧ p ++ [i] <+: path addr ∧ ∃ g < 2 ^ 40, e = makeEntry g flags := by
  obtain ⟨p', i', g, hlt, hpath, hattach⟩ := h.attached
  rw [Memory.entry, hattach.entry p i hp] at he
  split at he
  case isTrue hnew =>
    obtain ⟨rfl, rfl⟩ := hnew
    exact .inr ⟨hattach.missing, hpath, g, hlt, (Option.some.inj he).symm⟩
  case isFalse => exact .inl he

theorem Grows.entry_mono (h : Grows pgd addr flags pfn m t) (hp : p.length ≤ 3)
    (he : m.entry pgd p i = some e) : t.entry pgd p i = some e := by
  induction h with
  | refl => exact he
  | tail _ hgrow ih => exact hgrow.entry_mono hp ih

/-- The entries after growth: those there were, and new ones on the walk with the flags. -/
theorem Grows.entry_cases (h : Grows pgd addr flags pfn m t) (hp : p.length ≤ 3)
    (he : t.entry pgd p i = some e) : m.entry pgd p i = some e ∨
      m.entry pgd p i = none ∧ p ++ [i] <+: path addr ∧ ∃ g < 2 ^ 40, e = makeEntry g flags := by
  induction h with
  | refl => exact .inl he
  | @tail u _ hgrows hgrow ih =>
    rcases hgrow.entry_cases hp he with hu | ⟨hnone, hnew⟩
    · exact ih hu
    · refine .inr ⟨?_, hnew⟩
      cases hm : m.entry pgd p i with
      | none => rfl
      | some e' => exact absurd (hnone.symm.trans (Grows.entry_mono hgrows hp hm)) (by simp)

theorem Grows.node_mono {q : List (Fin 512)} {f : Nat} (h : Grows pgd addr flags pfn m t) (hq : q.length ≤ 4)
    (hf : m.node pgd q = some f) : t.node pgd q = some f := by
  induction h with
  | refl => exact hf
  | tail _ hgrow ih =>
    obtain ⟨p, i, g, -, -, hattach⟩ := hgrow.attached
    exact hattach.node_mono hq ih

/-- While the page is not mapped, only tables were added. -/
theorem Grows.allocs_unmapped (h : Grows pgd addr flags pfn m t) (ht : t.walk pgd addr = none) :
    allocs .userReg t.log = allocs .userReg m.log := by
  induction h with
  | refl => rfl
  | @tail u v _ hgrow ih =>
    have hmapped : ∀ {g : Nat}, Attached format u.words v.words pgd 3 (dir addr) (l1Index addr)
        (makeEntry g flags) → False := by
      intro g hattach
      have hleaf := hattach.entry (dir addr) (l1Index addr) (by simp)
      rw [if_pos ⟨rfl, rfl⟩] at hleaf
      exact absurd ((walk_none.mp ht).symm.trans hleaf) (by simp)
    rw [← ih hgrow.unmapped]
    cases hgrow with
    | table _ _ _ _ _ _ hlog => rw [hlog]; rfl
    | page _ _ hattach => exact (hmapped hattach).elim
    | given _ _ hattach => exact (hmapped hattach).elim

/-- The frame a page is mapped to: one allocated for it last, or the one that was given. -/
theorem Grows.frame (h : Grows pgd addr flags pfn m t) (hm : m.walk pgd addr = none)
    (ht : t.walk pgd addr ≠ none) : ∃ g, t.translate pgd addr = some g ∧ t.leaf pgd addr = some (makeEntry g flags) ∧
      (pfn = 0 ∧ m.owner g = none ∧ t.owner g = some .userReg ∧
          allocs .userReg t.log = g :: allocs .userReg m.log ∨
        pfn ≠ 0 ∧ g = pfn ∧ allocs .userReg t.log = allocs .userReg m.log) := by
  rcases h.cases_tail with heq | ⟨u, hgrows, hgrow⟩
  · exact absurd (heq ▸ hm) ht
  · have hunmapped := hgrow.unmapped
    have hallocs := Grows.allocs_unmapped hgrows hunmapped
    have hresult : ∀ {g : Nat}, g < 2 ^ 40 → Attached format u.words t.words pgd 3 (dir addr) (l1Index addr)
        (makeEntry g flags) → t.translate pgd addr = some g ∧ t.leaf pgd addr = some (makeEntry g flags) := by
      intro g hlt hattach
      constructor
      · refine (hattach.node (path addr) (by simp)).trans ?_
        rw [if_pos (path_eq addr), makeEntry_target hlt]
      · exact (hattach.entry _ _ (by simp)).trans (if_pos ⟨rfl, rfl⟩)
    cases hgrow with
    | @table p i g f hlen _ hattach =>
      refine absurd ?_ ht
      rw [walk_none] at hunmapped ⊢
      refine (hattach.entry _ _ (by simp)).trans ?_
      rw [if_neg]
      · exact hunmapped
      · rintro ⟨hp, -⟩
        rw [← hp] at hlen
        simp at hlen
    | @page f g hpfn _ hattach hfree hlt howner hlog =>
      obtain ⟨htranslate, hleaf⟩ := hresult hlt hattach
      refine ⟨g, htranslate, hleaf, .inl ⟨hpfn, ?_, by rw [howner, Function.update_self], ?_⟩⟩
      · by_contra hused
        exact hused (Grows.owner hgrows hused ▸ hfree)
      · rw [← hallocs, hlog]
        rfl
    | given hpfn _ hattach _ hlt _ hlog =>
      obtain ⟨htranslate, hleaf⟩ := hresult hlt hattach
      refine ⟨pfn, htranslate, hleaf, .inr ⟨hpfn, rfl, ?_⟩⟩
      rw [← hallocs, hlog]
      rfl

end Grows

namespace Launch

/-- The three pages, in the order they are mapped. -/
def ExecContext.pages (ctx : ExecContext) : List Nat := [ctx.stackPage, ctx.code.start, ctx.data.start]

/-- Three distinct pages below 2^48. -/
structure ExecContext.Distinct (ctx : ExecContext) : Prop where
  stack_lt : ctx.stackPage < 2 ^ 48
  code_lt : ctx.code.start < 2 ^ 48
  data_lt : ctx.data.start < 2 ^ 48
  code_stack : ctx.code.start / 4096 ≠ ctx.stackPage / 4096
  data_stack : ctx.data.start / 4096 ≠ ctx.stackPage / 4096
  data_code : ctx.data.start / 4096 ≠ ctx.code.start / 4096

/-- The memory after the root was made, and after each of the three pages was assigned. -/
structure Stages (ctx : ExecContext) (m : Memory) (pgd : Nat) (m₀ m₁ m₂ t : Memory) : Prop where
  root_free : m.owner pgd = none
  root_owner : m₀.owner = Function.update m.owner pgd (some .osPtReg)
  root_empty : ∀ i, m₀.words pgd i = 0
  root_log : allocs .userReg m₀.log = []
  built : Built t pgd ctx.pages
  stack : Grows pgd ctx.stackPage ctx.stack.accessFlags 0 m₀ m₁
  code : Grows pgd ctx.code.start ctx.code.accessFlags 0 m₁ m₂
  data : Grows pgd ctx.data.start ctx.data.accessFlags ctx.argPfn m₂ t
  stack_mapped : m₁.walk pgd ctx.stackPage ≠ none
  code_mapped : m₂.walk pgd ctx.code.start ≠ none
  data_mapped : t.walk pgd ctx.data.start ≠ none

/-- What the caller provides: an allocator that has thirteen frames and returns 32-bit numbers,
and no frame for the arguments or one in use. -/
structure Ready (alloc : Allocator) (ctx : ExecContext) (m : Memory) : Prop where
  honest : Honest alloc 13 m.owner
  u32 : ∀ r owner, alloc r owner < 2 ^ 32
  arg_lt : ctx.argPfn < 2 ^ 32
  arg_used : ctx.argPfn ≠ 0 → m.owner ctx.argPfn ≠ none
  log : m.log = []

section
variable {alloc : Allocator} {ctx : ExecContext} {m m₀ m₁ m₂ t : Memory} {pgd : Nat}

/-- The empty root is an address space with no page. -/
theorem built_root (hempty : ∀ i, m₀.words pgd i = 0) (howner : m₀.owner pgd = some .osPtReg)
    (hlog : m₀.log = [.alloc .osPtReg pgd]) (as : List Nat) : Built m₀ pgd as := by
  have hnode : ∀ {q : List (Fin 512)} {f : Nat}, m₀.node pgd q = some f → q = [] ∧ f = pgd := by
    intro q f hf
    rw [node_empty hempty] at hf
    split at hf
    case isTrue hq => exact ⟨hq, (Option.some.inj hf).symm⟩
    case isFalse => cases hf
  have hallocs : allocs .osPtReg m₀.log = [pgd] := by rw [hlog]; rfl
  refine ⟨pageTree_empty hempty (by simp [howner]), fun q f _ hf => .inl (hnode hf).1, fun g => ?_, ?_,
    fun q f _ hf => ?_, fun q f i _ hf => ?_⟩
  · rw [hallocs, List.mem_singleton]
    constructor
    · rintro rfl
      exact ⟨[], by simp, rfl⟩
    · rintro ⟨q, -, hf⟩
      exact (hnode hf).2
  · rw [hallocs]
    simp
  · rw [(hnode hf).2]
    exact howner
  · rw [(hnode hf).2, hempty i]
    exact clean_zero

/-- **`prepare_context_mm` runs through its stages.** -/
theorem prepareContextMm_stages (h : Ready alloc ctx m) : ∃ pgd m₀ m₁ m₂ t,
    prepareContextMm alloc ctx m = some ({ctx with pgd := pgd}, t) ∧ Stages ctx m pgd m₀ m₁ m₂ t := by
  obtain ⟨pgd, r, halloc, hr⟩ := Honest.osPfnAlloc (k := 12) h.honest .osPtReg
  have hpgd : pgd % 2 ^ 32 = pgd := Nat.mod_eq_of_lt (osPfnAlloc_frame halloc ▸ h.u32 _ _)
  obtain ⟨hfree, hlt, hroot⟩ := osPfnAlloc_some halloc
  have howner : (r.initializePage pgd).owner = Function.update m.owner pgd (some .osPtReg) := by rw [hroot]; rfl
  have hlog : (r.initializePage pgd).log = [.alloc .osPtReg pgd] := by rw [hroot, ← h.log]; rfl
  have hempty : ∀ i, (r.initializePage pgd).words pgd i = 0 := fun i => by simp [Memory.initializePage]
  have hbuilt₀ : Built (r.initializePage pgd) pgd ctx.pages :=
    built_root hempty (by rw [howner, Function.update_self]) hlog _
  -- The frame of the arguments is in use, so no frame of the tables is it.
  have hspare : Spare pgd ctx.argPfn (r.initializePage pgd) := by
    have hne : ctx.argPfn ≠ 0 → ctx.argPfn ≠ pgd := fun h0 hc => h.arg_used h0 (hc ▸ hfree)
    refine ⟨lt_trans h.arg_lt (by omega), fun h0 => ?_, fun h0 q _ => ?_⟩
    · rw [howner, Function.update_of_ne (hne h0)]
      exact h.arg_used h0
    · rw [node_empty hempty]
      split
      · exact fun hc => hne h0 (Option.some.inj hc).symm
      · simp
  obtain ⟨m₁, hm₁, hh₁⟩ := Honest.assignPage (k := 8) (m := r.initializePage pgd) hr pgd ctx.stackPage
    ctx.stack.accessFlags 0
  obtain ⟨htree₁, hgrows₁, hmapped₁⟩ := assignPage_spec hbuilt₀.tree (Spare.zero pgd _) hm₁
  obtain ⟨m₂, hm₂, hh₂⟩ := Honest.assignPage (k := 4) hh₁ pgd ctx.code.start ctx.code.accessFlags 0
  obtain ⟨htree₂, hgrows₂, hmapped₂⟩ := assignPage_spec htree₁ (Spare.zero pgd _) hm₂
  obtain ⟨t, ht, -⟩ := Honest.assignPage (k := 0) hh₂ pgd ctx.data.start ctx.data.accessFlags ctx.argPfn
  obtain ⟨-, hgrows, hmapped⟩ := assignPage_spec htree₂ (hgrows₂.spare (hgrows₁.spare hspare)) ht
  have hbuilt := hgrows.built (hgrows₂.built (hgrows₁.built hbuilt₀ (by simp [ExecContext.pages]))
    (by simp [ExecContext.pages])) (by simp [ExecContext.pages])
  refine ⟨pgd, r.initializePage pgd, m₁, m₂, t, ?_, hfree, howner, hempty, by rw [hlog]; rfl, hbuilt, hgrows₁,
    hgrows₂, hgrows, hmapped₁, hmapped₂, hmapped⟩
  unfold prepareContextMm
  simp only [halloc, hpgd, Option.bind_some]
  rw [show ExecContext.stackPage {ctx with pgd := pgd} = ctx.stackPage from rfl, hm₁, Option.bind_some, hm₂,
    Option.bind_some, ht]
  rfl

end

/-! ### What the stages amount to -/

section
variable {ctx : ExecContext} {m m₀ m₁ m₂ t : Memory} {pgd e : Nat} {p : List (Fin 512)} {i : Fin 512}

namespace ExecContext.Distinct
variable (hd : ctx.Distinct)
include hd

theorem code_ne_stack : path ctx.code.start ≠ path ctx.stackPage :=
  fun hc => hd.code_stack (path_inj hd.code_lt hd.stack_lt hc)

theorem data_ne_stack : path ctx.data.start ≠ path ctx.stackPage :=
  fun hc => hd.data_stack (path_inj hd.data_lt hd.stack_lt hc)

theorem data_ne_code : path ctx.data.start ≠ path ctx.code.start :=
  fun hc => hd.data_code (path_inj hd.data_lt hd.code_lt hc)

end ExecContext.Distinct

/-- On the way to a mapped page every entry is there. -/
theorem entry_of_mapped {addr : Nat} (h : m.walk pgd addr ≠ none) (hp : p ++ [i] <+: path addr) :
    ∃ e, m.entry pgd p i = some e := by
  obtain ⟨f, hf⟩ := Option.ne_none_iff_exists'.mp fun hc => h (walk_none_iff_translate.mpr hc)
  obtain ⟨x, hx⟩ := node_prefix hf hp
  have hx' := (m.node_snoc pgd p i).symm.trans hx
  obtain ⟨e, he, -⟩ := Option.map_eq_some_iff.mp hx'
  exact ⟨e, he⟩

/-- The flags an entry was made with: those of the first page whose walk goes through it. -/
def firstFlags (ctx : ExecContext) (p : List (Fin 512)) (i : Fin 512) : Nat :=
  if p ++ [i] <+: path ctx.stackPage then ctx.stack.accessFlags
  else if p ++ [i] <+: path ctx.code.start then ctx.code.accessFlags
  else ctx.data.accessFlags

namespace Stages
variable (h : Stages ctx m pgd m₀ m₁ m₂ t) (hd : ctx.Distinct)
include h

theorem stack_unmapped : m₀.walk pgd ctx.stackPage = none :=
  walk_none.mpr (entry_empty h.root_empty _ _)

/-- Every entry has the flags of the first page that uses it. -/
theorem entry_eq (hp : p.length ≤ 3) (he : t.entry pgd p i = some e) :
    ∃ g < 2 ^ 40, e = makeEntry g (firstFlags ctx p i) := by
  rcases h.data.entry_cases hp he with he₂ | ⟨hnone, -, g, hlt, rfl⟩
  · rcases h.code.entry_cases hp he₂ with he₁ | ⟨hnone, hcode, g, hlt, rfl⟩
    · rcases h.stack.entry_cases hp he₁ with he₀ | ⟨-, hstack, g, hlt, rfl⟩
      · cases (entry_empty h.root_empty p i).symm.trans he₀
      · exact ⟨g, hlt, by rw [firstFlags, if_pos hstack]⟩
    · have hstack : ¬ p ++ [i] <+: path ctx.stackPage := by
        intro hc
        obtain ⟨e', he'⟩ := entry_of_mapped h.stack_mapped hc
        exact absurd (hnone.symm.trans he') (by simp)
      exact ⟨g, hlt, by rw [firstFlags, if_neg hstack, if_pos hcode]⟩
  · have hcode : ¬ p ++ [i] <+: path ctx.code.start := by
      intro hc
      obtain ⟨e', he'⟩ := entry_of_mapped h.code_mapped hc
      exact absurd (hnone.symm.trans he') (by simp)
    have hstack : ¬ p ++ [i] <+: path ctx.stackPage := by
      intro hc
      obtain ⟨e', he'⟩ := entry_of_mapped h.stack_mapped hc
      exact absurd (hnone.symm.trans (h.code.entry_mono hp he')) (by simp)
    exact ⟨g, hlt, by rw [firstFlags, if_neg hstack, if_neg hcode]⟩

include hd

theorem code_unmapped : m₁.walk pgd ctx.code.start = none := by
  rw [h.stack.walk hd.code_ne_stack]
  exact walk_none.mpr (entry_empty h.root_empty _ _)

theorem data_unmapped : m₂.walk pgd ctx.data.start = none := by
  rw [h.code.walk hd.data_ne_code, h.stack.walk hd.data_ne_stack]
  exact walk_none.mpr (entry_empty h.root_empty _ _)

theorem stack_walk : t.walk pgd ctx.stackPage = m₁.walk pgd ctx.stackPage := by
  rw [h.data.walk (Ne.symm hd.data_ne_stack), h.code.walk (Ne.symm hd.code_ne_stack)]

theorem code_walk : t.walk pgd ctx.code.start = m₂.walk pgd ctx.code.start :=
  h.data.walk (Ne.symm hd.data_ne_code)

/-- Exactly the three pages are mapped. -/
theorem mapped_iff {a : Nat} : t.walk pgd a ≠ none ↔ ∃ b ∈ ctx.pages, path a = path b := by
  constructor
  · intro ha
    obtain ⟨f, hf⟩ := Option.ne_none_iff_exists'.mp fun hc => ha (walk_none_iff_translate.mpr hc)
    rcases h.built.spans (path a) f (by simp) hf with hnil | ⟨b, hb, hpre⟩
    · simp [path] at hnil
    · exact ⟨b, hb, hpre.eq_of_length (by simp)⟩
  · rintro ⟨b, hb, hpath⟩
    rw [Memory.walk, hpath]
    simp only [ExecContext.pages, List.mem_cons, List.not_mem_nil, or_false] at hb
    rcases hb with hb | hb | hb <;> rw [hb]
    · exact fun hc => h.stack_mapped ((h.stack_walk hd).symm.trans hc)
    · exact fun hc => h.code_mapped ((h.code_walk hd).symm.trans hc)
    · exact h.data_mapped

end Stages

/-- The frames of the three pages. -/
structure Frames (ctx : ExecContext) (m : Memory) (pgd : Nat) (t : Memory) (fs fc fd : Nat) : Prop where
  stack : t.translate pgd ctx.stackPage = some fs
  code : t.translate pgd ctx.code.start = some fc
  data : t.translate pgd ctx.data.start = some fd
  stack_fresh : m.owner fs = none ∧ t.owner fs = some .userReg
  code_fresh : m.owner fc = none ∧ t.owner fc = some .userReg
  stack_ne_code : fs ≠ fc
  data_fresh : ctx.argPfn = 0 → m.owner fd = none ∧ t.owner fd = some .userReg
  data_given : ctx.argPfn ≠ 0 → fd = ctx.argPfn
  allocs : allocs .userReg t.log = if ctx.argPfn = 0 then [fd, fc, fs] else [fc, fs]

theorem Stages.frames (h : Stages ctx m pgd m₀ m₁ m₂ t) (hd : ctx.Distinct) :
    ∃ fs fc fd, Frames ctx m pgd t fs fc fd := by
  obtain ⟨fs, hfs, -, hs⟩ := h.stack.frame h.stack_unmapped h.stack_mapped
  obtain ⟨-, hsfree, hsowner, hsallocs⟩ := hs.resolve_right fun hc => hc.1 rfl
  obtain ⟨fc, hfc, -, hc⟩ := h.code.frame (h.code_unmapped hd) h.code_mapped
  obtain ⟨-, hcfree, hcowner, hcallocs⟩ := hc.resolve_right fun hc => hc.1 rfl
  obtain ⟨fd, hfd, -, hdata⟩ := h.data.frame (h.data_unmapped hd) h.data_mapped
  -- A frame free after the root was made was free before.
  have hbefore : ∀ f, m₀.owner f = none → m.owner f = none := by
    intro f hf
    rw [h.root_owner] at hf
    by_cases hpgd : f = pgd
    · rw [hpgd]
      exact h.root_free
    · rwa [Function.update_of_ne hpgd] at hf
  have hback₁ : ∀ f, m₁.owner f = none → m₀.owner f = none := by
    intro f hf
    by_contra hused
    exact hused (h.stack.owner hused ▸ hf)
  have hback₂ : ∀ f, m₂.owner f = none → m₁.owner f = none := by
    intro f hf
    by_contra hused
    exact hused (h.code.owner hused ▸ hf)
  have hsowner₂ : m₂.owner fs = some .userReg := by
    rw [h.code.owner (by rw [hsowner]; simp), hsowner]
  have hallocs₂ : allocs .userReg m₂.log = [fc, fs] := by
    rw [hcallocs, hsallocs, h.root_log]
  refine ⟨fs, fc, fd, ?_, ?_, hfd, ⟨hbefore fs hsfree, ?_⟩, ⟨hbefore fc (hback₁ fc hcfree), ?_⟩, ?_, fun h0 => ?_,
    fun h0 => ?_, ?_⟩
  · exact h.data.node_mono (by simp) (h.code.node_mono (by simp) hfs)
  · exact h.data.node_mono (by simp) hfc
  · rw [h.data.owner (by rw [hsowner₂]; simp), hsowner₂]
  · rw [h.data.owner (by rw [hcowner]; simp), hcowner]
  · rintro rfl
    exact absurd (hsowner.symm.trans hcfree) (by simp)
  · obtain ⟨-, hfree, howner, -⟩ := hdata.resolve_right fun hc => hc.1 h0
    exact ⟨hbefore fd (hback₁ fd (hback₂ fd hfree)), howner⟩
  · exact (hdata.resolve_left fun hc => h0 hc.1).2.1
  · split
    case isTrue h0 => rw [(hdata.resolve_right fun hc => hc.1 h0).2.2.2, hallocs₂]
    case isFalse h0 => rw [(hdata.resolve_left fun hc => h0 hc.1).2.2, hallocs₂]

end

end Launch

end CS330.GemOS
