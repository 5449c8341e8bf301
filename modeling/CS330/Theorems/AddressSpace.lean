import CS330.GemOS.Prepared

/-! The address space of a new process: which pages it has, and what they allow.

The walk of each of the three pages goes through entries made for it or, where it shares
them, for a page mapped before it. All are user-accessible; writable is a page only if
every entry on its walk is, so the flags of a segment mapped earlier count as well. -/
namespace CS330.GemOS.Launch
open Radix

section
variable {ctx : ExecContext} {m m₀ m₁ m₂ t : Memory} {pgd a : Nat}

/-- A walk from user mode succeeds: all four entries are present and user-accessible. -/
def Reachable (t : Memory) (pgd a : Nat) : Prop := ∃ es, t.walk pgd a = some es ∧ ∀ e ∈ es, isUser e = true

/-- A write from user mode succeeds. -/
def Writable (t : Memory) (pgd a : Nat) : Prop := ∃ es, t.walk pgd a = some es ∧
  ∀ e ∈ es, isUser e = true ∧ isWritable e = true

/-- The entries of a walk were made with the flags of the first page that uses them. -/
theorem Stages.mem_walk {es : List Nat} {e : Nat} (h : Stages ctx m pgd m₀ m₁ m₂ t)
    (hes : t.walk pgd a = some es) (he : e ∈ es) : ∃ p i g, p ++ [i] <+: path a ∧ g < 2 ^ 40 ∧
      e = makeEntry g (firstFlags ctx p i) := by
  obtain ⟨p, i, hp, hi⟩ := (mem_entries hes).mp he
  have hlen := hp.length_le
  rw [List.length_append, List.length_singleton, path_length] at hlen
  obtain ⟨g, hlt, heq⟩ := h.entry_eq (by omega) hi
  exact ⟨p, i, g, hp, hlt, heq⟩

theorem Stages.reachable_iff (h : Stages ctx m pgd m₀ m₁ m₂ t) (hd : ctx.Distinct) :
    Reachable t pgd a ↔ ∃ b ∈ ctx.pages, path a = path b := by
  rw [← h.mapped_iff hd]
  constructor
  · rintro ⟨es, hes, -⟩
    rw [hes]
    simp
  · intro ha
    obtain ⟨es, hes⟩ := Option.ne_none_iff_exists'.mp ha
    refine ⟨es, hes, fun e he => ?_⟩
    obtain ⟨p, i, g, -, hlt, rfl⟩ := h.mem_walk hes he
    exact makeEntry_user hlt

/-- A page is writable when every page that first used an entry of its walk had `MM_WR`. -/
theorem Stages.writable_iff (h : Stages ctx m pgd m₀ m₁ m₂ t) (ha : t.walk pgd a ≠ none) :
    Writable t pgd a ↔ ∀ p i, p ++ [i] <+: path a → isWritable (firstFlags ctx p i) = true := by
  constructor
  · rintro ⟨es, hes, hall⟩ p i hp
    obtain ⟨e, he⟩ := entry_of_mapped ha hp
    have hlen := hp.length_le
    rw [List.length_append, List.length_singleton, path_length] at hlen
    obtain ⟨g, hlt, rfl⟩ := h.entry_eq (by omega) he
    have hmem := hall _ ((mem_entries hes).mpr ⟨p, i, hp, he⟩)
    rw [makeEntry_writable hlt] at hmem
    exact hmem.2
  · intro hall
    obtain ⟨es, hes⟩ := Option.ne_none_iff_exists'.mp ha
    refine ⟨es, hes, fun e he => ?_⟩
    obtain ⟨p, i, g, hp, hlt, rfl⟩ := h.mem_walk hes he
    rw [makeEntry_writable hlt]
    exact ⟨makeEntry_user hlt, hall p i hp⟩

theorem path_eq_iff {b : Nat} (ha : a < 2 ^ 48) (hb : b < 2 ^ 48) : path a = path b ↔ a / 4096 = b / 4096 :=
  ⟨path_inj ha hb, path_congr⟩

theorem ExecContext.Distinct.pages_lt {b : Nat} (hd : ctx.Distinct) (hb : b ∈ ctx.pages) : b < 2 ^ 48 := by
  simp only [ExecContext.pages, List.mem_cons, List.not_mem_nil, or_false] at hb
  rcases hb with hb | hb | hb
  · exact hb.trans_lt hd.stack_lt
  · exact hb.trans_lt hd.code_lt
  · exact hb.trans_lt hd.data_lt

end

/-- **`prepare_context_mm` maps exactly the three pages**: a walk from user mode succeeds for
their addresses and no others, the data page is on `arg_pfn` if there is one, stack and code
are on fresh user frames, the tables are distinct frames of their region, and bits 3 to 11
and 52 to 63 of all their entries are clear. -/
theorem prepare_maps_three_pages {alloc : Allocator} {ctx : ExecContext} {m : Memory}
    (hready : Ready alloc ctx m) (hd : ctx.Distinct) :
    ∃ ctx' t, prepareContextMm alloc ctx m = some (ctx', t) ∧
      (∀ a < 2 ^ 48, Reachable t ctx'.pgd a ↔ ∃ b ∈ ctx.pages, a / 4096 = b / 4096) ∧
      (ctx.argPfn ≠ 0 → t.translate ctx'.pgd ctx.data.start = some ctx.argPfn) ∧
      (∃ fs fc, t.translate ctx'.pgd ctx.stackPage = some fs ∧ t.translate ctx'.pgd ctx.code.start = some fc ∧
        fs ≠ fc ∧ (m.owner fs = none ∧ t.owner fs = some .userReg) ∧
        m.owner fc = none ∧ t.owner fc = some .userReg) ∧
      (∀ p q f, p.length ≤ 3 → q.length ≤ 3 → t.node ctx'.pgd p = some f → t.node ctx'.pgd q = some f → p = q) ∧
      (∀ p f, p.length ≤ 3 → t.node ctx'.pgd p = some f → t.owner f = some .osPtReg) ∧
      ∀ p f i, p.length ≤ 3 → t.node ctx'.pgd p = some f → Clean (t.words f i) := by
  obtain ⟨pgd, m₀, m₁, m₂, t, hprepare, h⟩ := prepareContextMm_stages hready
  obtain ⟨fs, fc, fd, hf⟩ := h.frames hd
  refine ⟨_, t, hprepare, fun a ha => ?_, fun h0 => ?_, ⟨fs, fc, hf.stack, hf.code, hf.stack_ne_code,
    hf.stack_fresh, hf.code_fresh⟩, fun p q f hp hq hpf hqf => ?_, h.built.region, h.built.clean⟩
  · rw [h.reachable_iff hd]
    constructor
    · rintro ⟨b, hb, hpath⟩
      exact ⟨b, hb, (path_eq_iff ha (hd.pages_lt hb)).mp hpath⟩
    · rintro ⟨b, hb, hpage⟩
      exact ⟨b, hb, (path_eq_iff ha (hd.pages_lt hb)).mpr hpage⟩
  · rw [← hf.data_given h0]
    exact hf.data
  · exact h.built.tree.tree q p f hq (by omega) hqf hpf

/-! ### Permissions -/

/-- Two pages share a table entry: the one of level 4, and maybe more below it. -/
def Shares (a b : Nat) : Prop := l4Index a = l4Index b

/-- The flags of the pages mapped first do not take `MM_WR` away from the later ones: code and
data ask for it only where the entries they share, with the stack or data's with the code
alone, were made with it. -/
structure Granted (ctx : ExecContext) : Prop where
  code_stack : isWritable ctx.code.accessFlags = true → Shares ctx.code.start ctx.stackPage →
    isWritable ctx.stack.accessFlags = true
  data_stack : isWritable ctx.data.accessFlags = true → Shares ctx.data.start ctx.stackPage →
    isWritable ctx.stack.accessFlags = true
  data_code : isWritable ctx.data.accessFlags = true →
    (∃ k, 1 ≤ k ∧ k ≤ 3 ∧ (path ctx.data.start).take k = (path ctx.code.start).take k ∧
      (path ctx.data.start).take k ≠ (path ctx.stackPage).take k) → isWritable ctx.code.accessFlags = true

section
variable {ctx : ExecContext} {a b : Nat} {p : List (Fin 512)} {i : Fin 512}

/-- An entry on the way to two pages is shared from level 4 on. -/
theorem shares_of_common (ha : p ++ [i] <+: path a) (hb : p ++ [i] <+: path b) : Shares a b := by
  cases p with
  | nil =>
    simp only [path, List.nil_append, List.cons_prefix_cons] at ha hb
    exact ha.1.symm.trans hb.1
  | cons x p =>
    simp only [path, List.cons_append, List.cons_prefix_cons] at ha hb
    exact ha.1.symm.trans hb.1

theorem path_snoc (a : Nat) : ∃ p i, p ++ [i] = path a := ⟨dir a, l1Index a, rfl⟩

/-- The first entries of two walks are the same, or none is. -/
theorem top_common (h : Shares a b) : [] ++ [l4Index a] <+: path b := by
  simpa [path, Shares] using h

theorem not_prefix_of_ne {q : List (Fin 512)} (hq : q = path a) (hne : path a ≠ path b) : ¬ q <+: path b := by
  rintro hpre
  exact hne (hq ▸ hpre.eq_of_length (by rw [hq]; rfl))

/-- The part of a walk of a given length, as the way to an entry. -/
theorem take_snoc {k : Nat} (hk : 1 ≤ k) (hk' : k ≤ 4) : ∃ p i, p ++ [i] = (path a).take k := by
  have hlen : ((path a).take k).length = k := by simp [hk']
  exact ⟨_, _, List.dropLast_append_getLast (l := (path a).take k) (by rw [← List.length_pos_iff]; omega)⟩

end

namespace Stages
variable {ctx : ExecContext} {m m₀ m₁ m₂ t : Memory} {pgd : Nat} (h : Stages ctx m pgd m₀ m₁ m₂ t)
  (hd : ctx.Distinct)
include h hd

theorem stack_writable : Writable t pgd ctx.stackPage ↔ isWritable ctx.stack.accessFlags = true := by
  rw [h.writable_iff ((h.mapped_iff hd).mpr ⟨_, by simp [ExecContext.pages], rfl⟩)]
  have hflags : ∀ p i, p ++ [i] <+: path ctx.stackPage → firstFlags ctx p i = ctx.stack.accessFlags :=
    fun p i hp => if_pos hp
  constructor
  · intro hall
    obtain ⟨p, i, hp⟩ := path_snoc ctx.stackPage
    have hpre : p ++ [i] <+: path ctx.stackPage := hp ▸ List.prefix_refl _
    rw [← hflags p i hpre]
    exact hall p i hpre
  · intro hwr p i hp
    rw [hflags p i hp]
    exact hwr

theorem code_writable : Writable t pgd ctx.code.start ↔ isWritable ctx.code.accessFlags = true ∧
    (Shares ctx.code.start ctx.stackPage → isWritable ctx.stack.accessFlags = true) := by
  rw [h.writable_iff ((h.mapped_iff hd).mpr ⟨_, by simp [ExecContext.pages], rfl⟩)]
  constructor
  · intro hall
    constructor
    · obtain ⟨p, i, hp⟩ := path_snoc ctx.code.start
      have hpre : p ++ [i] <+: path ctx.code.start := hp ▸ List.prefix_refl _
      have hwr := hall p i hpre
      rwa [firstFlags, if_neg (not_prefix_of_ne hp hd.code_ne_stack), if_pos hpre] at hwr
    · intro hshare
      have hwr := hall [] (l4Index ctx.code.start) (top_common rfl)
      rwa [firstFlags, if_pos (top_common hshare)] at hwr
  · rintro ⟨hcode, hstack⟩ p i hp
    unfold firstFlags
    split_ifs with hs
    · exact hstack (shares_of_common hp hs)
    · exact hcode

theorem data_writable : Writable t pgd ctx.data.start ↔ isWritable ctx.data.accessFlags = true ∧
    (Shares ctx.data.start ctx.stackPage → isWritable ctx.stack.accessFlags = true) ∧
    ((∃ k, 1 ≤ k ∧ k ≤ 3 ∧ (path ctx.data.start).take k = (path ctx.code.start).take k ∧
      (path ctx.data.start).take k ≠ (path ctx.stackPage).take k) →
        isWritable ctx.code.accessFlags = true) := by
  rw [h.writable_iff ((h.mapped_iff hd).mpr ⟨_, by simp [ExecContext.pages], rfl⟩)]
  constructor
  · intro hall
    refine ⟨?_, fun hshare => ?_, ?_⟩
    · obtain ⟨p, i, hp⟩ := path_snoc ctx.data.start
      have hpre : p ++ [i] <+: path ctx.data.start := hp ▸ List.prefix_refl _
      have hwr := hall p i hpre
      rwa [firstFlags, if_neg (not_prefix_of_ne hp hd.data_ne_stack),
        if_neg (not_prefix_of_ne hp hd.data_ne_code)] at hwr
    · have hwr := hall [] (l4Index ctx.data.start) (top_common rfl)
      rwa [firstFlags, if_pos (top_common hshare)] at hwr
    · rintro ⟨k, hk, hk', hcode, hstack⟩
      obtain ⟨p, i, hp⟩ := @take_snoc ctx.data.start k hk (by omega)
      have hwr := hall p i (hp ▸ List.take_prefix k _)
      have hpre : p ++ [i] <+: path ctx.code.start := hp ▸ hcode ▸ List.take_prefix k _
      have hnot : ¬ p ++ [i] <+: path ctx.stackPage := by
        intro hs
        have hlen : (p ++ [i]).length = k := by rw [hp]; simp; omega
        have := List.prefix_iff_eq_take.mp hs
        rw [hlen, hp] at this
        exact hstack this
      rwa [firstFlags, if_neg hnot, if_pos hpre] at hwr
  · rintro ⟨hdata, hstack, hcode⟩ p i hp
    unfold firstFlags
    split_ifs with hs hc
    · exact hstack (shares_of_common hp hs)
    · -- Shared with the code alone, and not the page itself.
      have hlen : (p ++ [i]).length ≤ 3 := by
        by_contra hlong
        have hle := hp.length_le
        have heq := hp.eq_of_length (by rw [path_length] at hle ⊢; omega)
        exact not_prefix_of_ne heq hd.data_ne_code hc
      refine hcode ⟨(p ++ [i]).length, by simp, hlen, ?_, fun heq => hs ?_⟩
      · rw [← List.prefix_iff_eq_take.mp hp, ← List.prefix_iff_eq_take.mp hc]
      · rw [← List.prefix_iff_eq_take.mp hp] at heq
        exact heq ▸ List.take_prefix _ _
    · exact hdata

theorem permissions_iff : ((Writable t pgd ctx.stackPage ↔ isWritable ctx.stack.accessFlags = true) ∧
    (Writable t pgd ctx.code.start ↔ isWritable ctx.code.accessFlags = true) ∧
    (Writable t pgd ctx.data.start ↔ isWritable ctx.data.accessFlags = true)) ↔ Granted ctx := by
  rw [h.stack_writable hd, h.code_writable hd, h.data_writable hd]
  constructor
  · rintro ⟨-, hcode, hdata⟩
    exact ⟨fun hwr => (hcode.mpr hwr).2, fun hwr => (hdata.mpr hwr).2.1, fun hwr => (hdata.mpr hwr).2.2⟩
  · intro hg
    refine ⟨Iff.rfl, ⟨And.left, fun hwr => ⟨hwr, hg.code_stack hwr⟩⟩, And.left, fun hwr => ?_⟩
    exact ⟨hwr, hg.data_stack hwr, hg.data_code hwr⟩

end Stages

/-- **The pages are writable as their segments say exactly when no page mapped before takes the
write bit away**: each page's walk passes through the entries of the pages mapped before it. -/
theorem permissions_match {alloc : Allocator} {ctx : ExecContext} {m : Memory} (hready : Ready alloc ctx m)
    (hd : ctx.Distinct) : ∃ ctx' t, prepareContextMm alloc ctx m = some (ctx', t) ∧
      (((Writable t ctx'.pgd ctx.stackPage ↔ isWritable ctx.stack.accessFlags = true) ∧
        (Writable t ctx'.pgd ctx.code.start ↔ isWritable ctx.code.accessFlags = true) ∧
        (Writable t ctx'.pgd ctx.data.start ↔ isWritable ctx.data.accessFlags = true)) ↔ Granted ctx) := by
  obtain ⟨pgd, m₀, m₁, m₂, t, hprepare, h⟩ := prepareContextMm_stages hready
  exact ⟨_, t, hprepare, h.permissions_iff hd⟩

/-! ### A process laid out as in `context.h` -/

/-- Code that can be executed, data that can be written, and a stack with the given flags. -/
def plain (stackFlags : Nat) : ExecContext where
  pgd := 0
  code := ⟨0x100000000, 0x100008000, 5⟩
  data := ⟨0x180000000, 0x180001000, 3⟩
  stack := ⟨0x7FF000000, 0x800000000, stackFlags⟩
  argPfn := 0

theorem plain_stackPage (stackFlags : Nat) : (plain stackFlags).stackPage = 0x7FFFFF000 := by
  show (0x800000000 + 2 ^ 64 - 0x1000) % 2 ^ 64 = 0x7FFFFF000
  omega

theorem plain_code (stackFlags : Nat) : (plain stackFlags).code.start = 0x100000000 := rfl

theorem plain_data (stackFlags : Nat) : (plain stackFlags).data.start = 0x180000000 := rfl

theorem plain_distinct (stackFlags : Nat) : (plain stackFlags).Distinct := by
  constructor <;> simp only [plain_stackPage, plain_code, plain_data] <;> decide

theorem plain_ready (stackFlags : Nat) :
    Ready (lowest 20) (plain stackFlags) ⟨fun _ _ => 0, fun _ => none, []⟩ where
  honest := honest_lowest (c := 1) le_rfl (fun _ _ => rfl) (by omega) (by omega)
  u32 r owner := (firstFree_le owner 20 1).trans_lt (by omega)
  arg_lt := by simp [plain]
  arg_used h := absurd rfl h
  log := rfl

/-- All three pages lie below 2^39 and so share their level-4 entry. -/
theorem plain_shares (stackFlags : Nat) : Shares (plain stackFlags).data.start (plain stackFlags).stackPage := by
  unfold Shares
  rw [plain_stackPage, plain_data, l4Index_eq, l4Index_eq]
  decide

/-- The first byte of the code is reachable, the byte after its page is not. -/
theorem prepare_maps_three_pages_plain : ∃ ctx' t,
    prepareContextMm (lowest 20) (plain 3) ⟨fun _ _ => 0, fun _ => none, []⟩ = some (ctx', t) ∧
      Reachable t ctx'.pgd 0x100000000 ∧ ¬ Reachable t ctx'.pgd 0x100001000 := by
  obtain ⟨ctx', t, hprepare, hpages, -⟩ := prepare_maps_three_pages (plain_ready 3) (plain_distinct 3)
  have hmem : ∀ b ∈ (plain 3).pages, b = 0x7FFFFF000 ∨ b = 0x100000000 ∨ b = 0x180000000 := by
    intro b hb
    simpa [ExecContext.pages, plain_stackPage, plain_code, plain_data] using hb
  refine ⟨ctx', t, hprepare, (hpages _ (by decide)).mpr ⟨0x100000000, ?_, rfl⟩, fun hreach => ?_⟩
  · simp [ExecContext.pages, plain_code]
  · obtain ⟨b, hb, hpage⟩ := (hpages _ (by decide)).mp hreach
    rcases hmem b hb with rfl | rfl | rfl <;> exact absurd hpage (by decide)

/-- With a writable stack the data page is writable and the code page is not. -/
theorem permissions_match_plain : ∃ ctx' t,
    prepareContextMm (lowest 20) (plain 3) ⟨fun _ _ => 0, fun _ => none, []⟩ = some (ctx', t) ∧
      Writable t ctx'.pgd 0x180000000 ∧ ¬ Writable t ctx'.pgd 0x100000000 := by
  obtain ⟨ctx', t, hprepare, hiff⟩ := permissions_match (plain_ready 3) (plain_distinct 3)
  have hgranted : Granted (plain 3) := by
    refine ⟨fun _ _ => by decide, fun _ _ => by decide, ?_⟩
    rintro - ⟨k, hk, hk', hcode, hstack⟩
    rw [plain_stackPage, plain_data] at hstack
    rw [plain_data, plain_code] at hcode
    -- The level-4 entry is the stack's; below it data and code share nothing.
    obtain rfl | rfl | rfl : k = 1 ∨ k = 2 ∨ k = 3 := by omega
    · exact absurd (by decide) hstack
    · exact absurd hcode (by decide)
    · exact absurd hcode (by decide)
  obtain ⟨-, hcode, hdata⟩ := hiff.mpr hgranted
  exact ⟨ctx', t, hprepare, hdata.mpr (by decide), fun hc => absurd (hcode.mp hc) (by decide)⟩

/-- **A stack without `MM_WR` makes the data read-only**: the level-4 entry that all pages share
was made for the stack, so the data page is not writable although its segment says so. -/
theorem permissions_match_readonly_stack : (plain 1).Distinct ∧
    isWritable (plain 1).data.accessFlags = true ∧ ∃ ctx' t,
      prepareContextMm (lowest 20) (plain 1) ⟨fun _ _ => 0, fun _ => none, []⟩ = some (ctx', t) ∧
        ¬ Writable t ctx'.pgd (plain 1).data.start := by
  obtain ⟨pgd, m₀, m₁, m₂, t, hprepare, h⟩ := prepareContextMm_stages (plain_ready 1)
  refine ⟨plain_distinct 1, by decide, _, t, hprepare, fun hwr => ?_⟩
  exact absurd (((h.data_writable (plain_distinct 1)).mp hwr).2.1 (plain_shares 1)) (by decide)

end CS330.GemOS.Launch
