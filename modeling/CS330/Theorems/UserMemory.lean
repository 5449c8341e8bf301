import CS330.GemOS.Output
import CS330.Theorems.AddressSpace

/-! What `SYSCALL_WRITE` reads.

The call is to print buffers of at most 1024 bytes that the process may read itself.
It checks that two pages are present, and neither the length nor the rights. -/
namespace CS330.GemOS.Lazy
open Launch

/-- The process may read the byte itself. -/
def UserByte (s : State) (addr : Nat) : Prop := Canonical addr ∧ Reachable s.mem s.current.pgd addr

/-- A buffer that is to be printed: short, and each byte of it the process's to read. -/
structure Printable (s : State) (buf : Nat) (length : Int) : Prop where
  nonneg : 0 ≤ length
  short : length ≤ 1024
  bytes : ∀ i < length.toNat, UserByte s ((buf + i) % 2 ^ 64)

/-- Printable buffers are printed in full length; for others `-1` is returned and nothing read. -/
def Guards (out : Option (Ret × List (Nat × UInt8) × State)) (s : State) (buf : Nat) (length : Int) : Prop :=
  (Printable s buf length → ∃ reads t, out = some (.value length, reads, t)) ∧
    (¬ Printable s buf length → ∃ t, out = some (.value (-1), [], t))

/-- The buffers that the checks of the call are enough for. -/
structure ChecksSuffice (s : State) (buf : Nat) (length : Int) : Prop where
  empty : length = 0 → EndsMapped s buf length
  negative : length < 0 → EndsMapped s buf length → length = -1
  long : 1024 < length → ¬ EndsMapped s buf length
  user : 0 < length → length ≤ 1024 → EndsMapped s buf length →
    UserByte s buf ∧ UserByte s (lastByte buf length)

section
variable {alloc : Allocator} {s : State} {a b buf param1 param2 : Nat} {length : Int}

theorem UserByte.mapped (h : UserByte s a) : Mapped s a := by
  obtain ⟨-, es, hes, -⟩ := h
  rw [Mapped, hes]
  simp

/-- A page is the process's to read as a whole. -/
theorem UserByte.congr (h : UserByte s a) (hpage : b / 4096 = a / 4096) : UserByte s b := by
  obtain ⟨hcanon, es, hes, huser⟩ := h
  refine ⟨?_, es, ?_, huser⟩
  · unfold Canonical at hcanon ⊢
    omega
  · rw [← hes, Memory.walk, Memory.walk, path_congr hpage]

theorem printable_empty (s : State) (buf : Nat) : Printable s buf 0 :=
  ⟨le_refl 0, by decide, fun i hi => absurd hi (Nat.not_lt_zero i)⟩

theorem Printable.ends (h : Printable s buf length) (hbuf : buf < 2 ^ 64) (hpos : 0 < length) :
    UserByte s buf ∧ UserByte s (lastByte buf length) := by
  have hfirst := h.bytes 0 (by omega)
  have hlast := h.bytes (length.toNat - 1) (by omega)
  rw [Nat.add_zero, Nat.mod_eq_of_lt hbuf] at hfirst
  rw [← lastByte_eq hpos] at hlast
  exact ⟨hfirst, hlast⟩

/-- A short buffer whose ends the process may read is the process's to read throughout. -/
theorem printable_of_ends (hbuf : buf < 2 ^ 64) (hpos : 0 < length) (hshort : length ≤ 1024)
    (hfirst : UserByte s buf) (hlast : UserByte s (lastByte buf length)) : Printable s buf length := by
  refine ⟨hpos.le, hshort, fun i hi => ?_⟩
  obtain hpage | hpage := same_page hpos (by omega) hbuf hi
  · exact hfirst.congr hpage
  · exact hlast.congr hpage

/-- A printable buffer is read byte by byte. -/
theorem Printable.reads (h : Printable s buf length) : ∃ reads,
    writeLoop alloc buf length length.toNat 0 s = some (.value length, reads, s) ∧
      reads.map Prod.fst = (List.range' 0 length.toNat).map fun i => (buf + i) % 2 ^ 64 :=
  writeLoop_mapped fun j hj => by
    rw [Nat.zero_add]
    exact ⟨(h.bytes j hj).1, (h.bytes j hj).mapped⟩

/-- What the call does with a buffer, in terms of the two checks. -/
theorem guards_iff : Guards (syscallWrite alloc param1 param2 s) s (param1 % 2 ^ 64) (Bytes.int32 param2) ↔
    if EndsMapped s (param1 % 2 ^ 64) (Bytes.int32 param2) then
      Printable s (param1 % 2 ^ 64) (Bytes.int32 param2) ∨ Bytes.int32 param2 = -1
    else ¬ Printable s (param1 % 2 ^ 64) (Bytes.int32 param2) := by
  obtain ⟨hpass, hfail⟩ := @syscallWrite_eq alloc s param1 param2
  generalize param1 % 2 ^ 64 = buf, Bytes.int32 param2 = length at hpass hfail ⊢
  by_cases hends : EndsMapped s buf length
  · rw [if_pos hends, hpass hends]
    constructor
    · rintro ⟨-, hbad⟩
      by_contra! hc
      obtain ⟨t, ht⟩ := hbad hc.1
      obtain hret | hret := writeLoop_ret ht
      · exact hc.2 (Ret.value.inj hret).symm
      · cases hret
    · rintro (hp | rfl)
      · obtain ⟨reads, hloop, -⟩ := @Printable.reads alloc s buf length hp
        exact ⟨fun _ => ⟨reads, s, hloop⟩, fun hn => absurd hp hn⟩
      · exact ⟨fun hp => absurd hp.nonneg (by decide), fun _ => ⟨s, rfl⟩⟩
  · rw [if_neg hends, hfail hends]
    constructor
    · rintro ⟨hgood, -⟩ hp
      obtain ⟨reads, t, ht⟩ := hgood hp
      have hneg : (-1 : Int) = length := by
        cases ht
        rfl
      have := hp.nonneg
      omega
    · intro hn
      exact ⟨fun hp => absurd hp hn, fun _ => ⟨s, rfl⟩⟩

end

/-- **`SYSCALL_WRITE` reads what the process may read, and nothing else, exactly when its two
checks suffice.** They are made for an empty buffer as well, they let a negative length or one
above 1024 pass, and they accept pages of the kernel and addresses that are not canonical. -/
theorem write_guards_iff (alloc : Allocator) (s : State) (param1 param2 : Nat) :
    Guards (syscallWrite alloc param1 param2 s) s (param1 % 2 ^ 64) (Bytes.int32 param2) ↔
      ChecksSuffice s (param1 % 2 ^ 64) (Bytes.int32 param2) := by
  rw [guards_iff]
  have hbuf : param1 % 2 ^ 64 < 2 ^ 64 := Nat.mod_lt _ (by decide)
  generalize param1 % 2 ^ 64 = buf, Bytes.int32 param2 = length at hbuf ⊢
  constructor
  · intro h
    split at h
    case isTrue hends =>
      have hprint : length ≠ -1 → Printable s buf length := fun hne => h.resolve_right hne
      refine ⟨fun _ => hends, fun hneg _ => ?_, fun hlong => ?_, fun hpos hshort _ => ?_⟩
      · by_contra hne
        have := (hprint hne).nonneg
        omega
      · have := (hprint (by omega)).short
        omega
      · exact (hprint (by omega)).ends hbuf hpos
    case isFalse hends =>
      refine ⟨fun hzero => ?_, fun _ hc => absurd hc hends, fun _ => hends, fun _ _ hc => absurd hc hends⟩
      subst hzero
      exact absurd (printable_empty s buf) h
  · intro h
    split
    case isTrue hends =>
      obtain hneg | rfl | hpos := lt_trichotomy length 0
      · exact .inr (h.negative hneg hends)
      · exact .inl (printable_empty s buf)
      · have hshort : length ≤ 1024 := by
          by_contra hlong
          exact h.long (by omega) hends
        obtain ⟨hfirst, hlast⟩ := h.user hpos hshort hends
        exact .inl (printable_of_ends hbuf hpos hshort hfirst hlast)
    case isFalse hends =>
      intro hp
      obtain hzero | hpos := hp.nonneg.eq_or_lt
      · exact hends (h.empty hzero.symm)
      · obtain ⟨hfirst, hlast⟩ := hp.ends hbuf hpos
        exact hends ⟨hfirst.mapped, hlast.mapped⟩

/-- A process whose table has one frame, with the same word in all its entries. -/
def uniform (word : Nat) : State :=
  {onePage with mem := {Memory.bare 0 with words := fun _ _ => word}}

theorem not_guards {out : Option (Ret × List (Nat × UInt8) × State)} {s : State} {buf : Nat} {length v : Int}
    (hout : out.map Prod.fst = some (.value v)) (hv : v ≠ -1) (hn : ¬ Printable s buf length) :
    ¬ Guards out s buf length := by
  rintro ⟨-, hbad⟩
  obtain ⟨t, rfl⟩ := hbad hn
  cases hout
  exact hv rfl

/-- A present page that only the kernel may read is printed, a negative length is returned as it
is, and so is one above 1024, after as many bytes were read. -/
theorem write_guards_unchecked :
    (syscallWrite (lowest 8) 0x1000 1 (uniform 1) = some (.value 1, [(0x1000, 1)], uniform 1) ∧
      ¬ Guards (syscallWrite (lowest 8) 0x1000 1 (uniform 1)) (uniform 1) 0x1000 1) ∧
    (syscallWrite (lowest 8) 0x1000 (2 ^ 32 - 5) (uniform 7) = some (.value (-5), [], uniform 7) ∧
      ¬ Guards (syscallWrite (lowest 8) 0x1000 (2 ^ 32 - 5) (uniform 7)) (uniform 7) 0x1000 (-5)) ∧
    ((syscallWrite (lowest 8) 0x1000 1025 (uniform 7)).map (fun q => (q.1, q.2.1.length)) =
        some (.value 1025, 1025) ∧
      ¬ Guards (syscallWrite (lowest 8) 0x1000 1025 (uniform 7)) (uniform 7) 0x1000 1025) := by
  refine ⟨⟨rfl, not_guards (v := 1) rfl (by decide) fun hp => ?_⟩,
    ⟨rfl, not_guards (v := -5) rfl (by decide) fun hp => absurd hp.nonneg (by decide)⟩,
    ⟨by decide +kernel, not_guards (v := 1025) (by decide +kernel) (by decide) fun hp => ?_⟩⟩
  · obtain ⟨-, es, hes, huser⟩ := hp.bytes 0 (by decide)
    have hwalk : (uniform 1).mem.walk 0 0x1000 = some [1, 1, 1, 1] := by decide +kernel
    obtain rfl : es = [1, 1, 1, 1] := Option.some.inj (hes.symm.trans hwalk)
    exact absurd (huser 1 (by simp)) (by decide)
  · exact absurd hp.short (by decide)

end CS330.GemOS.Lazy
