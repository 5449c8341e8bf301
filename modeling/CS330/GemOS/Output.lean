import CS330.GemOS.Lazy
import CS330.GemOS.Tables
import CS330.Lib.Bytes

/-! `SYSCALL_WRITE` (assignment 2): printing a buffer of the process.

The call looks at the first and the last byte of the buffer before it reads any. The
kernel then reads with its own rights, so the user bits of the entries do not matter
to it; a byte of a missing page is a page fault like any other, which may map the page
or end the process. An address that is not canonical raises a general protection
fault, for which there is no handler: such a read has no result. -/
namespace CS330.GemOS.Lazy

/-- Bits 47 to 63 of a 64-bit address are equal. -/
def Canonical (addr : Nat) : Prop := addr < 2 ^ 47 ∨ 2 ^ 64 - 2 ^ 47 ≤ addr

instance (addr : Nat) : Decidable (Canonical addr) := inferInstanceAs (Decidable (_ ∨ _))

/-- The byte of a frame that an address selects. -/
def byteAt (m : Memory) (pfn addr : Nat) : UInt8 :=
  UInt8.ofNat (m.words pfn (Fin.ofNat 512 (addr % 4096 / 8)) >>> (8 * (addr % 8)))

section Model
variable (alloc : Allocator)

/-- A read of one byte by the kernel: the byte, or nothing if the process ends in the fault. -/
def load (addr : Nat) (s : State) : Option (Option UInt8 × State) :=
  if Canonical addr then
    match s.mem.translate s.current.pgd addr with
    | some pfn => some (some (byteAt s.mem pfn addr), s)
    | none => (handlePageFault alloc addr 0 s).bind fun r => match r with
      | (.doExit, t) => some (none, t)
      -- `iretq` takes the read up again
      | (.iretq, t) => (t.mem.translate t.current.pgd addr).map fun pfn => (some (byteAt t.mem pfn addr), t)
  else none

/-- The loop with `n` bytes left from `buf[i]` on, and the `return` after it. What is read
is listed with its addresses. -/
def writeLoop (buf : Nat) (length : Int) : Nat → Nat → State → Option (Ret × List (Nat × UInt8) × State)
  | 0, _, s => some (.value length, [], s)
  | n + 1, i, s =>
    let addr := (buf + i) % 2 ^ 64
    (load alloc addr s).bind fun r => match r with
      | (none, t) => some (.fault .doExit, [], t)
      | (some b, t) => (writeLoop buf length n (i + 1) t).map fun q => (q.1, (addr, b) :: q.2.1, q.2.2)

/-- `buf + length - 1` -/
def lastByte (buf : Nat) (length : Int) : Nat := ((buf + length - 1) % 2 ^ 64).toNat

def syscallWrite (param1 param2 : Nat) (s : State) : Option (Ret × List (Nat × UInt8) × State) :=
  let buf := param1 % 2 ^ 64
  let length := Bytes.int32 param2
  if isValidVirtualAddr buf s.current.pgd s.mem = 0 ∨
      isValidVirtualAddr (lastByte buf length) s.current.pgd s.mem = 0 then some (.value (-1), [], s)
  else writeLoop alloc buf length length.toNat 0 s

end Model

/-! ### What is checked and what is read -/

/-- The page of an address is present. -/
def Mapped (s : State) (addr : Nat) : Prop := s.mem.walk s.current.pgd addr ≠ none

instance (s : State) (addr : Nat) : Decidable (Mapped s addr) := inferInstanceAs (Decidable (_ ≠ _))

/-- What the call checks: the pages of the first and of the last byte. -/
def EndsMapped (s : State) (buf : Nat) (length : Int) : Prop := Mapped s buf ∧ Mapped s (lastByte buf length)

instance (s : State) (buf : Nat) (length : Int) : Decidable (EndsMapped s buf length) :=
  inferInstanceAs (Decidable (_ ∧ _))

section
variable {alloc : Allocator} {s t : State} {a b buf n i param1 param2 : Nat} {length : Int}

theorem lastByte_eq (hpos : 0 < length) : lastByte buf length = (buf + (length.toNat - 1)) % 2 ^ 64 := by
  unfold lastByte
  omega

/-- A byte of a short buffer lies in the page of its first or of its last byte. -/
theorem same_page (hpos : 0 < length) (hshort : length ≤ 4096) (hbuf : buf < 2 ^ 64) (hi : i < length.toNat) :
    (buf + i) % 2 ^ 64 / 4096 = buf / 4096 ∨ (buf + i) % 2 ^ 64 / 4096 = lastByte buf length / 4096 := by
  rw [lastByte_eq hpos]
  omega

theorem mapped_iff : Mapped s a ↔ s.mem.translate s.current.pgd a ≠ none := by
  rw [Mapped, ne_eq, walk_none_iff_translate]

theorem load_mapped (hcanon : Canonical a) (hmapped : Mapped s a) : ∃ b, load alloc a s = some (some b, s) := by
  obtain ⟨pfn, hpfn⟩ := Option.ne_none_iff_exists'.mp (mapped_iff.mp hmapped)
  refine ⟨byteAt s.mem pfn a, ?_⟩
  rw [load, if_pos hcanon, hpfn]

/-- Over present pages at canonical addresses the loop reads every byte once, in order. -/
theorem writeLoop_mapped
    (h : ∀ j < n, Canonical ((buf + (i + j)) % 2 ^ 64) ∧ Mapped s ((buf + (i + j)) % 2 ^ 64)) :
    ∃ reads, writeLoop alloc buf length n i s = some (.value length, reads, s) ∧
      reads.map Prod.fst = (List.range' i n).map fun j => (buf + j) % 2 ^ 64 := by
  induction n generalizing i with
  | zero => exact ⟨[], rfl, rfl⟩
  | succ n ih =>
    obtain ⟨b, hload⟩ := @load_mapped alloc s _ (h 0 n.succ_pos).1 (h 0 n.succ_pos).2
    obtain ⟨reads, hloop, haddr⟩ := ih (i := i + 1) fun j hj => by
      have := h (j + 1) (by omega)
      rwa [show i + (j + 1) = i + 1 + j by omega] at this
    refine ⟨((buf + i) % 2 ^ 64, b) :: reads, ?_, ?_⟩
    · rw [Nat.add_zero] at hload
      rw [writeLoop]
      simp only [hload, Option.bind_some, hloop, Option.map_some]
    · rw [List.map_cons, haddr]
      rfl

/-- The loop returns the length, or the process ends in it. -/
theorem writeLoop_ret {r : Ret} {reads : List (Nat × UInt8)}
    (h : writeLoop alloc buf length n i s = some (r, reads, t)) : r = .value length ∨ r = .fault .doExit := by
  induction n generalizing i s reads with
  | zero => cases h; exact .inl rfl
  | succ n ih =>
    rw [writeLoop] at h
    obtain ⟨⟨o, u⟩, -, hr⟩ := Option.bind_eq_some_iff.mp h
    cases o with
    | none => cases hr; exact .inr rfl
    | some b =>
      obtain ⟨⟨r', reads', t'⟩, hloop, hq⟩ := Option.map_eq_some_iff.mp hr
      cases hq
      exact ih hloop

/-- The call with its checks read as conditions on the page table. -/
theorem syscallWrite_eq : (EndsMapped s (param1 % 2 ^ 64) (Bytes.int32 param2) →
      syscallWrite alloc param1 param2 s = writeLoop alloc (param1 % 2 ^ 64) (Bytes.int32 param2)
        (Bytes.int32 param2).toNat 0 s) ∧
    (¬ EndsMapped s (param1 % 2 ^ 64) (Bytes.int32 param2) →
      syscallWrite alloc param1 param2 s = some (.value (-1), [], s)) := by
  have hiff : (isValidVirtualAddr (param1 % 2 ^ 64) s.current.pgd s.mem = 0 ∨
      isValidVirtualAddr (lastByte (param1 % 2 ^ 64) (Bytes.int32 param2)) s.current.pgd s.mem = 0) ↔
      ¬ EndsMapped s (param1 % 2 ^ 64) (Bytes.int32 param2) := by
    rw [invalid_iff, invalid_iff, EndsMapped, not_and_or]
    exact or_congr not_not.symm not_not.symm
  constructor
  · intro h
    exact if_neg fun hc => hiff.mp hc h
  · intro h
    exact if_pos (hiff.mpr h)

end

end CS330.GemOS.Lazy
