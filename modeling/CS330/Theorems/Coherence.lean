import CS330.Lib.Machine
import CS330.Gem5.Mmu

/-! The TLBs cannot be noticed.

gemOS changes its tables by plain stores. That the processor never uses what it has cached of an
older table rests on the kernel's `invlpg` alone, and on the fact that a page which is mapped is not
mapped anew. -/
namespace CS330.Gem5.Mmu
open GemOS Machine

/-- TLBs without entries. -/
def start (m : Memory) (itbSize dtbSize : Nat) : Mmu := ⟨m, .new itbSize, .new dtbSize⟩

section Changes
variable {alloc : Allocator} {pgd addr flags : Nat} {m : Memory} {s s₁ : Mmu} {a : Access} {va : BitVec 64} {r : Reply}

theorem Coherent.freed (h : Coherent pgd s) (hst : Mmu.step alloc pgd (.free addr) s = some (r, s₁)) :
    s₁.mem.walk pgd addr = none := by
  have hfree := @freeDataPage_spec s.mem pgd addr h.ledger.tree.tree
  simp only [Mmu.step] at hst
  split at hst
  · cases hst
    exact hfree.unmapped_after
  · simp only [Mmu.demap, Option.map_eq_some_iff, Option.bind_eq_some_iff] at hst
    obtain ⟨s₂, ⟨itb, -, dtb, -, rfl⟩, heq⟩ := hst
    cases heq
    exact hfree.unmapped_after

end Changes

end CS330.Gem5.Mmu
