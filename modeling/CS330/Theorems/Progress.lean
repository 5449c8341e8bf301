import CS330.GemOS.Permissions
import CS330.Theorems.Confinement

/-! What a page fault that returns has achieved.

The handler looks at the present bit of the error code for DATA, and at nothing for
RODATA. A write to RODATA is therefore served as a read would be: the page is mapped
read-only, or was already, and the access faults again. -/
namespace CS330.GemOS.Lazy
open Machine

/-- `error_code` bit 1: the access was a write. -/
def isWrite (errorCode : Nat) : Prop := errorCode &&& 2 ≠ 0

instance (errorCode : Nat) : Decidable (isWrite errorCode) := inferInstanceAs (Decidable (_ ≠ _))

/-- The access is allowed: all four entries are present and user-accessible, and writable for a
write. -/
def Allowed (m : Memory) (pgd cr2 errorCode : Nat) : Prop := ∃ es, m.walk pgd cr2 = some es ∧
  (∀ e ∈ es, isUser e = true) ∧ (isWrite errorCode → ∀ e ∈ es, isWritable e = true)

section
variable {alloc : Allocator} {s t : State} {k : MmSeg} {cr2 errorCode : Nat}

end

end CS330.GemOS.Lazy
