import CS330.ObjStore.Exclusive
import CS330.Theorems.FileSystem

/-! Threads that make calls at once: what the mutexes achieve. -/
namespace CS330.Objfs
open ObjStore Threads Prog Machine

section Discipline
variable {ι α : Type} [DecidableEq ι] {objfs : Defaults}

end Discipline

end CS330.Objfs
