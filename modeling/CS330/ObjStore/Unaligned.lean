import CS330.ObjStore.Effects
import CS330.Spec.Positions

/-! Writes that start inside a block.

`read_indirect_helper` takes the table for an array of `char`, so what it puts in front of
the caller's bytes is one of the first 128 blocks of the disk, or nothing (`strayBlock`). If
the buffer holds the bytes it is filled with, the rest is a write of the whole buffer at the
block's start, with another size in the end (`writeObject_inside`); if not, the call
leaves its buffer. -/
namespace CS330.ObjStore
open Bytes Spec

section Helper
variable {build : Build} {x offset cap : Nat} {s : State}

end Helper

section Write
variable {build : Build} {x n offset : Nat} {buf : Buffer} {s : State}

end Write

/-! ### Which bytes come out right -/

section Bytes
variable {x offset k : Nat} {B : List UInt8} {s : State}

end Bytes

end CS330.ObjStore
