import CS330.ObjStore.Contents
import CS330.ObjStore.Space
import CS330.ObjStore.Standing

/-! What a write does when blocks run out.

`objstore_write` always returns its size. If there are fewer free blocks than it needs, the -1
of `get_new_datablock` is taken for a block: an entry in front of the bitmap is set and block
-1 is written. If there are enough, nothing harmful happens, and the range reads back but for
the bytes behind the first 4 MB boundary that the first table has no room for. -/
namespace CS330.ObjStore
open Bytes Machine Spec

section Write
variable {build : Build} {x : Nat} {s t : State} {data : List UInt8} {offset : Nat}

end Write

end CS330.ObjStore
