import CS330.GemOS.Paging

/-! Building and tearing down an address space (assignment 1).

`prepare_context_mm` maps one page of each of three segments; `cleanup_context_mm`
walks to the same pages again, collects the tables on the way without repetition in
`pfn_array` and frees what it found. `pfn_array` is a list whose length is `index`. -/
namespace CS330.GemOS.Launch

structure MmSegment where
  start : Nat
  end_ : Nat
  accessFlags : Nat

structure ExecContext where
  pgd : Nat
  code : MmSegment
  data : MmSegment
  stack : MmSegment
  argPfn : Nat

/-- `(stack_segment->end) - 0x1000`, in 64-bit arithmetic. -/
def ExecContext.stackPage (ctx : ExecContext) : Nat := (ctx.stack.end_ + 2 ^ 64 - 0x1000) % 2 ^ 64

section Prepare
variable (alloc : Allocator)

def prepareContextMm (ctx : ExecContext) (m : Memory) : Option (ExecContext × Memory) :=
  (osPfnAlloc alloc .osPtReg m).bind fun r =>
  -- `frame_number` and `pgd` are 32-bit.
  let frameNumber := r.1 % 2 ^ 32
  let ctx := {ctx with pgd := frameNumber}
  let m := r.2.initializePage frameNumber
  (assignPage alloc frameNumber ctx.stackPage ctx.stack.accessFlags 0 m).bind fun m =>
  (assignPage alloc frameNumber ctx.code.start ctx.code.accessFlags 0 m).bind fun m =>
  (assignPage alloc frameNumber ctx.data.start ctx.data.accessFlags ctx.argPfn m).map fun m => (ctx, m)

end Prepare

def existInArray (pfnArray : List Nat) (pfn : Nat) : Bool := pfnArray.any (· == pfn)

/-- `if (!exist_in_array(..)) pfn_array[(*index)++] = pfn` -/
def addToArray (pfnArray : List Nat) (pfn : Nat) : List Nat :=
  if !existInArray pfnArray pfn then pfnArray ++ [pfn] else pfnArray

/-- The frame of the data page, and the array with the tables on the way to it. -/
def addPagesToArray (l4 startAddr : Nat) (m : Memory) (pfnArray : List Nat) : Nat × List Nat :=
  let l3Pfn := m.words l4 (l4Index startAddr) >>> 12
  let l2Pfn := m.words l3Pfn (l3Index startAddr) >>> 12
  let l1Pfn := m.words l2Pfn (l2Index startAddr) >>> 12
  let dataPfn := m.words l1Pfn (l1Index startAddr) >>> 12
  (dataPfn, addToArray (addToArray (addToArray pfnArray l3Pfn) l2Pfn) l1Pfn)

/-- What `cleanup_context_mm` collects: the final `pfn_array` and the three data frames. -/
def collect (ctx : ExecContext) (m : Memory) : List Nat × Nat × Nat × Nat :=
  let stack := addPagesToArray ctx.pgd ctx.stackPage m [ctx.pgd]
  let code := addPagesToArray ctx.pgd ctx.code.start m stack.2
  let data := addPagesToArray ctx.pgd ctx.data.start m code.2
  (data.2, stack.1, code.1, data.1)

def cleanupContextMm (ctx : ExecContext) (m : Memory) : Memory :=
  let (pfnArray, stackDataPfn, codeDataPfn, dataDataPfn) := collect ctx m
  let m := pfnArray.foldl (fun m pfn => osPfnFree .osPtReg pfn m) m
  osPfnFree .userReg dataDataPfn (osPfnFree .userReg codeDataPfn (osPfnFree .userReg stackDataPfn m))

end CS330.GemOS.Launch
