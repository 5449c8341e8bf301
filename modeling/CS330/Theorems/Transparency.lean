import CS330.ObjStore.Names
import CS330.ObjStore.Runs
import CS330.ObjStore.WriteBack

/-! The cache changes nothing a caller sees.

Both builds refine one abstract store, so as long as blocks and fresh cache pages last a run
gives the same results in both, whatever blocks they use. The cache by itself, its mutexes
aside, is a memory of blocks over runs of any length. -/
namespace CS330.ObjStore
open Spec Machine

/-- A call of the contract: no remount, block-aligned offsets of at most 16 MB, ids of slots
that exist, keys of at most 31 bytes. -/
def Op.Plain (op : Op) : Prop := op ≠ .remount ∧ op.Regular ∧ op.ShortKeys

section Runs
variable {build : Build} {ops : List Op} {rs : List Ret} {s t : State}

theorem runAll_grows (hops : ∀ op ∈ ops, op.Plain) (h : runAll (exec build) ops s = some (rs, t)) :
    Emits (fun _ => True) s t := by
  induction ops generalizing s rs with
  | nil =>
    cases h
    exact .of_log_eq rfl
  | cons op ops ih =>
    obtain ⟨r, s', rs', hop, hrest, -⟩ := runAll_cons.mp h
    have hgrows := (exec_steady hop (hops op (List.mem_cons_self ..)).1).grows
    exact hgrows.trans (ih (fun op h => hops op (List.mem_cons_of_mem _ h)) hrest)

/-- A run that ends without a failed allocation and before the cursor has been round comes
back from every call, and is a run of the abstract store. -/
theorem runAll_store (hs : Healthy build s) (hp : build = .cached → pageCalls s.log ≤ 32766)
    (hops : ∀ op ∈ ops, op.Plain) (h : runAll (exec build) ops s = some (rs, t)) (hf : ¬ Failed t)
    (hpages : build = .cached → pageCalls t.log ≤ 32766) :
    runAll (step build) ops s = some (rs, t) ∧ runAll Store.step ops (storeOf s) = some (rs, storeOf t) := by
  induction ops generalizing s rs with
  | nil =>
    cases h
    exact ⟨rfl, rfl⟩
  | cons op ops ih =>
    obtain ⟨r, s', rs', hop, hrest, rfl⟩ := runAll_cons.mp h
    obtain ⟨hplain, hreg, hkeys⟩ := hops op (List.mem_cons_self ..)
    have hops' : ∀ op ∈ ops, op.Plain := fun op h => hops op (List.mem_cons_of_mem _ h)
    have hgrows := runAll_grows hops' hrest
    have hf' : ¬ Failed s' := fun hs' => hf (by
      obtain ⟨new, hlog, -⟩ := hgrows
      rw [Failed, hlog]
      exact List.mem_append_right _ hs')
    have hp' : build = .cached → pageCalls s'.log ≤ 32766 := fun hb =>
      Nat.le_trans hgrows.pageCalls_le (hpages hb)
    have hs' := (exec_healthy hs hp hop ⟨hreg, hf', hp'⟩).1
    obtain ⟨hstep, hstore⟩ := ih hs' hp' hops' hrest
    exact ⟨runAll_cons.mpr ⟨r, s', rs', step_some.mpr ⟨hop, hs'.calling.returned⟩, hstep, rfl⟩,
      runAll_cons.mpr ⟨r, storeOf s', rs',
        exec_store hs.sound hop hplain hreg hkeys hs'.calling.live hf', hstore, rfl⟩⟩

end Runs

/-- **The cache is transparent.** A run of plain calls from an all-zero disk in which no
allocation fails in either build and the cached one asks for at most 32766 pages comes back
from every call in both builds, with the same results. -/
theorem cache_transparent {n : Nat} (hn : n ≤ bitmapSize) {ops : List Op} (hops : ∀ op ∈ ops, op.Plain)
    {rs rs' : List Ret} {t t' : State} (hcached : runAll (exec .cached) ops (mount (zeroDisk n)) = some (rs, t))
    (huncached : runAll (exec .uncached) ops (mount (zeroDisk n)) = some (rs', t')) (hf : ¬ Failed t)
    (hf' : ¬ Failed t') (hpages : pageCalls t.log ≤ 32766) :
    runAll (step .cached) ops (mount (zeroDisk n)) = some (rs, t) ∧
      runAll (step .uncached) ops (mount (zeroDisk n)) = some (rs', t') ∧ rs = rs' := by
  have hnone : pageCalls (mount (zeroDisk n)).log ≤ 32766 := Nat.zero_le _
  obtain ⟨hc, hstore⟩ := runAll_store (mount_healthy .cached hn) (fun _ => hnone) hops hcached hf fun _ => hpages
  obtain ⟨hu, hstore'⟩ := runAll_store (mount_healthy .uncached hn) (fun _ => hnone) hops huncached hf' nofun
  refine ⟨hc, hu, ?_⟩
  have := hstore.symm.trans hstore'
  exact congrArg Prod.fst (Option.some.inj this)

/-- One object is written, read, looked up and destroyed. -/
def shortRun : List Op :=
  [.create keyA, .write 177672 [7] 0, .read 177672 1 0, .stat 177672, .find keyA, .destroy keyA]

theorem shortRun_plain : ∀ op ∈ shortRun, op.Plain := by
  simp [shortRun, Op.Plain, Op.Regular, Op.ShortKeys, Irregular, idToIndex, keyA]

set_option maxRecDepth 100000 in
theorem cache_transparent_short_run : ∃ t t',
    runAll (step .cached) shortRun (mount (zeroDisk 17812)) =
      some ([.val 177672, .val 1, .data 1 [7], .stat 0 1 1, .val 177672, .val 0], t) ∧
    runAll (step .uncached) shortRun (mount (zeroDisk 17812)) =
      some ([.val 177672, .val 1, .data 1 [7], .stat 0 1 1, .val 177672, .val 0], t') := by
  have hc : (runAll (exec .cached) shortRun (mount (zeroDisk 17812))).map
      (fun q => (q.1, decide (Event.newDatablock (-1) ∈ q.2.log), pageCalls q.2.log)) =
      some ([.val 177672, .val 1, .data 1 [7], .stat 0 1 1, .val 177672, .val 0], false, 2) := by
    decide +kernel
  have hu : (runAll (exec .uncached) shortRun (mount (zeroDisk 17812))).map
      (fun q => (q.1, decide (Event.newDatablock (-1) ∈ q.2.log))) =
      some ([.val 177672, .val 1, .data 1 [7], .stat 0 1 1, .val 177672, .val 0], false) := by
    decide +kernel
  obtain ⟨⟨rs, t⟩, hrun, hval⟩ := Option.map_eq_some_iff.mp hc
  obtain ⟨⟨rs', t'⟩, hrun', hval'⟩ := Option.map_eq_some_iff.mp hu
  simp only [Prod.mk.injEq, decide_eq_false_iff_not] at hval hval'
  obtain ⟨rfl, hf, hpages⟩ := hval
  obtain ⟨rfl, hf'⟩ := hval'
  obtain ⟨hstep, hstep', -⟩ := cache_transparent (by decide) shortRun_plain hrun hrun' hf hf' (by omega)
  exact ⟨t, t', hstep, hstep'⟩

/-! ### The cache as a memory of blocks -/

/-- **The cache is write-back, evictions included.** After any run of aligned reads and writes
of used blocks that starts at a mount, a read returns what was last written, or what the disk
held; a block has a page exactly if a page is named after it, and that page is the one; and
`cache_sync` brings what was last written to the disk and leaves no block a page. -/
theorem cache_is_memory {s₀ : State} (h₀ : ∀ b, (objstoreInit s₀).blockBitmap b ≤ 1) {ops : List CacheOp}
    (hops : ∀ op ∈ ops, op.Allowed (objstoreInit s₀)) {s : State} (hs : s = cacheRun ops (objstoreInit s₀)) :
    (∀ b addr buf d, (CacheOp.read b addr buf).Allowed s → lastWritten ops s₀.disk.memory b = some d →
      (readCached .cached b addr buf s).1 = 0 ∧ (readCached .cached b addr buf s).2.1 = d) ∧
    (∀ b, 1 ≤ b → (1 < s.blockBitmap b ↔ ∃ c, 2 ≤ c ∧ c < cachePages ∧ s.cacheBitmap c = b) ∧
      ∀ c, 2 ≤ c → c < cachePages → s.cacheBitmap c = b → c = s.blockBitmap b) ∧
    (∀ b d, lastWritten ops s₀.disk.memory b = some d → OnDisk (cacheSync .cached s) b d) ∧
    ∀ b, s.blockBitmap b ≠ 0 → (cacheSync .cached s).blockBitmap b = 1 := by
  have hcoh : Coherent 0 (lastWritten ops s₀.disk.memory) s := hs ▸ ((objstoreInit_coherent h₀).cacheRun hops).1
  refine ⟨fun b addr buf d hop hd => ?_, fun b hb => ?_, hcoh.cacheSync⟩
  · obtain ⟨hret, hdata, -⟩ := hcoh.readCached buf hop.1 hop.2.1 hop.2.2
    exact ⟨hret, hdata d hd⟩
  · have hnamed : ∀ c, s.cacheBitmap c = b → 2 ≤ c ∧ s.blockBitmap b = c := by
      intro c hc
      obtain ⟨h₂, -, hpage⟩ := hcoh.used c (Nat.zero_le c) (by omega)
      exact ⟨h₂, hc ▸ hpage⟩
    refine ⟨⟨fun hpaged => ?_, fun ⟨c, h₂, _, hc⟩ => ?_⟩, fun c _ _ hc => (hnamed c hc).2.symm⟩
    · obtain ⟨-, -, hlt, hname⟩ := hcoh.page b hpaged
      exact ⟨s.blockBitmap b, hpaged, hlt, hname⟩
    · rw [(hnamed c hc).2]
      exact h₂

/-- A disk of two blocks whose super object marks block 1 used. -/
def markedDisk : Disk := ⟨2, fun b k => if b = 0 ∧ k.val = 42 then 1 else 0⟩

theorem mount_marked_le (b : Int) : (mount markedDisk).blockBitmap b ≤ 1 := by
  have hbyte : ∀ s : State, s.disk = markedDisk → ∀ a, superMemory s a = if a = 42 then 1 else 0 := by
    intro s hs a
    unfold superMemory readBlock
    rw [hs, if_neg (not_not.mpr (shift_aligned (by omega))), if_neg (by omega)]
    by_cases hin : a / 4096 < 2
    · rw [if_neg (by show ¬ (2 : Int) ≤ _; omega)]
      show (if ((a / 4096 : Nat) : Int) = 0 ∧ a % 4096 = 42 then (1 : UInt8) else 0) = _
      exact if_congr (by omega) rfl rfl
    · rw [if_pos (by show (2 : Int) ≤ _; omega), if_neg (by omega)]
      rfl
  show bitmapOfBytes (superMemory _) b ≤ 1
  unfold bitmapOfBytes
  split
  · rw [hbyte _ rfl, hbyte _ rfl, if_neg (show ¬ 40 + 2 * b.toNat + 1 = 42 by omega)]
    split <;> decide
  · exact Nat.zero_le 1

theorem cache_is_memory_marked :
    (readCached .cached 1 0 zeroBlock (cacheRun [.write 1 fun _ => 7] (mount markedDisk))).2.1 = (fun _ => 7) ∧
      OnDisk (cacheSync .cached (cacheRun [.write 1 fun _ => 7] (mount markedDisk))) 1 fun _ => 7 := by
  have hmark : (mount markedDisk).blockBitmap 1 ≠ 0 := by decide +kernel
  have hops : ∀ op ∈ [CacheOp.write 1 fun _ => 7], op.Allowed (mount markedDisk) := by
    intro op hop
    rw [List.mem_singleton.mp hop]
    exact ⟨by decide, hmark⟩
  have hused := ((objstoreInit_coherent mount_marked_le).cacheRun hops).2
  have hlast : lastWritten [.write 1 fun _ => 7] markedDisk.memory 1 = some fun _ => 7 :=
    Function.update_self (1 : Int) _ markedDisk.memory
  obtain ⟨hread, -, hdisk, -⟩ := cache_is_memory mount_marked_le hops rfl
  exact ⟨(hread 1 0 zeroBlock _ ⟨by decide, mt (hused 1).mp hmark, rfl⟩ hlast).2, hdisk 1 _ hlast⟩

end CS330.ObjStore
