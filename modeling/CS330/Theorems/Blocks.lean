import CS330.ObjStore.Accounting
import CS330.ObjStore.Contents
import CS330.ObjStore.Standing

/-! Whose blocks they are, and whether they come back.

No two objects share a block. Objects that are only written at their end give every block
back when they are destroyed; with the cache in between, a deletion gives back exactly the
blocks that the disk's copies of the object's tables list. -/
namespace CS330.ObjStore
open Spec Machine

/-! ### No two objects share a block -/

/-- Reads and measurements of the object in slot `y` answer in `t` as they do in `s`. -/
def Unaffected (y : Nat) (s t : State) : Prop :=
  (∀ size offset, (Op.read (indexToID y) size offset).Regular → ∃ r s' t',
    step .uncached (.read (indexToID y) size offset) s = some (r, s') ∧
    step .uncached (.read (indexToID y) size offset) t = some (r, t')) ∧
  ∃ r s' t', step .uncached (.stat (indexToID y)) s = some (r, s') ∧
    step .uncached (.stat (indexToID y)) t = some (r, t')

/-- The call writes to or destroys another object than the one in slot `y`. -/
def Op.Elsewhere (s : State) (y : Nat) : Op → Prop
  | .write id _ _ => id ≠ indexToID y
  | .destroy key => findObjectId key s ≠ indexToID y
  | _ => False

section Sharing
variable {op : Op} {r : Ret} {y : Nat} {s t : State}

theorem unaffected_of_files (hs : Healthy .uncached s) (ht : Healthy .uncached t) (hy : LiveSlot s y)
    (h : filesOf t y = filesOf s y) : Unaffected y s t := by
  obtain ⟨owner, hown⟩ := hs.sound.owned
  have hreg : (Op.stat (indexToID y)).Regular := by
    show idToIndex (indexToID y) < 1000000
    rw [idToIndex_indexToID]
    exact (hown.slot y hy).1
  have hlookup : (filesOf t).lookup (indexToID y) = (filesOf s).lookup (indexToID y) := by
    rw [Files.lookup, Files.lookup, idToIndex_indexToID, h]
  refine ⟨fun size offset hread => ?_, ?_⟩
  · obtain ⟨s', hs'⟩ := step_read_uncached hs.sound hs.calling hread
    obtain ⟨t', ht'⟩ := step_read_uncached ht.sound ht.calling hread
    rw [Files.read, hlookup] at ht'
    exact ⟨_, s', t', hs', ht'⟩
  · obtain ⟨s', hs'⟩ := step_stat_uncached hs.sound hs.calling hreg
    obtain ⟨t', ht'⟩ := step_stat_uncached ht.sound ht.calling hreg
    rw [Files.stat, hlookup] at ht'
    exact ⟨_, s', t', hs', ht'⟩

/-- A write to or a deletion of another object leaves the file alone. -/
theorem elsewhere_files (hs : Healthy .uncached s) (h : exec .uncached op s = some (r, t)) (hl : Live t)
    (hreg : op.Regular) (hf : ¬ Failed t) (hop : op.Elsewhere s y) : filesOf t y = filesOf s y := by
  obtain ⟨hinv, owner, hown⟩ := id hs.sound
  cases op with
  | write id data offset =>
    have hid : id ≠ indexToID y := hop
    cases h
    have hfiles := congrArg Prod.snd (objstoreWrite_spec hs.sound hreg hl hf)
    dsimp only at hfiles ⊢
    rw [hfiles, Files.write]
    split
    · rfl
    · rename_i f hlookup
      have hlow : ¬ id < 2 := fun hlt => by
        rw [Files.lookup, if_pos hlt] at hlookup
        cases hlookup
      refine Function.update_of_ne (fun hy => hid ?_) _ _
      rw [hy, indexToID, idToIndex]
      omega
  | destroy key =>
    cases h
    rcases destroyObject_cases key hown.numbered with ⟨-, heq⟩ | ⟨x, hprobe, hx, -, t, hfreed, -, heq⟩
    · rw [heq]
    · have hfind : findObjectId key s = indexToID x := by
        rw [findObjectId_eq, hprobe]
        exact (hown.slot x hx).2
      rw [heq, destroyed_files hinv hown hx hfreed]
      refine Function.update_of_ne (fun hy => hop ?_) _ _
      rw [hfind, hy]
  | _ => exact hop.elim

end Sharing

/-- **No two objects share a block.** In every state a run of the uncached build reaches in
which no allocation failed, a block an object refers to is a data block marked used, no
other place of any object refers to it, and writing to or destroying one object
changes no answer about another. -/
theorem blocks_unshared {n : Nat} (hn : n ≤ bitmapSize) {s : State}
    (h : Reaches (step .uncached) (Fair .uncached) (mount (zeroDisk n)) s) :
    (∀ x path b, Refers s x path b →
      ((dataBlocksStart : Int) ≤ b ∧ b < s.totalNumDiskBlocks) ∧ s.blockBitmap b ≠ 0) ∧
    (∀ x path y path' b, Refers s x path b → Refers s y path' b → x = y ∧ path = path') ∧
    ∀ op r t y, step .uncached op s = some (r, t) → Fair .uncached op s t → LiveSlot s y →
      op.Elsewhere s y → Unaffected y s t := by
  have hreach : Reaches (exec .uncached) (Fair .uncached) (mount (zeroDisk n)) s :=
    h.mono (fun _ _ _ _ hx => (step_some.mp hx).1) fun _ _ _ hok => hok
  obtain ⟨hs, hp⟩ := reaches_healthy hn hreach
  obtain ⟨owner, hown⟩ := hs.sound.owned
  refine ⟨fun x path b hr => hr.used hown, fun x path y path' b hr hr' => hr.unique hr' hown, ?_⟩
  intro op r t y hstep hok hy hop
  obtain ⟨hexec, hret⟩ := step_some.mp hstep
  have ht := (exec_healthy hs hp hexec hok).1
  exact unaffected_of_files hs ht hy (elsewhere_files hs hexec hret.1 hok.1 hok.2.1 hop)

set_option maxRecDepth 100000 in
theorem blocks_unshared_written : ∃ t,
    step .uncached (.write (indexToID (hash keyA)) [7] 0) (created keyA (mount (zeroDisk 17812))) =
        some (.val 1, t) ∧
      Refers t (hash keyA) (.ptr 0) 17808 ∧ t.blockBitmap 17808 ≠ 0 := by
  have hrun : (step .uncached (.write (indexToID (hash keyA)) [7] 0) (created keyA (mount (zeroDisk 17812)))).map
      (fun q => (q.1, (q.2.obj (hash keyA)).id, pointer q.2 (hash keyA) 0)) = some (.val 1, 177672, 17808) := by
    decide +kernel
  obtain ⟨⟨r, t⟩, hstep, hval⟩ := Option.map_eq_some_iff.mp hrun
  obtain ⟨rfl, hid, hptr⟩ : r = .val 1 ∧ (t.obj (hash keyA)).id = 177672 ∧ pointer t (hash keyA) 0 = 17808 := by
    simpa using hval
  have hrefers : Refers t (hash keyA) (.ptr 0) 17808 := ⟨by rw [LiveSlot, hid]; decide, by decide, hptr, by decide⟩
  have hreg : (Op.write (indexToID (hash keyA)) [7] 0).Regular := regular_write (hash_lt keyA) (by decide) (by decide)
  have hreach := Reaches.step (created_reaches .uncached (created_fair .uncached 17812 keyA)) hstep
    ⟨hreg, created_write (by decide) (by decide) (by decide) hstep, by simp⟩
  exact ⟨t, hstep, hrefers, ((blocks_unshared (by decide) hreach).1 _ _ _ hrefers).2⟩

/-! ### Exact accounting -/

/-- **What is taken for an object comes back with it.** In a run of the uncached build that
only writes at the end of objects, the used data blocks are exactly those the objects
refer to, and when there are no objects left every data block is free. -/
theorem blocks_accounted {n : Nat} (hn : n ≤ bitmapSize) {s : State}
    (h : Reaches (step .uncached) (fun op s t => op.Appends s ∧ ¬ Failed t) (mount (zeroDisk n)) s) :
    (∀ b : Int, (dataBlocksStart : Int) ≤ b → (s.blockBitmap b ≠ 0 ↔ ∃ x path, Refers s x path b)) ∧
    ((∀ x, ¬ LiveSlot s x) → ∀ b : Int, (dataBlocksStart : Int) ≤ b → s.blockBitmap b = 0) := by
  have hzero : Accounted (mount (zeroDisk n)) := by
    obtain ⟨hbit, hobj⟩ := mount_zero n
    refine ⟨mount_sound .uncached hn, fun b _ hb => absurd (hbit b) hb, fun x f hx => ?_⟩
    exact absurd (filesOf_eq_some.mp hx).1 (hobj x)
  have hs : Accounted s := h.invariant Accounted hzero fun op s r t hs hx hok =>
    exec_accounted hs (step_some.mp hx).1 hok.1 (step_some.mp hx).2.1 hok.2
  obtain ⟨owner, hown⟩ := hs.sound.owned
  have htight : ∀ b : Int, (dataBlocksStart : Int) ≤ b → s.blockBitmap b ≠ 0 → ∃ x path, Refers s x path b :=
    fun b hb => hs.tight b (by unfold dataBlocksStart at hb; omega)
  refine ⟨fun b hb => ⟨htight b hb, fun ⟨x, path, hr⟩ => (hr.used hown).2⟩, fun hnone b hb => ?_⟩
  by_contra hused
  obtain ⟨x, path, hr⟩ := htight b hb hused
  exact hnone x hr.1

theorem blocks_accounted_written : ∃ r t,
    step .uncached (.write (indexToID (hash keyA)) [7] 0) (created keyA (mount (zeroDisk 17812))) = some (r, t) ∧
      ∀ b : Int, (dataBlocksStart : Int) ≤ b → (t.blockBitmap b ≠ 0 ↔ ∃ x path, Refers t x path b) := by
  have hreach : Reaches (step .uncached) (fun op s t => op.Appends s ∧ ¬ Failed t) (mount (zeroDisk 17812))
      (created keyA (mount (zeroDisk 17812))) := created_reaches .uncached ⟨trivial, created_found 17812 keyA⟩
  have hend : AtEnd (created keyA (mount (zeroDisk 17812))) (idToIndex (indexToID (hash keyA))) [7] 0 := by
    rw [idToIndex_indexToID]
    exact ⟨by decide, by rw [created_obj]; rfl, by decide, by decide, .inl (by decide)⟩
  have hcall := created_calling keyA (mount_calling 17812)
  obtain ⟨t, hstep, -⟩ := (affords_uncached (by nofun) _).step_write
    (reaches_standing (by decide) (created_reaches .uncached nofun)).sound hcall (created_live keyA _)
    (by decide : 0 % 4096 = 0) (by decide : 0 + [(7 : UInt8)].length ≤ 16777216)
  exact ⟨_, _, hstep, (blocks_accounted (by decide) (.step hreach hstep
    ⟨fun _ _ => hend, created_write (by decide) (by decide) (by decide) hstep⟩)).1⟩

/-! ### Deleting with the cache -/

/-- **A deletion gives back what the disk lists.** In the cached build destroying a live object
clears the bitmap for exactly its tables and the data blocks in their current contents
if and only if nothing of the object stands behind a -1 and the disk's copies of the
tables are current. -/
theorem destroy_gives_back_iff {n : Nat} (hn : n ≤ bitmapSize) {s : State}
    (h : Reaches (step .cached) (Orderly .cached) (mount (zeroDisk n)) s) {key : Key} {x : Nat}
    (hkey : findObjectId key s = indexToID x) : ∃ t, step .cached (.destroy key) s = some (.val 0, t) ∧
      ((∀ b, s.blockBitmap b ≠ 0 ∧ t.blockBitmap b = 0 ↔ ∃ path, Refers s x path b) ↔ InSync s x) := by
  have hs := reaches_standing hn h
  obtain ⟨hinv, owner, hown⟩ := hs.sound
  rcases destroyObject_cases key hown.numbered with ⟨hprobe, -⟩ | ⟨x', hprobe, hx, hret, t, hfreed, -, heq⟩
  · rw [findObjectId_eq, hprobe] at hkey
    cases hkey
  · obtain rfl : x' = x := by
      rw [findObjectId_eq, hprobe] at hkey
      exact indexToID_inj ((hown.slot x' hx).2.symm.trans hkey)
    have hback : Returned (destroyObject key s).2 := by
      obtain ⟨new, hlog, hnew⟩ := destroyObject_noFault key s
      refine ⟨?_, ?_⟩
      · rw [(destroyObject_calm key s).balanced hs.calling.free]
        nofun
      · rw [hlog, List.mem_append]
        exact fun hmem => hmem.elim (fun hmem => hnew _ hmem rfl) hs.calling.noFault
    refine ⟨_, step_some.mpr ⟨by rw [exec, hret], hback⟩, ?_⟩
    have hbit : ∀ b, s.blockBitmap b ≠ 0 ∧ (destroyObject key s).2.blockBitmap b = 0 ↔
        FreedByPointers s (s.obj x').dataBlockPointers 4 0 b := by
      intro b
      rw [heq, State.setObj_blockBitmap]
      constructor
      · rintro ⟨hused, hzero⟩
        by_contra hP
        exact hused ((hfreed.kept b hP).symm.trans hzero)
      · intro hP
        obtain ⟨path, hb⟩ := freedByPointers_owner hinv hown hx hP
        exact ⟨(hown.used b _ hb).2, hfreed.freed b hP⟩
    simp only [hbit]
    exact freed_iff_inSync hinv hown hx

theorem destroy_gives_back_iff_created : ∃ t,
    step .cached (.destroy keyA) (created keyA (mount (zeroDisk 17812))) = some (.val 0, t) ∧
      ((∀ b, (created keyA (mount (zeroDisk 17812))).blockBitmap b ≠ 0 ∧ t.blockBitmap b = 0 ↔
          ∃ path, Refers (created keyA (mount (zeroDisk 17812))) (hash keyA) path b) ↔
        InSync (created keyA (mount (zeroDisk 17812))) (hash keyA)) := by
  exact destroy_gives_back_iff (by decide) (created_reaches .cached nofun) (findObjectId_created keyA (by decide) _)

set_option maxRecDepth 100000 in
/-- One byte is written and the object destroyed. The table on the disk is still empty, so its
data block is not given back. -/
theorem destroy_gives_back_short : ∃ s t,
    Reaches (step .cached) (Orderly .cached) (mount (zeroDisk 17812)) s ∧
      findObjectId keyA s = indexToID (hash keyA) ∧ step .cached (.destroy keyA) s = some (.val 0, t) ∧
      Refers s (hash keyA) (.entry 0 0) 17809 ∧ t.blockBitmap 17809 ≠ 0 := by
  have hrun : (runAll (step .cached) [.create keyA, .write (indexToID (hash keyA)) [7] 0] (mount (zeroDisk 17812))).map
      (fun q => ((q.2.obj (hash keyA)).id, findObjectId keyA q.2, blockAt q.2 (hash keyA) (.entry 0 0),
        (step .cached (.destroy keyA) q.2).map fun q => (q.1, q.2.blockBitmap 17809))) =
      some (177672, indexToID (hash keyA), 17809, some (.val 0, 3)) := by
    decide +kernel
  obtain ⟨⟨rs, s⟩, hrun, hval⟩ := Option.map_eq_some_iff.mp hrun
  obtain ⟨hid, hfind, hat, hdestroy⟩ : (s.obj (hash keyA)).id = 177672 ∧ findObjectId keyA s = indexToID (hash keyA) ∧
      blockAt s (hash keyA) (.entry 0 0) = 17809 ∧
      (step .cached (.destroy keyA) s).map (fun q => (q.1, q.2.blockBitmap 17809)) = some (.val 0, 3) := by
    simpa only [Prod.mk.injEq] using hval
  obtain ⟨⟨r, t⟩, hstep, hval⟩ := Option.map_eq_some_iff.mp hdestroy
  obtain ⟨rfl, hbit⟩ := Prod.mk.inj hval
  refine ⟨s, t, Reaches.start.runAll hrun ?_, hfind, hstep, ⟨by rw [LiveSlot, hid]; decide, by decide, hat, by decide⟩,
    by rw [show t.blockBitmap 17809 = 3 from hbit]; decide⟩
  simp [Orderly]

end CS330.ObjStore
