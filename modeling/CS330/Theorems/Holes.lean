import CS330.ObjStore.Accounting
import CS330.ObjStore.Contents
import CS330.Spec.Gaps

/-! Where the block pointers of an object may have holes. -/
namespace CS330.ObjStore
open Bytes Machine Spec

/-- In every object no pointer and no entry of a table that is -1 is followed by one that
is not. -/
structure PointersPrefix (s : State) : Prop where
  pointers : ∀ x, LiveSlot s x → ∀ i j, i < j → j < 4 → pointer s x i = -1 → pointer s x j = -1
  entries : ∀ x, LiveSlot s x → ∀ j, j < 4 → pointer s x j ≠ -1 → ∀ k l, k < l → l < 1024 →
    ints (view s (pointer s x j)) k = -1 → ints (view s (pointer s x j)) l = -1

/-- The calls of a run: creating, finding, renaming and destroying, and writes of at least one
byte that start on a block boundary and end within 16 MB. -/
def Op.Places : Op → Prop
  | .write _ data offset => 1 ≤ data.length ∧ offset % 4096 = 0 ∧ offset + data.length ≤ 16777216
  | .create _ | .find _ | .destroy _ | .rename _ _ => True
  | .read _ _ _ | .stat _ | .remount => False

/-- A write to an object starts where the pointers in front of it, and in front of it in its
table the entries, are filled. -/
def StartsFilled : Op → State → Prop
  | .write id _ offset, s => 2 ≤ id → LiveSlot s (idToIndex id) →
      (∀ j, j < firstOf offset → pointer s (idToIndex id) j ≠ -1) ∧
      ∀ k, k < entryOf offset → tableAt s (idToIndex id) (firstOf offset) k ≠ -1
  | _, _ => True

section
variable {build : Build} {op : Op} {r : Ret} {x j k : Nat} {s t : State}

theorem treeOf_ne_none (hj : j < 4) : treeOf s x j ≠ none ↔ pointer s x j ≠ -1 := by
  unfold treeOf
  split <;> simp_all

theorem treeOf_entry_ne_none (hj : j < 4) (hk : k < 1024) :
    (treeOf s x).entry j k ≠ none ↔ tableAt s x j k ≠ -1 := by
  rw [treeOf_entry]
  split <;> simp_all

/-- The pointers and tables of an object have no holes if its tree has no gaps. -/
theorem pointersPrefix_iff : PointersPrefix s ↔ (filesOf s).Gapless := by
  constructor
  · intro h x f hx
    obtain ⟨hlive, rfl⟩ := filesOf_eq_some.mp hx
    refine ⟨fun i j hij hj => ?_, fun j k l hkl hl => ?_⟩
    · have hj4 : j < 4 := by
        by_contra hge
        exact hj (treeOf_high (Nat.not_lt.mp hge))
      rw [treeOf_ne_none hj4] at hj
      rw [treeOf_ne_none (by omega)]
      obtain rfl | hlt := hij.eq_or_lt
      · exact hj
      · exact fun hi => hj (h.pointers x hlive i j hlt hj4 hi)
    · rw [treeOf_entry] at hl
      obtain ⟨hj, hl1024, hne⟩ : j < 4 ∧ l < 1024 ∧ tableAt s x j l ≠ -1 := by
        by_contra hc
        exact hl (if_neg hc)
      rw [treeOf_entry_ne_none hj (by omega)]
      obtain rfl | hlt := hkl.eq_or_lt
      · exact hne
      · have hp : pointer s x j ≠ -1 := fun hp => hne (if_pos hp)
        rw [tableAt, if_neg hp] at hne ⊢
        exact fun hk => hne (h.entries x hlive j hj hp k l hlt hl1024 hk)
  · intro h
    refine ⟨fun x hx i j hij hj hi => ?_, fun x hx j hj hp k l hkl hl hk => ?_⟩
    · by_contra hne
      have := (h x _ (filesOf_live hx)).tables i j hij.le ((treeOf_ne_none hj).mpr hne)
      exact (treeOf_ne_none (by omega)).mp this hi
    · have htable : ∀ m, tableAt s x j m = ints (view s (pointer s x j)) m := fun m => if_neg hp
      by_contra hne
      rw [← htable] at hk hne
      have := (h x _ (filesOf_live hx)).entries j k l hkl.le ((treeOf_entry_ne_none hj hl).mpr hne)
      exact (treeOf_entry_ne_none hj (by omega)).mp this hk

theorem startsFilled_iff {id : Int} {data : List UInt8} {offset : Nat} (hoff : offset < 16777216) :
    StartsFilled (.write id data offset) s ↔ (filesOf s).FilledFor (.write id data offset) := by
  have hfirst := firstOf_lt hoff
  have htree : (treeOf s (idToIndex id)).FilledTo offset ↔
      (∀ j, j < firstOf offset → pointer s (idToIndex id) j ≠ -1) ∧
        ∀ k, k < entryOf offset → tableAt s (idToIndex id) (firstOf offset) k ≠ -1 := by
    have hentry := entryOf_lt offset
    constructor
    · intro h
      exact ⟨fun j hj => (treeOf_ne_none (by omega)).mp (h.tables j hj),
        fun k hk => (treeOf_entry_ne_none hfirst (by omega)).mp (h.entries k hk)⟩
    · intro h
      exact ⟨fun j hj => (treeOf_ne_none (by omega)).mpr (h.1 j hj),
        fun k hk => (treeOf_entry_ne_none hfirst (by omega)).mpr (h.2 k hk)⟩
  constructor
  · intro h f hf
    obtain ⟨hid, hf⟩ := Files.lookup_eq_some.mp hf
    obtain ⟨hlive, rfl⟩ := filesOf_eq_some.mp hf
    exact htree.mpr (h hid hlive)
  · intro h hid hlive
    exact htree.mp (h _ (Files.lookup_live hid (filesOf_live hlive)))

/-- What one call does to the prefixes. -/
theorem step_pointersPrefix (hs : Sound build s) (hwhole : PointersPrefix s) (hop : op.Places)
    (h : step build op s = some (r, t)) (hf : ¬ Failed t) : PointersPrefix t ↔ StartsFilled op s := by
  obtain ⟨hexec, hret⟩ := step_some.mp h
  rw [pointersPrefix_iff] at hwhole ⊢
  have hdirectory : op.Regular → (∀ id data offset, op ≠ .write id data offset) → op ≠ .remount →
      (filesOf t).Gapless := by
    intro hreg hwrite hremount
    exact exec_files_all hs hexec hremount hreg hret.1 hf hwrite Tree.gapless_empty hwhole
  cases op with
  | write id data offset =>
    obtain ⟨hdata, haligned, hend⟩ := hop
    rw [startsFilled_iff (by omega), ← Files.gapless_write_iff hwhole hdata hend]
    by_cases hlive : 2 ≤ id ∧ LiveSlot s (idToIndex id)
    · obtain ⟨owner, hown⟩ := hs.owned
      have hreg : (Op.write id data offset).Regular :=
        ⟨not_irregular.mpr ⟨haligned, by omega⟩, (hown.slot _ hlive.2).1, by omega⟩
      generalize hG : filesOf t = G
      have hstep := hG ▸ exec_files hs hexec (by simp) hreg hret.1 hf
      cases hstep
      rfl
    · cases hexec
      rw [(objstoreWrite_dead hs.inv hlive).files hs]
      have hnone : (filesOf s).lookup id = none := by
        rw [Option.eq_none_iff_forall_ne_some]
        intro f hf
        obtain ⟨hid, hfile⟩ := Files.lookup_eq_some.mp hf
        exact hlive ⟨hid, (filesOf_eq_some.mp hfile).1⟩
      rw [Files.write, hnone]
  | create key => exact iff_of_true (hdirectory trivial (by simp) (by simp)) trivial
  | find key => exact iff_of_true (hdirectory trivial (by simp) (by simp)) trivial
  | destroy key => exact iff_of_true (hdirectory trivial (by simp) (by simp)) trivial
  | rename key newname => exact iff_of_true (hdirectory trivial (by simp) (by simp)) trivial
  | read id size offset => exact hop.elim
  | stat id => exact hop.elim
  | remount => exact hop.elim

theorem mount_pointersPrefix (n : Nat) : PointersPrefix (mount (zeroDisk n)) :=
  ⟨fun x hx => absurd hx ((mount_zero n).2 x), fun x hx => absurd hx ((mount_zero n).2 x)⟩

end

/-- **Block pointers form prefixes exactly as long as no write starts behind a hole.** In a run of
calls from a disk of zeros in which no allocation fails, every state is without holes if each write
starts where everything in front of it is filled, and only then: a write further on takes its
blocks where it starts and leaves -1 in front of them. -/
theorem pointers_prefix_iff {build : Build} {n : Nat} (hn : n ≤ bitmapSize) {ops : List Op}
    (hops : ∀ op ∈ ops, op.Places) {rs : List Ret} {u : State}
    (hrun : runAll (step build) ops (mount (zeroDisk n)) = some (rs, u))
    (hfound : Along (step build) (fun s => ¬ Failed s) ops (mount (zeroDisk n))) :
    Along (step build) PointersPrefix ops (mount (zeroDisk n)) ↔
      Each (step build) StartsFilled ops (mount (zeroDisk n)) := by
  refine hfound.iff_each (fun op s r t hmem hs hwhole hf hstep => ?_) (mount_sound build hn) (mount_pointersPrefix n) hrun
  have hop := hops op hmem
  obtain ⟨hexec, hret⟩ := step_some.mp hstep
  refine ⟨exec_sound hs hexec ?_ hret.1, step_pointersPrefix hs hwhole hop hstep hf⟩
  rintro rfl
  exact hop

/-- A run that creates an object and writes to it once. -/
theorem runAll_created {build : Build} {n : Nat} {data : List UInt8} {offset : Nat} {r : Ret} {t : State}
    (h : step build (.write (indexToID (hash keyA)) data offset) (created keyA (mount (zeroDisk n))) = some (r, t))
    (hf : ¬ Failed t) :
    runAll (step build) [.create keyA, .write (indexToID (hash keyA)) data offset] (mount (zeroDisk n)) =
        some ([.val (indexToID (hash keyA)), r], t) ∧
      Along (step build) (fun s => ¬ Failed s) [.create keyA, .write (indexToID (hash keyA)) data offset]
        (mount (zeroDisk n)) := by
  have hcreate := step_create build keyA (mount_calling n) ((mount_zero n).2 _)
  refine ⟨runAll_cons.mpr ⟨_, _, _, hcreate, runAll_cons.mpr ⟨_, _, _, h, rfl, rfl⟩, rfl⟩, ?_, fun r' s hs => ?_⟩
  · exact List.not_mem_nil
  · cases hcreate.symm.trans hs
    refine ⟨created_found n keyA, fun r' u hu => ?_⟩
    cases h.symm.trans hu
    exact hf

/-- The first byte of a new object. -/
theorem pointers_prefix_first : ∃ rs u,
    runAll (step .uncached) [.create keyA, .write (indexToID (hash keyA)) [7] 0] (mount (zeroDisk 20000)) =
        some (rs, u) ∧
      Along (step .uncached) PointersPrefix [.create keyA, .write (indexToID (hash keyA)) [7] 0]
        (mount (zeroDisk 20000)) := by
  have hreach : Reaches (step .uncached) (fun op _ _ => op ≠ .remount) (mount (zeroDisk 20000))
      (created keyA (mount (zeroDisk 20000))) := created_reaches .uncached nofun
  have hsound := hreach.invariant (Sound .uncached) (mount_sound _ (by decide)) fun _ _ _ _ hs hst hop =>
    exec_sound hs (step_some.mp hst).1 hop (step_some.mp hst).2.1
  have hpages : Affords .uncached (.write (indexToID (hash keyA)) [7] 0) (created keyA (mount (zeroDisk 20000))) :=
    affords_uncached (by nofun) _
  obtain ⟨t, hwrite, -⟩ := hpages.step_write hsound (reaches_calling hreach) (created_live keyA _) rfl (by decide)
  obtain ⟨hrun, hfound⟩ := runAll_created hwrite (created_write (by decide) (by decide) (by decide) hwrite)
  refine ⟨_, _, hrun, (pointers_prefix_iff (by decide) ?_ hrun hfound).mpr ⟨trivial, fun r s _ => ⟨?_, ?_⟩⟩⟩
  · intro op hop
    rcases List.mem_cons.mp hop with rfl | hop
    · trivial
    · obtain rfl := List.mem_singleton.mp hop
      exact ⟨by decide, rfl, by decide⟩
  · exact fun _ _ => ⟨fun _ h => absurd h (Nat.not_lt_zero _), fun _ h => absurd h (Nat.not_lt_zero _)⟩
  · exact fun _ _ _ => trivial

set_option maxRecDepth 100000 in
/-- A byte written to the second block of a new object: the first entry of its table is -1 and the
second is not. -/
theorem pointers_prefix_hole : ∃ rs u,
    runAll (step .uncached) [.create keyA, .write (indexToID (hash keyA)) [7] 4096] (mount (zeroDisk 17812)) =
        some (rs, u) ∧
      (Op.write (indexToID (hash keyA)) [7] 4096).Places ∧ ¬ Failed u ∧ ¬ PointersPrefix u := by
  have hstep : (step .uncached (.write (indexToID (hash keyA)) [7] 4096)
      (created keyA (mount (zeroDisk 17812)))).map (fun q =>
        (decide (Event.newDatablock (-1) ∈ q.2.log), pointer q.2 (hash keyA) 0 == -1,
          tableAt q.2 (hash keyA) 0 0 == -1, tableAt q.2 (hash keyA) 0 1 == -1, (q.2.obj (hash keyA)).id == 0)) =
      some (false, false, true, false, false) := by
    decide +kernel
  obtain ⟨⟨r, t⟩, hwrite, hval⟩ := Option.map_eq_some_iff.mp hstep
  simp only [Prod.mk.injEq, decide_eq_false_iff_not, beq_eq_false_iff_ne, beq_iff_eq] at hval
  obtain ⟨hf, hp, hfirst, hsecond, hlive⟩ := hval
  refine ⟨_, t, (runAll_created hwrite hf).1, ⟨by decide, rfl, by decide⟩, hf, fun h => ?_⟩
  rw [tableAt, if_neg hp] at hfirst hsecond
  exact hsecond (h.entries _ hlive 0 (by decide) hp 0 1 (by decide) (by decide) hfirst)

end CS330.ObjStore
