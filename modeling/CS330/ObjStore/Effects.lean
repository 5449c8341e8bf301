import CS330.ObjStore.Exec
import CS330.Spec.Store

/-! What each call does to the files, and what it returns.

`filesOf s` are the objects of a state with their sizes and trees. Reads and
measurements return what `Files` says and change nothing; a write that runs out of
no blocks returns and changes what `Files` says; the directory's calls fill, empty
or move a slot. -/
namespace CS330.ObjStore
open Bytes Spec Probe

def filesOf (s : State) : Files := fun x =>
  if LiveSlot s x then some ⟨(s.obj x).size, treeOf s x⟩ else none

section Files
variable {build : Build} {owner : Owner} {x : Nat} {s t : State}

theorem filesOf_live (hx : LiveSlot s x) : filesOf s x = some ⟨(s.obj x).size, treeOf s x⟩ := if_pos hx

theorem filesOf_free (hx : ¬ LiveSlot s x) : filesOf s x = none := if_neg hx

theorem filesOf_eq_none : filesOf s x = none ↔ ¬ LiveSlot s x := by
  refine ⟨fun h hx => ?_, filesOf_free⟩
  rw [filesOf_live hx] at h
  cases h

theorem filesOf_eq_some {f : File} :
    filesOf s x = some f ↔ LiveSlot s x ∧ f = ⟨(s.obj x).size, treeOf s x⟩ := by
  constructor
  · intro h
    have hx : LiveSlot s x := by
      by_contra hfree
      exact absurd ((filesOf_free hfree).symm.trans h) nofun
    exact ⟨hx, Option.some.inj (h.symm.trans (filesOf_live hx))⟩
  · rintro ⟨hx, rfl⟩
    exact filesOf_live hx

theorem filesOf_congr {y : Nat} (hlive : LiveSlot t x ↔ LiveSlot s y)
    (hsize : LiveSlot s y → (t.obj x).size = (s.obj y).size)
    (htree : LiveSlot s y → treeOf t x = treeOf s y) : filesOf t x = filesOf s y := by
  by_cases hy : LiveSlot s y
  · rw [filesOf_live hy, filesOf_live (hlive.mpr hy), hsize hy, htree hy]
  · rw [filesOf_free hy, filesOf_free fun hx => hy (hlive.mp hx)]

theorem Same.files (h : Same s t) (hown : Owned owner s) : filesOf t = filesOf s := by
  funext x
  exact filesOf_congr (liveSlot_congr h.obj x) (fun _ => by rw [h.obj]) fun hx => h.treeOf hown hx

theorem Kept.files (h : Kept build s t) (hs : Sound build s) : filesOf t = filesOf s := by
  obtain ⟨-, owner, hown⟩ := hs
  exact h.same.files hown

theorem OnlySlots.file {y : Nat} (h : OnlySlots s t) (hy : t.obj y = s.obj y) (hown : Owned owner s) :
    filesOf t y = filesOf s y := by
  have hlive : LiveSlot t y ↔ LiveSlot s y := by
    unfold LiveSlot
    rw [hy]
  refine filesOf_congr hlive (fun _ => by rw [hy]) fun hx => ?_
  exact treeOf_moved hown hx (fun j _ => by unfold pointer; rw [hy]) fun b _ _ => h.view b

/-- The checks every call makes on an id, and the object it stands for. -/
theorem lookup_cases (hslot : SlotsOk s) (id : Int) :
    (id < 2 ∧ (filesOf s).lookup id = none) ∨
    (¬ id < 2 ∧ 1000000 ≤ idToIndex id ∧ (filesOf s).lookup id = none) ∨
    (¬ id < 2 ∧ ¬ 1000000 ≤ idToIndex id ∧ (s.obj (idToIndex id)).id = 0 ∧
      (filesOf s).lookup id = none) ∨
    (¬ id < 2 ∧ ¬ 1000000 ≤ idToIndex id ∧ LiveSlot s (idToIndex id) ∧
      (filesOf s).lookup id = some ⟨(s.obj (idToIndex id)).size, treeOf s (idToIndex id)⟩) := by
  unfold Files.lookup
  by_cases h₁ : id < 2
  · exact .inl ⟨h₁, if_pos h₁⟩
  · rw [if_neg h₁]
    by_cases h₂ : LiveSlot s (idToIndex id)
    · exact .inr (.inr (.inr ⟨h₁, by have := (hslot _ h₂).1; omega, h₂, filesOf_live h₂⟩))
    · by_cases h₃ : 1000000 ≤ idToIndex id
      · exact .inr (.inl ⟨h₁, h₃, filesOf_free h₂⟩)
      · exact .inr (.inr (.inl ⟨h₁, h₃, not_not.mp h₂, filesOf_free h₂⟩))

/-! ### Reading and measuring -/

theorem objstoreRead_spec {id size : Int} {offset : Nat} (hs : Sound build s)
    (hl : Live (objstoreRead build id size offset s).2.2) :
    Ret.data (objstoreRead build id size offset s).1 (objstoreRead build id size offset s).2.1 =
        (filesOf s).read id size offset ∧
      Kept build s (objstoreRead build id size offset s).2.2 := by
  obtain ⟨hinv, owner, hown⟩ := hs
  unfold objstoreRead at hl ⊢
  unfold Files.read
  dsimp only at hl ⊢
  rcases lookup_cases hown.slotsOk id with ⟨h₁, hnone⟩ | ⟨h₁, h₂, hnone⟩ | ⟨h₁, h₂, h₃, hnone⟩ |
    ⟨h₁, h₂, h₃, hsome⟩
  · rw [if_pos h₁, hnone]
    exact ⟨rfl, .refl hinv⟩
  · rw [if_neg h₁, if_pos h₂, hnone]
    exact ⟨rfl, (Kept.refl hinv).fault⟩
  · rw [if_neg h₁, if_neg h₂, if_pos h₃, hnone]
    exact ⟨rfl, .refl hinv⟩
  · rw [if_neg h₁, if_neg h₂, if_neg h₃] at hl ⊢
    rw [hsome]
    obtain ⟨hread, hkept⟩ := readObject_spec hinv hown h₃ hl
    refine ⟨?_, hkept⟩
    show Ret.data _ _ = Ret.data (Tree.readAt _ (clipRead _ _ _) _).1 (Tree.readAt _ (clipRead _ _ _) _).2
    rw [← hread]

theorem fillupSizeDetails_spec {id : Int} (hs : Sound build s)
    (hl : Live (fillupSizeDetails build id s).2.2.2) :
    Ret.stat (fillupSizeDetails build id s).1 (fillupSizeDetails build id s).2.1
        (fillupSizeDetails build id s).2.2.1 = (filesOf s).stat id ∧
      Kept build s (fillupSizeDetails build id s).2.2.2 := by
  obtain ⟨hinv, owner, hown⟩ := hs
  unfold fillupSizeDetails at hl ⊢
  unfold Files.stat
  dsimp only at hl ⊢
  rcases lookup_cases hown.slotsOk id with ⟨h₁, hnone⟩ | ⟨h₁, h₂, hnone⟩ | ⟨h₁, h₂, h₃, hnone⟩ |
    ⟨h₁, h₂, h₃, hsome⟩
  · rw [if_pos h₁, hnone]
    exact ⟨rfl, .refl hinv⟩
  · rw [if_neg h₁, if_pos h₂, hnone]
    exact ⟨rfl, (Kept.refl hinv).fault⟩
  · rw [if_neg h₁, if_neg h₂, if_pos h₃, hnone]
    exact ⟨rfl, .refl hinv⟩
  · rw [if_neg h₁, if_neg h₂, if_neg h₃] at hl ⊢
    rw [hsome]
    obtain ⟨hcount, hkept⟩ := countPointers_spec 4 0 0 rfl hinv hown h₃ hl
    refine ⟨?_, hkept⟩
    dsimp only
    rw [hcount, Nat.zero_add]
    rfl

/-! ### Writing -/

/-- A write that starts on a block boundary and finds all its blocks. -/
theorem objstoreWrite_spec {id : Int} {data : List UInt8} {offset : Nat} (hs : Sound build s)
    (hreg : (Op.write id data offset).Regular)
    (hl : Live (objstoreWrite build id (bufferOf data) (int32 data.length) offset s).2)
    (hf : ¬ Failed (objstoreWrite build id (bufferOf data) (int32 data.length) offset s).2) :
    (Ret.val (objstoreWrite build id (bufferOf data) (int32 data.length) offset s).1,
      filesOf (objstoreWrite build id (bufferOf data) (int32 data.length) offset s).2) =
      (filesOf s).write id data offset := by
  obtain ⟨hinv, owner, hown⟩ := hs
  obtain ⟨hoff, hid, hlen⟩ := hreg
  obtain ⟨ha, hle⟩ := not_irregular.mp hoff
  have htaken := Files.taken_eq hlen hle
  unfold objstoreWrite at hl hf ⊢
  unfold Files.write
  dsimp only at hl hf ⊢
  rcases lookup_cases hown.slotsOk id with ⟨h₁, hnone⟩ | ⟨-, h₂, -⟩ | ⟨h₁, h₂, h₃, hnone⟩ |
    ⟨h₁, h₂, h₃, hsome⟩
  · rw [if_pos h₁, hnone]
  · omega
  · rw [if_neg h₁, if_neg h₂, if_pos h₃, hnone]
  · rw [if_neg h₁, if_neg h₂, if_neg h₃, ← Files.taken] at hl hf ⊢
    rw [hsome]
    obtain ⟨hret, owner', hw⟩ := writeObject_spec ha (by omega) (by omega) hinv hown h₃ hl
    dsimp only
    refine Prod.ext (congrArg Ret.val hret) (funext fun y => ?_)
    dsimp only
    by_cases hy : y = idToIndex id
    · subst hy
      have hlive : LiveSlot (writeObject build (idToIndex id) (bufferOf data) (Files.taken data offset)
          offset s).2 (idToIndex id) := by
        unfold LiveSlot
        rw [hw.id]
        exact h₃
      rw [Function.update_self, filesOf_live hlive, hw.newSize, hw.tree hf]
      rfl
    · rw [Function.update_of_ne hy]
      refine filesOf_congr ?_ (fun _ => by rw [hw.others y hy]) fun hlive => hw.tree_other hown hlive hy
      unfold LiveSlot
      rw [hw.others y hy]

/-- What a write to an object leaves, whether or not it finds its blocks. -/
theorem objstoreWrite_live {id : Int} {data : List UInt8} {offset : Nat} (hs : Sound build s)
    (hreg : (Op.write id data offset).Regular) (hid : 2 ≤ id) (hx : LiveSlot s (idToIndex id))
    (hl : Live (objstoreWrite build id (bufferOf data) (int32 data.length) offset s).2) :
    (objstoreWrite build id (bufferOf data) (int32 data.length) offset s).1 = Files.taken data offset ∧
      ∃ owner owner', Owned owner s ∧ ObjectWritten build (idToIndex id) (bufferOf data)
        (Files.taken data offset) offset owner owner' s
        (objstoreWrite build id (bufferOf data) (int32 data.length) offset s).2 := by
  obtain ⟨hinv, owner, hown⟩ := hs
  obtain ⟨hoff, hlt, hlen⟩ := hreg
  obtain ⟨ha, hle⟩ := not_irregular.mp hoff
  have htaken := Files.taken_eq hlen hle
  unfold objstoreWrite at hl ⊢
  dsimp only at hl ⊢
  rw [if_neg (by omega), if_neg (by omega), if_neg hx, ← Files.taken] at hl ⊢
  obtain ⟨hret, owner', hw⟩ := writeObject_spec ha (by omega) (by omega) hinv hown hx hl
  exact ⟨hret, owner, owner', hown, hw⟩

theorem objstoreWrite_ret {id : Int} {data : List UInt8} {offset : Nat} (hs : Sound build s)
    (hreg : (Op.write id data offset).Regular) (hid : 2 ≤ id) (hx : LiveSlot s (idToIndex id))
    (hl : Live (objstoreWrite build id (bufferOf data) (int32 data.length) offset s).2) :
    (objstoreWrite build id (bufferOf data) (int32 data.length) offset s).1 = Files.taken data offset ∧
      LiveSlot (objstoreWrite build id (bufferOf data) (int32 data.length) offset s).2 (idToIndex id) := by
  obtain ⟨hret, _, _, _, hw⟩ := objstoreWrite_live hs hreg hid hx hl
  refine ⟨hret, ?_⟩
  unfold LiveSlot
  rw [hw.id]
  exact hx

/-! ### Creating, renaming and destroying -/

theorem createObject_files {key : Key} {r : Int × State} (hs : Sound build s)
    (h : createObject key s = some r) :
    (r.1 = -1 ∧ filesOf r.2 = filesOf s) ∨
      ∃ x, x < 1000000 ∧ ¬ LiveSlot s x ∧ r.1 = indexToID x ∧
        filesOf r.2 = Function.update (filesOf s) x (some File.new) := by
  obtain ⟨-, owner, hown⟩ := hs
  obtain ⟨honly, ⟨hret, hobj⟩ | ⟨x, hx, hfree, hret, hobj⟩⟩ := createObject_slots h
  · exact .inl ⟨hret, funext fun y => honly.file (by rw [hobj]) hown⟩
  · refine .inr ⟨x, hx, hfree, hret, funext fun y => ?_⟩
    by_cases hy : y = x
    · subst hy
      have hnew : r.2.obj y = newObject key y := by rw [hobj, Function.update_self]
      have hlive : LiveSlot r.2 y := by
        unfold LiveSlot
        rw [hnew]
        show indexToID y ≠ 0
        unfold indexToID
        omega
      rw [Function.update_self, filesOf_live hlive, hnew, treeOf_empty]
      · rfl
      · intro j _
        unfold pointer
        rw [hnew]
        rfl
    · rw [Function.update_of_ne hy]
      exact honly.file (by rw [hobj, Function.update_of_ne hy]) hown

/-- Slot `x` gets the file of slot `z`, which is given up. -/
theorem movedSlot_files {z : Nat} {o : Object} (hown : Owned owner s) (honly : OnlySlots s t)
    (hz : LiveSlot s z) (hx : ¬ LiveSlot s x) (hid : o.id = indexToID x) (hsize : o.size = (s.obj z).size)
    (hptr : o.dataBlockPointers = (s.obj z).dataBlockPointers)
    (hobj : t.obj = Function.update (Function.update s.obj x o) z {s.obj z with id := 0}) :
    filesOf t = Function.update (Function.update (filesOf s) x (filesOf s z)) z none := by
  have hzx : x ≠ z := by
    rintro rfl
    exact hx hz
  funext y
  by_cases hyz : y = z
  · subst hyz
    rw [Function.update_self]
    refine filesOf_free fun hlive => hlive ?_
    rw [hobj, Function.update_self]
  · rw [Function.update_of_ne hyz]
    have hobj_y : t.obj y = Function.update s.obj x o y := by rw [hobj, Function.update_of_ne hyz]
    by_cases hyx : y = x
    · subst hyx
      rw [Function.update_self] at hobj_y ⊢
      refine filesOf_congr (iff_of_true ?_ hz) (fun _ => by rw [hobj_y, hsize]) fun _ => ?_
      · unfold LiveSlot
        rw [hobj_y, hid]
        unfold indexToID
        omega
      · exact treeOf_moved hown hz (fun j _ => by unfold pointer; rw [hobj_y, hptr]) fun b _ _ => honly.view b
    · rw [Function.update_of_ne hyx] at hobj_y ⊢
      exact honly.file hobj_y hown

theorem renameObject_files {key newname : Key} {r : Int × State} (hs : Sound build s)
    (h : renameObject key newname s = some r) :
    (r.1 = -1 ∧ filesOf r.2 = filesOf s) ∨
      ∃ z x, LiveSlot s z ∧ ¬ LiveSlot s x ∧ x < 1000000 ∧ r.1 = indexToID x ∧
        filesOf r.2 = Function.update (Function.update (filesOf s) x (filesOf s z)) z none := by
  obtain ⟨-, owner, hown⟩ := hs
  obtain ⟨honly, hcases⟩ := renameObject_cases hown.numbered h
  have hsame : r.2.obj = s.obj → filesOf r.2 = filesOf s := fun hobj =>
    funext fun y => honly.file (by rw [hobj]) hown
  rcases hcases with ⟨-, hret, hobj⟩ | ⟨-, -, hret, hobj⟩ |
    ⟨-, z, x, -, hz, -, ⟨-, hret, hobj⟩ | ⟨hfree, hx, hret, hobj⟩⟩
  · exact .inl ⟨hret, hsame hobj⟩
  · exact .inl ⟨hret, hsame hobj⟩
  · exact .inl ⟨hret, hsame hobj⟩
  · exact .inr ⟨z, x, hz, hfree, hx, hret, movedSlot_files hown honly hz hfree
      (o := renamedObject newname x (s.obj z)) rfl rfl rfl hobj⟩

/-- Slot `x` is given up, its blocks with it. -/
theorem destroyed_files {x : Nat} (hs : BlockInv build s) (hown : Owned owner s) (hx : LiveSlot s x)
    (hfreed : FreedSet (FreedByPointers s (s.obj x).dataBlockPointers 4 0) s t) :
    filesOf (t.setObj x {s.obj x with id := 0}) = Function.update (filesOf s) x none := by
  have hview := (destroyed_owned hs hown hx hfreed).2
  funext y
  by_cases hy : y = x
  · subst hy
    rw [Function.update_self]
    refine filesOf_free fun hlive => hlive ?_
    rw [State.setObj_obj, Function.update_self]
  · have hobj : (t.setObj x {s.obj x with id := 0}).obj y = s.obj y := by
      rw [State.setObj_obj, Function.update_of_ne hy, hfreed.obj]
    rw [Function.update_of_ne hy]
    refine filesOf_congr ?_ (fun _ => by rw [hobj]) fun hlive => ?_
    · unfold LiveSlot
      rw [hobj]
    · exact treeOf_moved hown hlive (fun j _ => by unfold pointer; rw [hobj])
        fun b path hb => hview b y path hy hb

theorem destroyObject_files (key : Key) (hs : Sound build s) :
    ((destroyObject key s).1 = -1 ∧ filesOf (destroyObject key s).2 = filesOf s) ∨
      ∃ x, LiveSlot s x ∧ (destroyObject key s).1 = 0 ∧
        filesOf (destroyObject key s).2 = Function.update (filesOf s) x none := by
  obtain ⟨hinv, owner, hown⟩ := hs
  rcases destroyObject_cases key hown.numbered with ⟨-, h⟩ | ⟨x, -, hx, hret, t, hfreed, -, h⟩
  · rw [h]
    exact .inl ⟨rfl, rfl⟩
  · refine .inr ⟨x, hx, hret, ?_⟩
    rw [h]
    exact destroyed_files hinv hown hx hfreed

/-! ### Any call -/

/-- A regular call that runs out of no blocks does what the files' own rules say. -/
theorem exec_files {op : Op} {r : Ret} (hs : Sound build s) (h : exec build op s = some (r, t))
    (hop : op ≠ .remount) (hreg : op.Regular) (hl : Live t) (hf : ¬ Failed t) :
    FileStep op (filesOf s) r (filesOf t) := by
  cases op with
  | create key =>
    obtain ⟨q, hq, hqr⟩ := Option.map_eq_some_iff.mp h
    cases hqr
    rcases createObject_files hs hq with ⟨hret, heq⟩ | ⟨x, hx, hfree, hret, heq⟩
    · rw [hret, heq]
      exact .createFails _ key
    · rw [hret, heq]
      exact .create _ key x hx (filesOf_free hfree)
  | find key =>
    cases h
    exact .find _ key _
  | destroy key =>
    cases h
    rcases destroyObject_files key hs with ⟨hret, heq⟩ | ⟨x, hx, hret, heq⟩
    · rw [hret, heq]
      exact .destroyFails _ key
    · rw [hret, heq]
      exact .destroy _ key x fun hn => filesOf_eq_none.mp hn hx
  | rename key newname =>
    obtain ⟨q, hq, hqr⟩ := Option.map_eq_some_iff.mp h
    cases hqr
    rcases renameObject_files hs hq with ⟨hret, heq⟩ | ⟨z, x, hz, hfree, hx, hret, heq⟩
    · rw [hret, heq]
      exact .renameFails _ key newname
    · rw [hret, heq]
      exact .rename _ key newname z x (fun hn => filesOf_eq_none.mp hn hz) (filesOf_free hfree) hx
  | read id size offset =>
    cases h
    obtain ⟨hret, hkept⟩ := objstoreRead_spec hs hl
    rw [hkept.files hs, hret]
    exact .read _ id size offset
  | write id data offset =>
    cases h
    have hspec := objstoreWrite_spec hs hreg hl hf
    have hret := congrArg Prod.fst hspec
    have hfiles := congrArg Prod.snd hspec
    dsimp only at hret hfiles ⊢
    rw [hret, hfiles]
    exact .write _ id data offset
  | stat id =>
    cases h
    obtain ⟨hret, hkept⟩ := fillupSizeDetails_spec hs hl
    rw [hkept.files hs, hret]
    exact .stat _ id
  | remount => exact absurd rfl hop

/-- The calls that write to no file keep what is true of each file and of new ones. -/
theorem exec_files_all {op : Op} {r : Ret} {P : File → Prop} (hs : Sound build s)
    (h : exec build op s = some (r, t)) (hop : op ≠ .remount) (hreg : op.Regular) (hl : Live t) (hf : ¬ Failed t)
    (hwrite : ∀ id data offset, op ≠ .write id data offset) (hnew : P File.new)
    (hP : ∀ x f, filesOf s x = some f → P f) : ∀ x f, filesOf t x = some f → P f :=
  (exec_files hs h hop hreg hl hf).all hnew (fun id data offset _ heq => absurd heq (hwrite id data offset)) hP

theorem exec_bounded {op : Op} {r : Ret} {F G : Files} (h : FileStep op F r G) (hreg : op.Regular)
    (hF : F.Bounded) : G.Bounded := by
  refine h.all (P := fun f => 0 ≤ f.size ∧ f.size ≤ 16777216) (by decide) ?_ hF
  rintro id data offset f rfl - -
  obtain ⟨hoff, -, hlen⟩ := hreg
  have htaken := Files.taken_eq hlen (not_irregular.mp hoff).2
  show 0 ≤ (offset : Int) + _ ∧ (offset : Int) + _ ≤ 16777216
  omega

end Files

end CS330.ObjStore
