import CS330.ObjStore.Names
import CS330.ObjStore.References
import CS330.Spec.Content

/-! Exact accounting: every used block is some object's.

Blocks are lost in two ways: a write that cuts an object drops the entries behind its end,
and a deletion stops at the first -1. Neither happens to objects that are only written
at their end (`Appended`), so what such calls take for an object they give back with
it (`exec_tight`). -/
namespace CS330.ObjStore
open Spec Bytes

/-- Every used block stands at a place of an object. -/
def Tight (s : State) : Prop := ∀ b, 0 ≤ b → s.blockBitmap b ≠ 0 → ∃ x path, Refers s x path b

/-- The file's tree is that of some bytes, as many as its size says. -/
def Appended (f : File) : Prop := ∃ V n, f.tree = Tree.ofBytes V n ∧ f.size = n

/-- Where the bytes under a place begin. -/
def Path.start : Path → Nat
  | .ptr j => j * 4194304
  | .entry j k => j * 4194304 + k * 4096

section Shape
variable {build : Build} {owner owner' : Owner} {x y : Nat} {path : Path} {b : Int} {s t : State}

theorem pointer_ofBytes {V : Buffer} {n j : Nat} (h : treeOf s x = Tree.ofBytes V n) (hj : j < 4) :
    pointer s x j ≠ -1 ↔ j * 4194304 < n := by
  have hat := congrArg Option.isSome (congrFun h j)
  by_cases hp : pointer s x j = -1 <;> by_cases hn : j * 4194304 < n <;> simp_all [treeOf, Tree.ofBytes]

theorem tableAt_ofBytes {V : Buffer} {n j k : Nat} (h : treeOf s x = Tree.ofBytes V n) (hj : j < 4)
    (hk : k < 1024) : tableAt s x j k ≠ -1 ↔ j * 4194304 + k * 4096 < n := by
  have hat := congrArg (fun T : Tree => (T.entry j k).isSome) h
  rw [treeOf_entry, Tree.ofBytes_entry] at hat
  by_cases hp : tableAt s x j k = -1 <;> by_cases hn : j * 4194304 + k * 4096 < n <;> simp_all

theorem blockAt_ofBytes {V : Buffer} {n : Nat} (h : treeOf s x = Tree.ofBytes V n) (hv : path.Valid) :
    blockAt s x path ≠ -1 ↔ path.start < n := by
  cases path with
  | ptr j => exact pointer_ofBytes h hv
  | entry j k => exact tableAt_ofBytes h hv.1 hv.2

/-- A table of such an object ends where the object's bytes do. -/
theorem table_ofBytes {V : Buffer} {n j : Nat} (h : treeOf s x = Tree.ofBytes V n) (hj : j < 4)
    (hp : pointer s x j ≠ -1) : ∃ m, m ≤ 1024 ∧
      ∀ k, k < 1024 → (ints (view s (pointer s x j)) k ≠ -1 ↔ k < m) := by
  refine ⟨min 1024 ((n - j * 4194304 + 4095) / 4096), by omega, fun k hk => ?_⟩
  have hentry := tableAt_ofBytes h hj hk
  rw [tableAt, if_neg hp] at hentry
  rw [hentry]
  omega

/-- On a disk without a cache in front of it, an object written at its end is in sync. -/
theorem Appended.inSync (h : Appended ⟨(s.obj x).size, treeOf s x⟩) (hinv : BlockInv .uncached s) :
    InSync s x := by
  obtain ⟨V, n, htree, -⟩ := h
  refine ⟨fun i j hij hj hp => (pointer_ofBytes htree (by omega)).mpr ?_, fun j hj hp => ?_⟩
  · exact Nat.lt_of_le_of_lt (Nat.mul_le_mul_right _ hij) ((pointer_ofBytes htree hj).mp hp)
  · have hview : view s (pointer s x j) = s.disk.blocks (pointer s x j) :=
      if_neg (Nat.not_lt.mpr (hinv.uncached rfl _))
    obtain ⟨m, hle, hm⟩ := table_ofBytes htree hj hp
    rw [← hview]
    refine ⟨m, hle, fun k hk => ⟨(hm k (by omega)).mpr hk, rfl⟩, fun k hmk hk => ?_, fun hlt => ?_⟩
    · by_contra hne
      exact Nat.not_lt.mpr hmk ((hm k hk).mp hne)
    · by_contra hne
      exact Nat.lt_irrefl m ((hm m hlt).mp hne)

/-- The place lies behind the end of a write of `size` bytes at `offset`. -/
def Dropped (size : Int) (offset : Nat) : Path → Prop
  | .ptr j => firstOf offset ≤ j ∧ size ≤ ((j - firstOf offset) * 4194304 : Nat)
  | .entry j k => firstOf offset ≤ j ∧ (size ≤ ((j - firstOf offset) * 4194304 : Nat) ∨
      startAt (firstOf offset) (entryOf offset) j ≤ k ∧ capOf size ≤
        (j - firstOf offset) * 4194304 + (k - startAt (firstOf offset) (entryOf offset) j) * 4096)

/-- A place loses its block to a write that ends in front of it, and keeps it otherwise. -/
theorem ObjectWritten.blockAt_eq {buf : Buffer} {size : Int} {offset : Nat}
    (h : ObjectWritten build x buf size offset owner owner' s t) (hf : ¬ Failed t) (hv : path.Valid)
    (hs : blockAt s x path ≠ -1) : (Dropped size offset path → blockAt t x path = -1) ∧
      (¬ Dropped size offset path → blockAt t x path = blockAt s x path) := by
  have hj : path.index < 4 := by
    cases path with
    | ptr j => exact hv
    | entry j k => exact hv.1
  rcases Nat.lt_or_ge path.index (firstOf offset) with hlt | hge
  · have hnot : ¬ Dropped size offset path := by
      cases path <;> exact fun hd => Nat.not_le.mpr hlt hd.1
    exact ⟨fun hd => absurd hd hnot, fun _ => (h.before path.index hlt hj).blockAt rfl⟩
  by_cases hactive : (((path.index - firstOf offset) * 4194304 : Nat) : Int) < size
  · have hactive' : ActivePointer size offset path.index := ⟨hge, hj, hactive⟩
    cases path with
    | ptr j => exact ⟨fun hd => absurd hactive (Int.not_lt.mpr hd.2), fun _ => h.kept j hactive' hs⟩
    | entry j k =>
      have hsub := h.active hf j hactive'
      rcases Nat.lt_or_ge k (startAt (firstOf offset) (entryOf offset) j) with hk | hk
      · exact ⟨fun hd => (hd.2.elim (Int.not_le.mpr hactive) fun hd => Nat.not_le.mpr hk hd.1).elim,
          fun _ => (hsub.below k hk).1⟩
      · by_cases hin : (j - firstOf offset) * 4194304 + (k - startAt (firstOf offset) (entryOf offset) j) * 4096 <
            capOf size
        · exact ⟨fun hd => (hd.2.elim (Int.not_le.mpr hactive) fun hd => Nat.not_le.mpr hin hd.2).elim,
            fun _ => (hsub.written k hk hv.2 hin).2.1 hs⟩
        · exact ⟨fun _ => hsub.above k hk hv.2 (Nat.not_lt.mp hin),
            fun hd => absurd ⟨hge, .inr ⟨hk, Nat.not_lt.mp hin⟩⟩ hd⟩
  · have hnone := h.after path.index hge hj (Int.not_lt.mp hactive)
    cases path with
    | ptr j => exact ⟨fun _ => hnone, fun hd => absurd ⟨hge, Int.not_lt.mp hactive⟩ hd⟩
    | entry j k => exact ⟨fun _ => if_pos hnone, fun hd => absurd ⟨hge, .inl (Int.not_lt.mp hactive)⟩ hd⟩

/-- A place that keeps a block keeps the one it had. -/
theorem ObjectWritten.blockAt_kept {buf : Buffer} {size : Int} {offset : Nat}
    (h : ObjectWritten build x buf size offset owner owner' s t) (hf : ¬ Failed t) (hv : path.Valid)
    (hs : blockAt s x path ≠ -1) (ht : blockAt t x path ≠ -1) : blockAt t x path = blockAt s x path :=
  (h.blockAt_eq hf hv hs).2 fun hd => ht ((h.blockAt_eq hf hv hs).1 hd)

end Shape

/-! ### The calls -/

section Tight
variable {build : Build} {owner owner' : Owner} {x z : Nat} {s t : State}

/-- Nothing was taken, and what is still used found a place. -/
theorem Tight.of_moved (hs : Tight s) (hused : ∀ b, t.blockBitmap b ≠ 0 → s.blockBitmap b ≠ 0)
    (hmoved : ∀ y path b, Refers s y path b → t.blockBitmap b ≠ 0 → ∃ y', Refers t y' path b) : Tight t := by
  intro b h₀ hb
  obtain ⟨y, path, h⟩ := hs b h₀ (hused b hb)
  obtain ⟨y', h'⟩ := hmoved y path b h hb
  exact ⟨y', path, h'⟩

theorem Kept.tight (h : Kept build s t) (hown : Owned owner s) (hs : Tight s) : Tight t := by
  refine hs.of_moved (fun b hb hs => hb ((h.same.used b).mpr hs)) fun y path b hr _ => ⟨y, ?_⟩
  exact hr.moved hown ((liveSlot_congr h.same.obj y).mpr hr.1) (fun j _ => pointer_congr h.same.obj y j)
    fun b path hb => h.same.view b (hown.nonneg hb)

/-- A slot that is filled, or given another object's pointers. -/
theorem OnlySlots.tight (h : OnlySlots s t) (hown : Owned owner s) (hs : Tight s)
    (hslots : ∀ y, LiveSlot s y → ∃ y', LiveSlot t y' ∧ (t.obj y').dataBlockPointers = (s.obj y).dataBlockPointers) :
    Tight t := by
  refine hs.of_moved (fun b hb => by rwa [← h.bitmap]) fun y path b hr _ => ?_
  obtain ⟨y', hy', hptr⟩ := hslots y hr.1
  exact ⟨y', hr.moved hown hy' (fun j _ => congrFun hptr j) fun b _ _ => h.view b⟩

theorem destroyed_tight (hinv : BlockInv build s) (hown : Owned owner s) (hx : LiveSlot s x) (hs : Tight s)
    (hsync : InSync s x) (hfreed : FreedSet (FreedByPointers s (s.obj x).dataBlockPointers 4 0) s t) :
    Tight (t.setObj x {s.obj x with id := 0}) := by
  have hview := (destroyed_owned hinv hown hx hfreed).2
  have hnot : ∀ b, t.blockBitmap b ≠ 0 → ¬ FreedByPointers s (s.obj x).dataBlockPointers 4 0 b :=
    fun b hb hP => hb (hfreed.freed b hP)
  refine hs.of_moved (fun b hb => ?_) fun y path b hr hb => ?_
  · rw [← hfreed.kept b (hnot b hb)]
    exact hb
  · have hyx : y ≠ x := by
      rintro rfl
      exact hnot b hb ((hsync.freed hinv hown hx).mpr ⟨path, hr⟩)
    have hobj : (t.setObj x {s.obj x with id := 0}).obj y = s.obj y := by
      rw [State.setObj_obj, Function.update_of_ne hyx, hfreed.obj]
    refine ⟨y, hr.moved hown ?_ (fun j _ => ?_) fun b path hb => hview b y path hyx hb⟩
    · rw [LiveSlot, hobj]
      exact hr.1
    · rw [pointer, hobj]
      rfl

/-- A write that drops no place. -/
theorem ObjectWritten.tight {buf : Buffer} {size : Int} {offset : Nat}
    (h : ObjectWritten build x buf size offset owner owner' s t) (hown : Owned owner s) (hx : LiveSlot s x)
    (hf : ¬ Failed t) (hs : Tight s)
    (hgrow : ∀ path : Path, path.Valid → blockAt s x path ≠ -1 → blockAt t x path ≠ -1) : Tight t := by
  have hlive : ∀ y, LiveSlot s y → LiveSlot t y := by
    intro y hy
    by_cases hyx : y = x
    · subst hyx
      rwa [LiveSlot, h.id]
    · rwa [LiveSlot, h.others y hyx]
  -- The old blocks stand where they stood.
  have hold : ∀ b, 0 ≤ b → s.blockBitmap b ≠ 0 → ∃ y path, Refers t y path b := by
    intro b h₀ hb
    obtain ⟨y, path, hr⟩ := hs b h₀ hb
    refine ⟨y, path, ?_⟩
    by_cases hyx : y = x
    · subst hyx
      obtain ⟨hy, hv, rfl, hne⟩ := hr
      have hkept := hgrow path hv hne
      exact ⟨hlive y hy, hv, h.blockAt_kept hf hv hne hkept, hne⟩
    · exact hr.moved hown (hlive y hr.1) (fun j _ => by rw [pointer, h.others y hyx]; rfl)
        fun b path hb => (h.adv.grows.other b (y, path) hb hyx).1
  intro b h₀ hb
  rcases h.adv.grows.taken b h₀ hb with hused | ⟨v, hv⟩
  · exact hold b h₀ hused
  · rcases h.fresh b v hv with hv' | ⟨-, hplace, -, hat⟩
    · exact hold b h₀ (hown.used b v hv').2
    · exact ⟨x, v.2, hlive x hx, hplace.valid, hat, by omega⟩

/-- The write goes to the end of the object, from a block's start, and does not pass a 4 MB
boundary unless it starts on one. -/
structure AtEnd (s : State) (x : Nat) (data : List UInt8) (offset : Nat) : Prop where
  nonempty : 1 ≤ data.length
  here : (s.obj x).size = offset
  aligned : offset % 4096 = 0
  fits : offset + data.length ≤ 16777216
  straight : Straight offset data.length

/-- The calls of a run that only appends. -/
def Op.Appends (s : State) : Op → Prop
  | .write id data offset => 2 ≤ id → LiveSlot s (idToIndex id) → AtEnd s (idToIndex id) data offset
  | .remount => False
  | _ => True

/-- A write at the end of an object adds to its bytes, and drops no block. -/
theorem AtEnd.written {data : List UInt8} {offset : Nat} (h : AtEnd s x data offset)
    (hs : Appended ⟨(s.obj x).size, treeOf s x⟩)
    (hw : ObjectWritten build x (bufferOf data) (Files.taken data offset) offset owner owner' s t)
    (hf : ¬ Failed t) : Appended ⟨(t.obj x).size, treeOf t x⟩ ∧
      ∀ path : Path, path.Valid → blockAt s x path ≠ -1 → blockAt t x path ≠ -1 := by
  obtain ⟨V, n, htree, hsize⟩ := hs
  obtain ⟨h₀, hoff, ha, hfits, hstraight⟩ := h
  obtain rfl : n = offset := Int.ofNat.inj (hsize.symm.trans hoff)
  have htaken : Files.taken data n = data.length := by
    rw [Files.taken_eq (by omega) (by omega)]
    omega
  rw [htaken] at hw
  have htree' := hw.tree hf
  rw [show treeOf s x = Tree.ofBytes V n from htree,
    Tree.write_ofBytes (W := fun i => if i < n then V i else bufferOf data (i - n)) ha h₀ hfits hstraight
      (fun i hi => if_pos hi) fun i _ => (if_neg (by omega)).trans (by rw [Nat.add_sub_cancel_left])] at htree'
  refine ⟨⟨_, _, htree', ?_⟩, fun path hv hne => ?_⟩
  · rw [hw.newSize]
    exact (Int.natCast_add _ _).symm
  · rw [blockAt_ofBytes htree hv] at hne
    rw [blockAt_ofBytes htree' hv]
    exact Nat.lt_add_right _ hne

/-- A write that names no object changes nothing. -/
theorem objstoreWrite_dead {id size : Int} {buf : Buffer} {offset : Nat} (hinv : BlockInv build s)
    (h : ¬ (2 ≤ id ∧ LiveSlot s (idToIndex id))) : Kept build s (objstoreWrite build id buf size offset s).2 := by
  unfold objstoreWrite
  dsimp only
  split_ifs with hid _ hx
  · exact .refl hinv
  · exact (Kept.refl hinv).fault
  · exact .refl hinv
  · exact absurd ⟨Int.not_lt.mp hid, hx⟩ h

end Tight

/-! ### Whole runs -/

/-- What a run that only appends keeps. -/
structure Accounted (s : State) : Prop where
  sound : Sound .uncached s
  tight : Tight s
  appended : ∀ x f, filesOf s x = some f → Appended f

section Accounted
variable {op : Op} {r : Ret} {s t : State}

theorem appended_new : Appended File.new :=
  ⟨zeroBuffer, 0, (Tree.ofBytes_zero _).symm, rfl⟩

theorem Kept.accounted (h : Kept .uncached s t) (hs : Accounted s) : Accounted t := by
  obtain ⟨owner, hown⟩ := hs.sound.owned
  refine ⟨h.sound hs.sound, h.tight hown hs.tight, ?_⟩
  rw [h.files hs.sound]
  exact hs.appended

/-- One call. -/
theorem exec_accounted (hs : Accounted s) (h : exec .uncached op s = some (r, t)) (hop : op.Appends s)
    (hl : Live t) (hf : ¬ Failed t) : Accounted t := by
  obtain ⟨hinv, owner, hown⟩ := id hs.sound
  -- The directory's calls are regular and write to no file.
  have hfiles : op.Regular → (∀ id data offset, op ≠ .write id data offset) → op ≠ .remount →
      ∀ x f, filesOf t x = some f → Appended f := by
    intro hreg hwrite hremount
    exact exec_files_all hs.sound h hremount hreg hl hf hwrite appended_new hs.appended
  cases op with
  | create key =>
    refine ⟨exec_sound hs.sound h (by simp) hl, ?_, hfiles trivial (by simp) (by simp)⟩
    obtain ⟨q, hq, hqr⟩ := Option.map_eq_some_iff.mp h
    cases hqr
    obtain ⟨hslots, ⟨-, hobj⟩ | ⟨x, -, hfree, -, hobj⟩⟩ := createObject_slots hq
    · exact hslots.tight hown hs.tight fun y hy => ⟨y, (liveSlot_congr hobj y).mpr hy, by rw [hobj]⟩
    · refine hslots.tight hown hs.tight fun y hy => ⟨y, ?_⟩
      have hyx : y ≠ x := fun h => hfree (h ▸ hy)
      rw [LiveSlot, hobj, Function.update_of_ne hyx]
      exact ⟨hy, rfl⟩
  | find key =>
    cases h
    exact hs
  | destroy key =>
    refine ⟨exec_sound hs.sound h (by simp) hl, ?_, hfiles trivial (by simp) (by simp)⟩
    cases h
    rcases destroyObject_cases key hown.numbered with ⟨-, heq⟩ | ⟨x, -, hx, -, t, hfreed, -, heq⟩
    · rw [heq]
      exact hs.tight
    · rw [heq]
      exact destroyed_tight hinv hown hx hs.tight ((hs.appended x _ (filesOf_live hx)).inSync hinv) hfreed
  | rename key newname =>
    refine ⟨exec_sound hs.sound h (by simp) hl, ?_, hfiles trivial (by simp) (by simp)⟩
    obtain ⟨q, hq, hqr⟩ := Option.map_eq_some_iff.mp h
    cases hqr
    obtain ⟨hslots, hcases⟩ := renameObject_cases hown.numbered hq
    have hsame : q.2.obj = s.obj → Tight q.2 := fun hobj =>
      hslots.tight hown hs.tight fun y hy => ⟨y, (liveSlot_congr hobj y).mpr hy, by rw [hobj]⟩
    rcases hcases with ⟨-, -, hobj⟩ | ⟨-, -, -, hobj⟩ | ⟨-, z, x, -, hz, -, ⟨-, -, hobj⟩ | ⟨hfree, -, -, hobj⟩⟩
    · exact hsame hobj
    · exact hsame hobj
    · exact hsame hobj
    · refine hslots.tight hown hs.tight fun y hy => ?_
      have hyx : y ≠ x := fun h => hfree (h ▸ hy)
      have hxz : x ≠ z := fun h => hfree (h ▸ hz)
      by_cases hyz : y = z
      · subst hyz
        refine ⟨x, ?_⟩
        rw [LiveSlot, hobj, Function.update_of_ne hxz, Function.update_self]
        exact ⟨(indexToID_ne x).1, rfl⟩
      · refine ⟨y, ?_⟩
        rw [LiveSlot, hobj, Function.update_of_ne hyz, Function.update_of_ne hyx]
        exact ⟨hy, rfl⟩
  | read id size offset =>
    cases h
    exact (objstoreRead_kept hs.sound hl).accounted hs
  | write id data offset =>
    by_cases hlive : 2 ≤ id ∧ LiveSlot s (idToIndex id)
    · obtain ⟨hid, hx⟩ := hlive
      have hend : AtEnd s (idToIndex id) data offset := hop hid hx
      have hfits := hend.fits
      have hreg : (Op.write id data offset).Regular :=
        ⟨not_irregular.mpr ⟨hend.aligned, by omega⟩, (hown.slot _ hx).1, by omega⟩
      have hsound := exec_sound hs.sound h (by simp) hl
      have hstep := exec_files hs.sound h (by simp) hreg hl hf
      cases h
      obtain ⟨-, owner₁, owner', hown₁, hw⟩ := objstoreWrite_live hs.sound hreg hid hx hl
      obtain ⟨happ, hgrow⟩ := hend.written (hs.appended _ _ (filesOf_live hx)) hw hf
      refine ⟨hsound, hw.tight hown₁ hx hf hs.tight hgrow, hstep.all appended_new ?_ hs.appended⟩
      rintro id' data' offset' f ⟨⟩ hlookup -
      cases (Files.lookup_live hid (filesOf_live hx)).symm.trans hlookup
      rw [hw.newSize, hw.tree hf] at happ
      exact happ
    · cases h
      exact (objstoreWrite_dead hinv hlive).accounted hs
  | stat id =>
    cases h
    exact (fillupSizeDetails_kept hs.sound hl).accounted hs
  | remount => exact hop.elim

end Accounted

end CS330.ObjStore
