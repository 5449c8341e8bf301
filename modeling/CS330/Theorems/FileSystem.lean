import CS330.Spec.FlatFs
import CS330.Theorems.Directory
import CS330.Theorems.Unmount

/-! The mounted file system is a flat directory of files. -/
namespace CS330.Objfs
open ObjStore Spec Machine Bytes

def flatOf (s : State) : Flat := (storeOf s).flat

/-- The call finds the blocks it asks for; in the cached build its session has asked for at most
32766 pages. -/
def Enough (build : Build) (objfs : Defaults) (call : Call) (s : State) : Prop :=
  ∀ r t, exec build objfs call s = some (r, t) → ¬ Failed t ∧ (build = .cached → pageCalls t.log ≤ 32766)

/-- There are enough blocks and pages, and a slot is free. -/
structure Served (build : Build) (objfs : Defaults) (call : Call) (s : State) : Prop where
  slot : ∃ x, x < 1000000 ∧ ¬ LiveSlot s x
  enough : Enough build objfs call s

/-- What polite calls that are served keep. -/
structure Good (build : Build) (s : State) : Prop where
  healthy : Healthy build s
  pages : build = .cached → pageCalls s.log ≤ 32766
  whole : (storeOf s).Whole

section Step
variable {build : Build} {objfs : Defaults} {s t : State}

theorem step_some {call : Call} {r : Reply} : step build objfs call s = some (r, t) ↔
    exec build objfs call s = some (r, t) ∧ Returned t := by
  unfold step
  rw [Option.filter_eq_some_iff]
  simp only [decide_eq_true_eq]

theorem exec_create {key : Key} {r : Reply} : exec build objfs (.create key) s = some (r, t) ↔
    ∃ v, createObject key s = some (v, t) ∧ r = if v < 0 then .handle (-EEXIST) none else .handle 0 (some v.toNat) := by
  simp only [exec, objfsCreate, Option.map_map, Option.map_eq_some_iff, Function.comp_apply]
  constructor
  · rintro ⟨⟨v, u⟩, hv, hr⟩
    refine ⟨v, ?_⟩
    split at hr
    · rename_i hneg
      cases hr
      exact ⟨hv, (if_pos hneg).symm⟩
    · rename_i hneg
      cases hr
      exact ⟨hv, (if_neg hneg).symm⟩
  · rintro ⟨v, hv, rfl⟩
    refine ⟨(v, t), hv, ?_⟩
    split <;> rfl

/-- A call of the store behind a callback. -/
theorem Good.perform {op : Op} {r : Ret} (hs : Good build s) (h : ObjStore.exec build op s = some (r, t))
    (hop : op ≠ .remount) (hreg : op.Regular) (hkeys : op.ShortKeys) (hf : ¬ Failed t)
    (hp : build = .cached → pageCalls t.log ≤ 32766) :
    Returned t ∧ Store.step op (storeOf s) = some (r, storeOf t) ∧
      ((storeOf t).Whole → Good build t) := by
  have ht := (exec_healthy hs.healthy hs.pages h ⟨hreg, hf, hp⟩).1
  exact ⟨ht.calling.returned, exec_store hs.healthy.sound h hop hreg hkeys ht.calling.live hf, fun hw => ⟨ht, hp, hw⟩⟩

/-- The id under which a name is found is its file's handle. -/
theorem Good.find {key : Key} (hs : Good build s) (hk : key.bytes.length ≤ 31) :
    (flatOf s key = none ∧ findObjectId key s = -1) ∨
      ∃ f, flatOf s key = some f ∧ findObjectId key s = f.handle ∧ f.handle < 1000002 := by
  obtain ⟨owner, hown⟩ := hs.healthy.sound.owned
  have hfind := findObjectId_names hown.numbered hk
  cases hx : (namesOf s).holder key with
  | none =>
    rw [hx] at hfind
    exact .inl ⟨hs.whole.flat_eq_none.mpr (hs.whole.single.holder_eq_none.mp hx), hfind⟩
  | some x =>
    rw [hx] at hfind
    have hname := hs.whole.single.holder_eq_some.mp hx
    obtain ⟨V, hV, hf⟩ := hs.whole.file hname
    have hlt := hs.whole.single.inside x key hname
    refine .inr ⟨_, hs.whole.flat_slot hname hf hV, ?_, by dsimp only; omega⟩
    rw [hfind]
    show indexToID x = ((x + 2 : Nat) : Int)
    unfold indexToID
    omega

theorem int32_small {n : Nat} (h : n < 2147483648) : int32 n = n := int32_eq (by omega) (by omega)

/-- The call comes back, and does what it does in a flat directory. -/
def Does (build : Build) (objfs : Defaults) (call : Call) (s : State) : Prop :=
  ∃ r t, step build objfs call s = some (r, t) ∧ Good build t ∧ Flat.Step objfs call (flatOf s) r (flatOf t)

theorem Does.outcome {call : Call} {r : Reply} (h : Does build objfs call s) (hexec : exec build objfs call s = some (r, t)) :
    Good build t ∧ Flat.Step objfs call (flatOf s) r (flatOf t) := by
  obtain ⟨r', t', hst, hgood, hstep⟩ := h
  cases (step_some.mp hst).1.symm.trans hexec
  exact ⟨hgood, hstep⟩

theorem Good.stays {call : Call} {r : Reply} (hs : Good build s) (h : exec build objfs call s = some (r, s))
    (hflat : Flat.Step objfs call (flatOf s) r (flatOf s)) : Does build objfs call s :=
  ⟨r, s, step_some.mpr ⟨h, hs.healthy.calling.returned⟩, hs, hflat⟩

theorem Good.getattr {key : Key} (hs : Good build s) (hk : key.bytes.length ≤ 31)
    (henough : Enough build objfs (.getattr key) s) : Does build objfs (.getattr key) s := by
  by_cases hroot : key.bytes = []
  · refine hs.stays (r := .attr 0 {objfs.dirstat with ino := rootObjid}) ?_ ⟨rfl, (if_pos hroot).symm⟩
    simp only [Objfs.exec, objfsGetattr, if_pos hroot]
  rcases hs.find hk with ⟨hnone, hfind⟩ | ⟨f, hf, hfind, hlt⟩
  · refine hs.stays (r := .attr (-ENOENT) objfs.fstat) ?_ ⟨rfl, ?_⟩
    · simp only [Objfs.exec, objfsGetattr, if_neg hroot, hfind]
      rfl
    · rw [if_neg hroot, hnone]
      rfl
  · have hid : int32 (findObjectId key s) = f.handle := by rw [hfind, int32_small (by omega)]
    have hexec : Objfs.exec build objfs (.getattr key) s = some
        (if (fillupSizeDetails build f.handle s).1 < 0 then .attr (-EBADF) {objfs.fstat with ino := f.handle}
          else .attr 0 ⟨f.handle, (fillupSizeDetails build f.handle s).2.1, (fillupSizeDetails build f.handle s).2.2.1⟩,
        (fillupSizeDetails build f.handle s).2.2.2) := by
      simp only [Objfs.exec, objfsGetattr, if_neg hroot, hid, if_neg (show ¬ (f.handle : Int) < 0 by omega)]
      split <;> rfl
    obtain ⟨hfound, hpages⟩ := henough _ _ hexec
    have hslot : idToIndex f.handle < 1000000 := by unfold idToIndex; omega
    obtain ⟨hret, hstep, hgood⟩ := @Good.perform build s _ (.stat f.handle) _ hs rfl (by simp) hslot trivial hfound hpages
    obtain ⟨hanswer, hstore⟩ := Prod.mk.inj (Option.some.inj hstep)
    rw [hs.whole.stat_handle ⟨hf, rfl⟩] at hanswer
    obtain ⟨h₁, h₂, h₃⟩ := Ret.stat.inj hanswer
    refine ⟨_, _, step_some.mpr ⟨hexec, hret⟩, hgood (hstore ▸ hs.whole), ?_, ?_⟩
    · rw [flatOf, ← hstore]
      rfl
    · rw [if_neg hroot, hf, ← h₁, ← h₂, ← h₃]
      rfl

theorem Good.unlink {key : Key} (hs : Good build s) (hk : key.bytes.length ≤ 31)
    (henough : Enough build objfs (.unlink key) s) : Does build objfs (.unlink key) s := by
  obtain ⟨hfound, hpages⟩ := henough _ _ rfl
  obtain ⟨hret, hstep, hgood⟩ := @Good.perform build s _ (.destroy key) _ hs rfl (by simp) trivial hk hfound hpages
  obtain ⟨hwhole, hflat⟩ := hs.whole.destroy_step hstep
  exact ⟨_, _, step_some.mpr ⟨rfl, hret⟩, hgood hwhole, rfl, hflat⟩

theorem Good.opens {key : Key} (hs : Good build s) (hk : key.bytes.length ≤ 31) : Does build objfs (.opens key) s := by
  rcases hs.find hk with ⟨hnone, hfind⟩ | ⟨f, hf, hfind, hlt⟩
  · refine hs.stays (r := .handle (-ENOENT) none) ?_ ⟨rfl, by rw [hnone]; rfl⟩
    simp only [Objfs.exec, objfsOpen, hfind]
    rfl
  · have hid : int32 (findObjectId key s) = f.handle := by rw [hfind, int32_small (by omega)]
    refine hs.stays (r := .handle 0 (some f.handle)) ?_ ⟨rfl, by rw [hf]; rfl⟩
    simp only [Objfs.exec, objfsOpen, hid, if_neg (show ¬ (f.handle : Int) < 0 by omega), Int.toNat_natCast]

/-- A `create` that comes back. -/
theorem Good.created {key : Key} {q : Int × State} (hs : Good build s) (hpolite : Flat.Polite (.create key) (flatOf s))
    (hq : createObject key s = some q) (henough : Enough build objfs (.create key) s) :
    Does build objfs (.create key) s := by
  obtain ⟨hk, habsent⟩ := hpolite
  have hexec : exec build objfs (.create key) s = some (_, q.2) := exec_create.mpr ⟨q.1, hq, rfl⟩
  obtain ⟨hfound, hpages⟩ := henough _ _ hexec
  have hop : ObjStore.exec build (.create key) s = some (.val q.1, q.2) := by
    simp only [ObjStore.exec, hq, Option.map_some]
  obtain ⟨hret, hstep, hgood⟩ := hs.perform hop (by simp) trivial hk hfound hpages
  obtain ⟨x, hx, hval, hfresh, hwhole, hflat⟩ := hs.whole.create_step habsent hstep
  have hid : q.1 = indexToID x := Ret.val.inj hval
  have hpos : ¬ indexToID x < 0 := by unfold indexToID; omega
  rw [hid, if_neg hpos, Store.toNat_indexToID] at hexec
  exact ⟨_, _, step_some.mpr ⟨hexec, hret⟩, hgood hwhole, x + 2, by omega, by omega, hfresh, rfl, hflat⟩

theorem Good.create {key : Key} (hs : Good build s) (hpolite : Flat.Polite (.create key) (flatOf s))
    (hserved : Served build objfs (.create key) s) : Does build objfs (.create key) s := by
  obtain ⟨r, t, hst⟩ := @directory_returns build (.create key) s hs.healthy.calling trivial hserved.slot
  obtain ⟨q, hq, -⟩ := Option.map_eq_some_iff.mp (ObjStore.step_some.mp hst).1
  exact hs.created hpolite hq hserved.enough

theorem Good.rename {oldkey newkey : Key} (hs : Good build s)
    (hpolite : Flat.Polite (.rename oldkey newkey) (flatOf s))
    (hserved : Served build objfs (.rename oldkey newkey) s) : Does build objfs (.rename oldkey newkey) s := by
  obtain ⟨hk, hk', hfree⟩ := hpolite
  obtain ⟨r, t, hst⟩ := @directory_returns build (.rename oldkey newkey) s hs.healthy.calling trivial hserved.slot
  obtain ⟨q, hq, hqr⟩ := Option.map_eq_some_iff.mp (ObjStore.step_some.mp hst).1
  have hexec : Objfs.exec build objfs (.rename oldkey newkey) s = some
      (.code (if q.1 < 0 then -EINVAL else 0), q.2) := by
    simp only [Objfs.exec, objfsRenameKey, hq, Option.map_some]
  obtain ⟨hfound, hpages⟩ := hserved.enough _ _ hexec
  cases hqr
  obtain ⟨hret, hstep, hgood⟩ := hs.perform (ObjStore.step_some.mp hst).1 (by simp) trivial ⟨hk, hk'⟩ hfound hpages
  refine ⟨_, _, step_some.mpr ⟨hexec, hret⟩, ?_⟩
  simp only [Flat.Step]
  rcases hs.whole.rename_step hfree hstep with ⟨hnone, hval, hstore⟩ | ⟨f, x, hf, hx, hval, hfresh, hwhole, hflat⟩
  · have hid : q.1 = -1 := Ret.val.inj hval
    rw [show flatOf s oldkey = none from hnone, hid]
    exact ⟨hgood (hstore ▸ hs.whole), rfl, by rw [flatOf, hstore, flatOf]⟩
  · have hid : q.1 = indexToID x := Ret.val.inj hval
    rw [show flatOf s oldkey = some f from hf, hid, if_neg (by unfold indexToID; omega)]
    exact ⟨hgood hwhole, rfl, x + 2, by omega, by omega, hfresh, hflat⟩

/-- What a read of the store returns, as the callback passes it on. -/
def readReply (v : Int) (bytes : List UInt8) : Reply := .data (if int32 v < 0 then -EINVAL else int32 v) bytes

theorem Good.read {fh size offset : Nat} (hs : Good build s) (hpolite : Flat.Polite (.read fh size offset) (flatOf s))
    (henough : Enough build objfs (.read fh size offset) s) : Does build objfs (.read fh size offset) s := by
  obtain ⟨hfh, hsize, ha, hoff, hstraight⟩ := hpolite
  obtain ⟨⟨v, bytes, t⟩, hr⟩ : ∃ r, objstoreRead build fh size offset s = r := ⟨_, rfl⟩
  have hexec : Objfs.exec build objfs (.read fh size offset) s = some (readReply v bytes, t) := by
    simp only [Objfs.exec, objfsRead, int32_small (show fh < 2147483648 by omega), int32_small hsize, hr, readReply]
  have hop : ObjStore.exec build (.read fh size offset) s = some (.data v bytes, t) := by
    simp only [ObjStore.exec, hr]
  obtain ⟨hfound, hpages⟩ := henough _ _ hexec
  have hslot : idToIndex fh < 1000000 := by
    unfold idToIndex
    omega
  obtain ⟨hret, hstep, hgood⟩ := hs.perform hop (by simp) ⟨not_irregular.mpr ⟨ha, hoff⟩, hslot⟩ trivial hfound hpages
  obtain ⟨hanswer, hstore⟩ := Prod.mk.inj (Option.some.inj hstep)
  refine ⟨_, _, step_some.mpr ⟨hexec, hret⟩, hgood (hstore ▸ hs.whole), ?_, fun hfresh => ?_, fun key f hf => ?_⟩
  · rw [flatOf, ← hstore]
    rfl
  · rw [hs.whole.read_fresh hfresh] at hanswer
    cases hanswer
    rfl
  · unfold FlatFile.read
    by_cases hin : offset ≤ f.bytes.length
    · rw [hs.whole.read_handle hf ha hin (hstraight key f hf)] at hanswer
      cases hanswer
      rw [readReply, int32_small (by omega), if_neg (by omega), if_pos hin]
    · obtain ⟨v', hv, hneg⟩ := @Store.Whole.read_behind (storeOf s) key fh f hs.whole size offset hf (by omega) hoff
      rw [hv] at hanswer
      cases hanswer
      rw [readReply, if_pos hneg, if_neg hin]

theorem Good.write {fh : Nat} {data : List UInt8} {offset : Nat} (hs : Good build s)
    (hpolite : Flat.Polite (.write fh data offset) (flatOf s))
    (henough : Enough build objfs (.write fh data offset) s) : Does build objfs (.write fh data offset) s := by
  obtain ⟨hfh, hdata, ha, hend, hinside⟩ := hpolite
  obtain ⟨⟨v, t⟩, hr⟩ : ∃ r, objstoreWrite build fh (bufferOf data) (int32 data.length) offset s = r := ⟨_, rfl⟩
  have hexec : Objfs.exec build objfs (.write fh data offset) s =
      some (.code (if int32 v < 0 then -EINVAL else int32 v), t) := by
    simp only [Objfs.exec, objfsWrite, int32_small (show fh < 2147483648 by omega), hr]
  have hop : ObjStore.exec build (.write fh data offset) s = some (.val v, t) := by
    simp only [ObjStore.exec, hr]
  obtain ⟨hfound, hpages⟩ := henough _ _ hexec
  have hslot : idToIndex fh < 1000000 := by
    unfold idToIndex
    omega
  obtain ⟨hret, hstep, hgood⟩ := hs.perform hop (by simp) ⟨not_irregular.mpr ⟨ha, by omega⟩, hslot, by omega⟩ trivial
    hfound hpages
  obtain ⟨hanswer, hstore⟩ := Prod.mk.inj (Option.some.inj hstep)
  by_cases hfresh : (flatOf s).Fresh fh
  · rw [hs.whole.write_fresh hfresh] at hanswer hstore
    cases hanswer
    have hsame : storeOf s = storeOf t := hstore
    refine ⟨_, _, step_some.mpr ⟨hexec, hret⟩, hgood (hsame ▸ hs.whole), fun _ => ⟨rfl, ?_⟩, fun key f hf => ?_⟩
    · rw [flatOf, ← hsame, flatOf]
    · exact absurd hf (hfresh key f)
  · unfold Flat.Fresh at hfresh
    push Not at hfresh
    obtain ⟨key, f, hf⟩ := hfresh
    obtain ⟨hoff, hstraight⟩ := hinside key f hf
    obtain ⟨hval, hwhole, hflat⟩ := hs.whole.write_handle hf ha hoff hdata hend hstraight
    cases hval.symm.trans hanswer
    rw [int32_small (by omega), if_neg (by omega)] at hexec
    rw [hstore] at hwhole hflat
    refine ⟨_, _, step_some.mpr ⟨hexec, hret⟩, hgood hwhole, fun hfresh => absurd hf (hfresh key f), fun key' f' hf' => ?_⟩
    refine ⟨rfl, ?_⟩
    obtain ⟨hname, -⟩ := hs.whole.lookup_handle hf
    obtain ⟨hname', -⟩ := hs.whole.lookup_handle hf'
    cases hname.symm.trans hname'
    cases hf.1.symm.trans hf'.1
    exact hflat

theorem Good.remount (hs : Good build s) : Does build objfs .remount s := by
  obtain ⟨ht, hr, hfiles⟩ := remount_spec hs.healthy hs.pages rfl
  have hstore : storeOf (objstoreInit (objstoreDestroy build s)) = storeOf s := storeOf_eq hfiles hr.names
  refine ⟨_, _, step_some.mpr ⟨rfl, ht.calling.returned⟩, ⟨ht, fun _ => Nat.zero_le _, hstore ▸ hs.whole⟩, rfl, ?_⟩
  rw [flatOf, hstore, flatOf]

end Step

/-! ### Errors -/

def Reply.value : Reply → Int
  | .code v | .handle v _ | .attr v _ | .data v _ => v

section Errors
variable {build : Build} {objfs : Defaults} {call : Call} {r : Reply} {s t : State}

/-- A callback changes the store by at most one call. -/
theorem exec_one (h : exec build objfs call s = some (r, t)) :
    t = s ∨ ∃ op q, ObjStore.exec build op s = some (q, t) := by
  cases call with
  | getattr key =>
    cases h
    simp only [objfsGetattr]
    split_ifs
    · exact .inl rfl
    · exact .inl rfl
    · exact .inr ⟨.stat (int32 (findObjectId key s)), _, rfl⟩
    · exact .inr ⟨.stat (int32 (findObjectId key s)), _, rfl⟩
  | unlink key =>
    cases h
    exact .inr ⟨.destroy key, _, rfl⟩
  | rename oldkey newkey =>
    simp only [exec, objfsRenameKey, Option.map_map, Option.map_eq_some_iff] at h
    obtain ⟨q, hq, hr⟩ := h
    cases hr
    exact .inr ⟨.rename oldkey newkey, .val q.1, by simp [ObjStore.exec, hq]⟩
  | create key =>
    obtain ⟨v, hv, -⟩ := exec_create.mp h
    exact .inr ⟨.create key, .val v, by simp [ObjStore.exec, hv]⟩
  | opens key =>
    cases h
    simp only [objfsOpen]
    split <;> exact .inl rfl
  | read fh size offset =>
    obtain ⟨⟨v, bytes, u⟩, hq⟩ : ∃ q, objstoreRead build (int32 fh) (int32 size) offset s = q := ⟨_, rfl⟩
    simp only [exec, objfsRead, hq] at h
    cases h
    exact .inr ⟨.read (int32 fh) (int32 size) offset, .data v bytes, by simp only [ObjStore.exec, hq]⟩
  | write fh data offset =>
    obtain ⟨⟨v, u⟩, hq⟩ : ∃ q, objstoreWrite build (int32 fh) (bufferOf data) (int32 data.length) offset s = q := ⟨_, rfl⟩
    simp only [exec, objfsWrite, hq] at h
    cases h
    exact .inr ⟨.write (int32 fh) data offset, .val v, by simp only [ObjStore.exec, hq]⟩
  | release fh =>
    cases h
    exact .inl rfl
  | remount =>
    cases h
    exact .inr ⟨.remount, _, rfl⟩

theorem step_slotsOk (hs : SlotsOk s) (h : step build objfs call s = some (r, t)) : SlotsOk t := by
  obtain ⟨hexec, hret⟩ := step_some.mp h
  rcases exec_one hexec with rfl | ⟨op, q, hop⟩
  · exact hs
  · exact ObjStore.step_slotsOk hs (ObjStore.step_some.mpr ⟨hop, hret⟩)

end Errors

end CS330.Objfs
