import CS330.ObjStore.Keys
import CS330.ObjStore.Frame
import CS330.ObjStore.Effects
import CS330.Spec.Directory

/-! The directory as names in slots.

`namesOf s` are the keys of the live slots. For keys of at most 31 bytes the scans of the
source are the probes of the abstract directory, so every call does to files and names what
`Store.step` says, in both builds (`exec_store`). -/
namespace CS330.ObjStore
open Spec Probe

def namesOf (s : State) : Names := fun x => if LiveSlot s x then some (s.obj x).name else none

def storeOf (s : State) : Store := ⟨filesOf s, namesOf s⟩

/-- The keys a call is given have at most 31 bytes. -/
def Op.ShortKeys : Op → Prop
  | .create key | .find key | .destroy key => key.bytes.length ≤ 31
  | .rename key newname => key.bytes.length ≤ 31 ∧ newname.bytes.length ≤ 31
  | _ => True

section Names
variable {build : Build} {key newname : Key} {s t : State} {x y z : Nat}

theorem namesOf_live (hx : LiveSlot s x) : namesOf s x = some (s.obj x).name := if_pos hx

theorem namesOf_free (hx : ¬ LiveSlot s x) : namesOf s x = none := if_neg hx

theorem namesOf_eq_none : namesOf s x = none ↔ ¬ LiveSlot s x := by
  simp [namesOf]

theorem namesOf_eq_some : namesOf s x = some key ↔ LiveSlot s x ∧ (s.obj x).name = key := by
  simp [namesOf]

theorem slotHolds_names (hk : key.bytes.length ≤ 31) :
    slotHolds s key = fun i => decide (namesOf s i = some key) := by
  funext i
  rw [Bool.eq_iff_iff, slotHolds_iff hk, decide_eq_true_iff, namesOf_eq_some]

theorem freeOrHolds_names (hk : key.bytes.length ≤ 31) :
    freeOrHolds s key = fun i => decide (namesOf s i = none ∨ namesOf s i = some key) := by
  funext i
  rw [Bool.eq_iff_iff, freeOrHolds_iff hk, decide_eq_true_iff, namesOf_eq_none, namesOf_eq_some]
  tauto

theorem holder_eq (hk : key.bytes.length ≤ 31) :
    probe (slotHolds s key) 1000000 1000000 (hash key) = (namesOf s).holder key := by
  rw [slotHolds_names hk]
  rfl

theorem place_eq (hk : key.bytes.length ≤ 31) :
    probe (freeOrHolds s key) 1000000 1000000 (hash key) = (namesOf s).place key := by
  rw [freeOrHolds_names hk]
  rfl

/-- The slot a lookup stops at has the name. -/
theorem namesOf_probe (hk : key.bytes.length ≤ 31)
    (h : probe (slotHolds s key) 1000000 1000000 (hash key) = some x) : namesOf s x = some key :=
  namesOf_eq_some.mpr ((slotHolds_iff hk).mp ((probe_round (hash_lt key)).mp h).2.1)

theorem findObjectId_names (hs : Numbered s) (hk : key.bytes.length ≤ 31) :
    findObjectId key s = ((namesOf s).holder key).elim (-1) indexToID := by
  rcases findObjectId_cases hs key with ⟨hret, hprobe⟩ | ⟨x, hprobe, -, hret⟩ <;>
    rw [hret, ← holder_eq hk, hprobe] <;> rfl

theorem SameNames.names (h : SameNames s t) : namesOf t = namesOf s := by
  funext x
  have hlive : LiveSlot t x ↔ LiveSlot s x := by rw [LiveSlot, LiveSlot, h.id]
  have hname : (t.obj x).name = (s.obj x).name := by
    simp only [Object.name, h.key]
  simp only [namesOf, hlive, hname]

theorem names_of_obj (h : t.obj = s.obj) : namesOf t = namesOf s := (SameNames.of_obj h).names

/-! ### The directory's calls -/

theorem namesOf_congr (h : t.obj x = s.obj y) : namesOf t x = namesOf s y := by
  have hlive : LiveSlot t x ↔ LiveSlot s y := by rw [LiveSlot, LiveSlot, h]
  simp only [namesOf, hlive, h]

theorem namesOf_update {o : Object} (hobj : t.obj = Function.update s.obj x o) (hid : o.id ≠ 0)
    (hname : o.name = key) : namesOf t = Function.update (namesOf s) x (some key) := by
  funext y
  by_cases hy : y = x
  · subst hy
    rw [Function.update_self, namesOf_eq_some, LiveSlot, hobj, Function.update_self]
    exact ⟨hid, hname⟩
  · rw [Function.update_of_ne hy]
    exact namesOf_congr (by rw [hobj, Function.update_of_ne hy])

theorem namesOf_drop {o : Object} (hobj : t.obj = Function.update s.obj x o) (hid : o.id = 0) :
    namesOf t = Function.update (namesOf s) x none := by
  funext y
  by_cases hy : y = x
  · subst hy
    rw [Function.update_self, namesOf_eq_none, LiveSlot, hobj, Function.update_self]
    exact not_not_intro hid
  · rw [Function.update_of_ne hy]
    exact namesOf_congr (by rw [hobj, Function.update_of_ne hy])

theorem storeOf_eq {S : Store} (hfiles : filesOf t = S.files) (hnames : namesOf t = S.names) : storeOf t = S := by
  cases S
  simp only [storeOf, hfiles, hnames]

theorem put_live {f : Option File} (hx : LiveSlot s x) : (storeOf s).put key f x = none :=
  if_neg fun hn => namesOf_eq_none.mp hn hx

theorem put_free {f : Option File} (hx : ¬ LiveSlot s x) : (storeOf s).put key f x =
    some ⟨Function.update (filesOf s) x f, Function.update (namesOf s) x (some key)⟩ :=
  if_pos (namesOf_free hx)

theorem createObject_store (hs : Sound build s) (hk : key.bytes.length ≤ 31) {r : Int × State}
    (h : createObject key s = some r) : Store.step (.create key) (storeOf s) = some (.val r.1, storeOf r.2) := by
  have hfiles := createObject_files hs h
  show ((namesOf s).place key).map _ = _
  rcases createObject_cases h with ⟨hret, hstate, x, hprobe, hx⟩ | ⟨x, hprobe, -, hx, hret, hstate⟩
  · have hobj : r.2.obj = s.obj := by rw [hstate]; rfl
    have hsame : filesOf r.2 = filesOf s := by
      rcases hfiles with ⟨-, h⟩ | ⟨y, -, -, hy, -⟩
      · exact h
      · exact absurd (hy.symm.trans hret) (indexToID_ne y).2
    have hstore : storeOf r.2 = storeOf s := storeOf_eq hsame (names_of_obj hobj)
    rw [← place_eq hk, hprobe, Option.map_some, put_live hx, hstore, hret]
  · have hobj : r.2.obj = Function.update s.obj x (newObject key x) := by rw [hstate]; rfl
    have hnew : filesOf r.2 = Function.update (filesOf s) x (some File.new) := by
      rcases hfiles with ⟨hneg, -⟩ | ⟨y, -, -, hy, h⟩
      · exact absurd (hret.symm.trans hneg) (indexToID_ne x).2
      · rw [h, indexToID_inj (hret.symm.trans hy)]
    have hstore : storeOf r.2 = ⟨Function.update (filesOf s) x (some File.new),
        Function.update (namesOf s) x (some key)⟩ :=
      storeOf_eq hnew (namesOf_update hobj (indexToID_ne x).1 (name_newObject hk x))
    rw [← place_eq hk, hprobe, Option.map_some, put_free hx, hstore, hret]

theorem destroyObject_store (hs : Sound build s) (hk : key.bytes.length ≤ 31) :
    Store.step (.destroy key) (storeOf s) = some (.val (destroyObject key s).1, storeOf (destroyObject key s).2) := by
  obtain ⟨hinv, owner, hown⟩ := hs
  have hholder : (storeOf s).names.holder key = _ := (holder_eq hk).symm
  unfold Store.step
  dsimp only
  rcases destroyObject_cases key hown.numbered with ⟨hprobe, h⟩ | ⟨x, hprobe, hx, hret, t, hfreed, -, h⟩
  · rw [hholder, hprobe, h]
  · have hobj : (t.setObj x {s.obj x with id := 0}).obj = Function.update s.obj x {s.obj x with id := 0} := by
      rw [State.setObj_obj, hfreed.obj]
    have hstore : storeOf (destroyObject key s).2 = (storeOf s).drop x := by
      rw [h]
      exact storeOf_eq (destroyed_files hinv hown hx hfreed) (namesOf_drop hobj rfl)
    rw [hholder, hprobe, hret, hstore]

theorem name_renamedObject (hk : newname.bytes.length ≤ 31) (o : Object) :
    (renamedObject newname x o).name = newname := name_strncpyKey hk fun _ _ => rfl

theorem namesOf_moved (hk : newname.bytes.length ≤ 31) (hobj : t.obj = Function.update (Function.update s.obj x
      (renamedObject newname x (s.obj z))) z {s.obj z with id := 0}) :
    namesOf t = Function.update (Function.update (namesOf s) x (some newname)) z none := by
  let u : State := {s with obj := Function.update s.obj x (renamedObject newname x (s.obj z))}
  have hu : namesOf u = Function.update (namesOf s) x (some newname) :=
    namesOf_update rfl (indexToID_ne x).1 (name_renamedObject hk _)
  rw [namesOf_drop (s := u) hobj rfl, hu]

theorem renameObject_store (hs : Sound build s) (hk : key.bytes.length ≤ 31) (hk' : newname.bytes.length ≤ 31)
    {r : Int × State} (h : renameObject key newname s = some r) :
    Store.step (.rename key newname) (storeOf s) = some (.val r.1, storeOf r.2) := by
  obtain ⟨-, owner, hown⟩ := hs
  obtain ⟨honly, hcases⟩ := renameObject_cases hown.numbered h
  have hsame : r.2.obj = s.obj → storeOf r.2 = storeOf s := fun hobj =>
    storeOf_eq (funext fun y => honly.file (by rw [hobj]) hown) (names_of_obj hobj)
  have hholder : (storeOf s).names.holder key = _ := (holder_eq hk).symm
  have hplace : (storeOf s).names.place newname = _ := (place_eq hk').symm
  unfold Store.step
  dsimp only
  rcases hcases with ⟨hlong, -⟩ | ⟨-, hprobe, hret, hobj⟩ | ⟨-, z, x, hprobe, hz, hprobe', hx⟩
  · omega
  · rw [hholder, hprobe, hret, hsame hobj]
  rw [hholder, hprobe]
  dsimp only
  rw [hplace, hprobe', Option.map_some]
  rcases hx with ⟨hx, hret, hobj⟩ | ⟨hx, -, hret, hobj⟩
  · rw [put_live hx, hret, hsame hobj]
  · have hfiles := movedSlot_files hown honly hz hx (o := renamedObject newname x (s.obj z)) rfl rfl rfl hobj
    have hstore : storeOf r.2 = Store.drop z ⟨Function.update (filesOf s) x (filesOf s z),
        Function.update (namesOf s) x (some newname)⟩ := storeOf_eq hfiles (namesOf_moved hk' hobj)
    rw [put_free hx, hstore, hret]
    rfl

/-- What a call with short keys does to the names, whatever became of the blocks. -/
theorem exec_names {op : Op} {r : Ret} (hs : Numbered s) (h : exec build op s = some (r, t))
    (hop : OfDirectory op) (hkeys : op.ShortKeys) : Names.Step op (namesOf s) (namesOf t) := by
  cases op with
  | create key =>
    obtain ⟨q, hq, hqr⟩ := Option.map_eq_some_iff.mp h
    cases hqr
    obtain ⟨-, ⟨-, hobj⟩ | ⟨x, -, hx, -, hobj⟩⟩ := createObject_slots hq
    · rw [names_of_obj hobj]
      exact .stay
    · rw [namesOf_update hobj (indexToID_ne x).1 (name_newObject hkeys x)]
      exact .put (namesOf_free hx)
  | find key =>
    cases h
    exact .stay
  | destroy key =>
    cases h
    rcases destroyObject_cases key hs with ⟨-, heq⟩ | ⟨z, hprobe, -, -, u, hfreed, -, heq⟩
    · rw [heq]
      exact .stay
    · have hobj : (destroyObject key s).2.obj = Function.update s.obj z {s.obj z with id := 0} := by
        rw [heq, State.setObj_obj, hfreed.obj]
      rw [namesOf_drop hobj rfl]
      exact .drop (namesOf_probe hkeys hprobe)
  | rename key newname =>
    obtain ⟨q, hq, hqr⟩ := Option.map_eq_some_iff.mp h
    cases hqr
    obtain ⟨-, hcases⟩ := renameObject_cases hs hq
    rcases hcases with ⟨-, -, hobj⟩ | ⟨-, -, -, hobj⟩ | ⟨-, z, x, hprobe, -, -, ⟨-, -, hobj⟩ | ⟨hx, -, -, hobj⟩⟩
    · rw [names_of_obj hobj]
      exact .stay
    · rw [names_of_obj hobj]
      exact .stay
    · rw [names_of_obj hobj]
      exact .stay
    · rw [namesOf_moved hkeys.2 hobj]
      exact .move (namesOf_probe hkeys.1 hprobe) (namesOf_free hx)
  | _ => exact hop.elim

/-! ### Any call -/

/-- A call of the directory with short keys does to files and names what the abstract store
does, and returns what it returns. -/
theorem exec_directory {op : Op} {r : Ret} (hs : Sound build s) (h : exec build op s = some (r, t))
    (hop : OfDirectory op) (hkeys : op.ShortKeys) : Store.step op (storeOf s) = some (r, storeOf t) := by
  cases op with
  | create key =>
    obtain ⟨q, hq, hqr⟩ := Option.map_eq_some_iff.mp h
    cases hqr
    exact createObject_store hs hkeys hq
  | find key =>
    cases h
    obtain ⟨-, owner, hown⟩ := hs
    rw [findObjectId_names hown.numbered hkeys]
    rfl
  | destroy key =>
    cases h
    exact destroyObject_store hs hkeys
  | rename key newname =>
    obtain ⟨q, hq, hqr⟩ := Option.map_eq_some_iff.mp h
    cases hqr
    exact renameObject_store hs hkeys.1 hkeys.2 hq
  | _ => exact hop.elim

/-- So does a regular call that runs out of no blocks. -/
theorem exec_store {op : Op} {r : Ret} (hs : Sound build s) (h : exec build op s = some (r, t))
    (hop : op ≠ .remount) (hreg : op.Regular) (hkeys : op.ShortKeys) (hl : Live t) (hf : ¬ Failed t) :
    Store.step op (storeOf s) = some (r, storeOf t) := by
  cases op with
  | create key => exact exec_directory hs h trivial hkeys
  | find key => exact exec_directory hs h trivial hkeys
  | destroy key => exact exec_directory hs h trivial hkeys
  | rename key newname => exact exec_directory hs h trivial hkeys
  | read id size offset =>
    cases h
    obtain ⟨hret, hkept⟩ := objstoreRead_spec hs hl
    have hstore := storeOf_eq (S := storeOf s) (hkept.files hs) (names_of_obj hkept.same.obj)
    rw [hstore, hret]
    rfl
  | write id data offset =>
    cases h
    have hspec := objstoreWrite_spec hs hreg hl hf
    have hstore := storeOf_eq (S := ⟨((filesOf s).write id data offset).2, namesOf s⟩) (congrArg Prod.snd hspec)
      (objstoreWrite_sameNames id _ _ offset s).names
    rw [hstore, show Ret.val _ = _ from congrArg Prod.fst hspec]
    rfl
  | stat id =>
    cases h
    obtain ⟨hret, hkept⟩ := fillupSizeDetails_spec hs hl
    have hstore := storeOf_eq (S := storeOf s) (hkept.files hs) (names_of_obj hkept.same.obj)
    rw [hstore, hret]
    rfl
  | remount => exact absurd rfl hop

end Names

end CS330.ObjStore
