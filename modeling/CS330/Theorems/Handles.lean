import CS330.ObjStore.Frame
import CS330.ObjStore.Keys
import CS330.ObjStore.Runs

/-! What an object id stands for once its object is gone.

An id is its slot's number plus two, and a slot is given out again. So a handle
to an object that was destroyed or renamed is refused exactly as long as no later
object is put into the same slot; from then on it reaches that object. -/
namespace CS330.ObjStore
open Bytes Spec Machine Probe

/-- Reading and writing through the handle return -1 and do nothing. -/
def Refuses (build : Build) (id : Int) (s : State) : Prop :=
  ∀ (buf : Buffer) (size : Int) (offset : Nat), objstoreRead build id size offset s = (-1, [], s) ∧
    objstoreWrite build id buf size offset s = (-1, s)

/-- The call puts a new object into the free slot `x`. -/
def Fills (x : Nat) : Op → State → Prop
  | .create key, s => probe (freeOrHolds s key) 1000000 1000000 (hash key) = some x
  | .rename key newname, s => newname.bytes.length ≤ 32 ∧ findObjectId key s ≠ -1 ∧
      probe (freeOrHolds s newname) 1000000 1000000 (hash newname) = some x
  | _, _ => False

section Handles
variable {build : Build} {op : Op} {r : Ret} {s t : State} {x : Nat}

theorem refuses_iff (hx : x < 1000000) : Refuses build (indexToID x) s ↔ ¬ LiveSlot s x := by
  have hid : ¬ indexToID x < 2 := Int.not_lt.mpr (two_le_indexToID x)
  constructor
  · intro h hlive
    obtain ⟨-, hwrite⟩ := h zeroBuffer 0 0
    have hret := congrArg Prod.fst hwrite
    unfold objstoreWrite at hret
    dsimp only at hret
    rw [if_neg hid, idToIndex_indexToID, if_neg (by omega), if_neg hlive] at hret
    have hzero : (writeObject build x zeroBuffer (clipWrite 0 0) 0 s).1 = 0 := rfl
    exact absurd (hzero.symm.trans hret) (by decide)
  · intro hfree buf size offset
    have hzero : (s.obj x).id = 0 := not_not.mp hfree
    unfold objstoreRead objstoreWrite
    dsimp only
    rw [idToIndex_indexToID, if_neg hid, if_neg (by omega), if_pos hzero, if_neg hid, if_neg (by omega),
      if_pos hzero]
    exact ⟨rfl, rfl⟩

theorem SameNames.live (h : SameNames s t) (y : Nat) : LiveSlot t y ↔ LiveSlot s y := by
  unfold LiveSlot
  rw [h.id]

/-- `create_object` fills the free slot it meets first, and no other. -/
theorem createObject_fills {key : Key} {q : Int × State} (h : createObject key s = some q)
    (hx : ¬ LiveSlot s x) : ¬ LiveSlot q.2 x ↔ ¬ Fills x (.create key) s := by
  show _ ↔ ¬ probe (freeOrHolds s key) 1000000 1000000 (hash key) = some x
  rcases createObject_cases h with ⟨-, hq, y, hp, hy⟩ | ⟨y, hp, -, -, -, hq⟩
  · rw [hp, hq]
    refine iff_of_true hx fun heq => ?_
    cases heq
    exact hx hy
  · rw [hp, hq]
    unfold LiveSlot
    simp only [State.emit_obj, State.setObj_obj]
    by_cases hyx : x = y
    · subst hyx
      rw [Function.update_self]
      refine iff_of_false (fun h => h ?_) fun h => h rfl
      show indexToID x ≠ 0
      unfold indexToID
      omega
    · rw [Function.update_of_ne hyx]
      exact iff_of_true hx fun heq => hyx (Option.some.inj heq).symm

theorem findObjectId_ne (hs : Numbered s) (key : Key) : findObjectId key s ≠ -1 ↔
    ∃ z, probe (slotHolds s key) 1000000 1000000 (hash key) = some z := by
  rcases findObjectId_cases hs key with ⟨hf, hp⟩ | ⟨z, hp, -, hf⟩
  · rw [hf, hp]
    exact iff_of_false (fun h => h rfl) fun ⟨_, h⟩ => by cases h
  · rw [hf, hp]
    refine iff_of_true ?_ ⟨z, rfl⟩
    unfold indexToID
    omega

theorem renameObject_fills {key newname : Key} {q : Int × State} (hs : Numbered s)
    (h : renameObject key newname s = some q) (hx : ¬ LiveSlot s x) :
    ¬ LiveSlot q.2 x ↔ ¬ Fills x (.rename key newname) s := by
  have hkept : q.2.obj = s.obj → ¬ LiveSlot q.2 x := fun hobj hl => hx ((liveSlot_congr hobj x).mp hl)
  show _ ↔ ¬ (_ ∧ _ ∧ _)
  rw [findObjectId_ne hs]
  rcases (renameObject_cases hs h).2 with ⟨hlen, -, hobj⟩ | ⟨-, hnone, -, hobj⟩ |
    ⟨hlen, z, y, hz, hlive, hy, ⟨hylive, -, hobj⟩ | ⟨-, -, -, hobj⟩⟩
  · exact iff_of_true (hkept hobj) fun h => absurd h.1 (by omega)
  · rw [hnone]
    exact iff_of_true (hkept hobj) fun ⟨_, ⟨_, hf⟩, _⟩ => by cases hf
  · rw [hy]
    refine iff_of_true (hkept hobj) fun ⟨_, _, heq⟩ => hx ?_
    rwa [← Option.some.inj heq]
  · have hxz : x ≠ z := fun h => hx (h ▸ hlive)
    rw [hy, hz]
    unfold LiveSlot
    rw [hobj, Function.update_of_ne hxz]
    by_cases hyx : x = y
    · subst hyx
      rw [Function.update_self]
      refine iff_of_false (fun h => h ?_) fun h => h ⟨hlen, ⟨z, rfl⟩, rfl⟩
      show indexToID x ≠ 0
      unfold indexToID
      omega
    · rw [Function.update_of_ne hyx]
      exact iff_of_true hx fun ⟨_, _, heq⟩ => hyx (Option.some.inj heq).symm

/-- A free slot stays free until a call fills it. -/
theorem exec_fills (hs : Sound build s) (h : exec build op s = some (r, t)) (hop : op ≠ .remount)
    (hx : ¬ LiveSlot s x) : ¬ LiveSlot t x ↔ ¬ Fills x op s := by
  obtain ⟨-, owner, hown⟩ := hs
  have hsame : SameNames s t → (¬ LiveSlot t x ↔ ¬ False) := fun hn =>
    iff_of_true (fun hl => hx ((hn.live x).mp hl)) id
  cases op with
  | create key =>
    obtain ⟨q, hq, hqr⟩ := Option.map_eq_some_iff.mp h
    cases hqr
    exact createObject_fills hq hx
  | find key =>
    cases h
    exact hsame (.of_obj rfl)
  | destroy key =>
    cases h
    refine iff_of_true (fun hl => ?_) id
    rcases destroyObject_cases key hown.numbered with ⟨-, heq⟩ | ⟨z, -, hz, -, u, hfreed, -, heq⟩
    · rw [heq] at hl
      exact hx hl
    · have hxz : x ≠ z := fun h => hx (h ▸ hz)
      unfold LiveSlot at hl hx
      rw [heq, State.setObj_obj, Function.update_of_ne hxz, hfreed.obj] at hl
      exact hx hl
  | rename key newname =>
    obtain ⟨q, hq, hqr⟩ := Option.map_eq_some_iff.mp h
    cases hqr
    exact renameObject_fills hown.numbered hq hx
  | read id size offset =>
    cases h
    exact hsame (.of_obj (objstoreRead_obj ..))
  | write id data offset =>
    cases h
    exact hsame (objstoreWrite_sameNames ..)
  | stat id =>
    cases h
    exact hsame (.of_obj (fillupSizeDetails_obj ..))
  | remount => exact absurd rfl hop

/-- Calls that succeed in taking an object's slot from it. -/
inductive Retires (key : Key) : Op → Prop
  | destroy : Retires key (.destroy key)
  | rename (newname : Key) : Retires key (.rename key newname)

theorem retires_free (hs : Sound build s) {key : Key} {v : Int} (hop : Retires key op)
    (h : exec build op s = some (.val v, t)) (hv : v ≠ -1) :
    ∃ x, x < 1000000 ∧ findObjectId key s = indexToID x ∧ ¬ LiveSlot t x := by
  obtain ⟨-, owner, hown⟩ := hs
  cases hop with
  | destroy =>
    obtain ⟨hret, rfl⟩ := Prod.mk.inj (Option.some.inj h)
    have hret : (destroyObject key s).1 = v := Ret.val.inj hret
    rcases destroyObject_cases key hown.numbered with ⟨-, heq⟩ | ⟨z, hp, hz, -, u, hfreed, -, heq⟩
    · rw [heq] at hret
      exact absurd hret.symm hv
    · have hslot := hown.slot z hz
      refine ⟨z, hslot.1, ?_, fun hl => hl ?_⟩
      · rw [findObjectId_eq, hp]
        exact hslot.2
      · rw [heq, State.setObj_obj, Function.update_self]
  | rename newname =>
    obtain ⟨q, hq, hqr⟩ := Option.map_eq_some_iff.mp h
    obtain ⟨hret, rfl⟩ := Prod.mk.inj hqr
    have hret : q.1 = v := Ret.val.inj hret
    rcases (renameObject_cases hown.numbered hq).2 with ⟨-, hneg, -⟩ | ⟨-, -, hneg, -⟩ |
      ⟨-, z, y, hp, hz, -, ⟨-, hneg, -⟩ | ⟨-, -, -, hobj⟩⟩
    · exact absurd (hret.symm.trans hneg) hv
    · exact absurd (hret.symm.trans hneg) hv
    · exact absurd (hret.symm.trans hneg) hv
    · have hslot := hown.slot z hz
      refine ⟨z, hslot.1, ?_, fun hl => hl ?_⟩
      · rw [findObjectId_eq, hp]
        exact hslot.2
      · rw [hobj, Function.update_self]

theorem reaches_sound {n : Nat} (hn : n ≤ bitmapSize)
    (h : Reaches (step build) (fun op _ _ => op ≠ .remount) (mount (zeroDisk n)) s) : Sound build s := by
  refine h.invariant (Sound build) (mount_sound build hn) ?_
  intro op s r t hs hstep hop
  obtain ⟨hexec, hret⟩ := step_some.mp hstep
  exact exec_sound hs hexec hop hret.1

end Handles

/-- After the object a key stood for was destroyed or renamed, its old id is refused in every
state of a run exactly when no call of the run puts an object into its old slot. -/
theorem stale_handle {build : Build} {n : Nat} (hn : n ≤ bitmapSize) {s : State}
    (hs : Reaches (step build) (fun op _ _ => op ≠ .remount) (mount (zeroDisk n)) s) {key : Key}
    {op : Op} (hop : Retires key op) {v : Int} {t : State} (h : step build op s = some (.val v, t))
    (hv : v ≠ -1) {ops : List Op} (hops : ∀ op ∈ ops, op ≠ .remount) {rs : List Ret} {u : State}
    (hrun : runAll (step build) ops t = some (rs, u)) :
    Along (step build) (Refuses build (findObjectId key s)) ops t ↔
      Each (step build) (fun op w => ¬ Fills (idToIndex (findObjectId key s)) op w) ops t := by
  have hsound := reaches_sound hn hs
  obtain ⟨hexec, hret⟩ := step_some.mp h
  obtain ⟨x, hx, hid, hfree⟩ := retires_free hsound hop hexec hv
  have hsound' : Sound build t := exec_sound hsound hexec (by cases hop <;> simp) hret.1
  rw [hid, idToIndex_indexToID]
  refine along_iff_each (fun op w r w' hmem hw hrefused hstep => ?_) hsound' ((refuses_iff hx).mpr hfree) hrun
  obtain ⟨hexec, hret⟩ := step_some.mp hstep
  have hop := hops op hmem
  rw [refuses_iff hx] at hrefused ⊢
  exact ⟨exec_sound hw hexec hop hret.1, exec_fills hw hexec hop hrefused⟩

/-- One object was created and destroyed. -/
theorem destroyed_reaches (n : Nat) :
    Reaches (step .uncached) (fun op _ _ => op ≠ .remount) (mount (zeroDisk n))
      (destroyed keyA (mount (zeroDisk n))) := by
  have hdestroy := step_destroy .uncached keyA (by decide) (created_calling keyA (mount_calling n))
  exact .step (created_reaches .uncached nofun) hdestroy nofun

/-- The object is destroyed and one with another key created: the old id stays refused. -/
theorem stale_handle_other_slot : ∃ s t u,
    Reaches (step .uncached) (fun op _ _ => op ≠ .remount) (mount (zeroDisk 20000)) s ∧
    findObjectId keyA s = 177672 ∧ step .uncached (.destroy keyA) s = some (.val 0, t) ∧
    runAll (step .uncached) [.create keyB] t = some ([.val 177673], u) ∧
    Along (step .uncached) (Refuses .uncached 177672) [.create keyB] t := by
  have hcall := mount_calling 20000
  have hreach : Reaches (step .uncached) (fun op _ _ => op ≠ .remount) (mount (zeroDisk 20000))
      (created keyA (mount (zeroDisk 20000))) := created_reaches .uncached nofun
  have hfind : findObjectId keyA (created keyA (mount (zeroDisk 20000))) = 177672 :=
    findObjectId_created keyA (by decide) _
  have hdestroy := step_destroy .uncached keyA (by decide) (created_calling keyA hcall)
  have hfree : ¬ LiveSlot (destroyed keyA (mount (zeroDisk 20000))) (hash keyB) := by
    unfold LiveSlot
    rw [destroyed_other keyA _ (by decide)]
    exact (mount_zero 20000).2 _
  have hrun : runAll (step .uncached) [.create keyB] (destroyed keyA (mount (zeroDisk 20000))) =
      some ([.val 177673], created keyB (destroyed keyA (mount (zeroDisk 20000)))) :=
    runAll_cons.mpr ⟨_, _, [], step_create .uncached keyB (destroyed_calling keyA hcall) hfree, rfl, rfl⟩
  refine ⟨_, _, _, hreach, hfind, hdestroy, hrun, ?_⟩
  rw [← hfind]
  refine (stale_handle (by decide) hreach .destroy hdestroy (by decide) (by simp) hrun).mpr ⟨?_, ?_⟩
  · rw [hfind]
    intro hfills
    have hfills := (probe_free keyB hfree).symm.trans hfills
    exact absurd hfills (by decide)
  · exact fun _ _ _ => trivial

/-- The object is destroyed and created again: a write through the old id goes to the new
object. -/
theorem stale_handle_reused : ∃ t u,
    runAll (step .uncached) [.create keyA, .destroy keyA, .create keyA] (mount (zeroDisk 20000)) =
      some ([.val 177672, .val 0, .val 177672], t) ∧
    (t.obj 177670).size = 0 ∧ step .uncached (.write 177672 [7] 0) t = some (.val 1, u) ∧
    (u.obj 177670).size = 1 := by
  have hcall := mount_calling 20000
  have hcreate := step_create .uncached keyA hcall ((mount_zero 20000).2 _)
  have hdestroy := step_destroy .uncached keyA (by decide) (created_calling keyA hcall)
  have hagain := step_create .uncached keyA (destroyed_calling keyA hcall) (destroyed_free keyA _)
  have hsound := reaches_sound (by decide) (.step (destroyed_reaches 20000) hagain (by simp))
  obtain ⟨t, ht⟩ : ∃ t, t = created keyA (destroyed keyA (mount (zeroDisk 20000))) := ⟨_, rfl⟩
  have hlive : LiveSlot t 177670 := ht ▸ created_live keyA _
  have hsize : (t.obj 177670).size = 0 := by
    rw [ht]
    exact congrArg Object.size (created_obj keyA _)
  rw [← ht] at hagain hsound
  have hreg : (Op.write 177672 [7] 0).Regular :=
    ⟨not_irregular.mpr (by decide), by decide, by decide⟩
  have hret := exec_returned_uncached (show exec .uncached (.write 177672 [7] 0) t = _ from rfl)
    (by simp) hreg (ht ▸ created_calling keyA (destroyed_calling keyA hcall))
  obtain ⟨hval, owner, owner', -, hw⟩ := objstoreWrite_live hsound hreg (by decide) hlive hret.returned.1
  refine ⟨t, _, runAll_cons.mpr ⟨_, _, _, hcreate, runAll_cons.mpr ⟨_, _, _, hdestroy,
    runAll_cons.mpr ⟨_, _, [], hagain, rfl, rfl⟩, rfl⟩, rfl⟩, hsize, step_some.mpr ⟨?_, hret.returned⟩,
    hw.newSize⟩
  exact congrArg (fun v => some (Ret.val v, _)) hval

end CS330.ObjStore
