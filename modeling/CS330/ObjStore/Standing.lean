import CS330.ObjStore.Frame
import CS330.ObjStore.Runs

/-! Runs of any calls at all.

Whatever offsets and sizes the calls are given and whether or not they find their blocks,
the blocks' invariant and their owners survive every call that comes back. Only a remount
of the cached build asks for more: that the session found every block it asked for and
did not send the cursor round. The ids of the slots survive even that. -/
namespace CS330.ObjStore
open Bytes Spec Machine

/-- Every size is an int. -/
def SizesFit (s : State) : Prop := ∀ x, -2147483648 ≤ (s.obj x).size ∧ (s.obj x).size < 2147483648

structure Standing (build : Build) (s : State) : Prop where
  sound : Sound build s
  calling : Calling s
  sizes : SizesFit s
  session : build = .cached → ¬ Failed s → pageCalls s.log ≤ 32766 → InSession s

/-- Any call; the cached build is only unmounted from a session that found all its blocks
and asked for at most 32766 pages. -/
def Orderly (build : Build) (op : Op) (s _ : State) : Prop :=
  op = .remount → build = .cached → ¬ Failed s ∧ pageCalls s.log ≤ 32766

/-- A property of slots that creating, renaming, destroying and writing keep is kept by every
call. -/
theorem exec_slots {build : Build} {op : Op} {r : Ret} {s t : State} {P : Nat → Object → Prop} (hslots : Numbered s)
    (h : exec build op s = some (r, t)) (hop : op ≠ .remount) (hP : ∀ x, P x (s.obj x))
    (hnew : ∀ key x, x < 1000000 → P x (newObject key x))
    (hrenamed : ∀ newname x z, x < 1000000 → P z (s.obj z) → P x (renamedObject newname x (s.obj z)))
    (hfree : ∀ x, P x (s.obj x) → P x {s.obj x with id := 0})
    (hwrite : ∀ id data offset, op = .write id data offset → ∀ x, P x (t.obj x)) : ∀ x, P x (t.obj x) := by
  have hset : ∀ {f : Nat → Object} {x : Nat} {o : Object}, (∀ y, P y (f y)) → P x o →
      ∀ y, P y (Function.update f x o y) :=
    fun hf ho => (Function.forall_update_iff _ P).mpr ⟨ho, fun y _ => hf y⟩
  cases op with
  | create key =>
    obtain ⟨q, hq, hqr⟩ := Option.map_eq_some_iff.mp h
    cases hqr
    obtain ⟨-, ⟨-, hobj⟩ | ⟨x, hx, -, -, hobj⟩⟩ := createObject_slots hq
    · rwa [hobj]
    · rw [hobj]
      exact hset hP (hnew key x hx)
  | find key =>
    cases h
    exact hP
  | destroy key =>
    cases h
    rcases destroyObject_cases key hslots with ⟨-, heq⟩ | ⟨x, -, -, -, u, hfreed, -, heq⟩
    · rwa [heq]
    · rw [heq, State.setObj_obj, hfreed.obj]
      exact hset hP (hfree x (hP x))
  | rename key newname =>
    obtain ⟨q, hq, hqr⟩ := Option.map_eq_some_iff.mp h
    cases hqr
    obtain ⟨-, hcases⟩ := renameObject_cases hslots hq
    rcases hcases with ⟨-, -, hobj⟩ | ⟨-, -, -, hobj⟩ | ⟨-, z, x, -, -, -, ⟨-, -, hobj⟩ | ⟨-, hx, -, hobj⟩⟩
    · rwa [hobj]
    · rwa [hobj]
    · rwa [hobj]
    · rw [hobj]
      exact hset (hset hP (hrenamed newname x z hx (hP z))) (hfree z (hP z))
  | read id size offset =>
    cases h
    rwa [objstoreRead_obj]
  | write id data offset => exact hwrite id data offset rfl
  | stat id =>
    cases h
    rwa [fillupSizeDetails_obj]
  | remount => exact absurd rfl hop

section Sizes
variable {build : Build} {s t u : State}

theorem SizesFit.of_sizes (hs : SizesFit s) (h : ∀ y, (t.obj y).size = (s.obj y).size) : SizesFit t := by
  intro y
  rw [h y]
  exact hs y

theorem SizesFit.setObj (hs : SizesFit s) {x : Nat} {o : Object}
    (ho : -2147483648 ≤ o.size ∧ o.size < 2147483648) : SizesFit (s.setObj x o) := by
  intro y
  by_cases hy : y = x
  · rw [State.setObj_obj, hy, Function.update_self]
    exact ho
  · rw [State.setObj_obj, Function.update_of_ne hy]
    exact hs y

theorem writePointers_sizesFit (x : Nat) (buf : Buffer) (size : Int) (cap first n i blockOffset : Nat) (s : State)
    (hs : SizesFit s) : SizesFit (writePointers build x buf size cap first n i blockOffset s).2 := by
  induction n generalizing i blockOffset s with
  | zero => exact hs
  | succ n ih =>
    rw [writePointers]
    dsimp only
    split
    · exact hs
    · obtain ⟨r, hr⟩ : ∃ r, writeIndirectBlock build ((s.obj x).dataBlockPointers i) blockOffset buf
        ((i - first) * 4194304) cap s = r := ⟨_, rfl⟩
      have hobj : r.2.obj = s.obj := hr ▸ writeIndirectBlock_obj ..
      rw [hr]
      exact ih _ _ _ ((hs.of_sizes fun y => by rw [hobj]).setObj (by rw [hobj]; exact hs x))

theorem objstoreWrite_sizesFit (id : Int) (buf : Buffer) (size : Int) (offset : Nat) (s : State)
    (hs : SizesFit s) : SizesFit (objstoreWrite build id buf size offset s).2 := by
  unfold objstoreWrite writeObject
  dsimp only
  split_ifs
  · exact hs
  · exact hs
  · exact hs
  · split
    · exact hs
    · have hfill : ∀ x buf size start cap, SizesFit (fillBuffer build x buf size start offset cap s).2 := by
        intro x buf size start cap
        exact hs.of_sizes fun y => by rw [fillBuffer_obj]
      exact (writePointers_sizesFit _ _ _ _ _ _ _ _ _ (hfill _ _ _ _ _)).setObj (int32_range _)

theorem exec_sizesFit {op : Op} {r : Ret} (hslots : SlotsOk s) (h : exec build op s = some (r, t))
    (hop : op ≠ .remount) (hs : SizesFit s) : SizesFit t := by
  refine exec_slots (P := fun _ o => -2147483648 ≤ o.size ∧ o.size < 2147483648) hslots.numbered h hop hs ?_ ?_ ?_ ?_
  · intro key x _
    exact ⟨by simp [newObject], by simp [newObject]⟩
  · exact fun newname x z _ hz => hz
  · exact fun x hx => hx
  · rintro id data offset rfl
    cases h
    exact objstoreWrite_sizesFit _ _ _ _ _ hs

theorem ofBytes_size (m : Nat → UInt8) (a : Nat) :
    -2147483648 ≤ (Object.ofBytes m a).size ∧ (Object.ofBytes m a).size < 2147483648 := by
  simp only [Object.ofBytes, intAt]
  exact le32_range _ _ _ _

/-- Sizes come from the disk as ints. -/
theorem objstoreInit_sizesFit (s : State) : SizesFit (objstoreInit s) := by
  intro x
  have hobj : (objstoreInit s).obj x = objOfBytes (superMemory s) x := rfl
  rw [hobj, objOfBytes]
  split
  · exact ofBytes_size _ _
  · decide

end Sizes

/-! ### Ids -/

section Ids
variable {build : Build} {op : Op} {r : Ret} {s t : State}

theorem SlotsOk.of_ids (hs : SlotsOk s) (h : ∀ y, (t.obj y).id = (s.obj y).id) : SlotsOk t := by
  intro x hx
  rw [LiveSlot, h] at hx
  rw [h]
  exact hs x hx

theorem exec_numbered (hs : Numbered s) (h : exec build op s = some (r, t)) (hop : op ≠ .remount) : Numbered t := by
  have hP := exec_slots (P := fun x o => x < 1000000 → o.id ≠ 0 → o.id = indexToID x) hs h hop hs
    (fun key x _ _ _ => rfl) (fun newname x z _ _ _ _ => rfl) (fun x _ _ hid => absurd rfl hid) ?_
  · exact hP
  · rintro id data offset rfl x hx
    cases h
    rw [(objstoreWrite_sameNames _ _ _ _ s).id]
    exact hs x hx

theorem exec_slotsOk (hs : SlotsOk s) (h : exec build op s = some (r, t)) (hop : op ≠ .remount) : SlotsOk t := by
  refine exec_slots (P := fun x o => o.id ≠ 0 → x < 1000000 ∧ o.id = indexToID x) hs.numbered h hop hs ?_ ?_ ?_ ?_
  · exact fun key x hx _ => ⟨hx, rfl⟩
  · exact fun newname x z hx _ _ => ⟨hx, rfl⟩
  · exact fun x _ hid => absurd rfl hid
  · rintro id data offset rfl
    cases h
    exact hs.of_ids (objstoreWrite_sameNames _ _ _ _ s).id

theorem cacheSync_obj (s : State) : (cacheSync build s).obj = s.obj := by
  cases build with
  | uncached => rfl
  | cached => exact syncPages_obj cachePages s

/-- Ids come back from the disk, whatever became of the blocks. -/
theorem remount_slotsOk (hs : SlotsOk s) : SlotsOk (objstoreInit (objstoreDestroy build s)) := by
  intro x hx
  have hm := writeSuper_mounted (cacheSync build s)
  by_cases hlt : x < 1000000
  · have hid : ((objstoreInit (objstoreDestroy build s)).obj x).id = int32 (s.obj x).id := by
      rw [← @cacheSync_obj build s]
      exact (hm.obj x hlt).1
    by_cases hlive : LiveSlot s x
    · refine ⟨hlt, ?_⟩
      rw [hid, (hs x hlive).2]
      exact int32_eq (by unfold indexToID; omega) (by unfold indexToID; omega)
    · rw [LiveSlot, hid, not_not.mp hlive] at hx
      exact absurd rfl hx
  · exact absurd (hm.high x hlt) hx

theorem step_slotsOk (hs : SlotsOk s) (h : step build op s = some (r, t)) : SlotsOk t := by
  obtain ⟨hexec, -⟩ := step_some.mp h
  by_cases hop : op = .remount
  · subst hop
    obtain ⟨-, ht⟩ := Prod.mk.inj (Option.some.inj hexec)
    rw [← ht]
    exact remount_slotsOk hs
  · exact exec_slotsOk hs hexec hop

theorem reaches_slotsOk {ok : Op → State → State → Prop} {n : Nat}
    (h : Reaches (step build) ok (mount (zeroDisk n)) s) : SlotsOk s :=
  h.invariant SlotsOk (fun x hx => absurd hx ((mount_zero n).2 x)) fun _ _ _ _ hs hst _ => step_slotsOk hs hst

end Ids

section Standing
variable {build : Build} {op : Op} {r : Ret} {s t : State}

theorem step_standing (hs : Standing build s) (h : step build op s = some (r, t)) (hok : Orderly build op s t) :
    Standing build t := by
  obtain ⟨hexec, hret⟩ := step_some.mp h
  by_cases hop : op = .remount
  · subst hop
    obtain ⟨-, ht⟩ := Prod.mk.inj (Option.some.inj hexec)
    have hu := cacheSync_synced hs.sound.inv (fun hb => hs.session hb (hok rfl hb).1 (hok rfl hb).2)
      fun hb => (hok rfl hb).2
    obtain ⟨hsound, hcalling, hsession, -⟩ := remount_of_synced hs.sound (fun x _ => hs.sizes x) hu ht.symm
    exact ⟨hsound, hcalling, ht ▸ objstoreInit_sizesFit _, fun _ _ _ => hsession⟩
  · have hsteady := exec_steady hexec hop
    obtain ⟨owner, hown⟩ := hs.sound.owned
    refine ⟨exec_sound hs.sound hexec hop hret.1, ⟨hsteady.balanced hs.calling.free hret.1, hret.2⟩,
      exec_sizesFit hown.slotsOk hexec hop hs.sizes, ?_⟩
    rintro rfl hf hp
    have hle := hsteady.grows.pageCalls_le
    exact exec_session (hs.session rfl (fun hfs => hf (hsteady.failed hfs)) (by omega)) hexec hop hret.1 hf hp

theorem mount_standing (build : Build) {n : Nat} (hn : n ≤ bitmapSize) : Standing build (mount (zeroDisk n)) :=
  have hs := mount_healthy build hn
  ⟨hs.sound, hs.calling, objstoreInit_sizesFit _, fun hb _ _ => hs.session hb⟩

theorem reaches_standing {n : Nat} (hn : n ≤ bitmapSize)
    (h : Reaches (step build) (Orderly build) (mount (zeroDisk n)) s) : Standing build s :=
  h.invariant (Standing build) (mount_standing build hn) fun _ _ _ _ hs hx hok => step_standing hs hx hok

end Standing

end CS330.ObjStore
