import CS330.ObjStore.Effects
import CS330.ObjStore.Keys
import CS330.ObjStore.Session
import CS330.ObjStore.Space

/-! Whole runs of the store.

`Healthy build s` is what every regular run keeps that runs out of no blocks and,
in the cached build, does not send the cursor round within a session; remounts
included. In a healthy state every such call comes back, and does to the files what
their own rules say. -/
namespace CS330.ObjStore
open Bytes Spec Machine

structure Healthy (build : Build) (s : State) : Prop where
  sound : Sound build s
  calling : Calling s
  bounded : (filesOf s).Bounded
  session : build = .cached → InSession s

/-- The runs looked at: regular operations that find every block they ask for, and
sessions of the cached build of at most 32766 pages. -/
def Fair (build : Build) (op : Op) (_ t : State) : Prop :=
  op.Regular ∧ ¬ Failed t ∧ (build = .cached → pageCalls t.log ≤ 32766)

section Healthy
variable {build : Build} {op : Op} {r : Ret} {s t : State}

/-- The pages the cursor has not been to. -/
theorem Session.ahead (h : InSession s) (hp : pageCalls s.log ≤ 32766) :
    Unused (32766 - pageCalls s.log) s := by
  intro i hi
  have hlast := h.last
  have hnext : nextPage s.lastCacheIndex = s.lastCacheIndex + 1 := by
    unfold nextPage cachePages
    dsimp only
    rw [Nat.mod_eq_of_lt (by omega), if_neg (by omega)]
  apply h.unused
  rw [Function.iterate_succ_apply, hnext, nextPage_iterate i (by omega) (by unfold cachePages; omega)]
  rw [Nat.mod_eq_of_lt (by omega)]
  omega

theorem Healthy.fieldsFit (h : Healthy build s) : FieldsFit s := by
  intro x hx
  have hb : 0 ≤ (s.obj x).size ∧ (s.obj x).size ≤ 16777216 := h.bounded x _ (filesOf_live hx)
  omega

/-- A regular call in a healthy state comes back. -/
theorem exec_calling (hs : Healthy build s) (h : exec build op s = some (r, t)) (hop : op ≠ .remount)
    (hreg : op.Regular) (hpages : build = .cached → pageCalls t.log ≤ 32766) : Calling t := by
  cases build with
  | uncached => exact exec_returned_uncached h hop hreg hs.calling
  | cached =>
    have hle := (exec_steady h hop).grows.pageCalls_le
    have hp := hpages rfl
    exact (exec_returned h hop hreg hs.calling (by omega) ((hs.session rfl).ahead (by omega)) (by omega)).1

theorem Calling.live (h : Calling s) : Live s := h.returned.1

theorem step_read_uncached {id size : Int} {offset : Nat} (hs : Sound .uncached s) (hcall : Calling s)
    (hreg : (Op.read id size offset).Regular) :
    ∃ t, step .uncached (.read id size offset) s = some ((filesOf s).read id size offset, t) := by
  have hret : Calling (objstoreRead .uncached id size offset s).2.2 :=
    exec_returned_uncached (show exec .uncached (.read id size offset) s = _ from rfl) (by simp) hreg hcall
  exact ⟨_, step_some.mpr ⟨by rw [← (objstoreRead_spec hs hret.live).1]; rfl, hret.returned⟩⟩

theorem step_stat_uncached {id : Int} (hs : Sound .uncached s) (hcall : Calling s)
    (hreg : (Op.stat id).Regular) :
    ∃ t, step .uncached (.stat id) s = some ((filesOf s).stat id, t) := by
  have hret : Calling (fillupSizeDetails .uncached id s).2.2.2 :=
    exec_returned_uncached (show exec .uncached (.stat id) s = _ from rfl) (by simp) hreg hcall
  exact ⟨_, step_some.mpr ⟨by rw [← (fillupSizeDetails_spec hs hret.live).1]; rfl, hret.returned⟩⟩

/-! ### Remounting -/

/-- The pages are written back. -/
theorem cacheSync_synced (hs : BlockInv build s) (hsession : build = .cached → InSession s)
    (hp : build = .cached → pageCalls s.log ≤ 32766) : Synced s (cacheSync build s) := by
  cases build with
  | uncached => exact hs.synced
  | cached => exact syncPages_synced (hsession rfl) hs.fits (hp rfl) (Nat.le_refl _)

theorem Mounted.session {u : State} (ht : Mounted u t) (hinv : BlockInv build t)
    (hle : ∀ b, t.blockBitmap b ≤ 1) : InSession t := by
  obtain ⟨hlog, hlast, hpages⟩ := ht.fresh
  refine ⟨hinv.total, fun b hb => ?_, fun b hb => ?_, ?_, fun c _ => (hpages c).1, fun c _ => (hpages c).1,
    fun c hc => absurd (hpages c).1 hc, fun c hc => absurd (hpages c).1 hc,
    fun c hc => absurd (hpages c).1 hc, fun b hb => ?_⟩
  · refine (hinv.range b hb).resolve_left ?_
    rintro rfl
    exact hb (ht.outside (-1) (by omega))
  · have := hle b
    omega
  · rw [hlast, hlog]
    rfl
  · have := hle b
    omega

/-- A remount keeps the objects and forgets the pages. -/
theorem remount_of_synced (hs : Sound build s) (hfit : FieldsFit s) (hu : Synced s (cacheSync build s))
    (h : t = objstoreInit (objstoreDestroy build s)) : Sound build t ∧ Calling t ∧ InSession t ∧
      Remounted s t ∧ filesOf t = filesOf s := by
  have ht : Mounted (cacheSync build s) t := h ▸ writeSuper_mounted _
  obtain ⟨hinv, owner, hown⟩ := hs
  have hr := ht.remounted hinv hown hu hfit
  refine ⟨⟨ht.inv hinv hu, owner, ht.owned hinv hown hu hfit⟩, ⟨?_, ?_⟩, ht.session (ht.inv hinv hu) hr.unpaged, hr, ?_⟩
  · rw [ht.fresh.1]
    rfl
  · rw [ht.fresh.1]
    exact List.not_mem_nil
  · funext x
    exact filesOf_congr (hr.live x) (hr.size x) fun hx => hr.tree hown hx

theorem remount_spec (hs : Healthy build s) (hp : build = .cached → pageCalls s.log ≤ 32766)
    (h : t = objstoreInit (objstoreDestroy build s)) : Healthy build t ∧ Remounted s t ∧
      filesOf t = filesOf s := by
  obtain ⟨hsound, hcalling, hsession, hr, hfiles⟩ :=
    remount_of_synced hs.sound hs.fieldsFit (cacheSync_synced hs.sound.inv hs.session hp) h
  refine ⟨⟨hsound, hcalling, ?_, fun _ => hsession⟩, hr, hfiles⟩
  rw [hfiles]
  exact hs.bounded

/-! ### Any step -/

/-- One step of a run, remounts included. -/
theorem exec_healthy (hs : Healthy build s) (hp : build = .cached → pageCalls s.log ≤ 32766)
    (h : exec build op s = some (r, t)) (hok : Fair build op s t) :
    Healthy build t ∧ FileStep op (filesOf s) r (filesOf t) := by
  by_cases hop : op = .remount
  · subst hop
    obtain ⟨hr, ht⟩ := Prod.mk.inj (Option.some.inj h)
    obtain ⟨hhealthy, -, hfiles⟩ := remount_spec hs hp ht.symm
    refine ⟨hhealthy, ?_⟩
    rw [hfiles, ← hr]
    exact .remount _
  · have hcalling := exec_calling hs h hop hok.1 hok.2.2
    have hfiles := exec_files hs.sound h hop hok.1 hcalling.live hok.2.1
    refine ⟨⟨exec_sound hs.sound h hop hcalling.live, hcalling,
      exec_bounded hfiles hok.1 hs.bounded, ?_⟩, hfiles⟩
    rintro rfl
    exact exec_session (hs.session rfl) h hop hcalling.live hok.2.1 (hok.2.2 rfl)

theorem mount_healthy (build : Build) {n : Nat} (hn : n ≤ bitmapSize) :
    Healthy build (mount (zeroDisk n)) := by
  obtain ⟨hbit, hobj⟩ := mount_zero n
  have hsound := mount_sound build hn
  refine ⟨hsound, ⟨rfl, List.not_mem_nil⟩, fun x f hx => ?_, fun _ => ?_⟩
  · exact absurd (filesOf_eq_some.mp hx).1 (hobj x)
  · refine ⟨hsound.inv.total, fun b hb => absurd (hbit b) hb, fun b hb => ?_, rfl, fun _ _ => rfl,
      fun _ _ => rfl, fun c hc => absurd rfl hc, fun c hc => absurd rfl hc, fun c hc => absurd rfl hc,
      fun b hb => ?_⟩
    · rw [hbit] at hb
      omega
    · rw [hbit] at hb
      omega

/-- Every state of a run from a disk of zeros is healthy. -/
theorem reaches_healthy {n : Nat} (hn : n ≤ bitmapSize)
    (h : Reaches (exec build) (Fair build) (mount (zeroDisk n)) s) :
    Healthy build s ∧ (build = .cached → pageCalls s.log ≤ 32766) := by
  refine h.invariant (fun s => Healthy build s ∧ (build = .cached → pageCalls s.log ≤ 32766))
    ⟨mount_healthy build hn, fun _ => Nat.zero_le _⟩ ?_
  rintro op s r t ⟨hs, hp⟩ hx hok
  exact ⟨(exec_healthy hs hp hx hok).1, hok.2.2⟩

/-- A property of single files that new files have and admitted writes keep. -/
theorem reaches_files {ok : Op → State → State → Prop} {P : File → Prop} {n : Nat} (hn : n ≤ bitmapSize)
    (h : Reaches (exec build) ok (mount (zeroDisk n)) s) (hok : ∀ op s t, ok op s t → Fair build op s t)
    (hnew : P File.new) (hwrite : ∀ id data offset f s t, ok (.write id data offset) s t →
      (filesOf s).lookup id = some f → P f → P (f.write (bufferOf data) (Files.taken data offset) offset)) :
    ∀ x f, filesOf s x = some f → P f := by
  induction h with
  | start =>
    intro x f hx
    exact absurd (filesOf_eq_some.mp hx).1 ((mount_zero n).2 x)
  | step hreach hx hk ih =>
    obtain ⟨hs, hp⟩ := reaches_healthy hn (hreach.mono (fun _ _ _ _ h => h) hok)
    refine (exec_healthy hs hp hx (hok _ _ _ hk)).2.all hnew ?_ ih
    rintro id data offset f rfl hl hP
    exact hwrite id data offset f _ _ hk hl hP

end Healthy

/-! ### Short runs -/

/-- The keys of the short runs. -/
def keyA : Key := ⟨[97], by decide⟩

def keyB : Key := ⟨[98], by decide⟩

theorem created_calling (key : Key) {s : State} (hs : Calling s) : Calling (created key s) := by
  refine ⟨?_, ?_⟩
  · show held (.unlock _ :: .lock _ :: s.log) = some []
    rw [held, held, hs.free]
    simp
  · show Event.fault ∉ .unlock _ :: .lock _ :: s.log
    simp [hs.noFault]

/-- A key whose own slot is free goes there. -/
theorem step_create (build : Build) (key : Key) {s : State} (hs : Calling s)
    (hfree : ¬ LiveSlot s (hash key)) :
    step build (.create key) s = some (.val (indexToID (hash key)), created key s) := by
  refine step_some.mpr ⟨?_, (created_calling key hs).returned⟩
  show (createObject key s).map _ = _
  rw [createObject_free key hfree]
  rfl

theorem mount_calling (n : Nat) : Calling (mount (zeroDisk n)) := ⟨rfl, List.not_mem_nil⟩

theorem reaches_calling {build : Build} {ok : Op → State → State → Prop} {n : Nat} {s : State}
    (h : Reaches (step build) ok (mount (zeroDisk n)) s) : Calling s :=
  h.invariant Calling (mount_calling n) fun _ _ _ _ hs hst _ => step_calling hs hst

/-- One object on a disk of zeros. -/
theorem created_reaches {ok : Op → State → State → Prop} (build : Build) {n : Nat} {key : Key}
    (hok : ok (.create key) (mount (zeroDisk n)) (created key (mount (zeroDisk n)))) :
    Reaches (step build) ok (mount (zeroDisk n)) (created key (mount (zeroDisk n))) :=
  .step .start (step_create build key (mount_calling n) ((mount_zero n).2 _)) hok

theorem created_found (n : Nat) (key : Key) : ¬ Failed (created key (mount (zeroDisk n))) := by
  show _ ∉ [_, _]
  decide

theorem created_fair (build : Build) (n : Nat) (key : Key) :
    Fair build (.create key) (mount (zeroDisk n)) (created key (mount (zeroDisk n))) :=
  ⟨trivial, created_found n key, fun _ => Nat.zero_le _⟩

/-- A new object has no blocks. -/
theorem created_blockAt (key : Key) (s : State) (path : Path) : blockAt (created key s) (hash key) path = -1 := by
  have hnone : ∀ j, pointer (created key s) (hash key) j = -1 := by
    intro j
    rw [pointer, created_obj]
    rfl
  cases path with
  | ptr j => exact hnone j
  | entry j k => exact if_pos (hnone j)

theorem created_free (n : Nat) (key : Key) :
    (freeBlocks (created key (mount (zeroDisk n)))).card = n - dataBlocksStart :=
  freeBlocks_card (mount_zero n).1

/-- A write of at most one block to the start of an object needs no more than two blocks. -/
theorem smallWrite_found {build : Build} {x : Nat} {data : List UInt8} {s : State} (hs : Sound build s)
    (hx : LiveSlot s x) (hlen : data.length ≤ 4096)
    (hl : Live (objstoreWrite build (indexToID x) (bufferOf data) (int32 data.length) 0 s).2) (hf : ¬ Failed s)
    (hfree : 2 ≤ (freeBlocks s).card) :
    ¬ Failed (objstoreWrite build (indexToID x) (bufferOf data) (int32 data.length) 0 s).2 := by
  obtain ⟨owner, hown⟩ := hs.owned
  have hslot := idToIndex_indexToID x
  have hreg : (Op.write (indexToID x) data 0).Regular :=
    ⟨not_irregular.mpr (by decide), by rw [hslot]; exact (hown.slot x hx).1, by omega⟩
  refine (objstoreWrite_failed hs hreg (two_le_indexToID x) (by rwa [hslot]) hl hf).mpr ?_
  have htaken := @Files.taken_eq data 0 (by omega) (by decide)
  have hsub := Finset.card_le_card (@missing_block (idToIndex (indexToID x)) (Files.taken data 0) s
    (by omega) (by omega))
  have hcard : ({.ptr 0, .entry 0 0} : Finset Path).card = 2 := by decide
  omega

/-- A block fits into the only object of a disk with two data blocks. -/
theorem created_write {build : Build} {n : Nat} (hn : n ≤ bitmapSize) (hfree : dataBlocksStart + 2 ≤ n)
    {data : List UInt8} (hlen : data.length ≤ 4096) {r : Ret} {t : State}
    (h : step build (.write (indexToID (hash keyA)) data 0) (created keyA (mount (zeroDisk n))) = some (r, t)) :
    ¬ Failed t := by
  obtain ⟨hexec, hret⟩ := step_some.mp h
  have hreach : Reaches (exec build) (Fair build) (mount (zeroDisk n)) (created keyA (mount (zeroDisk n))) :=
    (created_reaches build (created_fair build n keyA)).mono (fun _ _ _ _ h => (step_some.mp h).1) fun _ _ _ h => h
  cases hexec
  refine smallWrite_found (reaches_healthy hn hreach).1.sound (created_live keyA _) hlen hret.1
    (created_found n keyA) ?_
  rw [created_free]
  omega

/-- The state once the object in its key's own slot, which has no blocks yet, was destroyed. -/
def destroyed (key : Key) (s : State) : State :=
  (created key s).setObj (hash key) {newObject key (hash key) with id := 0}

theorem step_destroy (build : Build) (key : Key) (hk : key.bytes.length ≤ 31) {s : State}
    (hs : Calling (created key s)) :
    step build (.destroy key) (created key s) = some (.val 0, destroyed key s) := by
  have hobj := created_obj key s
  have hid := findObjectId_created key hk s
  have hne : indexToID (hash key) ≠ -1 := (indexToID_ne _).2
  refine step_some.mpr ⟨?_, hs.returned⟩
  show some (Ret.val (destroyObject key (created key s)).1, (destroyObject key (created key s)).2) = _
  unfold destroyObject
  dsimp only
  rw [hid, if_neg hne, idToIndex_indexToID, if_neg (created_live key s), hobj, freePointers]
  rw [if_pos (show (newObject key (hash key)).dataBlockPointers 0 = -1 from rfl), hobj]
  rfl

theorem destroyed_calling (key : Key) {s : State} (hs : Calling s) : Calling (destroyed key s) :=
  ⟨(created_calling key hs).free, (created_calling key hs).noFault⟩

theorem destroyed_other (key : Key) (s : State) {y : Nat} (hy : y ≠ hash key) :
    (destroyed key s).obj y = s.obj y := by
  simp only [destroyed, created, State.setObj_obj, State.emit_obj, Function.update_of_ne hy]

theorem destroyed_free (key : Key) (s : State) : ¬ LiveSlot (destroyed key s) (hash key) := by
  intro h
  refine h ?_
  show ((Function.update _ (hash key) _ : Nat → Object) (hash key)).id = 0
  rw [Function.update_self]

end CS330.ObjStore
