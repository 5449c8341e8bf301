import CS330.ObjStore.Cursor
import CS330.ObjStore.Ops
import CS330.ObjStore.Sound

/-! What a call does, whichever it is.

Every operation but a remount is a walk, or frees blocks and gives up a slot. So
every call keeps the blocks' invariant and their owners (`exec_sound`), and it
comes back when it asks for no more pages than lie unused ahead of the cursor
(`exec_returned`): in the uncached build always. -/
namespace CS330.ObjStore
open Bytes

/-- Offsets on block boundaries of at most 16 MB, ids of the object table, sizes that
are an `int`. -/
def Op.Regular : Op → Prop
  | .read id _ offset => ¬ Irregular offset ∧ idToIndex id < 1000000
  | .write id data offset =>
    ¬ Irregular offset ∧ idToIndex id < 1000000 ∧ data.length < 2147483648
  | .stat id => idToIndex id < 1000000
  | _ => True

section Exec
variable {build : Build} {op : Op} {r : Ret} {s t : State}

theorem exec_cases (h : exec build op s = some (r, t)) (hop : op ≠ .remount) :
    (∃ key, op = .destroy key ∧ t = (destroyObject key s).2) ∨ Walk build (¬ op.Regular) s t := by
  cases op with
  | create key =>
    obtain ⟨q, hq, hqr⟩ := Option.map_eq_some_iff.mp h
    cases hqr
    exact .inr (createObject_walk hq).weaken
  | find key =>
    cases h
    exact .inr (.refl s)
  | destroy key =>
    cases h
    exact .inl ⟨key, rfl, rfl⟩
  | rename key newname =>
    obtain ⟨q, hq, hqr⟩ := Option.map_eq_some_iff.mp h
    cases hqr
    exact .inr (renameObject_walk hq).weaken
  | read id size offset =>
    cases h
    refine .inr ((objstoreRead_walk ..).mono fun hF hreg => ?_)
    rcases hF with hF | hF
    · exact hreg.1 hF
    · exact absurd hreg.2 (by omega)
  | write id data offset =>
    cases h
    refine .inr ((objstoreWrite_walk ..).mono fun hF hreg => ?_)
    rcases hF with hF | hF
    · exact hreg.1 hF
    · exact absurd hreg.2.1 (by omega)
  | stat id =>
    cases h
    exact .inr ((fillupSizeDetails_walk ..).mono fun hF hreg => absurd hreg (Nat.not_lt.mpr hF))
  | remount => exact absurd rfl hop

theorem exec_steady (h : exec build op s = some (r, t)) (hop : op ≠ .remount) : Steady s t := by
  rcases exec_cases h hop with ⟨key, -, rfl⟩ | hw
  · exact (destroyObject_calm key s).steady
  · exact hw.steady

theorem exec_cursor (h : exec build op s = some (r, t)) (hop : op ≠ .remount) : Cursor s t := by
  rcases exec_cases h hop with ⟨key, -, rfl⟩ | hw
  · exact (destroyObject_idle key s).cursor
  · exact hw.cursor

theorem exec_uncached (h : exec .uncached op s = some (r, t)) (hop : op ≠ .remount) :
    pageCalls t.log = pageCalls s.log := by
  rcases exec_cases h hop with ⟨key, -, rfl⟩ | hw
  · exact (destroyObject_idle key s).pages
  · exact hw.uncached

/-! ### Faults -/

theorem Walk.noFault (h : Walk build False s t) (hl : Live t) : Emits (fun e => e ≠ .fault) s t := by
  have hint : ∀ e : Event, e.Internal → e ≠ .fault := by
    rintro e he rfl
    exact he
  have hstore : ∀ b addr buf (u : State), Live (ObjStore.store build b addr buf u).2 →
      Emits (fun e => e ≠ .fault) u (ObjStore.store build b addr buf u).2 := fun b addr buf u hl =>
    (store_emits hl).mono (by rintro e (he | rfl | rfl) <;> simp_all)
  have hnew : ∀ {u : State} {q : Int × State}, getNewDatablock u = q →
      Emits (fun e => e ≠ .fault) u (setBlockBitmap q.1 q.2) := by
    intro u q hq
    have hemits := alloc_emits (P := fun e => e ≠ .fault) u hint (by simp) (by simp) (by simp)
    rwa [hq] at hemits
  induction h with
  | refl s => exact .of_log_eq rfl
  | trans _ h₂ ih₁ ih₂ => exact (ih₁ (h₂.steady.live hl)).trans (ih₂ hl)
  | fetch b ha buf s => exact (fetch_emits hl).mono (by rintro e (he | rfl) <;> simp_all)
  | store b buf s => exact hstore b 0 buf s hl
  | entry buf hr => exact (hnew hr).trans (hstore _ _ _ _ hl)
  | @table buf s t q hr _ ih =>
    have hinit := (hnew hr).trans (writeBlock_emits q.1 0 (ofInts fun _ => -1) _ (by simp))
    exact (hinit.trans (ih ((store_steady ..).live hl))).trans (hstore _ _ _ _ hl)
  | slot x o s => exact .of_log_eq rfl
  | locked s ht hlog => exact ⟨[_, _], hlog, by simp⟩
  | fault h s => exact h.elim

theorem Release.noFault (h : Release s t) : Emits (fun e => e ≠ .fault) s t := by
  have hclear : ∀ (b : Int) (u : State), Emits (fun e => e ≠ .fault) u (clearBlockBitmap b u) :=
    fun b u => ⟨[_, _, _], rfl, by simp⟩
  induction h with
  | refl s => exact .of_log_eq rfl
  | trans _ _ ih₁ ih₂ => exact ih₁.trans ih₂
  | entry b s =>
    refine .trans ?_ (hclear b _)
    unfold dropPage
    split
    · exact ⟨[_, _, _], rfl, by simp⟩
    · exact ⟨[_], rfl, by simp⟩
  | clear b s => exact hclear b s

theorem destroyObject_noFault (key : Key) (s : State) :
    Emits (fun e => e ≠ .fault) s (destroyObject key s).2 := by
  unfold destroyObject
  dsimp only
  split_ifs
  · exact .of_log_eq rfl
  · exact .of_log_eq rfl
  · exact (freePointers_release _ 4 0 s).noFault.trans (.of_log_eq rfl)

theorem exec_noFault (h : exec build op s = some (r, t)) (hop : op ≠ .remount) (hreg : op.Regular)
    (hl : Live t) (hs : Event.fault ∉ s.log) : Event.fault ∉ t.log := by
  have hemits : Emits (fun e => e ≠ .fault) s t := by
    rcases exec_cases h hop with ⟨key, -, rfl⟩ | hw
    · exact destroyObject_noFault key s
    · exact (hw.mono fun hn => hn hreg).noFault hl
  obtain ⟨new, hnew, hP⟩ := hemits
  rw [hnew, List.mem_append, not_or]
  exact ⟨fun hmem => hP _ hmem rfl, hs⟩

/-! ### Coming back -/

/-- No mutex is held and no table was left. -/
structure Calling (s : State) : Prop where
  free : held s.log = some []
  noFault : Event.fault ∉ s.log

theorem Calling.returned (h : Calling s) : Returned s := ⟨by rw [h.free]; simp, h.noFault⟩

/-- A regular call that finds enough unused pages comes back. -/
theorem exec_returned {m : Nat} (h : exec build op s = some (r, t)) (hop : op ≠ .remount)
    (hreg : op.Regular) (hs : Calling s) (hm : m ≤ 32766) (hfree : Unused m s)
    (hpages : pageCalls t.log ≤ pageCalls s.log + m) :
    Calling t ∧ Unused (m + pageCalls s.log - pageCalls t.log) t := by
  obtain ⟨hheld, hrest⟩ := exec_cursor h hop m hm hfree hs.free hpages
  exact ⟨⟨hheld, exec_noFault h hop hreg (by unfold Live; rw [hheld]; simp) hs.noFault⟩, hrest⟩

theorem exec_returned_uncached (h : exec .uncached op s = some (r, t)) (hop : op ≠ .remount)
    (hreg : op.Regular) (hs : Calling s) : Calling t :=
  (exec_returned h hop hreg hs (Nat.zero_le _) (fun _ hi => absurd hi (Nat.not_lt_zero _))
    (by rw [exec_uncached h hop]; exact Nat.le_refl _)).1

theorem step_some : step build op s = some (r, t) ↔ exec build op s = some (r, t) ∧ Returned t := by
  unfold step
  rw [Option.filter_eq_some_iff]
  simp

/-- A call that came back holds no mutex. -/
theorem step_calling (hs : Calling s) (h : step build op s = some (r, t)) : Calling t := by
  obtain ⟨hexec, hret⟩ := step_some.mp h
  by_cases hop : op = .remount
  · subst hop
    cases hexec
    exact ⟨rfl, hret.2⟩
  · exact ⟨(exec_steady hexec hop).balanced hs.free hret.1, hret.2⟩

/-- A call that does the same in both builds comes back whenever it ends. -/
theorem step_eq_of_exec {q : Option (Ret × State)} (build : Build) (hop : op ≠ .remount) (hreg : op.Regular)
    (hs : Calling s) (hexec : ∀ build, exec build op s = q) : step build op s = q := by
  cases q with
  | none => rw [step, hexec, Option.filter_none]
  | some q => exact step_some.mpr ⟨hexec build, (exec_returned_uncached (hexec .uncached) hop hreg hs).returned⟩

theorem step_create_eq (build : Build) (key : Key) (hs : Calling s) :
    step build (.create key) s = (createObject key s).map fun q => (.val q.1, q.2) :=
  step_eq_of_exec build nofun trivial hs fun _ => rfl

theorem step_rename_eq (build : Build) (key newname : Key) (hs : Calling s) :
    step build (.rename key newname) s = (renameObject key newname s).map fun q => (.val q.1, q.2) :=
  step_eq_of_exec build nofun trivial hs fun _ => rfl

theorem step_destroy_eq (build : Build) (key : Key) (hs : Calling s) :
    step build (.destroy key) s = some (.val (destroyObject key s).1, (destroyObject key s).2) :=
  step_eq_of_exec build nofun trivial hs fun _ => rfl

/-! ### Soundness -/

theorem exec_sound (hs : Sound build s) (h : exec build op s = some (r, t)) (hop : op ≠ .remount)
    (hl : Live t) : Sound build t := by
  cases op with
  | create key =>
    obtain ⟨q, hq, hqr⟩ := Option.map_eq_some_iff.mp h
    cases hqr
    exact createObject_sound hs hq
  | find key =>
    cases h
    exact hs
  | destroy key =>
    cases h
    exact destroyObject_sound hs
  | rename key newname =>
    obtain ⟨q, hq, hqr⟩ := Option.map_eq_some_iff.mp h
    cases hqr
    exact renameObject_sound hs hq
  | read id size offset =>
    cases h
    exact (objstoreRead_kept hs hl).sound hs
  | write id data offset =>
    cases h
    exact objstoreWrite_sound hs hl
  | stat id =>
    cases h
    exact (fillupSizeDetails_kept hs hl).sound hs
  | remount => exact absurd rfl hop

end Exec

/-! ### A disk of zeros -/

theorem superMemory_zero {s : State} (h : ∀ b, s.disk.blocks b = zeroBlock) (a : Nat) :
    superMemory s a = 0 := by
  unfold superMemory readBlock
  rw [h]
  split_ifs <;> rfl

theorem bitmapOfBytes_zero {m : Nat → UInt8} (h : ∀ a, m a = 0) (b : Int) : bitmapOfBytes m b = 0 := by
  unfold bitmapOfBytes
  split
  · rw [h, h]
    exact (by decide : le16 0 0 = 0)
  · rfl

theorem objOfBytes_zero {m : Nat → UInt8} (h : ∀ a, m a = 0) (x : Nat) : (objOfBytes m x).id = 0 := by
  unfold objOfBytes
  split
  · simp only [Object.ofBytes, intAt, h]
    exact (by decide : le32 0 0 0 0 = 0)
  · rfl

theorem mount_zero (n : Nat) :
    (∀ b, (mount (zeroDisk n)).blockBitmap b = 0) ∧ ∀ x, ¬ LiveSlot (mount (zeroDisk n)) x :=
  ⟨bitmapOfBytes_zero (superMemory_zero fun _ => rfl),
    fun x hx => hx (objOfBytes_zero (superMemory_zero fun _ => rfl) x)⟩

theorem mount_sound (build : Build) {n : Nat} (hn : n ≤ bitmapSize) :
    Sound build (mount (zeroDisk n)) := by
  obtain ⟨hbit, hobj⟩ := mount_zero n
  refine ⟨⟨Nat.le_refl _, hn, ?_, ?_, ?_, ?_⟩, fun _ => none, ?_, ?_, ?_, ?_, ?_⟩
  · exact fun b hb => absurd (hbit b) hb
  · intro b hb
    rw [hbit] at hb
    omega
  · intro b
    rw [hbit]
    decide
  · intro _ b
    rw [hbit]
    omega
  · exact fun b v hb => by cases hb
  · exact fun x j hx => absurd hx (hobj x)
  · exact fun x j hx => absurd hx (hobj x)
  · exact fun x j hx => absurd hx (hobj x)
  · exact fun x hx => absurd hx (hobj x)

end CS330.ObjStore
