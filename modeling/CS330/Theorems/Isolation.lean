import CS330.ObjStore.Footprint
import CS330.ObjStore.Plans
import CS330.Theorems.Threads

/-! Threads on files of their own do not disturb each other. -/
namespace CS330.Objfs
open ObjStore Spec Threads Prog Machine Bytes Account

/-- The account of a thread whose files are `F`. -/
structure Owns (names : Set Key) (F : Flat) (acc : Account) : Prop where
  good : Good .uncached acc.view
  lasts : ¬ Failed acc.view
  complete : acc.Complete
  part : F.Part names (flatOf acc.view)
  slot : ∀ key f x, F key = some f → f.handle = x + 2 → .filled x key ∈ acc.deeds ∧ acc.Path key x
  owned : ∃ owner, Owned owner acc.view ∧ ∀ b v, owner b = some v → acc.Mine v.1 → .took b ∈ acc.deeds

section Calls
variable {objfs : Defaults} {names : Set Key} {F : Flat} {acc q : Account} {key : Key} {f : FlatFile} {call : Call} {r : Reply}

/-- What the thread knows of a file that it has. -/
theorem Owns.file (h : Owns names F acc) (hf : F key = some f) : ∃ x, f.handle = x + 2 ∧ acc.Ready x ∧ acc.Path key x ∧
    namesOf acc.view x = some key := by
  have hflat : (storeOf acc.view).flat key = some f := (h.part.inside key (h.part.mem hf)).symm.trans hf
  obtain ⟨x, hname, hx, -⟩ := h.good.whole.flat_eq_some hflat
  obtain ⟨hfilled, hpath⟩ := h.slot key f x hf hx
  obtain ⟨owner, hown, hheld⟩ := h.owned
  refine ⟨x, hx, ⟨⟨key, hfilled⟩, (namesOf_eq_some.mp hname).1, h.good.healthy.sound.inv,
    ⟨owner, hown, fun b path hb => hheld b _ hb ⟨key, hfilled⟩⟩, h.lasts, h.good.healthy.calling.free⟩, hpath, hname⟩

theorem Owns.find (h : Owns names F acc) (hk : key.bytes.length ≤ 31) (hf : F key = some f) :
    Safe (Atomic.findObjectId key) acc ∧ int32 (findObjectId key acc.view) = f.handle ∧ acc.Ready (idToIndex f.handle) := by
  obtain ⟨x, hx, hready, hpath, hname⟩ := h.file hf
  have hflat : flatOf acc.view key = some f := (h.part.inside key (h.part.mem hf)).symm.trans hf
  refine ⟨Atomic.findObjectId_safe hk hpath ?_, ?_, ?_⟩
  · rw [slotHolds_names hk]
    exact decide_eq_true hname
  · rcases h.good.find hk with ⟨hnone, -⟩ | ⟨f', hf', hfind, hlt⟩
    · cases hnone.symm.trans hflat
    · cases hf'.symm.trans hflat
      rw [hfind, int32_small (by omega)]
  · have hslot : idToIndex f.handle = x := by
      rw [hx]
      unfold idToIndex
      omega
    rwa [hslot]

theorem Owns.handle (h : Owns names F acc) {fh : Nat} (hf : F.Handle key fh f) : acc.Ready (idToIndex fh) := by
  obtain ⟨x, hx, hready, -⟩ := h.file hf.1
  have hslot : idToIndex fh = x := by
    rw [← hf.2, hx]
    unfold idToIndex
    omega
  rwa [hslot]

/-- Own calls but `create` keep to their footprint. -/
theorem Owns.safe (h : Owns names F acc) (hown : F.Own names call) (hpolite : F.Polite call)
    (hcreate : ∀ key, call ≠ .create key) : Safe (callback objfs call) acc := by
  cases call with
  | getattr key =>
    dsimp only [callback]
    split
    · exact .ret
    · rename_i hroot
      obtain ⟨f, hf⟩ := Option.ne_none_iff_exists'.mp (hown.resolve_left hroot)
      obtain ⟨hsafe, hid, hready⟩ := h.find hpolite hf
      refine hsafe.then Atomic.findObjectId_run fun q₁ hv₁ h₁ => ?_
      rw [hid]
      split
      · exact .ret trivial
      refine (Atomic.fillupSizeDetails_safe (hready.later h₁ hv₁)).call (Atomic.fillupSizeDetails_run ..) fun q₂ _ _ => ?_
      split
      · exact .ret trivial
      · exact .ret trivial
  | opens key =>
    obtain ⟨f, hf⟩ := Option.ne_none_iff_exists'.mp hown
    obtain ⟨hsafe, -⟩ := h.find hpolite hf
    refine hsafe.then Atomic.findObjectId_run fun q₁ hv₁ h₁ => ?_
    dsimp only
    split
    · exact .ret trivial
    · exact .ret trivial
  | read fh size offset =>
    obtain ⟨key, f, hf⟩ := hown
    have hready := h.handle hf
    rw [← int32_small (show fh < 2147483648 by have := hpolite.1; omega)] at hready
    exact (Atomic.objstoreRead_safe hready _ _).call (Atomic.objstoreRead_run ..) fun _ _ _ => .ret trivial
  | write fh data offset =>
    obtain ⟨key, f, hf⟩ := hown
    obtain ⟨hfh, hdata, ha, hend, -⟩ := hpolite
    have hready := h.handle hf
    rw [← int32_small (show fh < 2147483648 by omega)] at hready
    have hclip : 0 ≤ clipWrite (int32 data.length) offset := by
      rw [int32_small (by omega)]
      unfold clipWrite
      split
      · omega
      · omega
    exact (Atomic.objstoreWrite_safe hready _ ha hclip).call (Atomic.objstoreWrite_run ..) fun _ _ _ => .ret trivial
  | release fh => exact .ret
  | create key => exact absurd rfl (hcreate key)
  | unlink key => exact hown.elim
  | rename oldkey newkey => exact hown.elim
  | remount => exact hown.elim

theorem objstoreWrite_advance {s : State} {owner : Owner} {id size : Int} {buf : Buffer} {offset : Nat}
    (hinv : BlockInv .uncached s) (hown : Owned owner s) (hl : Live (objstoreWrite .uncached id buf size offset s).2) :
    ∃ u owner', Kept .uncached s u ∧
      Advance .uncached (fun _ => True) owner owner' u (objstoreWrite .uncached id buf size offset s).2 := by
  unfold objstoreWrite at hl ⊢
  dsimp only at hl ⊢
  split_ifs at hl ⊢ with h₁ h₂ h₃
  · exact ⟨s, owner, .refl hinv, .refl hinv hown⟩
  · have hquiet : Quiet s (s.emit .fault) := ⟨rfl, rfl⟩
    exact ⟨s.emit .fault, owner, ⟨hquiet.inv hinv, hquiet.same⟩, .refl (hquiet.inv hinv) (hown.same hquiet.same)⟩
  · exact ⟨s, owner, .refl hinv, .refl hinv hown⟩
  · obtain ⟨u, owner', hkept, hadv⟩ := writeObject_advance hinv hown h₃ hl
    exact ⟨u, owner', hkept, hadv.mono fun _ _ => trivial⟩

/-- Which blocks have which owners after a call, up to a state that differs in no owner. -/
theorem exec_advance {s t : State} {owner : Owner} (hs : Sound .uncached s) (hown : Owned owner s) (hcall : F.Own names call)
    (hcreate : ∀ key, call ≠ .create key) (h : exec .uncached objfs call s = some (r, t)) (hl : Live t) :
    ∃ u owner', Kept .uncached s u ∧ Advance .uncached (fun _ => True) owner owner' u t := by
  have hkept : Kept .uncached s t → ∃ u owner', Kept .uncached s u ∧ Advance .uncached (fun _ => True) owner owner' u t :=
    fun hk => ⟨t, owner, hk, .refl hk.inv (hown.same hk.same)⟩
  cases call with
  | getattr key =>
    cases h
    simp only [objfsGetattr] at hl hkept ⊢
    split_ifs at hl hkept ⊢
    · exact hkept (.refl hs.inv)
    · exact hkept (.refl hs.inv)
    · exact hkept (fillupSizeDetails_kept hs hl)
    · exact hkept (fillupSizeDetails_kept hs hl)
  | opens key =>
    cases h
    simp only [objfsOpen] at hl hkept ⊢
    split_ifs at hkept ⊢
    · exact hkept (.refl hs.inv)
    · exact hkept (.refl hs.inv)
  | read fh size offset =>
    have hread := @objstoreRead_kept .uncached s (int32 fh) (int32 size) offset hs
    obtain ⟨⟨v, bytes, u⟩, hr⟩ : ∃ q, objstoreRead .uncached (int32 fh) (int32 size) offset s = q := ⟨_, rfl⟩
    simp only [exec, objfsRead, hr] at h hread
    cases h
    exact hkept (hread hl)
  | write fh data offset =>
    have hwrite := @objstoreWrite_advance s owner (int32 fh) (int32 data.length) (bufferOf data) offset hs.inv hown
    obtain ⟨⟨v, u⟩, hr⟩ : ∃ q, objstoreWrite .uncached (int32 fh) (bufferOf data) (int32 data.length) offset s = q := ⟨_, rfl⟩
    simp only [exec, objfsWrite, hr] at h hwrite
    cases h
    exact hwrite hl
  | release fh =>
    cases h
    exact hkept (.refl hs.inv)
  | create key => exact absurd rfl (hcreate key)
  | unlink key => exact hcall.elim
  | rename oldkey newkey => exact hcall.elim
  | remount => exact hcall.elim

/-- Own calls but `create`. -/
theorem Owns.after (h : Owns names F acc) (hown : F.Own names call) (hpolite : F.Polite call)
    (hcreate : ∀ key, call ≠ .create key) (hq : Later acc q)
    (hexec : exec .uncached objfs call acc.view = some (r, q.view)) :
    ∃ F', Flat.Step objfs call F r F' ∧ Owns names F' q := by
  have hwhole := h.good.whole.handles
  have hpolite' := h.part.polite hwhole hown hpolite
  have henough : Enough .uncached objfs call acc.view := by
    intro r' t ht
    cases hexec.symm.trans ht
    exact ⟨hq.lasts h.lasts, by simp⟩
  have hdoes : Does .uncached objfs call acc.view := by
    cases call with
    | getattr key => exact h.good.getattr hpolite' henough
    | opens key => exact h.good.opens hpolite'
    | read fh size offset => exact h.good.read hpolite' henough
    | write fh data offset => exact h.good.write hpolite' henough
    | release fh => exact h.good.stays (r := .code (-EINVAL)) rfl ⟨rfl, rfl⟩
    | create key => exact absurd rfl (hcreate key)
    | unlink key => exact hown.elim
    | rename oldkey newkey => exact hown.elim
    | remount => exact hown.elim
  obtain ⟨hgood, hstep⟩ := hdoes.outcome hexec
  obtain ⟨F', hstep', hpart⟩ := h.part.step hwhole hown hstep
  refine ⟨F', hstep', hgood, hq.lasts h.lasts, hq.complete h.complete, hpart, fun key f x hf hx => ?_, ?_⟩
  · obtain ⟨f', hf', hhandle⟩ := hown.handles hcreate hstep' hf
    obtain ⟨hfilled, hpath⟩ := h.slot key f' x hf' (hhandle.trans hx)
    exact ⟨hq.deeds _ hfilled, hpath.mono hq.deeds⟩
  · obtain ⟨owner, howned, hheld⟩ := h.owned
    obtain ⟨u, owner', hkept, hadv⟩ := exec_advance h.good.healthy.sound howned hown hcreate hexec hgood.healthy.calling.live
    refine ⟨owner', hadv.owned, fun b v hb hmine => ?_⟩
    rcases hadv.grows.new b v hb with hold | ⟨-, hfree⟩
    · exact hq.deeds _ (hheld b v hold (hmine.imp fun key hkey => hq.filled _ key hkey))
    · exact hq.marked b ((hkept.same.used b).mp hfree) (hadv.owned.used b v hb).2

/-- A free slot owns nothing. -/
theorem owned_drop {s : State} {owner : Owner} {x : Nat} (hown : Owned owner s) (hx : ¬ LiveSlot s x) :
    Owned (owner.drop x) s := by
  have hkeep : ∀ {y : Nat} {b : Int} {path : Path}, LiveSlot s y → owner b = some (y, path) → owner.drop x b = some (y, path) :=
    fun hy hb => drop_eq_some.mpr ⟨hb, fun hyx => hx (hyx ▸ hy)⟩
  exact ⟨fun b v hb => hown.used b v (drop_eq_some.mp hb).1, fun y j hy hj => (hown.ptr y j hy hj).imp_right (hkeep hy),
    fun y j hy hj hp k hk => (hown.table y j hy hj hp k hk).imp_right (hkeep hy),
    fun y j hy hj hp k hk => (hown.disk y j hy hj hp k hk).imp_right (hkeep hy), hown.slot⟩

/-- A name that no file of the thread has was not created by it. -/
theorem Owns.not_filled (h : Owns names F acc) (hkey : key ∈ names) (hk : key.bytes.length ≤ 31) (habsent : F key = none)
    (y : Nat) : .filled y key ∉ acc.deeds := by
  intro hy
  have hnamed := h.complete y key hy
  have hlive : LiveSlot acc.view y := by
    unfold LiveSlot
    rw [hnamed.1]
    exact (indexToID_ne y).1
  have hname : namesOf acc.view y = some key :=
    namesOf_eq_some.mpr ⟨hlive, name_strncpyKey hk fun n _ => congrFun hnamed.2 n⟩
  exact h.good.whole.flat_eq_none.mp ((h.part.inside key hkey).symm.trans habsent) y hname

theorem Owns.create (h : Owns names F acc) (hown : F.Own names (.create key)) (hpolite : F.Polite (.create key)) :
    Stays names (fun r q => ∃ F', Flat.Step objfs (.create key) F r F' ∧ Owns names F' q) (callback objfs (.create key)) acc := by
  obtain ⟨hk, habsent⟩ := hpolite
  have hstays : Stays names (fun r q => (∀ d ∈ acc.deeds, d ∈ q.deeds) ∧ q.Complete ∧ (r = .handle (-EEXIST) none ∨
      ∃ x, r = .handle 0 (some (x + 2)) ∧ .filled x key ∈ q.deeds ∧ q.Path key x ∧ ∀ y, q.Mine y → y = x ∨ acc.Mine y))
      (callback objfs (.create key)) acc := by
    refine (Atomic.createObject_stays hown hk (h.not_filled hown hk habsent) h.complete).after fun v q hq => ?_
    obtain ⟨hdeeds, hcomplete, hv⟩ := hq
    split
    · exact .ret ⟨hdeeds, hcomplete, .inl rfl⟩
    · rename_i hpos
      rcases hv with rfl | ⟨x, rfl, hnew⟩
      · exact absurd (by decide) hpos
      · refine .ret ⟨hdeeds, hcomplete, .inr ⟨x, ?_, hnew⟩⟩
        rw [Store.toNat_indexToID]
  refine hstays.alone.mono fun r q hq => ?_
  obtain ⟨⟨hdeeds, hcomplete, hreply⟩, hrun, hlast⟩ := hq
  have hexec : exec .uncached objfs (.create key) acc.view = some (r, q.view) :=
    (callback_run (by simp) (by simp)).symm.trans hrun
  obtain ⟨v, hv, hr⟩ := exec_create.mp hexec
  have hwhole := h.good.whole.handles
  have henough : Enough .uncached objfs (.create key) acc.view := by
    intro r' t ht
    cases hexec.symm.trans ht
    exact ⟨hlast h.lasts, by simp⟩
  obtain ⟨hgood, hstep⟩ := (h.good.created (h.part.polite hwhole hown ⟨hk, habsent⟩) hv henough).outcome hexec
  obtain ⟨F', hstep', hpart⟩ := h.part.step hwhole hown hstep
  have hflat := hstep'
  -- the slot that the reply names is the slot that was filled
  obtain ⟨fh, -, -, -, hr', rfl⟩ := hflat
  rcases hreply with hreply | ⟨x, hreply, hfilled, hpath, hmine⟩
  · cases hr'.symm.trans hreply
  obtain rfl : fh = x + 2 := by cases hr'.symm.trans hreply; rfl
  refine ⟨_, hstep', hgood, hlast h.lasts, hcomplete, hpart, fun k f y hf hy => ?_, ?_⟩
  · by_cases hkk : k = key
    · rw [hkk, Function.update_self] at hf
      cases hf
      obtain rfl : x = y := Nat.add_right_cancel hy
      exact hkk ▸ ⟨hfilled, hpath⟩
    · rw [Function.update_of_ne hkk] at hf
      obtain ⟨hfilled, hpath⟩ := h.slot k f y hf hy
      exact ⟨hdeeds _ hfilled, hpath.mono hdeeds⟩
  · obtain ⟨owner, howned, hheld⟩ := h.owned
    obtain ⟨honly, ⟨hneg, -⟩ | ⟨y, hy, hfree, hid, hobj⟩⟩ := createObject_slots hv
    · rw [if_pos (show v < 0 by rw [show v = -1 from hneg]; decide)] at hr
      cases hr.symm.trans hreply
    · obtain rfl : y = x := by
        have hpos : ¬ indexToID y < 0 := by
          unfold indexToID
          omega
        rw [show v = indexToID y from hid, if_neg hpos, Store.toNat_indexToID] at hr
        cases hr.symm.trans hreply
        rfl
      refine ⟨owner.drop y, newSlot_owned (owned_drop howned hfree) honly hy hobj, fun b w hb hw => ?_⟩
      obtain ⟨hb, hne⟩ := drop_eq_some.mp hb
      exact hdeeds _ (hheld b w hb ((hmine w.1 hw).resolve_left hne))

/-- Every call of a client that keeps to its files does what it does in a directory that holds
its files only. -/
theorem Owns.stays (h : Owns names F acc) (hown : F.Own names call) (hpolite : F.Polite call) :
    Stays names (fun r q => ∃ F', Flat.Step objfs call F r F' ∧ Owns names F' q) (callback objfs call) acc := by
  by_cases hcreate : ∃ key, call = .create key
  · obtain ⟨key, rfl⟩ := hcreate
    exact h.create hown hpolite
  · have hcreate' : ∀ key, call ≠ .create key := fun key hkey => hcreate ⟨key, hkey⟩
    have hrun : (callback objfs call).run perform acc.view = exec .uncached objfs call acc.view := by
      refine callback_run ?_ ?_
      · rintro rfl
        exact hown
      · rintro oldkey newkey rfl
        exact hown.elim
    refine (h.safe hown hpolite hcreate').later.alone.mono fun r q hq => ?_
    exact h.after hown hpolite hcreate' hq.1 (hrun.symm.trans hq.2.1)

end Calls

section Start
variable {ι : Type} [DecidableEq ι] {plan : Plan ι} {names : ι → Set Key} {i : ι} {n : Nat}

/-- Of the slots that are taken at the start, a thread thinks that they are the empty files of the others. -/
theorem mask_live {x : Nat} (hx : LiveSlot (plan.mask i (mount (zeroDisk n))) x) : ∃ j key, j ≠ i ∧
    plan.slot x = some (j, key) ∧ (plan.mask i (mount (zeroDisk n))).obj x = newObject key x := by
  have hfree := (mount_zero n).2 x
  cases hslot : plan.slot x with
  | none =>
    refine absurd ?_ hfree
    simpa [LiveSlot, Plan.mask, Plan.maskSlot, hslot] using hx
  | some v =>
    obtain ⟨j, key⟩ := v
    by_cases hji : j = i
    · subst hji
      unfold LiveSlot at hx
      rw [Plan.mask_own hslot] at hx
      exact absurd hx hfree
    · exact ⟨j, key, hji, rfl, Plan.mask_other hslot hji⟩

theorem mask_file {x : Nat} (hx : LiveSlot (plan.mask i (mount (zeroDisk n))) x) :
    filesOf (plan.mask i (mount (zeroDisk n))) x = some File.new := by
  obtain ⟨j, key, -, -, hobj⟩ := mask_live hx
  rw [filesOf_live hx, hobj, treeOf_empty]
  · rfl
  · intro j _
    unfold pointer
    rw [hobj]
    rfl

theorem mask_name (hfits : plan.Fits names (mount (zeroDisk n))) {x : Nat} {key : Key}
    (hx : namesOf (plan.mask i (mount (zeroDisk n))) x = some key) : ∃ j, j ≠ i ∧ plan.slot x = some (j, key) := by
  obtain ⟨hlive, hname⟩ := namesOf_eq_some.mp hx
  obtain ⟨j, key', hji, hslot, hobj⟩ := mask_live hlive
  rw [hobj, name_newObject (hfits.slot x j key' hslot).2.2] at hname
  exact ⟨j, hji, hname ▸ hslot⟩

/-- The masked memory that a thread starts on: the others have their slots and blocks. -/
theorem Owns.start (hn : n ≤ bitmapSize) (hfits : plan.Fits names (mount (zeroDisk n)))
    (hapart : ∀ i j key, key ∈ names i → key ∈ names j → i = j) (i : ι) :
    Owns (names i) Flat.empty ⟨plan.mask i (mount (zeroDisk n)), []⟩ := by
  obtain ⟨hbit, -⟩ := mount_zero n
  have hbitmap : ∀ b, (plan.mask i (mount (zeroDisk n))).blockBitmap b = 0 ∨
      (plan.mask i (mount (zeroDisk n))).blockBitmap b = 1 ∧ DataBlock (mount (zeroDisk n)) b := by
    intro b
    by_cases hb : plan.Open i b
    · exact .inl ((if_pos hb).trans (hbit b))
    · obtain ⟨j, hj⟩ := Option.ne_none_iff_exists'.mp fun hnone => hb (.inl hnone)
      exact .inr ⟨if_neg hb, hfits.block b j hj⟩
  have hinv : BlockInv .uncached (plan.mask i (mount (zeroDisk n))) := by
    refine ⟨le_rfl, hn, fun b hb => .inr ((hbitmap b).resolve_left hb).2, fun b hb => ?_, fun b => ?_, fun _ b => ?_⟩
    · rcases hbitmap b with h | ⟨h, -⟩ <;> omega
    · rcases hbitmap b with h | ⟨h, -⟩ <;> rw [h] <;> decide
    · rcases hbitmap b with h | ⟨h, -⟩ <;> omega
  have hpointer : ∀ x j, LiveSlot (plan.mask i (mount (zeroDisk n))) x →
      pointer (plan.mask i (mount (zeroDisk n))) x j = -1 := by
    intro x j hx
    obtain ⟨k, key, -, -, hobj⟩ := mask_live hx
    unfold pointer
    rw [hobj]
    rfl
  have howned : Owned (fun _ => none) (plan.mask i (mount (zeroDisk n))) := by
    refine ⟨fun b v hb => by simp at hb, fun x j hx _ => .inl (hpointer x j hx), fun x j hx _ hp => absurd (hpointer x j hx) hp,
      fun x j hx _ hp => absurd (hpointer x j hx) hp, fun x hx => ?_⟩
    obtain ⟨k, key, -, hslot, hobj⟩ := mask_live hx
    rw [hobj]
    exact ⟨(hfits.slot x k key hslot).1, rfl⟩
  have hwhole : (storeOf (plan.mask i (mount (zeroDisk n)))).Whole := by
    refine ⟨⟨fun x key hx => ?_, fun x y key hx hy => ?_⟩, fun x => ?_, fun x f hf => ?_⟩
    · obtain ⟨j, -, hslot⟩ := mask_name hfits hx
      exact (hfits.slot x j key hslot).1
    · obtain ⟨j, -, hslot⟩ := mask_name hfits hx
      obtain ⟨k, -, hslot'⟩ := mask_name hfits hy
      exact hfits.once x y j k key hslot hslot'
    · exact namesOf_eq_none.trans filesOf_eq_none.symm
    · have hlive := (filesOf_eq_some.mp hf).1
      cases (mask_file hlive).symm.trans hf
      exact ⟨[], by simp, File.ofBytes_nil.symm⟩
  have hbounded : (filesOf (plan.mask i (mount (zeroDisk n)))).Bounded := by
    intro x f hf
    cases (mask_file (filesOf_eq_some.mp hf).1).symm.trans hf
    exact ⟨le_rfl, by decide⟩
  refine ⟨⟨⟨⟨hinv, _, howned⟩, ⟨rfl, List.not_mem_nil⟩, hbounded, by simp⟩, by simp, hwhole⟩, List.not_mem_nil,
    by simp [Account.Complete], ⟨fun key hkey => ?_, fun _ _ => rfl⟩, fun key f x hf => by simp [Flat.empty] at hf,
    _, howned, fun b v hb => by simp at hb⟩
  -- the names of the others are not the thread's
  refine (hwhole.flat_eq_none.mpr fun x hx => ?_).symm
  obtain ⟨j, hji, hslot⟩ := mask_name hfits hx
  exact hji (hapart j i key (hfits.slot x j key hslot).2.1 hkey)

end Start

section Threads
variable {ι α : Type} [DecidableEq ι] {objfs : Defaults} {names : ι → Set Key} {client : ι → Client α} {n : Nat}
  {P : Pool signature ι α (Shared ι)}

variable {plan : Plan ι} {st : ι → Stage × Account} {σ : Shared ι} {F : ι → Flat} {i : ι} {x : Nat} {key : Key} {s : State}

section Ended
variable (hclean : Clean names s σ.deeds) (hst : Accounts plan s st σ) (hidle : ∀ i, (st i).1 = .idle)
include hclean hst hidle

variable (howns : ∀ i, Owns (names i) (F i) (st i).2)
include howns

end Ended

end Threads

/-- A client that writes a byte to a new file and reads it back. -/
def writeBack (key : Key) (c : UInt8) : Client Reply := .act (.create key) fun
  | .handle _ (some fh) => .act (.write fh [c] 0) fun _ => .act (.read fh 1 0) .ret
  | r => .ret r

end CS330.Objfs
