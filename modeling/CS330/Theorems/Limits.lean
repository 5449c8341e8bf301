import CS330.ObjStore.Accounting
import CS330.ObjStore.Contents
import CS330.ObjStore.Offsets
import CS330.ObjStore.Standing

/-! Writes that make an object shorter, and writes at or past 16 MB. -/
namespace CS330.ObjStore
open Bytes Machine Spec

/-! ### Shorter than before -/

/-- Every block of the object in slot `x` that it refers to no longer was given back, and no
block that an object refers to was. -/
def GivesBack (x : Nat) (s t : State) : Prop :=
  (∀ path b, Refers s x path b → (∀ path', ¬ Refers t x path' b) → t.blockBitmap b = 0) ∧
  ∀ y path b, Refers t y path b → t.blockBitmap b ≠ 0

section Truncation
variable {build : Build} {owner owner' : Owner} {x : Nat} {buf : Buffer} {size : Int} {offset : Nat} {path : Path}
  {b : Int} {s t : State}

/-- The block of a dropped place finds no other place. -/
theorem ObjectWritten.gone (h : ObjectWritten build x buf size offset owner owner' s t) (hown : Owned owner s)
    (hf : ¬ Failed t) (hr : Refers s x path b) (hd : Dropped size offset path) (path' : Path) :
    ¬ Refers t x path' b := by
  intro hr'
  have ⟨hx, hv, hb, hne⟩ := hr
  subst hb
  have hnone := (h.blockAt_eq hf hv hne).1 hd
  rcases h.fresh _ _ (hr'.keptFor h.adv.owned) with hold | ⟨-, hplace, hmiss, -⟩
  · obtain ⟨-, rfl⟩ := Prod.mk.inj (Option.some.inj (hold.symm.trans (hr.keptFor hown)))
    exact hne (hr'.2.2.1.symm.trans hnone)
  · rcases h.filled path' hplace hmiss with hnone' | hfree
    · exact hne (hr'.2.2.1.symm.trans hnone')
    · rw [hr'.2.2.1] at hfree
      exact (hr.used hown).2 hfree

/-- No line of a write clears the bitmap. -/
theorem ObjectWritten.givesBack_iff (h : ObjectWritten build x buf size offset owner owner' s t)
    (hown : Owned owner s) (hf : ¬ Failed t) :
    GivesBack x s t ↔ ∀ path b, Refers s x path b → ¬ Dropped size offset path := by
  constructor
  · intro hback path b hr hd
    exact h.adv.grows.used b (hr.used hown).2 (hback.1 path b hr (h.gone hown hf hr hd))
  · refine fun hkept => ⟨fun path b hr hgone => ?_, fun y path b hr => (hr.used h.adv.owned).2⟩
    have ⟨hx, hv, hb, hne⟩ := hr
    subst hb
    have hat := (h.blockAt_eq hf hv hne).2 (hkept path _ hr)
    exact absurd ⟨by rwa [LiveSlot, h.id], hv, hat, hne⟩ (hgone path)

/-- A write behind the last pointer leaves every place alone. -/
theorem finishWrite_refers {i : Nat} (hi : 4 ≤ i) (y : Nat) :
    Refers (finishWrite x i size s) y path b ↔ Refers s y path b := by
  have hptr : ∀ j, pointer (finishWrite x i size s) y j = pointer s y j := by
    intro j
    rw [finishWrite_pointer, if_neg (by omega)]
  have hat : blockAt (finishWrite x i size s) y path = blockAt s y path := by
    cases path with
    | ptr j => exact hptr j
    | entry j k =>
      show tableAt _ y j k = tableAt s y j k
      unfold tableAt
      rw [hptr]
      rfl
  rw [Refers, Refers, finishWrite_live, hat]

theorem not_dropped (hfirst : 4 ≤ firstOf offset) (hv : path.Valid) : ¬ Dropped size offset path := by
  cases path with
  | ptr j =>
    have hj : j < 4 := hv
    exact fun hd => by have := hd.1; omega
  | entry j k =>
    have hj : j < 4 := hv.1
    exact fun hd => by have := hd.1; omega

/-- What is given back does not show in the log. -/
theorem givesBack_after {s t₀ : State} :
    GivesBack x s (t₀.after s.log) ↔ GivesBack x {s with log := []} t₀ := Iff.rfl

end Truncation

/-- **A write gives nothing back.** After a write that starts on a block boundary and finds the
blocks it asks for, the blocks that the object lost are free if and only if it lost none: no
place that had a block lies behind the end of the write. -/
theorem truncation_gives_back_iff {build : Build} {n : Nat} (hn : n ≤ bitmapSize) {s : State}
    (h : Reaches (step build) (Orderly build) (mount (zeroDisk n)) s) {x : Nat} (hx : LiveSlot s x)
    {data : List UInt8} (hlen : data.length < 2147483648) {offset : Nat} (ha : offset % 4096 = 0) {r : Ret}
    {t : State} (hstep : step build (.write (indexToID x) data offset) s = some (r, t)) (hfound : Found s t) :
    GivesBack x s t ↔ ∀ path b, Refers s x path b →
      ¬ Dropped (Files.taken data offset) (offset % 17592186044416) path := by
  have hs := reaches_standing hn h
  -- The call is told from a state without a history, whose failures would stand in the way.
  obtain ⟨t₀, hstep₀, rfl⟩ := step_write_forget s hs.calling hstep
  have hf : ¬ Failed t₀ := hfound.forget
  obtain ⟨hinv, owner, hown⟩ := hs.sound
  obtain ⟨hexec, hret⟩ := step_some.mp hstep₀
  obtain ⟨-, rfl⟩ := Prod.mk.inj (Option.some.inj hexec)
  rw [givesBack_after]
  rcases objstoreWrite_aligned hinv.forget hown.forget hx hlen ha hret with ⟨owner', hw⟩ | ⟨hfirst, size, heq⟩
  · exact hw.givesBack_iff hown.forget hf
  · rw [heq]
    refine iff_of_true ⟨fun path b hr hgone => absurd ((finishWrite_refers hfirst x).mpr hr) (hgone path),
      fun y path b hr => ?_⟩ fun path b hr => not_dropped hfirst hr.2.1
    exact (((finishWrite_refers hfirst y).mp hr).used hown.forget).2

theorem truncation_gives_back_created : ∃ t,
    step .uncached (.write (indexToID (hash keyA)) [7] 0) (created keyA (mount (zeroDisk 17812))) =
        some (.val 1, t) ∧
      GivesBack (hash keyA) (created keyA (mount (zeroDisk 17812))) t := by
  have hreach : Reaches (step .uncached) (Orderly .uncached) (mount (zeroDisk 17812))
      (created keyA (mount (zeroDisk 17812))) := created_reaches .uncached nofun
  have hs := reaches_standing (by decide) hreach
  obtain ⟨t, hstep, -⟩ := (affords_uncached (by nofun) _).step_write hs.sound hs.calling (created_live keyA _)
    (by decide : 0 % 4096 = 0) (by decide : 0 + [(7 : UInt8)].length ≤ 16777216)
  have hfound := Found.of_step hstep nofun (created_write (by decide) (by decide) (by decide) hstep)
  refine ⟨_, hstep, (truncation_gives_back_iff (by decide) hreach (created_live keyA _) (by decide) (by decide) hstep
    hfound).mpr fun path b hr => ?_⟩
  obtain ⟨-, -, hb, hne⟩ := hr
  exact absurd (hb.symm.trans (created_blockAt keyA _ path)) hne

set_option maxRecDepth 100000 in
/-- 4097 bytes, and then one over them: the second data block keeps its bit. -/
theorem truncation_keeps_block : ∃ s t,
    Reaches (step .uncached) (Orderly .uncached) (mount (zeroDisk 17812)) s ∧
      step .uncached (.write (indexToID (hash keyA)) [7] 0) s = some (.val 1, t) ∧ Found s t ∧
      Refers s (hash keyA) (.entry 0 1) 17810 ∧ t.blockBitmap 17810 = 1 ∧ ¬ GivesBack (hash keyA) s t := by
  have hrun : (runAll (step .uncached) [.create keyA, .write (indexToID (hash keyA)) (List.replicate 4097 7) 0]
      (mount (zeroDisk 17812))).map (fun q => ((q.2.obj (hash keyA)).id, blockAt q.2 (hash keyA) (.entry 0 1),
        (step .uncached (.write (indexToID (hash keyA)) [7] 0) q.2).map fun q' =>
          (q'.1, q'.2.blockBitmap 17810, decide (Event.newDatablock (-1) ∈ q'.2.log)))) =
      some (177672, 17810, some (.val 1, 1, false)) := by
    decide +kernel
  obtain ⟨⟨rs, s⟩, hrun, hval⟩ := Option.map_eq_some_iff.mp hrun
  obtain ⟨hid, hrest⟩ := Prod.mk.inj hval
  obtain ⟨hat, hwrite⟩ := Prod.mk.inj hrest
  obtain ⟨⟨r, t⟩, hstep, hval⟩ := Option.map_eq_some_iff.mp hwrite
  obtain ⟨rfl, hbit, hf⟩ : r = .val 1 ∧ t.blockBitmap 17810 = 1 ∧ Event.newDatablock (-1) ∉ t.log := by
    simpa only [Prod.mk.injEq, decide_eq_false_iff_not] using hval
  have hreach : Reaches (step .uncached) (Orderly .uncached) (mount (zeroDisk 17812)) s :=
    Reaches.start.runAll hrun fun _ _ _ _ _ hcached => absurd hcached (by decide)
  have hx : LiveSlot s (hash keyA) := fun h => absurd (h.symm.trans hid) (by decide)
  have hrefers : Refers s (hash keyA) (.entry 0 1) 17810 := ⟨hx, by decide, hat, by decide⟩
  obtain ⟨hexec, hret⟩ := step_some.mp hstep
  refine ⟨s, t, hreach, hstep, .of_step hstep (by simp) hf, hrefers, hbit, fun hback => ?_⟩
  have hs := (reaches_standing (by decide) hreach).sound
  obtain ⟨hinv, owner, hown⟩ := hs
  obtain ⟨-, rfl⟩ := Prod.mk.inj (Option.some.inj hexec)
  rcases objstoreWrite_aligned hinv hown hx (by decide) (by decide) hret with ⟨owner', hw⟩ | ⟨hfirst, -⟩
  · exact (hw.givesBack_iff hown hf).mp hback _ _ hrefers ⟨by decide, .inr (by decide)⟩
  · exact absurd hfirst (by decide)

/-! ### At or past the end of what an object can hold -/

/-- The write comes back with nothing stored, and every object is as it was. -/
def StoresNothing (build : Build) (x : Nat) (data : List UInt8) (offset : Nat) (s : State) : Prop :=
  ∃ v t, step build (.write (indexToID x) data offset) s = some (.val v, t) ∧ v ≤ 0 ∧ t.obj = s.obj ∧
    ∀ y, LiveSlot s y → AnswersAs build (indexToID y) s (indexToID y) t

/-- **A write past the limit.** It stores nothing and leaves every object alone if and only if it
starts on a block boundary, its start block and what is left of its size keep their signs as
`int`s, and the object is 16 MB long already: the size is set in any case. -/
theorem write_past_limit_iff {build : Build} {ok : Op → State → State → Prop} {n : Nat} {s : State}
    (h : Reaches (step build) ok (mount (zeroDisk n)) s) {x : Nat} (hx : LiveSlot s x) {data : List UInt8}
    (hpos : 0 < data.length) (hlen : data.length < 2147483648) {offset : Nat} (hoff : 16777216 ≤ offset) :
    StoresNothing build x data offset s ↔ offset % 4096 = 0 ∧ offset % 17592186044416 < 8796093022208 ∧
      int32 (16777216 - offset) ≤ 0 ∧ (s.obj x).size = 16777216 := by
  have hcall := reaches_calling h
  have hlt := (reaches_slotsOk h x hx).1
  have hclip : clipWrite (int32 data.length) offset = int32 (16777216 - offset) := by
    rw [clipWrite, int32_eq (by omega) (by omega), if_pos (by omega)]
  have hexec : exec build (.write (indexToID x) data offset) s =
      some (.val (writeObject build x (bufferOf data) (int32 (16777216 - offset)) offset s).1,
        (writeObject build x (bufferOf data) (int32 (16777216 - offset)) offset s).2) := by
    rw [exec, objstoreWrite_slot hx hlt, hclip]
  have hstart := startBlock_eq offset
  constructor
  · rintro ⟨v, t, hstep, hv, hobj, -⟩
    obtain ⟨hex, hret⟩ := step_some.mp hstep
    obtain ⟨rfl, rfl⟩ : (writeObject build x (bufferOf data) (int32 (16777216 - offset)) offset s).1 = v ∧
        (writeObject build x (bufferOf data) (int32 (16777216 - offset)) offset s).2 = t := by
      simpa using hexec.symm.trans hex
    by_cases hsign : offset % 17592186044416 < 8796093022208
    · rw [if_pos hsign] at hstart
      have hv' : int32 (16777216 - offset) ≤ 0 := by
        unfold writeObject at hv
        rw [hstart] at hv
        exact hv
      have hfirst := past_of_clipped hstart hv'
      have ha : offset % 4096 = 0 := by
        by_contra ha
        exact hret.2 (writeObject_past_fault ha hstart hfirst)
      refine ⟨ha, hsign, hv', ?_⟩
      rw [writeObject_past ha hstart hfirst, int32_clipped] at hobj
      rw [← congrFun hobj x]
      simp [finishWrite]
    · rw [if_neg hsign] at hstart
      refine absurd ?_ hret.2
      unfold writeObject
      rw [hstart]
      exact List.mem_cons_self ..
  · rintro ⟨ha, hsign, hv, hsize⟩
    rw [if_pos hsign] at hstart
    have hfirst := past_of_clipped hstart hv
    rw [writeObject_past ha hstart hfirst, int32_clipped, finishWrite_self hfirst hsize] at hexec
    exact ⟨_, s, step_some.mpr ⟨hexec, hcall.returned⟩, hv, rfl, fun y _ => ⟨fun _ _ => rfl, rfl⟩⟩

set_option maxRecDepth 100000 in
theorem write_past_limit_again : ∃ s,
    Reaches (step .uncached) (fun _ _ _ => True) (mount (zeroDisk 17812)) s ∧ LiveSlot s (hash keyA) ∧
      StoresNothing .uncached (hash keyA) [7] 16777216 s := by
  have hrun : (runAll (step .uncached) [.create keyA, .write (indexToID (hash keyA)) [7] 16777216]
      (mount (zeroDisk 17812))).map (fun q => ((q.2.obj (hash keyA)).id, (q.2.obj (hash keyA)).size)) =
      some (177672, 16777216) := by
    decide +kernel
  obtain ⟨⟨rs, s⟩, hrun, hval⟩ := Option.map_eq_some_iff.mp hrun
  obtain ⟨hid, hsize⟩ := Prod.mk.inj hval
  have hreach : Reaches (step .uncached) (fun _ _ _ => True) (mount (zeroDisk 17812)) s :=
    Reaches.start.runAll hrun fun _ _ _ _ => trivial
  have hx : LiveSlot s (hash keyA) := by
    show (s.obj (hash keyA)).id ≠ 0
    dsimp only at hid
    omega
  exact ⟨s, hreach, hx, (write_past_limit_iff hreach hx (by decide) (by decide) (by decide)).mpr
    ⟨by decide, by decide, by decide, hsize⟩⟩

set_option maxRecDepth 100000 in
/-- One byte at 16 MB of an empty object: nothing is stored, and the object is 16 MB long. -/
theorem write_past_limit_grows : ∃ t,
    step .uncached (.write (indexToID (hash keyA)) [7] 16777216) (created keyA (mount (zeroDisk 17812))) =
        some (.val 0, t) ∧
      ((created keyA (mount (zeroDisk 17812))).obj (hash keyA)).size = 0 ∧ (t.obj (hash keyA)).size = 16777216 ∧
      ¬ StoresNothing .uncached (hash keyA) [7] 16777216 (created keyA (mount (zeroDisk 17812))) := by
  have hrun : (step .uncached (.write (indexToID (hash keyA)) [7] 16777216) (created keyA (mount (zeroDisk 17812)))).map
      (fun q => (q.1, (q.2.obj (hash keyA)).size)) = some (.val 0, 16777216) := by
    decide +kernel
  have hold : ((created keyA (mount (zeroDisk 17812))).obj (hash keyA)).size = 0 := by
    rw [created_obj]
    rfl
  obtain ⟨⟨r, t⟩, hstep, hval⟩ := Option.map_eq_some_iff.mp hrun
  obtain ⟨rfl, hsize⟩ := Prod.mk.inj hval
  refine ⟨t, hstep, hold, hsize, ?_⟩
  rintro ⟨v, t', hstep', -, hobj, -⟩
  obtain ⟨-, rfl⟩ := Prod.mk.inj (Option.some.inj (hstep.symm.trans hstep'))
  rw [hobj, hold] at hsize
  cases hsize

end CS330.ObjStore
