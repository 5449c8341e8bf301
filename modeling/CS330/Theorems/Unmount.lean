import CS330.ObjStore.Demand
import CS330.ObjStore.Names
import CS330.ObjStore.Runs

/-! Unmounting and mounting again changes nothing a caller sees.

The mounted store knows every object by the same id and gives the same answers; it has all
its pages before it, so it always comes back with them. -/
namespace CS330.ObjStore
open Spec Machine

/-- A question the remounted store `t` answers, and answers as `s` does if `s` comes back
with an answer at all, as it does while its session lasts. -/
def SameAnswer (op : Op) (s t : State) : Prop :=
  ∃ r t', step .cached op t = some (r, t') ∧ ∀ q, exec .cached op s = some q →
    Returned q.2 ∨ pageCalls q.2.log ≤ 32766 → step .cached op s = some q ∧ q.1 = r

section Remount
variable {op : Op} {s t : State}

theorem Remounted.names (h : Remounted s t) : namesOf t = namesOf s := by
  funext x
  by_cases hx : LiveSlot s x
  · rw [namesOf_live hx, namesOf_live ((h.live x).mpr hx), Option.some_inj]
    have hkey : (List.range 32).map (t.obj x).key = (List.range 32).map (s.obj x).key :=
      List.map_congr_left fun n hn => h.key x n hx (List.mem_range.mp hn)
    simp only [Object.name, hkey]
  · rw [namesOf_free hx, namesOf_free fun ht => hx ((h.live x).mp ht)]

/-- A call whose answer is read off the files. -/
theorem sameAnswer (answer : Files → Ret) (hop : op ≠ .remount) (hreg : op.Regular) (hs : Healthy .cached s) (ht : Healthy .cached t)
    (hfresh : pageCalls t.log = 0) (hfiles : filesOf t = filesOf s)
    (hanswer : ∀ u, Sound .cached u → ∃ q, exec .cached op u = some q ∧ (Live q.2 → q.1 = answer (filesOf u))) :
    SameAnswer op s t := by
  obtain ⟨⟨r, t'⟩, hexec, hr⟩ := hanswer t ht.sound
  have hasks : pageCalls t'.log ≤ pageCalls t.log + 4110 := exec_asks hexec hop
  have hcall := exec_calling ht hexec hop hreg fun _ => by omega
  refine ⟨r, t', step_some.mpr ⟨hexec, hcall.returned⟩, fun q hq hback => ?_⟩
  obtain ⟨q', hq', hr'⟩ := hanswer s hs.sound
  cases hq.symm.trans hq'
  have hret : Returned q.2 := hback.elim id fun hp => (exec_calling hs hq hop hreg fun _ => hp).returned
  refine ⟨step_some.mpr ⟨hq, hret⟩, ?_⟩
  rw [hr' hret.1, ← hfiles]
  exact (hr hcall.live).symm

end Remount

/-- **A remount loses nothing.** In every state a run of the cached build reaches, remounts
included, a further remount leaves each bitmap entry at 0 or 1, every key of at most 31 bytes
with the same id, and every read and measurement with the same answer. -/
theorem remount_round_trip {n : Nat} (hn : n ≤ bitmapSize) {s : State}
    (h : Reaches (step .cached) (Fair .cached) (mount (zeroDisk n)) s) :
    ∃ t, step .cached .remount s = some (.val 0, t) ∧ (∀ b, t.blockBitmap b ≤ 1) ∧
      (∀ key : Key, key.bytes.length ≤ 31 → findObjectId key t = findObjectId key s) ∧
      (∀ id size offset, (Op.read id size offset).Regular → SameAnswer (.read id size offset) s t) ∧
      ∀ id, (Op.stat id).Regular → SameAnswer (.stat id) s t := by
  obtain ⟨hs, hp⟩ := reaches_healthy hn (h.mono (fun _ _ _ _ hx => (step_some.mp hx).1) fun _ _ _ hok => hok)
  obtain ⟨ht, hr, hfiles⟩ := remount_spec hs hp rfl
  have hfresh : pageCalls (objstoreInit (objstoreDestroy .cached s)).log = 0 := rfl
  refine ⟨_, step_some.mpr ⟨rfl, ht.calling.returned⟩, hr.unpaged, fun key hk => ?_,
    fun id size offset hreg => ?_, fun id hreg => ?_⟩
  · obtain ⟨owner, hown⟩ := hs.sound.owned
    obtain ⟨owner', hown'⟩ := ht.sound.owned
    rw [findObjectId_names hown'.numbered hk, findObjectId_names hown.numbered hk, hr.names]
  · exact sameAnswer (·.read id size offset) nofun hreg hs ht hfresh hfiles fun u hu =>
      ⟨_, rfl, fun hl => (objstoreRead_spec hu hl).1⟩
  · exact sameAnswer (·.stat id) nofun hreg hs ht hfresh hfiles fun u hu =>
      ⟨_, rfl, fun hl => (fillupSizeDetails_spec hu hl).1⟩

theorem remount_round_trip_created : ∃ t,
    step .cached .remount (created keyA (mount (zeroDisk 17812))) = some (.val 0, t) ∧
      findObjectId keyA t = indexToID (hash keyA) ∧
      SameAnswer (.stat (indexToID (hash keyA))) (created keyA (mount (zeroDisk 17812))) t := by
  obtain ⟨t, hstep, -, hfind, -, hstat⟩ := remount_round_trip (by decide) (created_reaches .cached (created_fair .cached 17812 keyA))
  refine ⟨t, hstep, ?_, hstat _ ?_⟩
  · rw [hfind keyA (by decide), findObjectId_created keyA (by decide)]
  · show idToIndex (indexToID (hash keyA)) < 1000000
    rw [idToIndex_indexToID]
    exact hash_lt keyA

end CS330.ObjStore
