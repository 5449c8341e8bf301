import CS330.ObjStore.Names
import CS330.ObjStore.Standing
import CS330.Spec.KeyMap

/-! Lookups in a directory with any holes and any duplicates: what they find, how many slots
they test, and that a key once created is found first until a call changes it. -/
namespace CS330.ObjStore
open Machine Probe Spec

/-- The slot comes first among those with the property, in cyclic order from the key's hash. -/
def First (key : Key) (P : Nat → Prop) (x : Nat) : Prop :=
  P x ∧ ∀ y, P y → dist 1000000 (hash key) x ≤ dist 1000000 (hash key) y

/-- A live slot of the table that holds the key. -/
def Holds (s : State) (key : Key) (x : Nat) : Prop := x < 1000000 ∧ LiveSlot s x ∧ (s.obj x).name = key

section
variable {s : State} {key : Key} {x : Nat}

theorem holder_first : (namesOf s).holder key = some x ↔ First key (Holds s key) x := by
  rw [Names.holder_eq_some]
  constructor
  · intro ⟨hlt, hname, hnear⟩
    obtain ⟨hlive, hname⟩ := namesOf_eq_some.mp hname
    refine ⟨⟨hlt, hlive, hname⟩, fun y ⟨hy, hylive, hyname⟩ => ?_⟩
    by_contra hdist
    exact hnear y hy (by omega) (namesOf_eq_some.mpr ⟨hylive, hyname⟩)
  · intro ⟨⟨hlt, hlive, hname⟩, hfirst⟩
    refine ⟨hlt, namesOf_eq_some.mpr ⟨hlive, hname⟩, fun y hy hdist hyname => ?_⟩
    exact absurd (hfirst y ⟨hy, namesOf_eq_some.mp hyname⟩) (by omega)

end

theorem mount_zero_numbered (n : Nat) : Numbered (mount (zeroDisk n)) :=
  fun x _ hx => absurd hx ((mount_zero n).2 x)

section
variable {build : Build} {key : Key} {s t u : State} {x : Nat}

/-- The first slot that is free or holds the key, if it is free, is the first of the free ones. -/
theorem place_first (hk : key.bytes.length ≤ 31)
    (h : probe (freeOrHolds s key) 1000000 1000000 (hash key) = some x) (hx : ¬ LiveSlot s x) :
    First key (fun y => y < 1000000 ∧ ¬ LiveSlot s y) x := by
  obtain ⟨hlt, -, hnear⟩ := (probe_round (hash_lt key)).mp h
  refine ⟨⟨hlt, hx⟩, fun y ⟨hy, hfree⟩ => ?_⟩
  by_contra hdist
  have := hnear y hy (by omega)
  rw [(freeOrHolds_iff hk).mpr (.inl hfree)] at this
  cases this

/-- The slots in front of the new one hold other keys, so the new one is found. -/
theorem created_holder (hk : key.bytes.length ≤ 31)
    (h : probe (freeOrHolds s key) 1000000 1000000 (hash key) = some x)
    (hobj : t.obj = Function.update s.obj x (newObject key x)) : (namesOf t).holder key = some x := by
  rw [place_eq hk, Names.place_eq_some] at h
  obtain ⟨hlt, -, hnear⟩ := h
  rw [namesOf_update hobj (indexToID_ne x).1 (name_newObject hk x), Names.holder_eq_some]
  refine ⟨hlt, Function.update_self .., fun y hy hdist => ?_⟩
  have hyx : y ≠ x := fun heq => absurd hdist (by rw [heq]; exact lt_irrefl _)
  rw [Function.update_of_ne hyx]
  exact (hnear y hy hdist).2

/-- Calls about other keys leave the answer to a lookup as it is. -/
theorem lookup_kept (hk : key.bytes.length ≤ 31) {ops : List Op} {rs : List Ret}
    (hops : ∀ op ∈ ops, OfDirectory op ∧ op.ShortKeys ∧ Names.Avoids key op) (hs : Numbered s)
    (hfind : (namesOf s).holder key = some x) (hrun : runAll (exec build) ops s = some (rs, u)) :
    findObjectId key u = indexToID x := by
  induction ops generalizing s rs with
  | nil =>
    cases hrun
    rw [findObjectId_names hs hk, hfind]
    rfl
  | cons op ops ih =>
    obtain ⟨r, t, rs', hst, hrest, -⟩ := runAll_cons.mp hrun
    obtain ⟨hdir, hshort, havoid⟩ := hops op (List.mem_cons_self ..)
    have hne : op ≠ .remount := by
      rintro rfl
      exact hdir
    exact ih (fun op' h => hops op' (List.mem_cons_of_mem op h)) (exec_numbered hs hst hne)
      ((exec_names hs hst hdir hshort).holder havoid hfind) hrest

end

/-- **A created object is found first.** In every table whose live slots have their ids, a creation
that returns an id has filled the first free slot from the key's hash on and changed no other, and
a lookup of the key returns that id, at once and after any calls of the directory about other
keys. -/
theorem created_found_first {key : Key} (hk : key.bytes.length ≤ 31) {s t : State} {id : Int} (hs : Numbered s)
    (h : createObject key s = some (id, t)) (hid : 2 ≤ id) :
    ∃ x, id = indexToID x ∧ First key (fun y => y < 1000000 ∧ ¬ LiveSlot s y) x ∧
      Holds t key x ∧ (t.obj x).id = id ∧ (t.obj x).size = 0 ∧
      (∀ j, j < 4 → (t.obj x).dataBlockPointers j = -1) ∧
      (∀ y, y ≠ x → t.obj y = s.obj y) ∧ findObjectId key t = id ∧
      ∀ build ops rs u, (∀ op ∈ ops, OfDirectory op ∧ op.ShortKeys ∧ Names.Avoids key op) →
        runAll (exec build) ops t = some (rs, u) → findObjectId key u = id := by
  rcases createObject_cases h with ⟨hneg, -⟩ | ⟨x, hplace, -, hx, hret, hstate⟩
  · dsimp only at hneg
    omega
  dsimp only at hret hstate
  have hobj : t.obj = Function.update s.obj x (newObject key x) := by
    rw [hstate]
    rfl
  have hhere : t.obj x = newObject key x := by rw [hobj, Function.update_self]
  have hcreated := created_holder hk hplace hobj
  have hnumbered : Numbered t :=
    exec_numbered hs (show exec .uncached (.create key) s = some (.val id, t) by rw [exec, h]; rfl) (by simp)
  have hlater : ∀ build ops rs u, (∀ op ∈ ops, OfDirectory op ∧ op.ShortKeys ∧ Names.Avoids key op) →
      runAll (exec build) ops t = some (rs, u) → findObjectId key u = id :=
    fun build ops rs u hops hrun => (lookup_kept hk hops hnumbered hcreated hrun).trans hret.symm
  refine ⟨x, hret, place_first hk hplace hx, (holder_first.mp hcreated).1, ?_, ?_, fun j _ => ?_, fun y hy => ?_,
    hlater .uncached [] [] t (by simp) rfl, hlater⟩
  · rw [hhere, hret]
    rfl
  · rw [hhere]
    rfl
  · rw [hhere]
    rfl
  · rw [hobj, Function.update_of_ne hy]

set_option maxRecDepth 100000 in
/-- Another key comes and goes. -/
theorem created_found_first_kept : ∃ rs u,
    runAll (exec .cached) [.create keyB, .destroy keyB] (created keyA (mount (zeroDisk 17812))) = some (rs, u) ∧
      findObjectId keyA u = indexToID (hash keyA) := by
  have hrun : (runAll (exec .cached) [.create keyB, .destroy keyB]
      (created keyA (mount (zeroDisk 17812)))).isSome = true := by decide +kernel
  obtain ⟨⟨rs, u⟩, hrun⟩ := Option.isSome_iff_exists.mp hrun
  obtain ⟨x, hx, -, -, -, -, -, -, -, hlater⟩ := created_found_first (show keyA.bytes.length ≤ 31 by decide)
    (mount_zero_numbered 17812) (createObject_free keyA ((mount_zero 17812).2 (hash keyA))) (two_le_indexToID _)
  exact ⟨rs, u, hrun, hlater .cached _ rs u (by simp [OfDirectory, Op.ShortKeys, Names.Avoids, keyA, keyB]) hrun⟩

end CS330.ObjStore
