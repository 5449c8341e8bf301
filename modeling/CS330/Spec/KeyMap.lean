import CS330.ObjStore.Slots
import CS330.Spec.Directory

/-! When the directory is a map from keys to slots.

It is one as long as no two slots have the same name. A lookup and a deletion keep that; a
creation keeps it if it does not meet a free slot before the slot that has the name: `Clear`. -/
namespace CS330.Spec
open ObjStore Probe

abbrev KeyMap := Key → Option Nat

/-- What a call of the directory returns and does, on a map from keys to the slots of their
objects. A new object gets a slot that no other has. -/
def KeyMap.Step : Op → KeyMap → Int → KeyMap → Prop
  | .create key, M, v, M' =>
    if M key = none then ∃ x, v = indexToID x ∧ (∀ k, M k ≠ some x) ∧ M' = Function.update M key (some x)
    else v = -1 ∧ M' = M
  | .find key, M, v, M' => v = (M key).elim (-1) indexToID ∧ M' = M
  | .destroy key, M, v, M' =>
    if M key = none then v = -1 ∧ M' = M else v = 0 ∧ M' = Function.update M key none
  | .rename key newname, M, v, M' =>
    if M key ≠ none ∧ M newname = none then ∃ x, v = indexToID x ∧ (∀ k, M k ≠ some x) ∧
      M' = Function.update (Function.update M key none) newname (some x)
    else v = -1 ∧ M' = M
  | _, M, _, M' => M' = M

namespace Names

/-- Names stand in slots of the table, and no name in two of them. -/
structure Single (N : Names) : Prop where
  inside : ∀ x key, N x = some key → x < 1000000
  unique : ∀ x y key, N x = some key → N y = some key → x = y

/-- No free slot lies between the hash of the name and the slot that has it. -/
def Clear (key : Key) (N : Names) : Prop :=
  ∀ x y, N x = some key → y < 1000000 → N y = none → dist 1000000 (hash key) x < dist 1000000 (hash key) y

variable {N : Names} {key newname : Key} {x y z : Nat}

theorem holder_eq_some : N.holder key = some x ↔ x < 1000000 ∧ N x = some key ∧
    ∀ k, k < 1000000 → dist 1000000 (hash key) k < dist 1000000 (hash key) x → N k ≠ some key := by
  rw [holder, probe_round (hash_lt key)]
  simp only [decide_eq_true_eq, decide_eq_false_iff_not, ne_eq]

theorem Single.holder_eq_some (h : N.Single) : N.holder key = some x ↔ N x = some key := by
  rw [Names.holder_eq_some]
  constructor
  · intro ⟨_, hx, _⟩
    exact hx
  · intro hx
    refine ⟨h.inside x key hx, hx, fun k _ hdist hk => ?_⟩
    rw [h.unique k x key hk hx] at hdist
    exact Nat.lt_irrefl _ hdist

theorem Single.holder_eq_none (h : N.Single) : N.holder key = none ↔ ∀ x, N x ≠ some key := by
  rw [Option.eq_none_iff_forall_ne_some]
  exact forall_congr' fun x => not_congr h.holder_eq_some

/-- What a probe for a place says about the slots in front of it. -/
theorem place_eq_some : N.place key = some x ↔ x < 1000000 ∧ (N x = none ∨ N x = some key) ∧
    ∀ k, k < 1000000 → dist 1000000 (hash key) k < dist 1000000 (hash key) x → N k ≠ none ∧ N k ≠ some key := by
  rw [place, probe_round (hash_lt key)]
  simp only [decide_eq_true_eq, decide_eq_false_iff_not, not_or, ne_eq]

/-- A free place found for a name that stands in a clear way is the place of a new name. -/
theorem Clear.absent (hclear : N.Clear key) (h : N.Single) (hx : N.place key = some x) (hfree : N x = none) (y : Nat) :
    N y ≠ some key := by
  intro hy
  obtain ⟨hlt, -, hnear⟩ := place_eq_some.mp hx
  exact (hnear y (h.inside y key hy) (hclear y x hy hlt hfree)).2 hy

/-- A name that is absent, or is met before a free slot, stands in a clear way. -/
theorem Single.clear (h : N.Single) (hx : N.place key = some x) (hplace : N x = none → ∀ y, N y ≠ some key) :
    N.Clear key := by
  intro y k hy hk hfree
  obtain ⟨hlt, hcell, hnear⟩ := place_eq_some.mp hx
  have hxname : N x = some key := hcell.resolve_left fun h => hplace h y hy
  rw [h.unique y x key hy hxname]
  have hle : ¬ dist 1000000 (hash key) k < dist 1000000 (hash key) x := fun hd => (hnear k hk hd).1 hfree
  have hne : dist 1000000 (hash key) x ≠ dist 1000000 (hash key) k := fun heq => by
    rw [dist_inj (hash_lt key) hlt hk heq, hfree] at hxname
    cases hxname
  omega

theorem Single.put (h : N.Single) (hx : x < 1000000) (habsent : ∀ y, N y ≠ some key) :
    Single (Function.update N x (some key)) := by
  have hcell : ∀ y k, Function.update N x (some key) y = some k ↔ y = x ∧ k = key ∨ y ≠ x ∧ N y = some k := by
    intro y k
    by_cases hy : y = x
    · simp [hy, eq_comm]
    · simp [hy]
  constructor
  · intro y k hy
    rcases (hcell y k).mp hy with ⟨rfl, -⟩ | ⟨-, hy⟩
    · exact hx
    · exact h.inside y k hy
  · intro y z k hy hz
    rcases (hcell y k).mp hy with ⟨rfl, rfl⟩ | ⟨-, hy'⟩
    · rcases (hcell z _).mp hz with ⟨rfl, -⟩ | ⟨-, hz'⟩
      · rfl
      · exact absurd hz' (habsent z)
    · rcases (hcell z k).mp hz with ⟨-, rfl⟩ | ⟨-, hz'⟩
      · exact absurd hy' (habsent y)
      · exact h.unique y z k hy' hz'

theorem Single.drop (h : N.Single) (z : Nat) : Single (Function.update N z none) := by
  have hcell : ∀ y k, Function.update N z none y = some k → N y = some k := by
    intro y k hy
    by_cases hyz : y = z
    · simp [hyz] at hy
    · rwa [Function.update_of_ne hyz] at hy
  exact ⟨fun y k hy => h.inside y k (hcell y k hy), fun y y' k hy hy' => h.unique y y' k (hcell y k hy) (hcell y' k hy')⟩

theorem Single.holder_put (h : N.Single) (hx : x < 1000000) (hfree : N x = none) (habsent : ∀ y, N y ≠ some key) :
    holder (Function.update N x (some key)) = Function.update N.holder key (some x) := by
  funext k
  refine Option.ext fun y => ?_
  rw [(h.put hx habsent).holder_eq_some]
  by_cases hk : k = key
  · subst hk
    rw [Function.update_self, Option.some.injEq]
    by_cases hy : y = x
    · simp [hy]
    · rw [Function.update_of_ne hy]
      exact iff_of_false (habsent y) fun h => hy h.symm
  · rw [Function.update_of_ne hk, h.holder_eq_some]
    by_cases hy : y = x
    · subst hy
      rw [Function.update_self, hfree, Option.some.injEq]
      exact iff_of_false (fun h => hk h.symm) (by simp)
    · rw [Function.update_of_ne hy]

theorem Single.holder_drop (h : N.Single) (hz : N z = some key) :
    holder (Function.update N z none) = Function.update N.holder key none := by
  funext k
  refine Option.ext fun y => ?_
  rw [(h.drop z).holder_eq_some]
  by_cases hk : k = key
  · subst hk
    rw [Function.update_self]
    refine iff_of_false (fun hy => ?_) (by simp)
    by_cases hyz : y = z
    · simp [hyz] at hy
    · rw [Function.update_of_ne hyz] at hy
      exact hyz (h.unique y z k hy hz)
  · rw [Function.update_of_ne hk, h.holder_eq_some]
    by_cases hyz : y = z
    · subst hyz
      rw [Function.update_self, hz, Option.some.injEq]
      exact iff_of_false (by simp) fun h => hk h.symm
    · rw [Function.update_of_ne hyz]

/-! ### A key that the calls leave alone -/

/-- The key is not one that the call changes. -/
def Avoids (key : Key) : Op → Prop
  | .create key' | .destroy key' => key' ≠ key
  | .rename key' newname => key' ≠ key ∧ newname ≠ key
  | _ => True

theorem holder_kept {N' : Names} (h : N.holder key = some x) (hhere : N' x = some key)
    (hold : ∀ k, N' k = some key → N k = some key) : N'.holder key = some x := by
  obtain ⟨hlt, -, hnear⟩ := holder_eq_some.mp h
  exact holder_eq_some.mpr ⟨hlt, hhere, fun k hk hdist hname => hnear k hk hdist (hold k hname)⟩

/-- A call about other keys leaves the first slot of a key the first: it neither frees that slot
nor puts the key into one. -/
theorem Step.holder {N' : Names} {op : Op} (h : Step op N N') (hop : Avoids key op)
    (hx : N.holder key = some x) : N'.holder key = some x := by
  have hname := (holder_eq_some.mp hx).2.1
  have hfree : ∀ {y}, N y = none → x ≠ y := by
    rintro y hy rfl
    rw [hname] at hy
    cases hy
  have hother : ∀ {z key'}, N z = some key' → key' ≠ key → x ≠ z := by
    rintro z key' hz hne rfl
    exact hne (Option.some.inj (hz.symm.trans hname))
  cases h with
  | stay => exact hx
  | put hy =>
    refine holder_kept hx (by rw [Function.update_of_ne (hfree hy), hname]) fun k hk => ?_
    rw [Function.update_apply] at hk
    split at hk
    · exact absurd (Option.some.inj hk) hop
    · exact hk
  | drop hz =>
    refine holder_kept hx (by rw [Function.update_of_ne (hother hz hop), hname]) fun k hk => ?_
    rw [Function.update_apply] at hk
    split at hk
    · cases hk
    · exact hk
  | move hz hy =>
    refine holder_kept hx ?_ fun k hk => ?_
    · rw [Function.update_of_ne (hother hz hop.1), Function.update_of_ne (hfree hy), hname]
    · rw [Function.update_apply, Function.update_apply] at hk
      split at hk
      · cases hk
      · split at hk
        · exact absurd (Option.some.inj hk) hop.2
        · exact hk

/-! ### The calls -/

theorem Single.find_step (h : N.Single) (key : Key) :
    KeyMap.Step (.find key) N.holder ((N.holder key).elim (-1) indexToID) N.holder ∧ N.Single :=
  ⟨⟨rfl, rfl⟩, h⟩

/-- A deletion always does what it does to a map. -/
theorem Single.destroy_step (h : N.Single) (hz : N.holder key = some z) :
    KeyMap.Step (.destroy key) N.holder 0 (holder (Function.update N z none)) ∧
      Single (Function.update N z none) := by
  refine ⟨?_, h.drop z⟩
  rw [KeyMap.Step, if_neg (by rw [hz]; simp)]
  exact ⟨rfl, h.holder_drop (h.holder_eq_some.mp hz)⟩

/-- A creation that finds a free slot does what it does to a map when the name's way is clear. -/
theorem Single.create_free (h : N.Single) (hx : N.place key = some x) (hfree : N x = none) :
    KeyMap.Step (.create key) N.holder (indexToID x) (holder (Function.update N x (some key))) ∧
      Single (Function.update N x (some key)) ↔ N.Clear key := by
  have hlt := (place_eq_some.mp hx).1
  constructor
  · rintro ⟨hstep, -⟩
    refine h.clear hx fun _ y hy => ?_
    rw [KeyMap.Step, if_neg (by rw [h.holder_eq_some.mpr hy]; simp)] at hstep
    exact absurd hstep.1 (indexToID_ne x).2
  · intro hclear
    have habsent := hclear.absent h hx hfree
    refine ⟨?_, h.put hlt habsent⟩
    rw [KeyMap.Step, if_pos (h.holder_eq_none.mpr habsent)]
    refine ⟨x, rfl, fun k hk => ?_, h.holder_put hlt hfree habsent⟩
    rw [h.holder_eq_some, hfree] at hk
    cases hk

theorem Single.create_refused (h : N.Single) (hx : N.place key = some x) (hname : N x ≠ none) :
    (KeyMap.Step (.create key) N.holder (-1) N.holder ∧ N.Single) ∧ N.Clear key := by
  have hkey := (place_eq_some.mp hx).2.1.resolve_left hname
  refine ⟨⟨?_, h⟩, h.clear hx fun hfree => absurd hfree hname⟩
  rw [KeyMap.Step, if_neg (by rw [h.holder_eq_some.mpr hkey]; simp)]
  exact ⟨rfl, rfl⟩

theorem Single.rename_free (h : N.Single) (hz : N.holder key = some z) (hx : N.place newname = some x)
    (hfree : N x = none) :
    KeyMap.Step (.rename key newname) N.holder (indexToID x)
        (holder (Function.update (Function.update N x (some newname)) z none)) ∧
      Single (Function.update (Function.update N x (some newname)) z none) ↔ N.Clear newname := by
  have hlt := (place_eq_some.mp hx).1
  have hzname := h.holder_eq_some.mp hz
  constructor
  · rintro ⟨hstep, -⟩
    refine h.clear hx fun _ y hy => ?_
    rw [KeyMap.Step, if_neg (by rw [h.holder_eq_some.mpr hy]; simp)] at hstep
    exact absurd hstep.1 (indexToID_ne x).2
  · intro hclear
    have habsent := hclear.absent h hx hfree
    have hne : key ≠ newname := fun heq => habsent z (heq ▸ hzname)
    have hzx : z ≠ x := fun heq => by
      rw [heq, hfree] at hzname
      cases hzname
    have hput := h.put hlt habsent
    refine ⟨?_, hput.drop z⟩
    rw [KeyMap.Step, if_pos ⟨by rw [hz]; simp, h.holder_eq_none.mpr habsent⟩]
    refine ⟨x, rfl, fun k hk => ?_, ?_⟩
    · rw [h.holder_eq_some, hfree] at hk
      cases hk
    · rw [hput.holder_drop (by rw [Function.update_of_ne hzx]; exact hzname), h.holder_put hlt hfree habsent,
        Function.update_comm hne]

theorem Single.rename_refused (h : N.Single) (hx : N.place newname = some x) (hname : N x ≠ none) :
    (KeyMap.Step (.rename key newname) N.holder (-1) N.holder ∧ N.Single) ∧ N.Clear newname := by
  have hkey := (place_eq_some.mp hx).2.1.resolve_left hname
  refine ⟨⟨?_, h⟩, h.clear hx fun hfree => absurd hfree hname⟩
  rw [KeyMap.Step, if_neg (by rw [h.holder_eq_some.mpr hkey]; simp)]
  exact ⟨rfl, rfl⟩

/-- A name that the call creates stands in no slot behind a free one. -/
def ClearFor : Op → Names → Prop
  | .create key, N => N.Clear key
  | .rename key newname, N => N.holder key ≠ none → N.Clear newname
  | _, _ => True

theorem clearFor_full (h : ∀ y, y < 1000000 → N y ≠ none) (op : Op) : N.ClearFor op := by
  have hclear : ∀ key, N.Clear key := fun key x y _ hy hfree => absurd hfree (h y hy)
  cases op with
  | create key => exact hclear key
  | rename key newname => exact fun _ => hclear newname
  | _ => trivial

end Names

/-- **A call of the directory is one of a map exactly when the way is clear.** -/
theorem Store.step_map {S S' : Store} {op : Op} {r : Ret} (hop : OfDirectory op) (h : S.names.Single)
    (hstep : S.step op = some (r, S')) : ∃ v, r = .val v ∧
      ((KeyMap.Step op S.names.holder v S'.names.holder ∧ S'.names.Single) ↔ S.names.ClearFor op) := by
  cases op with
  | create key =>
    obtain ⟨x, hx, hput⟩ := Option.map_eq_some_iff.mp hstep
    by_cases hfree : S.names x = none
    · simp only [put, if_pos hfree, Prod.mk.injEq] at hput
      obtain ⟨rfl, rfl⟩ := hput
      exact ⟨_, rfl, h.create_free hx hfree⟩
    · simp only [put, if_neg hfree, Prod.mk.injEq] at hput
      obtain ⟨rfl, rfl⟩ := hput
      have hrefused := h.create_refused hx hfree
      exact ⟨_, rfl, iff_of_true hrefused.1 hrefused.2⟩
  | find key =>
    cases hstep
    exact ⟨_, rfl, iff_of_true (h.find_step key) trivial⟩
  | destroy key =>
    simp only [step] at hstep
    cases hz : S.names.holder key with
    | none =>
      rw [hz] at hstep
      cases hstep
      refine ⟨_, rfl, iff_of_true ⟨?_, h⟩ trivial⟩
      rw [KeyMap.Step, if_pos hz]
      exact ⟨rfl, rfl⟩
    | some z =>
      rw [hz] at hstep
      cases hstep
      exact ⟨_, rfl, iff_of_true (h.destroy_step hz) trivial⟩
  | rename key newname =>
    simp only [step] at hstep
    cases hz : S.names.holder key with
    | none =>
      rw [hz] at hstep
      cases hstep
      refine ⟨_, rfl, iff_of_true ⟨?_, h⟩ fun hne => absurd hz hne⟩
      rw [KeyMap.Step, if_neg fun hc => hc.1 hz]
      exact ⟨rfl, rfl⟩
    | some z =>
      rw [hz] at hstep
      obtain ⟨x, hx, hput⟩ := Option.map_eq_some_iff.mp hstep
      have hclear : S.names.ClearFor (.rename key newname) ↔ S.names.Clear newname := by
        rw [Names.ClearFor, hz]
        simp
      rw [hclear]
      by_cases hfree : S.names x = none
      · simp only [put, if_pos hfree, Prod.mk.injEq] at hput
        obtain ⟨rfl, rfl⟩ := hput
        exact ⟨_, rfl, h.rename_free hz hx hfree⟩
      · simp only [put, if_neg hfree, Prod.mk.injEq] at hput
        obtain ⟨rfl, rfl⟩ := hput
        have hrefused := @Names.Single.rename_refused S.names key newname x h hx hfree
        exact ⟨_, rfl, iff_of_true hrefused.1 hrefused.2⟩
  | _ => exact hop.elim

end CS330.Spec
