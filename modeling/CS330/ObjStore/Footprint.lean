import CS330.ObjStore.Private
import CS330.ObjStore.Alone
import CS330.ObjStore.Cursor

/-! The store's calls keep to their footprint.

A call on a thread's own object reads and writes slots that the thread has filled and blocks that
it has taken; looking a name up it passes the slots it passed when it created the file. What a
call does to the thread's masked memory is what the sequential store does, so which blocks belong
to the object in the middle of a write is known from there. -/
namespace CS330.ObjStore
open Threads Prog

namespace Account

/-- What an account keeps as long as no slot is filled. -/
structure Later (p q : Account) : Prop where
  deeds : ∀ d ∈ p.deeds, d ∈ q.deeds
  filled : ∀ x key, .filled x key ∈ q.deeds → .filled x key ∈ p.deeds
  marked : ∀ b, p.view.blockBitmap b = 0 → q.view.blockBitmap b ≠ 0 → .took b ∈ q.deeds
  complete : p.Complete → q.Complete
  lasts : ¬ Failed p.view → ¬ Failed q.view

section Later
variable {p q r : Account} {a : Act} {b : a.Res} {x : Nat}

theorem Later.refl (p : Account) : Later p p := ⟨fun _ h => h, fun _ _ h => h, fun _ h h' => absurd h h', id, id⟩

theorem Later.trans (h : Later p q) (h' : Later q r) : Later p r := by
  refine ⟨fun d hd => h'.deeds d (h.deeds d hd), fun x key hx => h.filled x key (h'.filled x key hx), fun c hp hr => ?_,
    fun hp => h'.complete (h.complete hp), fun hp => h'.lasts (h.lasts hp)⟩
  by_cases hq : q.view.blockBitmap c = 0
  · exact h'.marked c hq hr
  · exact h'.deeds _ (h.marked c hp hq)

theorem Mine.later (hx : p.Mine x) (h : Later p q) : q.Mine x := hx.imp fun _ hkey => h.deeds _ hkey

theorem Seen.mono (hx : p.Seen x) (h : ∀ d ∈ p.deeds, d ∈ q.deeds) : q.Seen x :=
  hx.imp (fun hmine => hmine.imp fun _ hkey => h _ hkey) (h _)

theorem Seen.later (hx : p.Seen x) (h : Later p q) : q.Seen x := hx.mono h.deeds

theorem rel.view_eq (hrel : rel a p b q) : q.view = effect a p.view := (perform_eq_some.mp hrel.1).2

theorem Within.later (hok : p.Within ∅ a) (hrel : rel a p b q) : Later p q := by
  have hview := hrel.view_eq
  have hdeeds := hrel.2.1
  have hnone : ∀ x key, .filled x key ∈ q.deeds → .filled x key ∈ p.deeds := by
    intro x key hx
    rw [hdeeds, List.mem_append, Option.mem_toList] at hx
    refine hx.resolve_left fun hd => ?_
    cases a with
    | probeId y k => exact hok.2.1
    | probeBitmap c =>
      simp only [deed] at hd
      split_ifs at hd
      cases hd
    | storeBitmap c v =>
      simp only [deed] at hd
      split_ifs at hd
      cases hd
    | storeId y v =>
      simp only [deed] at hd
      split_ifs at hd
      cases hd
    | _ => cases hd
  refine ⟨fun d hd => ?_, hnone, fun c hp hq => ?_, fun hp x key hx => ?_, fun _ => hrel.2.2⟩
  · rw [hdeeds]
    exact List.mem_append_right _ hd
  · rw [hview, effect_blockBitmap] at hq
    cases a with
    | storeBitmap d v =>
      by_cases hc : c = d
      · subst hc
        rw [hdeeds]
        exact List.mem_append_right _ hok.2
      · dsimp only at hq
        rw [Function.update_of_ne hc] at hq
        exact absurd hp hq
    | _ => exact absurd hp hq
  · have hnamed := hp x key (hnone x key hx)
    rw [hview]
    exact hok.named (fun key' hkey' => (hp x key' hkey').2.symm.trans hnamed.2) hnamed

end Later

end Account

open Account

/-! ### Rules -/

/-- The program keeps to its footprint from `acc` on and returns with `Q`. -/
@[irreducible]
def Stays {α : Type} (names : Set Key) (Q : α → Account → Prop) (p : Code α) (acc : Account) : Prop :=
  p.wp Account.rel (Account.Within names) Q acc

/-- It fills no slot. -/
def Safe {α : Type} (p : Code α) (acc : Account) : Prop := Stays ∅ (fun _ _ => True) p acc

section Rules
variable {α β : Type} {names : Set Key} {p : Code α} {f : α → Code β} {acc : Account}

theorem stays_iff {Q : α → Account → Prop} :
    Stays names Q p acc ↔ p.wp Account.rel (Account.Within names) Q acc := by
  rw [Stays]

theorem Stays.ret {Q : α → Account → Prop} {a : α} (h : Q a acc) : Stays names Q (pure a) acc := stays_iff.mpr h

theorem Stays.act {a : Act} {Q : a.Res → Account → Prop} (hok : acc.Within names a)
    (hQ : ∀ b q, rel a acc b q → Q b q) : Stays names Q (.act a .ret) acc :=
  stays_iff.mpr ⟨hok, hQ⟩

theorem Stays.mono {Q Q' : α → Account → Prop} (h : Stays names Q p acc) (hQ : ∀ a q, Q a q → Q' a q) :
    Stays names Q' p acc :=
  stays_iff.mpr ((stays_iff.mp h).mono hQ)

theorem Stays.after {P : α → Account → Prop} {Q : β → Account → Prop} (hp : Stays names P p acc)
    (hf : ∀ a q, P a q → Stays names Q (f a) q) : Stays names Q (p >>= f) acc :=
  stays_iff.mpr (wp_bind.mpr ((stays_iff.mp hp).mono fun a q h => stays_iff.mp (hf a q h)))

theorem Stays.first {a : Act} {f : a.Res → Code β} {Q : β → Account → Prop} (hok : acc.Within names a)
    (hf : ∀ b q, rel a acc b q → Stays names Q (f b) q) : Stays names Q ((Prog.act a .ret : Code a.Res) >>= f) acc :=
  Stays.after (Stays.act (Q := rel a acc) hok fun _ _ h => h) hf

theorem Safe.act (a : Act) (hok : acc.Within ∅ a) : Safe (.act a .ret : Code a.Res) acc := Stays.act hok fun _ _ _ => trivial

/-- What a program returns is what it returns alone. -/
theorem Stays.alone {P : α → Account → Prop} (hp : Stays names P p acc) :
    Stays names (fun a q => P a q ∧ p.run perform acc.view = some (a, q.view) ∧ (¬ Failed acc.view → ¬ Failed q.view)) p acc := by
  have hp := stays_iff.mp hp
  have hlast : ∀ a (u : Account) b v, u.Within names a → rel a u b v → ¬ Failed u.view → ¬ Failed v.view :=
    fun _ _ _ _ _ h _ => h.2.2
  exact stays_iff.mpr (hp.post fun a q hruns => ⟨hp.runs hruns, runs_rel.mp (hruns.map Account.view fun _ _ _ _ h => h.1),
    hp.invariant (fun _ => id) (fun _ _ _ h h' hf => h' (h hf)) hlast hruns⟩)

theorem Safe.later (hp : Safe p acc) : Stays names (fun _ q => Later acc q) p acc := by
  have hp := stays_iff.mp hp
  have hlater := hp.post fun _ _ hruns => hp.invariant Later.refl (fun _ _ _ => Later.trans) (fun _ _ _ _ hok h => hok.later h) hruns
  refine stays_iff.mpr (hlater.weaken fun a q hok => ?_)
  cases a with
  | probeId x key => exact absurd hok.2.1 (Set.notMem_empty key)
  | _ => exact hok

theorem Safe.run {r : α × State} (hp : Safe p acc) (hrun : p.run perform acc.view = some r) :
    Stays names (fun a q => a = r.1 ∧ q.view = r.2 ∧ Later acc q) p acc :=
  hp.later.alone.mono fun _ _ h => by
    obtain rfl := Option.some.inj (h.2.1.symm.trans hrun)
    exact ⟨rfl, rfl, h.1⟩

theorem Safe.call {Q : β → Account → Prop} {r : α × State} (hp : Safe p acc) (hrun : p.run perform acc.view = some r)
    (hf : ∀ q, q.view = r.2 → Later acc q → Stays names Q (f r.1) q) : Stays names Q (p >>= f) acc :=
  (hp.run hrun).after fun _ q h => h.1 ▸ hf q h.2.1 h.2.2

theorem Safe.then {Q : β → Account → Prop} {r : α} {t : State} (hp : Safe p acc)
    (hrun : p.run perform acc.view = some (r, t)) (hf : ∀ q, q.view = t → Later acc q → Stays names Q (f r) q) :
    Stays names Q (p >>= f) acc :=
  hp.call hrun hf

theorem Safe.ret {a : α} : Safe (pure a) acc := Stays.ret trivial

end Rules

namespace Account

/-- The slots from a name's hash to `x` have all been looked at. -/
def Path (p : Account) (key : Key) (x : Nat) : Prop :=
  ∃ d, x = (hash key + d) % 1000000 ∧ ∀ k, k ≤ d → p.Seen ((hash key + k) % 1000000)

theorem Path.mono {p q : Account} {key : Key} {x : Nat} (hx : p.Path key x) (h : ∀ d ∈ p.deeds, d ∈ q.deeds) :
    q.Path key x :=
  hx.imp fun _ hd => ⟨hd.1, fun k hk => (hd.2 k hk).mono h⟩

end Account

namespace Atomic

/-! ### The directory -/

section Directory
variable {names : Set Key} {acc : Account} {x : Nat} {key : Key}

theorem loadId_safe (hx : acc.Seen x) : Safe (loadId x) acc := .act (.loadId x) hx

theorem loadKey_safe {n : Nat} (hn : n < 32) (hx : acc.Seen x) : Safe (loadKey x n) acc := .act (.loadKey x n) ⟨hn, hx⟩

theorem loadSize_safe (hx : acc.Mine x) : Safe (loadSize x) acc := .act (.loadSize x) hx

theorem loadPointer_safe (hx : acc.Mine x) (j : Nat) : Safe (loadPointer x j) acc := .act (.loadPointer x j) hx

theorem storePointer_safe (hx : acc.Mine x) (j : Nat) (p : Int) : Safe (storePointer x j p) acc :=
  .act (.storePointer x j p) hx

theorem storeSize_safe (hx : acc.Mine x) (v : Int) : Safe (storeSize x v) acc := .act (.storeSize x v) hx

theorem strcmp_safe (hx : acc.Seen x) (bytes : List UInt8) (n : Nat) (hn : n + bytes.length ≤ 31) :
    Safe (strcmp x n bytes) acc := by
  induction bytes generalizing n acc with
  | nil =>
    simp only [List.length_nil] at hn
    exact (loadKey_safe (by omega) hx).then (loadKey_run ..) fun _ _ _ => .ret trivial
  | cons c rest ih =>
    simp only [List.length_cons] at hn
    refine (loadKey_safe (by omega) hx).then (loadKey_run ..) fun q _ hq => ?_
    split
    · exact ih (hx.later hq) (n + 1) (by omega)
    · exact .ret trivial

theorem slotHolds_safe (hk : key.bytes.length ≤ 31) (hx : acc.Seen x) : Safe (slotHolds key x) acc := by
  refine (loadId_safe hx).then (loadId_run ..) fun q _ hq => ?_
  split
  · exact .ret trivial
  · exact strcmp_safe (hx.later hq) key.bytes 0 (by omega)

/-- The loop stops at the slot that holds the key at the latest. -/
theorem findLoop_safe (hk : key.bytes.length ≤ 31) (previousIndex n index d : Nat) (hindex : index < 1000000)
    (hseen : ∀ k, k ≤ d → acc.Seen ((index + k) % 1000000))
    (hholds : ObjStore.slotHolds acc.view key ((index + d) % 1000000) = true) :
    Safe (findLoop key previousIndex n index) acc := by
  induction n generalizing index d acc with
  | zero => exact .ret
  | succ n ih =>
    have hhere : acc.Seen index := by
      have := hseen 0 (Nat.zero_le d)
      rwa [Nat.add_zero, Nat.mod_eq_of_lt hindex] at this
    unfold findLoop
    split
    · exact .ret
    refine (slotHolds_safe hk hhere).then slotHolds_run fun q hview hq => ?_
    split
    · exact loadId_safe (hhere.later hq)
    · rename_i hnot
      cases d with
      | zero =>
        rw [Nat.add_zero, Nat.mod_eq_of_lt hindex] at hholds
        exact absurd hholds hnot
      | succ d =>
        have hnext : ∀ k, ((index + 1) % 1000000 + k) % 1000000 = (index + (k + 1)) % 1000000 := fun k => by omega
        refine ih _ d (Nat.mod_lt _ (by decide)) (fun k hkd => ?_) ?_
        · rw [hnext]
          exact (hseen (k + 1) (by omega)).later hq
        · rw [hnext, hview]
          exact hholds

theorem findObjectId_safe (hk : key.bytes.length ≤ 31) (hpath : acc.Path key x)
    (hholds : ObjStore.slotHolds acc.view key x = true) : Safe (findObjectId key) acc := by
  obtain ⟨d, rfl, hseen⟩ := hpath
  have hhash := hash_lt key
  have hhere : acc.Seen (hash key) := by
    have := hseen 0 (Nat.zero_le d)
    rwa [Nat.add_zero, Nat.mod_eq_of_lt hhash] at this
  refine (slotHolds_safe hk hhere).then slotHolds_run fun q hview hq => ?_
  split
  · exact loadId_safe (hhere.later hq)
  · rename_i hnot
    cases d with
    | zero =>
      rw [Nat.add_zero, Nat.mod_eq_of_lt hhash] at hholds
      exact absurd hholds hnot
    | succ d =>
      have hnext : ∀ k, ((hash key + 1) % 1000000 + k) % 1000000 = (hash key + (k + 1)) % 1000000 := fun k => by omega
      refine findLoop_safe hk _ _ _ d (Nat.mod_lt _ (by decide)) (fun k hkd => ?_) ?_
      · rw [hnext]
        exact (hseen (k + 1) (by omega)).later hq
      · rw [hnext, hview]
        exact hholds

theorem strncpy_safe (hx : .filled x key ∈ acc.deeds) (m n : Nat) (hn : n + m ≤ 32) : Safe (strncpy x key m n) acc := by
  induction m generalizing n acc with
  | zero => exact .ret
  | succ m ih =>
    refine (Safe.act (.storeKey x n (key.bytes.getD n 0)) ⟨by omega, key, hx, rfl⟩).then (storeKey_run ..) fun q _ hq => ?_
    exact ih (hq.deeds _ hx) (n + 1) (by omega)

theorem resetPointers_safe (hx : acc.Mine x) (m j : Nat) : Safe (resetPointers x m j) acc := by
  induction m generalizing j acc with
  | zero => exact .ret
  | succ m ih =>
    exact (Safe.act (.resetPointer x j) hx).then (resetPointer_run ..) fun q _ hq => ih (hx.later hq) (j + 1)

/-- Where `create_object` stands after its loop, `x` being free. -/
structure Found (acc : Account) (key : Key) (x : Nat) (q : Account) : Prop where
  view : q.view = acc.view
  filled : .filled x key ∈ q.deeds
  path : q.Path key x
  others : ∀ y k, .filled y k ∈ q.deeds → y = x ∧ k = key ∨ y ≠ x ∧ .filled y k ∈ acc.deeds

theorem createProbe_stays (hkey : key ∈ names) (hk : key.bytes.length ≤ 31) (n index d : Nat)
    (hnew : ∀ y, .filled y key ∉ acc.deeds) (hcomplete : acc.Complete) (hindex : index = (hash key + d) % 1000000)
    (hseen : ∀ k, k < d → acc.Seen ((hash key + k) % 1000000)) :
    Stays names (fun r q => (∀ d ∈ acc.deeds, d ∈ q.deeds) ∧ r.elim q.Complete (Found acc key · q))
      (createProbe key n index) acc := by
  induction n generalizing index d acc with
  | zero => exact stays_iff.mpr ⟨trivial, fun b _ _ => b.elim⟩
  | succ n ih =>
    have hlt : index < 1000000 := hindex ▸ Nat.mod_lt _ (by decide)
    refine Stays.first (a := .probeId index key) ⟨hlt, hkey, hk, hnew, hcomplete⟩ fun (b : Int) q hq => ?_
    have hview : q.view = acc.view := hq.view_eq
    have hid : (acc.view.obj index).id = b := Option.some.inj (perform_eq_some.mp hq.1).1
    have hdeeds : q.deeds = (if b = 0 then .filled index key else .passed index) :: acc.deeds := by
      rw [hq.2.1]
      simp only [deed]
      split <;> rfl
    have hgrow : ∀ d ∈ acc.deeds, d ∈ q.deeds := fun d hd => hdeeds ▸ List.mem_cons_of_mem _ hd
    have hpath : q.Seen index → ∀ k, k ≤ d → q.Seen ((hash key + k) % 1000000) := by
      intro hhere k hkd
      rcases Nat.lt_or_eq_of_le hkd with hlt | rfl
      · exact (hseen k hlt).mono hgrow
      · exact hindex ▸ hhere
    split
    · rename_i hfree
      rw [if_pos hfree] at hdeeds
      have hfilled : .filled index key ∈ q.deeds := hdeeds ▸ List.mem_cons_self
      refine .ret ⟨hgrow, hview, hfilled, ⟨d, hindex, hpath (.inl ⟨key, hfilled⟩)⟩, fun y k hy => ?_⟩
      rw [hdeeds, List.mem_cons] at hy
      rcases hy with hy | hy
      · cases hy
        exact .inl ⟨rfl, rfl⟩
      · refine .inr ⟨?_, hy⟩
        rintro rfl
        have hname := (hcomplete y k hy).1
        rw [hid, hfree] at hname
        unfold indexToID at hname
        omega
    · rename_i htaken
      rw [if_neg htaken] at hdeeds
      have hpassed : q.Seen index := .inr (hdeeds ▸ List.mem_cons_self)
      have hold : ∀ y k, .filled y k ∈ q.deeds → .filled y k ∈ acc.deeds := by
        intro y k hy
        rw [hdeeds, List.mem_cons] at hy
        exact hy.resolve_left (by simp)
      have hcomplete' : q.Complete := fun y k hy => hview ▸ hcomplete y k (hold y k hy)
      refine (strcmp_safe hpassed key.bytes 0 (by omega)).then (strcmp_run ..) fun q' hview' hq' => ?_
      split
      · exact .ret ⟨fun d hd => hq'.deeds d (hgrow d hd), hq'.complete hcomplete'⟩
      · refine (ih _ (d + 1) (fun y hy => hnew y (hold _ _ (hq'.filled _ _ hy))) (hq'.complete hcomplete') (by omega)
          fun k hkd => (hpath hpassed k (by omega)).later hq').mono fun r q'' hr => ?_
        refine ⟨fun d hd => hr.1 d (hq'.deeds d (hgrow d hd)), ?_⟩
        cases r with
        | none => exact hr.2
        | some x =>
          obtain ⟨hv, hf, hp, ho⟩ := hr.2
          exact ⟨hv.trans (hview'.trans hview), hf, hp,
            fun y k hy => (ho y k hy).imp_right fun h => ⟨h.1, hold y k (hq'.filled y k h.2)⟩⟩

theorem fillSlot_stays {q : Account} (hcomplete : acc.Complete) (hfound : Found acc key x q) :
    Stays names (fun r q' => r = indexToID x ∧ Later q q' ∧ q'.Complete) (fillSlot key (some x)) q := by
  have hmine : q.Mine x := ⟨key, hfound.filled⟩
  refine (Safe.act (.storeId x (indexToID x)) ⟨rfl, hmine⟩).then (storeId_run ..) fun q₁ hv₁ h₁ => ?_
  refine (storeSize_safe (hmine.later h₁) 0).then (storeSize_run ..) fun q₂ hv₂ h₂ => ?_
  have h₁₂ := h₁.trans h₂
  refine (strncpy_safe (h₁₂.deeds _ hfound.filled) 32 0 (by decide)).then (strncpy_run 32 0 (by decide)) fun q₃ hv₃ h₃ => ?_
  have h₁₃ := h₁₂.trans h₃
  refine (resetPointers_safe (hmine.later h₁₃) 4 0).then (resetPointers_run 4 0 (by decide)) fun q₄ hv₄ h₄ => ?_
  have h₁₄ := h₁₃.trans h₄
  -- the slot has its name now, and the others have kept theirs
  have hcomplete₄ : q₄.Complete := by
    intro y k hy
    rcases hfound.others y k (h₁₄.filled y k hy) with ⟨rfl, rfl⟩ | ⟨hyx, hold⟩
    · simp only [hv₄, hv₃, hv₂, hv₁, State.setObj_obj, Function.update_self]
      refine ⟨rfl, funext fun n => ?_⟩
      simp only [strncpyKey]
      by_cases hn : n < 32
      · rw [if_pos (by omega), if_pos hn]
      · rw [if_neg (by omega), if_neg (by omega), if_neg hn]
    · simp only [hv₄, hv₃, hv₂, hv₁, hfound.view, State.setObj_obj, Function.update_of_ne hyx]
      exact hcomplete y k hold
  have hid : (q₄.view.obj x).id = indexToID x := (hcomplete₄ x key (h₁₄.deeds _ hfound.filled)).1
  refine (Safe.act (.unlock .createObjectLock) fun _ => hcomplete₄).then (unlock_run ..) fun q₅ hv₅ h₅ => ?_
  refine ((loadId_safe (.inl (hmine.later (h₁₄.trans h₅)))).run (loadId_run ..)).mono fun r q' hr => ?_
  obtain ⟨rfl, -, h₆⟩ := hr
  refine ⟨?_, (h₁₄.trans h₅).trans h₆, h₆.complete (h₅.complete hcomplete₄)⟩
  rw [hv₅]
  exact hid

/-- A name that the thread has not created yet. -/
theorem createObject_stays (hkey : key ∈ names) (hk : key.bytes.length ≤ 31) (hnew : ∀ y, .filled y key ∉ acc.deeds)
    (hcomplete : acc.Complete) :
    Stays names (fun r q => (∀ d ∈ acc.deeds, d ∈ q.deeds) ∧ q.Complete ∧
      (r = -1 ∨ ∃ x, r = indexToID x ∧ .filled x key ∈ q.deeds ∧ q.Path key x ∧
        ∀ y, q.Mine y → y = x ∨ acc.Mine y)) (createObject key) acc := by
  refine (Safe.act (.lock .createObjectLock) trivial).then (lock_run ..) fun q₀ hv₀ h₀ => ?_
  have hcomplete₀ := h₀.complete hcomplete
  refine (createProbe_stays hkey hk 1000000 (hash key) 0 (fun y hy => hnew y (h₀.filled y key hy)) hcomplete₀
    (Nat.mod_eq_of_lt (hash_lt key)).symm fun k hk => absurd hk (Nat.not_lt_zero k)).after fun r q hq => ?_
  obtain ⟨hdeeds, hq⟩ := hq
  cases r with
  | none =>
    refine (Safe.act (.unlock .createObjectLock) fun _ => hq).then (unlock_run ..) fun q' _ h' => ?_
    exact .ret ⟨fun d hd => h'.deeds d (hdeeds d (h₀.deeds d hd)), h'.complete hq, .inl rfl⟩
  | some x =>
    refine (fillSlot_stays hcomplete₀ hq).mono fun r q' hr => ?_
    obtain ⟨hval, h', hdone⟩ := hr
    refine ⟨fun d hd => h'.deeds d (hdeeds d (h₀.deeds d hd)), hdone,
      .inr ⟨x, hval, h'.deeds _ hq.filled, hq.path.mono h'.deeds, fun y hy => ?_⟩⟩
    obtain ⟨k, hk⟩ := hy
    exact (hq.others y k (h'.filled y k hk)).imp And.left fun hold => ⟨k, h₀.filled y k hold.2⟩

end Directory

/-! ### Blocks -/

section Blocks
variable {acc : Account} {b : Int}

theorem scanBitmap_safe (n i : Nat) (hi : dataBlocksStart ≤ i) (hn : n = 0 ∨ i + n ≤ acc.view.totalNumDiskBlocks) :
    Safe (scanBitmap n i) acc := by
  induction n generalizing i acc with
  | zero => exact .ret
  | succ n ih =>
    refine Stays.first (a := .probeBitmap i) ⟨by omega, by omega⟩ fun (v : Nat) q hq => ?_
    have htotal : q.view.totalNumDiskBlocks = acc.view.totalNumDiskBlocks := by rw [hq.view_eq]; rfl
    split
    · rename_i hfree
      have htook : .took (i : Int) ∈ q.deeds := by
        rw [hq.2.1]
        simp [deed, hfree]
      exact (Safe.act (.storeBitmap i 1) ⟨rfl, htook⟩).then (storeBitmap_run ..) fun _ _ _ => .ret trivial
    · exact ih (i + 1) (by omega) (by omega)

theorem getNewDatablock_safe : Safe getNewDatablock acc := by
  refine (Safe.act (.lock .blockBitmapMutex) trivial).then (lock_run ..) fun q₁ hv₁ h₁ => ?_
  refine (Safe.act .loadTotal trivial).then (loadTotal_run ..) fun q₂ hv₂ h₂ => ?_
  refine (scanBitmap_safe _ _ (Nat.le_refl _) (by rw [hv₂]; omega)).call (scanBitmap_run ..) fun q₃ _ h₃ => ?_
  refine (Safe.act (.unlock .blockBitmapMutex) (by simp [Account.Within])).then (unlock_run ..) fun q₄ _ h₄ => ?_
  exact (Safe.act (.note _) trivial).then (note_run ..) fun _ _ _ => .ret trivial

/-- A block that `get_new_datablock` returns was free, and is marked. -/
theorem getNewDatablock_marks (s : State) : (ObjStore.getNewDatablock s).1 = -1 ∨
    DataBlock s (ObjStore.getNewDatablock s).1 ∧ s.blockBitmap (ObjStore.getNewDatablock s).1 = 0 ∧
      (ObjStore.getNewDatablock s).2.blockBitmap (ObjStore.getNewDatablock s).1 ≠ 0 := by
  have hscan := scanBitmap_cases (s.totalNumDiskBlocks - dataBlocksStart) dataBlocksStart
    (s.emit (.lock .blockBitmapMutex))
  rw [getNewDatablock_eq]
  generalize ObjStore.scanBitmap (s.totalNumDiskBlocks - dataBlocksStart) dataBlocksStart
    (s.emit (.lock .blockBitmapMutex)) = r at hscan ⊢
  obtain ⟨b, t⟩ := r
  rcases hscan with ⟨hb, -⟩ | ⟨j, hi, hj, hb, hfree, htook⟩
  · exact .inl hb
  · dsimp only at hb htook
    subst hb
    refine .inr ⟨⟨Int.ofNat_le.mpr hi, ?_⟩, hfree, ?_⟩
    · show (j : Int) < s.totalNumDiskBlocks
      omega
    · show t.blockBitmap j ≠ 0
      rw [htook.bitmap, Function.update_self]
      decide

theorem getNewDatablock_stays (hlast : ¬ Failed acc.view) :
    Stays ∅ (fun b q => b = (ObjStore.getNewDatablock acc.view).1 ∧ q.view = (ObjStore.getNewDatablock acc.view).2 ∧
      Later acc q ∧ .took b ∈ q.deeds ∧ 0 ≤ b) getNewDatablock acc := by
  have hlog := getNewDatablock_log acc.view
  have hmarks := getNewDatablock_marks acc.view
  have hrun := getNewDatablock_run (s := acc.view)
  generalize ObjStore.getNewDatablock acc.view = r at hlog hmarks hrun ⊢
  refine (getNewDatablock_safe.run hrun).mono fun b q hq => ?_
  obtain ⟨rfl, hview, hlater⟩ := hq
  refine ⟨rfl, hview, hlater, ?_⟩
  rcases hmarks with hb | ⟨hdata, hfree, hmarked⟩
  · rw [hb] at hlog
    refine absurd ?_ (hlater.lasts hlast)
    rw [hview]
    exact hlog
  · refine ⟨hlater.marked _ hfree (by rw [hview]; exact hmarked), ?_⟩
    have := hdata.1
    omega

theorem setBlockBitmap_safe (hb : .took b ∈ acc.deeds) : Safe (setBlockBitmap b) acc := by
  refine (Safe.act (.lock .blockBitmapMutex) trivial).then (lock_run ..) fun q₁ hv₁ h₁ => ?_
  refine (Safe.act (.storeBitmap b 1) ⟨rfl, h₁.deeds _ hb⟩).then (storeBitmap_run ..) fun q₂ _ h₂ => ?_
  exact Safe.act (.unlock .blockBitmapMutex) (by simp [Account.Within])

theorem readBlock_safe (hb : .took b ∈ acc.deeds) (addr : Nat) (buf : Block) : Safe (readBlock b addr buf) acc :=
  .act (.readBlock b addr buf) hb

theorem writeBlock_safe (hb : .took b ∈ acc.deeds) (addr : Nat) (buf : Block) : Safe (writeBlock b addr buf) acc :=
  .act (.writeBlock b addr buf) hb

theorem initializeBlock_safe (hb : .took b ∈ acc.deeds) : Safe (initializeBlock b) acc :=
  (writeBlock_safe hb 0 _).call (writeBlock_run ..) fun _ _ _ => .ret trivial

end Blocks

end Atomic

namespace Account

/-- Every entry of the table is -1 or a block of the thread. -/
def Table (p : Account) (table : Nat → Int) : Prop := ∀ k, k < 1024 → table k = -1 ∨ .took (table k) ∈ p.deeds

/-- A table's block, with the blocks in it. -/
def Indirect (p : Account) (b : Int) : Prop :=
  .took b ∈ p.deeds ∧ p.Table (ints (readBlock p.view b 0 zeroBlock).2)

/-- What the thread needs to work on the object in slot `x`. -/
structure Ready (p : Account) (x : Nat) : Prop where
  mine : p.Mine x
  live : LiveSlot p.view x
  inv : BlockInv .uncached p.view
  owned : ∃ owner, Owned owner p.view ∧ ∀ b path, owner b = some (x, path) → .took b ∈ p.deeds
  lasts : ¬ Failed p.view
  free : held p.view.log = some []

section Ready
variable {p q : Account} {x : Nat} {table : Nat → Int}

theorem Table.later (h : p.Table table) (hq : Later p q) : q.Table table :=
  fun k hk => (h k hk).imp_right (hq.deeds _)

theorem Ready.later (h : p.Ready x) (hq : Later p q) (hview : q.view = p.view) : q.Ready x := by
  obtain ⟨hmine, hlive, hinv, ⟨owner, hown, hheld⟩, hlast, hfree⟩ := h
  refine ⟨hmine.later hq, hview ▸ hlive, hview ▸ hinv, ⟨owner, hview ▸ hown, fun b path hb => hq.deeds _ (hheld b path hb)⟩,
    hq.lasts hlast, hview ▸ hfree⟩

theorem Ready.pointer (h : p.Ready x) {j : Nat} (hj : j < 4) :
    pointer p.view x j = -1 ∨ 0 ≤ pointer p.view x j ∧ p.Indirect (pointer p.view x j) := by
  obtain ⟨owner, hown, hheld⟩ := h.owned
  by_cases hp : ObjStore.pointer p.view x j = -1
  · exact .inl hp
  · have howner := hown.pointer_owner h.live hj hp
    have hpos := hown.pointer_nonneg h.live hj hp
    refine .inr ⟨hpos, hheld _ _ howner, ?_⟩
    rw [readBlock_inside rfl hpos (h.inv.inside (hown.pointer_used h.live hj hp) hpos)]
    exact fun k hk => (hown.disk x j h.live hj hp k hk).imp_right (hheld _ _)

end Ready

end Account

namespace Atomic

/-! ### Reading -/

section Reading
variable {acc : Account} {x : Nat}

theorem readEntries_safe {block : Nat → Int} (blockOffset offset size n i : Nat) (buf : Buffer) (htable : acc.Table block)
    (hi : i + n ≤ 1024) : Safe (readEntries block blockOffset offset size n i buf) acc := by
  induction n generalizing i buf acc with
  | zero => exact .ret
  | succ n ih =>
    unfold readEntries
    dsimp only
    split
    · exact .ret
    split
    · exact .ret
    rename_i hentry
    refine (readBlock_safe ((htable i (by omega)).resolve_left hentry) _ _).then (readBlock_run ..) fun q _ hq => ?_
    split
    · exact .ret trivial
    · exact ih (i + 1) _ (htable.later hq) (by omega)

theorem readIndirectBlock_safe {b : Int} (hb : b < 0 ∨ acc.Indirect b) (blockOffset : Nat) (buf : Buffer)
    (offset size : Nat) (hbo : blockOffset ≤ 1024) : Safe (readIndirectBlock b blockOffset buf offset size) acc := by
  unfold readIndirectBlock
  split
  · exact .ret
  · rename_i hneg
    obtain ⟨htook, htable⟩ := hb.resolve_left hneg
    exact (readBlock_safe htook _ _).then (readBlock_run ..) fun q _ hq =>
      readEntries_safe _ _ _ _ _ _ (htable.later hq) (by omega)

theorem readEntries_state (block : Nat → Int) (blockOffset offset size n i : Nat) (buf : Buffer) (s : State) :
    (ObjStore.readEntries .uncached block blockOffset offset size n i buf s).2 = s := by
  induction n generalizing i buf with
  | zero => rfl
  | succ n ih =>
    unfold ObjStore.readEntries
    simp only [fetch_uncached]
    split
    · rfl
    split
    · rfl
    split
    · rfl
    · exact ih _ _

theorem readIndirectBlock_state (b : Int) (blockOffset : Nat) (buf : Buffer) (offset size : Nat) (s : State) :
    (ObjStore.readIndirectBlock .uncached b blockOffset buf offset size s).2 = s := by
  unfold ObjStore.readIndirectBlock
  simp only [fetch_uncached]
  split
  · rfl
  · exact readEntries_state ..

theorem readPointers_safe (hx : acc.Ready x) (size : Int) (cap first n i blockOffset : Nat) (buf : Buffer)
    (hi : n = 0 ∨ i + n ≤ 4) (hbo : blockOffset ≤ 1024) :
    Safe (readPointers x size cap first n i blockOffset buf) acc := by
  induction n generalizing i blockOffset buf acc with
  | zero => exact .ret
  | succ n ih =>
    unfold readPointers
    dsimp only
    split
    · exact .ret
    refine (loadPointer_safe hx.mine i).then (loadPointer_run ..) fun q hv hq => ?_
    have hready := hx.later hq hv
    have hptr := hready.pointer (show i < 4 by omega)
    rw [hv] at hptr
    refine (readIndirectBlock_safe (hptr.imp (fun h => h ▸ by decide) And.right) _ _ _ _ hbo).call
      (readIndirectBlock_run ..) fun q' hv' hq' => ?_
    rw [readIndirectBlock_state] at hv'
    exact ih (hready.later hq' hv') (i + 1) 0 _ (by omega) (Nat.zero_le _)

theorem readObject_safe (hx : acc.Ready x) (size : Int) (offset : Nat) : Safe (readObject x size offset) acc := by
  unfold readObject
  cases startBlock offset with
  | none => exact (Safe.act (.note .fault) trivial).then (note_run ..) fun _ _ _ => .ret trivial
  | some start =>
    refine (readPointers_safe hx _ _ _ _ _ _ _ (by omega) (by omega)).call (readPointers_run ..) fun q _ hq => ?_
    dsimp only
    split
    · exact (Safe.act (.note .fault) trivial).then (note_run ..) fun _ _ _ => .ret trivial
    · exact .ret trivial

theorem objstoreRead_safe {id : Int} (hx : acc.Ready (idToIndex id)) (size : Int) (offset : Nat) :
    Safe (objstoreRead id size offset) acc := by
  unfold objstoreRead
  dsimp only
  split
  · exact .ret
  split
  · exact (Safe.act (.note .fault) trivial).then (note_run ..) fun _ _ _ => .ret trivial
  refine (loadId_safe (.inl hx.mine)).then (loadId_run ..) fun q₁ hv₁ h₁ => ?_
  have hx₁ := hx.later h₁ hv₁
  split
  · exact .ret trivial
  refine (loadSize_safe hx₁.mine).then (loadSize_run ..) fun q₂ hv₂ h₂ => ?_
  have hx₂ := hx₁.later h₂ hv₂
  split
  · exact (loadSize_safe hx₂.mine).then (loadSize_run ..) fun q₃ hv₃ h₃ => readObject_safe (hx₂.later h₃ hv₃) _ _
  · exact readObject_safe hx₂ _ _

end Reading

/-! ### Writing -/

section Writing
variable {acc : Account} {x : Nat}

theorem entryBlock_stays {block : Nat → Int} {i : Nat} (htable : acc.Table block) (hi : i < 1024)
    (hlast : ¬ Failed acc.view) :
    Stays ∅ (fun table q => Later acc q ∧ q.Table table ∧ .took (table i) ∈ q.deeds) (entryBlock block i) acc := by
  unfold entryBlock
  split
  · refine (getNewDatablock_stays hlast).after fun b q₁ hq₁ => ?_
    obtain ⟨-, -, h₁, htook, -⟩ := hq₁
    refine (setBlockBitmap_safe htook).then (setBlockBitmap_run ..) fun q₂ _ h₂ => ?_
    have htook₂ := h₂.deeds _ htook
    refine .ret ⟨h₁.trans h₂, fun k hk => ?_, by rwa [Function.update_self]⟩
    by_cases hki : k = i
    · rw [hki, Function.update_self]
      exact .inr htook₂
    · rw [Function.update_of_ne hki]
      exact (htable.later (h₁.trans h₂)) k hk
  · rename_i hentry
    exact .ret ⟨.refl acc, htable, (htable i hi).resolve_left hentry⟩

theorem writeEntries_safe {block : Nat → Int} (buf : Buffer) (blockOffset offset size n i : Nat) (htable : acc.Table block)
    (hlast : ¬ Failed acc.view) (hi : i + n ≤ 1024) : Safe (writeEntries buf blockOffset offset size n i block) acc := by
  induction n generalizing i block acc with
  | zero => exact .ret
  | succ n ih =>
    unfold writeEntries
    dsimp only
    split
    · exact .ret
    refine (entryBlock_stays htable (by omega) hlast).after fun table q₁ hq₁ => ?_
    obtain ⟨h₁, htable₁, htook⟩ := hq₁
    refine (writeBlock_safe htook _ _).call (writeBlock_run ..) fun q₂ _ h₂ => ?_
    split
    · exact .ret trivial
    · exact ih (i + 1) (htable₁.later h₂) (h₂.lasts (h₁.lasts hlast)) (by omega)

/-- A table of -1s that has just been written. -/
theorem readBlock_initialized {b : Int} (hb : 0 ≤ b) (s : State) :
    (ObjStore.readBlock (ObjStore.initializeBlock b s) b 0 zeroBlock).2 = ofInts fun _ => -1 := by
  unfold ObjStore.initializeBlock
  rw [writeBlock_inside rfl hb]
  refine (congrArg Prod.snd (readBlock_inside rfl hb ?_)).trans (Function.update_self ..)
  show b < ((max s.disk.size (b.toNat + 1) : Nat) : Int)
  omega

theorem indirectBlock_stays {b : Int} (hb : b < 0 ∨ acc.Indirect b) (hlast : ¬ Failed acc.view) :
    Stays ∅ (fun b' q => Later acc q ∧ q.Indirect b') (indirectBlock b) acc := by
  unfold indirectBlock
  split
  · refine (getNewDatablock_stays hlast).after fun b' q₁ hq₁ => ?_
    obtain ⟨-, -, h₁, htook, hpos⟩ := hq₁
    refine (setBlockBitmap_safe htook).then (setBlockBitmap_run ..) fun q₂ _ h₂ => ?_
    refine (initializeBlock_safe (h₂.deeds _ htook)).then (initializeBlock_run ..) fun q₃ hv₃ h₃ => ?_
    have h₂₃ := h₂.trans h₃
    refine .ret ⟨h₁.trans h₂₃, h₂₃.deeds _ htook, fun k hk => .inl ?_⟩
    rw [hv₃, readBlock_initialized hpos, ints_ofInts _ hk]
    rfl
  · rename_i hneg
    exact .ret ⟨.refl acc, hb.resolve_left hneg⟩

theorem writeIndirectBlock_safe {b : Int} (hb : b < 0 ∨ acc.Indirect b) (hlast : ¬ Failed acc.view) (blockOffset : Nat)
    (buf : Buffer) (offset size : Nat) (hbo : blockOffset ≤ 1024) :
    Safe (writeIndirectBlock b blockOffset buf offset size) acc := by
  refine (indirectBlock_stays hb hlast).after fun b' q₁ hq₁ => ?_
  obtain ⟨h₁, htook, htable⟩ := hq₁
  refine (readBlock_safe htook _ _).then (readBlock_run ..) fun q₂ _ h₂ => ?_
  refine (writeEntries_safe _ _ _ _ _ _ (htable.later h₂) (h₂.lasts (h₁.lasts hlast)) (by omega)).call
    (writeEntries_run ..) fun q₃ _ h₃ => ?_
  have h₂₃ := h₂.trans h₃
  refine (writeBlock_safe (h₂₃.deeds _ htook) _ _).call (writeBlock_run ..) fun q₄ _ h₄ => ?_
  exact (readBlock_safe ((h₂₃.trans h₄).deeds _ htook) _ _).then (readBlock_run ..) fun _ _ _ => .ret trivial

theorem walk_free {F : Prop} {s t : State} (h : Walk .uncached F s t) (hs : held s.log = some []) : held t.log = some [] :=
  (h.cursor 0 (Nat.zero_le _) (fun _ hi => absurd hi (Nat.not_lt_zero _)) hs (by rw [h.uncached]; exact Nat.le_refl _)).1

/-- One pointer's turn: the blocks that the object has now are the thread's. -/
theorem ready_written {q : Account} {j blockOffset offset size : Nat} {buf : Buffer} {r : Int × State} (hx : acc.Ready x)
    (hj : j < 4) (hbo : blockOffset ≤ 1024)
    (hr : ObjStore.writeIndirectBlock .uncached (pointer acc.view x j) blockOffset buf offset size acc.view = r)
    (hq : Later acc q) (hview : q.view = setPointer x j r.1 r.2) : q.Ready x := by
  obtain ⟨owner, hown, hheld⟩ := hx.owned
  have hwalk : Walk .uncached False acc.view r.2 := hr ▸ writeIndirectBlock_walk ..
  have hfree := walk_free hwalk hx.free
  obtain ⟨owner', hwritten⟩ := writePointer_spec hx.inv hown hx.live hj hbo hr (by unfold Live; rw [hfree]; simp)
  rw [← hview] at hwritten
  refine ⟨hx.mine.later hq, ?_, hwritten.adv.inv, ⟨owner', hwritten.adv.owned, fun b path hb => ?_⟩, hq.lasts hx.lasts, ?_⟩
  · unfold LiveSlot
    rw [hwritten.obj, Function.update_self]
    exact hx.live
  · rcases hwritten.adv.grows.new b _ hb with hold | ⟨-, hbit⟩
    · exact hq.deeds _ (hheld b path hold)
    · exact hq.marked b hbit (hwritten.adv.owned.used b _ hb).2
  · rw [hview]
    exact hfree

theorem writePointers_safe (hx : acc.Ready x) (buf : Buffer) (size : Int) (cap first n i blockOffset : Nat)
    (hi : n = 0 ∨ i + n = 4) (hbo : blockOffset ≤ 1024) :
    Stays ∅ (fun _ q => q.Mine x) (writePointers x buf size cap first n i blockOffset) acc := by
  induction n generalizing i blockOffset acc with
  | zero => exact .ret hx.mine
  | succ n ih =>
    unfold writePointers
    dsimp only
    split
    · exact .ret hx.mine
    refine (loadPointer_safe hx.mine i).then (loadPointer_run ..) fun q₁ hv₁ h₁ => ?_
    have hx₁ := hx.later h₁ hv₁
    have hptr := hx₁.pointer (show i < 4 by omega)
    rw [hv₁] at hptr
    refine (writeIndirectBlock_safe (hptr.imp (fun h => h ▸ by decide) And.right) hx₁.lasts _ _ _ _ hbo).call
      (writeIndirectBlock_run ..) fun q₂ hv₂ h₂ => ?_
    refine (storePointer_safe (hx₁.mine.later h₂) i _).then (storePointer_run ..) fun q₃ hv₃ h₃ => ?_
    rw [hv₂, hv₁] at hv₃
    exact ih (ready_written hx (show i < 4 by omega) hbo rfl ((h₁.trans h₂).trans h₃) hv₃) (i + 1) 0 (by omega) (Nat.zero_le _)

theorem cutPointers_safe (hx : acc.Mine x) (m i : Nat) : Safe (cutPointers x m i) acc := by
  induction m generalizing i acc with
  | zero => exact .ret
  | succ m ih =>
    exact (storePointer_safe hx i (-1)).then (storePointer_run ..) fun q _ hq => ih (hx.later hq) (i + 1)

theorem fillBuffer_safe {offset : Nat} (ha : offset % 4096 = 0) (x : Nat) (buf : Buffer) (size : Int) (start cap : Nat) :
    Safe (fillBuffer x buf size start offset cap) acc := by
  have hold : oldBytes x start offset cap = pure zeroBuffer := if_neg (by omega)
  unfold fillBuffer
  dsimp only
  rw [hold]
  have hzero : Safe (pure zeroBuffer) acc := .ret
  refine hzero.then (run_ret ..) fun q _ _ => ?_
  split
  · exact (Safe.act (.note .fault) trivial).then (note_run ..) fun _ _ _ => .ret trivial
  · exact .ret trivial

theorem fillBuffer_state {offset : Nat} (ha : offset % 4096 = 0) (x : Nat) (buf : Buffer) {size : Int} (hsize : 0 ≤ size)
    (start : Nat) (s : State) :
    (ObjStore.fillBuffer .uncached x buf size start offset (auxPages size * 4096).toNat s).2 = s :=
  congrArg Prod.snd (fillBuffer_aligned ha hsize)

theorem writeObject_safe (hx : acc.Ready x) (buf : Buffer) {size : Int} {offset : Nat} (ha : offset % 4096 = 0)
    (hsize : 0 ≤ size) : Safe (writeObject x buf size offset) acc := by
  unfold writeObject
  cases startBlock offset with
  | none => exact (Safe.act (.note .fault) trivial).then (note_run ..) fun _ _ _ => .ret trivial
  | some start =>
    refine (fillBuffer_safe ha _ _ _ _ _).call (fillBuffer_run ..) fun q₁ hv₁ h₁ => ?_
    rw [fillBuffer_state ha _ _ hsize] at hv₁
    refine (writePointers_safe (hx.later h₁ hv₁) _ _ _ _ _ _ _ (by omega) (by omega)).after fun i q₂ hmine => ?_
    refine (cutPointers_safe hmine _ _).then (cutPointers_run ..) fun q₃ _ h₃ => ?_
    exact (storeSize_safe (hmine.later h₃) _).then (storeSize_run ..) fun _ _ _ => .ret trivial

theorem objstoreWrite_safe {id : Int} (hx : acc.Ready (idToIndex id)) (buf : Buffer) {size : Int} {offset : Nat}
    (ha : offset % 4096 = 0) (hsize : 0 ≤ clipWrite size offset) : Safe (objstoreWrite id buf size offset) acc := by
  unfold objstoreWrite
  dsimp only
  split
  · exact .ret
  split
  · exact (Safe.act (.note .fault) trivial).then (note_run ..) fun _ _ _ => .ret trivial
  refine (loadId_safe (.inl hx.mine)).then (loadId_run ..) fun q₁ hv₁ h₁ => ?_
  split
  · exact .ret trivial
  · exact writeObject_safe (hx.later h₁ hv₁) buf ha hsize

end Writing

/-! ### Measuring -/

section Measuring
variable {acc : Account} {x : Nat}

theorem calNumberBlocks_safe {b : Int} (hb : b < 0 ∨ acc.Indirect b) : Safe (calNumberBlocks b) acc := by
  unfold calNumberBlocks
  split
  · exact .ret
  · rename_i hneg
    exact (readBlock_safe (hb.resolve_left hneg).1 _ _).then (readBlock_run ..) fun _ _ _ => .ret trivial

theorem calNumberBlocks_state (b : Int) (s : State) : (ObjStore.calNumberBlocks .uncached b s).2 = s := by
  unfold ObjStore.calNumberBlocks
  split
  · rfl
  · rw [fetch_uncached]

theorem countPointers_safe (hx : acc.Ready x) (n i numBlocks : Nat) (hi : i + n ≤ 4) :
    Safe (countPointers x n i numBlocks) acc := by
  induction n generalizing i numBlocks acc with
  | zero => exact .ret
  | succ n ih =>
    refine (loadPointer_safe hx.mine i).then (loadPointer_run ..) fun q₁ hv₁ h₁ => ?_
    have hx₁ := hx.later h₁ hv₁
    split
    · exact .ret trivial
    refine (loadPointer_safe hx₁.mine i).then (loadPointer_run ..) fun q₂ hv₂ h₂ => ?_
    have hx₂ := hx₁.later h₂ hv₂
    have hptr := hx₂.pointer (show i < 4 by omega)
    rw [hv₂] at hptr
    refine (calNumberBlocks_safe (hptr.imp (fun h => h ▸ by decide) And.right)).call (calNumberBlocks_run ..)
      fun q₃ hv₃ h₃ => ?_
    rw [calNumberBlocks_state] at hv₃
    exact ih (hx₂.later h₃ hv₃) (i + 1) _ (by omega)

theorem fillupSizeDetails_safe {id : Int} (hx : acc.Ready (idToIndex id)) : Safe (fillupSizeDetails id) acc := by
  unfold fillupSizeDetails
  dsimp only
  split
  · exact .ret
  split
  · exact (Safe.act (.note .fault) trivial).then (note_run ..) fun _ _ _ => .ret trivial
  refine (loadId_safe (.inl hx.mine)).then (loadId_run ..) fun q₁ hv₁ h₁ => ?_
  have hx₁ := hx.later h₁ hv₁
  split
  · exact .ret trivial
  refine (loadSize_safe hx₁.mine).then (loadSize_run ..) fun q₂ hv₂ h₂ => ?_
  exact (countPointers_safe (hx₁.later h₂ hv₂) 4 0 0 (Nat.le_refl _)).call (countPointers_run ..) fun _ _ _ => .ret trivial

end Measuring

end Atomic

end CS330.ObjStore
