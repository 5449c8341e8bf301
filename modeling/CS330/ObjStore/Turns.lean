import CS330.ObjStore.Demand

/-! What a call that comes back did to the page cursor.

It was given the pages in turn, and each was unused when its turn came. No page that was in
use is given up on the way, so they were all unused before the call: together with
`Cursor` this says exactly when a call comes back. -/
namespace CS330.ObjStore

/-- The cursor went on by `k` pages, none of them in use, and no page was given up. -/
structure Turns (k : Nat) (s t : State) : Prop where
  pages : pageCalls t.log = pageCalls s.log + k
  last : t.lastCacheIndex = nextPage^[k] s.lastCacheIndex
  free : Unused k s
  used : ∀ c, s.cacheBitmap c ≠ 0 → t.cacheBitmap c ≠ 0

section Turns
variable {build : Build} {k l : Nat} {s t u : State}

theorem Turns.still (hpages : pageCalls t.log = pageCalls s.log) (hlast : t.lastCacheIndex = s.lastCacheIndex)
    (hcb : t.cacheBitmap = s.cacheBitmap) : Turns 0 s t :=
  ⟨hpages, hlast, fun i hi => absurd hi (Nat.not_lt_zero i), fun c hc => by rwa [hcb]⟩

theorem Turns.trans (h₁ : Turns k s t) (h₂ : Turns l t u) : Turns (k + l) s u := by
  refine ⟨by rw [h₂.pages, h₁.pages, Nat.add_assoc], ?_, fun i hi => ?_, fun c hc => h₂.used c (h₁.used c hc)⟩
  · rw [h₂.last, h₁.last, ← Function.iterate_add_apply, Nat.add_comm]
  · rcases Nat.lt_or_ge i k with hlt | hge
    · exact h₁.free i hlt
    · -- the page's turn comes after `t`, where it is still unused
      have hfree := h₂.free (i - k) (by omega)
      rw [h₁.last, ← Function.iterate_add_apply, show i - k + 1 + k = i + 1 by omega] at hfree
      by_contra hused
      exact h₁.used _ hused hfree

theorem Quiet.turns (h : Quiet s t) : Turns 0 s t := by
  refine .still h.pages ?_ ?_
  · rw [h.eq]
  · rw [h.eq]

theorem NewPage.turns {b : Int} {c : Nat} {dirty : Bool} {blk : Block} (h : NewPage b c dirty blk s t) :
    Turns 1 s t := by
  refine ⟨h.pages, h.last.trans h.next, fun i hi => ?_, fun c' hc' => ?_⟩
  · obtain rfl : i = 0 := by omega
    show s.cacheBitmap (nextPage s.lastCacheIndex) = 0
    rw [← h.next]
    exact h.free
  · have hne : c' ≠ c := fun heq => hc' (heq ▸ h.free)
    rwa [h.cacheBitmap, Function.update_of_ne hne]

theorem writeBlock_turns (b : Int) (addr : Nat) (buf : Block) (s : State) : Turns 0 s (writeBlock b addr buf s).2 :=
  .still (writeBlock_idle b addr buf s).pages (writeBlock_idle b addr buf s).last (writeBlock_cacheBitmap b addr buf s)

theorem fetch_turns {b : Int} {addr : Nat} {buf : Block} (hl : Live (fetch build b addr buf s).2.2) :
    ∃ k, Turns k s (fetch build b addr buf s).2.2 := by
  rcases fetch_cases hl with ⟨h, -⟩ | ⟨-, -, -, h⟩
  · exact ⟨0, h.turns⟩
  · exact ⟨1, h.turns⟩

theorem store_turns {b : Int} {addr : Nat} {buf : Block} (hl : Live (store build b addr buf s).2) :
    ∃ k, Turns k s (store build b addr buf s).2 := by
  rcases store_cases hl with ⟨-, t, hq, heq⟩ | ⟨-, -, -, t, hq, heq⟩ | ⟨-, -, h⟩
  · rw [heq]
    exact ⟨0, hq.turns.trans (writeBlock_turns b addr buf t)⟩
  · rw [heq]
    have hpage : Turns 0 t ((t.setPage (s.blockBitmap b) buf).setDirty (s.blockBitmap b) true) := .still rfl rfl rfl
    exact ⟨0, hq.turns.trans hpage⟩
  · exact ⟨1, h.turns⟩

theorem newBlock_turns {r : Int × State} (hr : getNewDatablock s = r) : Turns 0 s (setBlockBitmap r.1 r.2) := by
  have htook := (alloc_cases s).1
  rw [hr] at htook
  refine .still htook.pages ?_ ?_
  · rw [htook.eq]
  · rw [htook.eq]

theorem Walk.turns {F : Prop} (h : Walk build F s t) (hl : Live t) : ∃ k, Turns k s t := by
  induction h with
  | refl s => exact ⟨0, .still rfl rfl rfl⟩
  | trans h₁ h₂ ih₁ ih₂ =>
    obtain ⟨k, hk⟩ := ih₁ (h₂.steady.live hl)
    obtain ⟨l, hl⟩ := ih₂ hl
    exact ⟨k + l, hk.trans hl⟩
  | fetch b ha buf s => exact fetch_turns hl
  | store b buf s => exact store_turns hl
  | entry buf hr =>
    obtain ⟨k, hk⟩ := store_turns hl
    exact ⟨0 + k, (newBlock_turns hr).trans hk⟩
  | table buf hr h ih =>
    obtain ⟨l, hk⟩ := ih ((store_steady ..).live hl)
    obtain ⟨k, hstore⟩ := store_turns hl
    exact ⟨_, ((newBlock_turns hr).trans (writeBlock_turns ..)).trans (hk.trans hstore)⟩
  | slot x o s => exact ⟨0, .still rfl rfl rfl⟩
  | locked s ht hlog =>
    refine ⟨0, .still ?_ ?_ ?_⟩
    · rw [hlog]
      rfl
    · rw [ht]
    · rw [ht]
  | fault h s => exact ⟨0, .still rfl rfl rfl⟩

/-- The pages a call asks for. -/
def demand (build : Build) (op : Op) (s : State) : Nat :=
  (exec build op s).elim 0 fun q => pageCalls q.2.log - pageCalls s.log

theorem demand_le {op : Op} (s : State) (hop : op ≠ .remount) : demand build op s ≤ 4110 := by
  unfold demand
  cases h : exec build op s with
  | none => exact Nat.zero_le _
  | some q =>
    have hasks : pageCalls q.2.log ≤ pageCalls s.log + 4110 := exec_asks h hop
    show pageCalls q.2.log - pageCalls s.log ≤ 4110
    omega

/-- A call comes back, with every mutex given back, exactly when the pages it asks for lie
unused ahead of the cursor. -/
theorem exec_free_iff {op : Op} {r : Ret} (h : exec build op s = some (r, t)) (hop : op ≠ .remount)
    (hs : held s.log = some []) : held t.log = some [] ↔ Unused (demand build op s) s := by
  have hdemand : demand build op s = pageCalls t.log - pageCalls s.log := by rw [demand, h]; rfl
  have hle := (exec_steady h hop).grows.pageCalls_le
  rw [hdemand]
  constructor
  · intro ht
    rcases exec_cases h hop with ⟨key, -, rfl⟩ | hw
    · rw [(destroyObject_idle key s).pages, Nat.sub_self]
      exact fun i hi => absurd hi (Nat.not_lt_zero i)
    · obtain ⟨k, hk⟩ := hw.turns (.of_held ht)
      rw [hk.pages, Nat.add_sub_cancel_left]
      exact hk.free
  · intro hfree
    have hbound := @demand_le build op s hop
    exact (exec_cursor h hop _ (by omega) hfree hs (by omega)).1

end Turns

end CS330.ObjStore
