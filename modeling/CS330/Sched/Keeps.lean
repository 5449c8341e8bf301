import CS330.Sched.Roles

/-! What switching contexts leaves alone.

Searches, saves and switches touch the states and registers of contexts and log events of
their own. A part of a context and a kind of event that are none of these are kept by all of
them (`Keeps`). -/
namespace CS330.Sched

/-- `g` of no context changes from `s` to `t`, and no event of the kind `E` happens. -/
structure Keeps {α : Type} (g : ExecContext → α) (E : Event → Prop) (s t : State) : Prop where
  list : ∀ i, g (t.list i) = g (s.list i)
  log : ∀ e, E e → (e ∈ t.log ↔ e ∈ s.log)

/-- `g` does not look at what a switch changes, and `E` is none of its events. -/
structure Bystander {α : Type} (g : ExecContext → α) (E : Event → Prop) : Prop where
  state : ∀ (c : ExecContext) x, g {c with state := x} = g c
  regs : ∀ (c : ExecContext) rs, g {c with regs := rs} = g c
  read : ∀ i, ¬ E (.read i)
  save : ∀ i, ¬ E (.save i)
  switch : ∀ i j, ¬ E (.switch i j)

section
variable {α : Type} {g : ExecContext → α} {E : Event → Prop} {s t u : State}

theorem Keeps.trans (h : Keeps g E s t) (h' : Keeps g E t u) : Keeps g E s u :=
  ⟨fun i => (h'.list i).trans (h.list i), fun e he => (h'.log e he).trans (h.log e he)⟩

theorem Keeps.emit {e : Event} (he : ¬ E e) (s : State) : Keeps g E s (s.emit e) := by
  refine ⟨fun _ => rfl, fun e' he' => ?_⟩
  have hne : e' ≠ e := fun h => he (h ▸ he')
  simp [State.emit, hne]

theorem Keeps.modify {f : ExecContext → ExecContext} (hf : ∀ c, g (f c) = g c) (i : Nat) (s : State) :
    Keeps g E s (s.modify i f) := by
  refine ⟨fun j => ?_, fun _ _ => Iff.rfl⟩
  rw [modify_list]
  split
  · rename_i h
    rw [hf, h]
  · rfl

variable (hg : Bystander g E)
include hg

theorem Bystander.mark (i : Nat) (x : ProcessState) (s : State) : Keeps g E s (s.mark i x) :=
  .modify (fun c => hg.state c x) i s

theorem Bystander.search (P : ExecContext → Bool) (n i : Nat) (s : State) : Keeps g E s (search P n i s).2 := by
  refine ⟨fun _ => rfl, fun e he => ?_⟩
  have hread : ∀ j, Event.read j ≠ e := fun j h => hg.read j (h ▸ he)
  simp [Sched.search, hread]

theorem Bystander.saveCurrentContext (s : State) : Keeps g E s (saveCurrentContext s) := by
  have hsave : Keeps g E s (s.emit (.save s.current)) := .emit (hg.save _) s
  unfold Sched.saveCurrentContext
  dsimp only
  split
  · exact hsave
  · exact hsave.trans (.modify (fun c => hg.regs c _) ..)

theorem Bystander.switched (next : Nat) (s : State) :
    Keeps g E s (Sched.saveCurrentContext (s.emit (.switch s.cur.pid (s.list next).pid))) :=
  (Keeps.emit (hg.switch _ _) s).trans (hg.saveCurrentContext _)

theorem Bystander.scheduleContext (next : Nat) (s : State) : Keeps g E s (scheduleContext next s).2 := by
  have h := (hg.switched next s).trans (hg.mark next .running _)
  exact ⟨h.list, h.log⟩

theorem Bystander.wake (next : Nat) (s : State) : Keeps g E s (wake next s) := by
  let u := Sched.saveCurrentContext (s.emit (.switch s.cur.pid (s.list next).pid))
  have hmark := (hg.switched next s).trans ((hg.mark u.current .ready u).trans (hg.mark next .running _))
  exact ⟨hmark.list, hmark.log⟩

/-- What a tick does behind its accounting. -/
theorem Bystander.handleTimerTick (frame : Regs) (s : State) :
    Keeps g E (accounted frame s) (handleTimerTick frame s).2 := by
  have hsearch : Keeps g E (accounted frame s) (sleepers frame s).2 := hg.search ..
  cases hp : (sleepers frame s).1 with
  | none =>
    obtain ⟨frame', heq⟩ := handleTimerTick_none hp
    rw [heq]
    exact hsearch
  | some next =>
    rw [handleTimerTick_some hp]
    exact hsearch.trans (hg.wake next _)

end

end CS330.Sched
