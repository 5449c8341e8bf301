import CS330.Sched.Roles

/-! What `do_clone` makes of a slot.

It writes to one slot only. The new context is what `inherit` takes over from the parent, with
the pid of its slot, a stack frame of its own, and a name: the parent's, with the suffix written
behind its first NUL. -/
namespace CS330.Sched

section
variable {s : State} {slot : Nat}

/-- `do_clone` when it starts on the name. -/
theorem newContext_slot (slot pfn : Nat) (s : State) : (newContext slot pfn s).list slot =
    {s.list slot with pid := slot, state := .new, osStackPfn := pfn, name := s.cur.name} := by
  -- the parent may be the slot itself, but its name is not touched before it is copied
  have hname : ∀ {f : ExecContext → ExecContext} {u : State}, (∀ c, (f c).name = c.name) →
      (u.modify slot f).cur.name = u.cur.name := by
    intro f u hf
    rw [State.cur, modify_list]
    split
    · rename_i h
      rw [hf, ← h]
      rfl
    · rfl
  unfold newContext getNewCtx
  dsimp only
  rw [modify_self, modify_self, emit_list, modify_self, hname (by intro c; rfl), emit_cur, hname (by intro c; rfl)]

theorem newContext_other {i : Nat} (h : i ≠ slot) (pfn : Nat) : (newContext slot pfn s).list i = s.list i := by
  unfold newContext getNewCtx
  dsimp only
  rw [modify_other h, modify_other h, emit_list, modify_other h]

/-- Assigning a byte from the start of the name on changes the name, or what follows it. -/
theorem setByte_fields (i v : Nat) (c : ExecContext) : ∃ name regs pending,
    c.setByte i v = {c with name := name, regs := regs, pendingSignalBitmap := pending} := by
  unfold ExecContext.setByte
  repeat' split
  all_goals exact ⟨_, _, _, rfl⟩

theorem writeName_slot (slot : Nat) (vs : List Nat) (index : Nat) (s : State) : ∃ name regs pending,
    (writeName slot vs index s).list slot =
      {s.list slot with name := name, regs := regs, pendingSignalBitmap := pending} := by
  induction vs generalizing index s with
  | nil => exact ⟨_, _, _, rfl⟩
  | cons v vs ih =>
    obtain ⟨name, regs, pending, h⟩ := ih (index + 1) ((s.emit (.nameWrite index)).modify slot (·.setByte index v))
    obtain ⟨name', regs', pending', h'⟩ := setByte_fields index v (s.list slot)
    refine ⟨name, regs, pending, ?_⟩
    rw [writeName, h, modify_self, emit_list, h']

theorem writeName_other {i : Nat} (h : i ≠ slot) (vs : List Nat) (index : Nat) (s : State) :
    (writeName slot vs index s).list i = s.list i := by
  induction vs generalizing index s with
  | nil => rfl
  | cons v vs ih =>
    rw [writeName, ih, modify_other h, emit_list]

theorem writeName_up (slot : Nat) (vs : List Nat) (index : Nat) (s : State) :
    (writeName slot vs index s).up = s.up := by
  induction vs generalizing index s with
  | nil => rfl
  | cons v vs ih =>
    rw [writeName, ih]
    rfl

theorem writeName_log (slot : Nat) (vs : List Nat) (index : Nat) (s : State) :
    (writeName slot vs index s).log = s.log ++ (List.range' index vs.length).map .nameWrite := by
  induction vs generalizing index s with
  | nil => simp [writeName]
  | cons v vs ih =>
    rw [writeName, ih, List.length_cons, List.range'_succ, List.map_cons]
    exact List.append_assoc s.log [_] _

/-- A NUL written last inside the name ends it. -/
theorem writeName_nul (slot : Nat) (vs : List Nat) (index : Nat) (s : State) (h : index + vs.length < 64) :
    ((writeName slot (vs ++ [0]) index s).list slot).name (index + vs.length) = 0 := by
  induction vs generalizing index s with
  | nil =>
    rw [List.length_nil, Nat.add_zero] at h ⊢
    simp only [List.nil_append, writeName, modify_self, ExecContext.setByte, if_pos h, Function.update_self]
  | cons v vs ih =>
    rw [List.length_cons] at h ⊢
    rw [List.cons_append, writeName, show index + (vs.length + 1) = index + 1 + vs.length by omega]
    exact ih _ _ (by omega)

theorem suffix_nul (pid : Nat) : ∃ digits, suffix pid = digits ++ [0] := by
  unfold suffix
  split
  · exact ⟨[_], rfl⟩
  · exact ⟨[_, _], rfl⟩

end

/-- What a clone from `s` to `t` into `slot` did, the name having its first NUL at `index`. -/
structure Cloned (thFunc userStack slot pfn index : Nat) (s t : State) : Prop where
  current : t.current = s.current
  up : t.up = s.up
  other : ∀ i, i ≠ slot → t.list i = s.list i
  ready : (t.list slot).state = .ready
  inherits : slot ≠ s.current → ∃ name, t.list slot =
    inherit thFunc userStack s.cur {s.list slot with pid := slot, osStackPfn := pfn, name := name}
  log : t.log = s.log ++ .alloc pfn :: (List.range' index (suffix slot).length).map .nameWrite
  ends : index + (suffix slot).length ≤ 64 → ∃ k, k < 64 ∧ (t.list slot).name k = 0

section
variable {thFunc userStack slot pfn : Nat} {s t : State}

theorem doClone_cloned (h : doClone thFunc userStack slot pfn s = some t) : ∃ index,
    Probe.scan (fun i => ((newContext slot pfn s).list slot).byte i = some 0) 228 0 = some index ∧
      Cloned thFunc userStack slot pfn index s t := by
  obtain ⟨index, hscan, ht⟩ := Option.map_eq_some_iff.mp h
  have hpid : ((newContext slot pfn s).list slot).pid = slot := by rw [newContext_slot]
  dsimp only at ht
  rw [hpid] at ht
  obtain ⟨u, hu⟩ : ∃ u, writeName slot (suffix slot) index (newContext slot pfn s) = u := ⟨_, rfl⟩
  have hcur : u.current = s.current := by
    rw [← hu]
    exact congrArg Roles.current (writeName_roles ..)
  have hother : ∀ i, i ≠ slot → u.list i = s.list i := fun i hi => by
    rw [← hu, writeName_other hi, newContext_other hi]
  have hslot : t.list slot = inherit thFunc userStack u.cur (u.list slot) := by
    rw [← ht, hu, modify_self]
  refine ⟨index, hscan, ?_, ?_, fun i hi => ?_, by rw [hslot]; rfl, fun hne => ?_, ?_, fun hfits => ?_⟩
  · rw [← ht, hu]
    exact hcur
  · rw [← ht]
    exact writeName_up ..
  · rw [← ht, hu, modify_other hi, hother i hi]
  · obtain ⟨name, regs, pending, hname⟩ := writeName_slot slot (suffix slot) index (newContext slot pfn s)
    rw [hu, newContext_slot] at hname
    refine ⟨name, ?_⟩
    rw [hslot, hname, State.cur, hcur, hother _ hne.symm]
    rfl
  · rw [← ht]
    exact (writeName_log ..).trans (List.append_assoc s.log [_] _)
  · obtain ⟨digits, hsuffix⟩ := suffix_nul slot
    rw [hsuffix, List.length_append, List.length_singleton] at hfits
    refine ⟨index + digits.length, by omega, ?_⟩
    rw [hslot, ← hu, hsuffix]
    exact writeName_nul slot digits index _ (by omega)

end

end CS330.Sched
