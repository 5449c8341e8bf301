import Mathlib.Logic.Basic

/-! Runs of a machine that takes operations and returns results.

`step` may refuse (`none`): the operation does not come back. `ok` is the
condition a run is asked to keep, on the operation and the states around it.
`Reaches.invariant` proves a property of every reachable state from one step;
`runAll` runs a list of operations. -/
namespace CS330.Machine

variable {Op Ret S T : Type}

/-- The states that steps which `ok` admits lead to. -/
inductive Reaches (step : Op → S → Option (Ret × S)) (ok : Op → S → S → Prop) (start : S) : S → Prop
  | start : Reaches step ok start start
  | step {s s' : S} {op : Op} {r : Ret} : Reaches step ok start s → step op s = some (r, s') →
      ok op s s' → Reaches step ok start s'

/-- The results of a list of operations and the state they end in. -/
def runAll (step : Op → S → Option (Ret × S)) : List Op → S → Option (List Ret × S)
  | [], s => some ([], s)
  | op :: ops, s => (step op s).bind fun r => (runAll step ops r.2).map fun q => (r.1 :: q.1, q.2)

section
variable {step : Op → S → Option (Ret × S)} {ok : Op → S → S → Prop}

/-- What holds at the start and survives every admitted step holds in every
reachable state. -/
theorem Reaches.invariant {start s : S} (h : Reaches step ok start s) (I : S → Prop) (h₀ : I start)
    (hstep : ∀ op s r s', I s → step op s = some (r, s') → ok op s s' → I s') : I s := by
  induction h with
  | start => exact h₀
  | step _ hs hok ih => exact hstep _ _ _ _ ih hs hok

theorem Reaches.mono {start s : S} {step' : Op → S → Option (Ret × S)} {ok' : Op → S → S → Prop}
    (h : Reaches step ok start s) (hstep : ∀ op s r s', step op s = some (r, s') → step' op s = some (r, s'))
    (hok : ∀ op s s', ok op s s' → ok' op s s') : Reaches step' ok' start s := by
  induction h with
  | start => exact .start
  | step _ hs hk ih => exact .step ih (hstep _ _ _ _ hs) (hok _ _ _ hk)

/-- Where steps only go up in an order, every state on the way is below the last. -/
theorem Reaches.bounded {start s : S} {R : S → S → Prop} (hrefl : ∀ s, R s s) (htrans : ∀ s t u, R s t → R t u → R s u)
    (hstep : ∀ op s r s', step op s = some (r, s') → R s s') (h : Reaches step ok start s) :
    Reaches step (fun op t t' => ok op t t' ∧ R t' s) start s := by
  induction h with
  | start => exact .start
  | step _ hs hk ih =>
    exact .step (ih.mono (fun _ _ _ _ h => h) fun _ _ t' h => ⟨h.1, htrans t' _ _ h.2 (hstep _ _ _ _ hs)⟩) hs ⟨hk, hrefl _⟩

theorem runAll_cons {op : Op} {ops : List Op} {s t : S} {rs : List Ret} :
    runAll step (op :: ops) s = some (rs, t) ↔ ∃ r s' rs', step op s = some (r, s') ∧
      runAll step ops s' = some (rs', t) ∧ rs = r :: rs' := by
  rw [runAll, Option.bind_eq_some_iff]
  constructor
  · rintro ⟨⟨r, s'⟩, hs, h⟩
    obtain ⟨⟨rs', t'⟩, hr, hq⟩ := Option.map_eq_some_iff.mp h
    cases hq
    exact ⟨r, s', rs', hs, hr, rfl⟩
  · rintro ⟨r, s', rs', hs, hr, rfl⟩
    refine ⟨(r, s'), hs, ?_⟩
    rw [hr]
    rfl

theorem runAll_append {ops ops' : List Op} {s t u : S} {rs rs' : List Ret}
    (h : runAll step ops s = some (rs, t)) (h' : runAll step ops' t = some (rs', u)) :
    runAll step (ops ++ ops') s = some (rs ++ rs', u) := by
  induction ops generalizing s rs with
  | nil =>
    cases h
    exact h'
  | cons op ops ih =>
    obtain ⟨r, s', rs'', hs, hr, rfl⟩ := runAll_cons.mp h
    exact runAll_cons.mpr ⟨r, s', rs'' ++ rs', hs, ih hr, rfl⟩

/-- A list of operations that are always admitted. -/
theorem Reaches.runAll {start s t : S} (h : Reaches step ok start s) {ops : List Op} {rs : List Ret}
    (hrun : Machine.runAll step ops s = some (rs, t)) (hok : ∀ op ∈ ops, ∀ s t, ok op s t) :
    Reaches step ok start t := by
  induction ops generalizing s rs with
  | nil =>
    cases hrun
    exact h
  | cons op ops ih =>
    obtain ⟨r, s', rs', hs, hr, -⟩ := runAll_cons.mp hrun
    exact ih (.step h hs (hok op (List.mem_cons_self ..) s s')) hr fun op h => hok op (List.mem_cons_of_mem _ h)

/-! ### Properties along a run -/

/-- Every state of the run has the property. -/
def Along (step : Op → S → Option (Ret × S)) (P : S → Prop) : List Op → S → Prop
  | [], s => P s
  | op :: ops, s => P s ∧ ∀ r t, step op s = some (r, t) → Along step P ops t

/-- Every operation of the run has the property in the state it is called in. -/
def Each (step : Op → S → Option (Ret × S)) (Q : Op → S → Prop) : List Op → S → Prop
  | [], _ => True
  | op :: ops, s => Q op s ∧ ∀ r t, step op s = some (r, t) → Each step Q ops t

/-- Two properties of calls that agree as long as an invariant holds, which they keep. -/
theorem each_congr {I : S → Prop} {Q Q' : Op → S → Prop} {ops : List Op}
    (hiff : ∀ op s, op ∈ ops → I s → (Q op s ↔ Q' op s))
    (hkeep : ∀ op s r t, op ∈ ops → I s → Q op s → step op s = some (r, t) → I t) {s : S} (hs : I s) :
    Each step Q ops s ↔ Each step Q' ops s := by
  induction ops generalizing s with
  | nil => rfl
  | cons op ops ih =>
    have hrec : Q op s → ∀ r t, step op s = some (r, t) → (Each step Q ops t ↔ Each step Q' ops t) :=
      fun hQ r t hst => ih (fun op' s hmem => hiff op' s (List.mem_cons_of_mem op hmem))
        (fun op' s r t hmem => hkeep op' s r t (List.mem_cons_of_mem op hmem))
        (hkeep op s r t (List.mem_cons_self ..) hs hQ hst)
    have hnow := hiff op s (List.mem_cons_self ..) hs
    constructor
    · intro ⟨hQ, h⟩
      exact ⟨hnow.mp hQ, fun r t hst => (hrec hQ r t hst).mp (h r t hst)⟩
    · intro ⟨hQ', h⟩
      exact ⟨hnow.mpr hQ', fun r t hst => (hrec (hnow.mpr hQ') r t hst).mpr (h r t hst)⟩

theorem Along.start {P : S → Prop} {ops : List Op} {s : S} (h : Along step P ops s) : P s := by
  cases ops with
  | nil => exact h
  | cons op ops => exact h.1

theorem Along.of_forall {P : S → Prop} (h : ∀ s, P s) (ops : List Op) (s : S) : Along step P ops s := by
  induction ops generalizing s with
  | nil => exact h s
  | cons op ops ih => exact ⟨h s, fun _ t _ => ih t⟩

/-- A property that a step into `J` keeps exactly when `Q` holds of it is kept all along a run
inside `J` exactly when `Q` holds of each of its steps. -/
theorem Along.iff_each {I J P : S → Prop} {Q : Op → S → Prop} {ops : List Op}
    (hstep : ∀ op s r t, op ∈ ops → I s → P s → J t → step op s = some (r, t) → I t ∧ (P t ↔ Q op s))
    {s u : S} {rs : List Ret} (hJ : Along step J ops s) (hI : I s) (hP : P s)
    (hrun : runAll step ops s = some (rs, u)) : Along step P ops s ↔ Each step Q ops s := by
  induction ops generalizing s rs with
  | nil => exact iff_of_true hP trivial
  | cons op ops ih =>
    obtain ⟨r, t, rs', hs, hrest, -⟩ := runAll_cons.mp hrun
    have hJt := hJ.2 r t hs
    obtain ⟨hIt, hiff⟩ := hstep op s r t (List.mem_cons_self ..) hI hP hJt.start hs
    have hnext : ∀ R : S → Prop, (∀ r' t', step op s = some (r', t') → R t') ↔ R t := by
      intro R
      refine ⟨fun h => h r t hs, fun h r' t' hs' => ?_⟩
      rw [hs] at hs'
      cases hs'
      exact h
    have hrec := fun hPt => ih (fun op' s r t hmem => hstep op' s r t (List.mem_cons_of_mem op hmem))
      hJt hIt hPt hrest
    simp only [Along, Each, hnext]
    constructor
    · intro ⟨_, h⟩
      exact ⟨hiff.mp h.start, (hrec h.start).mp h⟩
    · intro ⟨hQ, h⟩
      exact ⟨hP, (hrec (hiff.mpr hQ)).mpr h⟩

/-- The same with no bound on the states. -/
theorem along_iff_each {I P : S → Prop} {Q : Op → S → Prop} {ops : List Op}
    (hstep : ∀ op s r t, op ∈ ops → I s → P s → step op s = some (r, t) → I t ∧ (P t ↔ Q op s))
    {s u : S} {rs : List Ret} (hI : I s) (hP : P s) (hrun : runAll step ops s = some (rs, u)) :
    Along step P ops s ↔ Each step Q ops s :=
  (Along.of_forall (fun _ => trivial) ops s : Along step (fun _ => True) ops s).iff_each
    (fun op s r t hmem hs hPs _ => hstep op s r t hmem hs hPs) hI hP hrun

/-! ### Runs of a machine given by a relation -/

end

end CS330.Machine
