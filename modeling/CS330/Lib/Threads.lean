import CS330.Lib.Machine
import Mathlib.Logic.Function.Basic

/-! Programs of atomic actions, run alone and interleaved.

A program does an action and goes on with the action's result. What an action does to a state is
a relation `R`: `Prog.Runs R` is a program run alone, and `Prog.wp R ok Q` says that every
action it comes to is `ok` in the state it is done in, and that it returns with `Q`. In a `Pool`
the threads share a state and take their actions in any order. `Pool.modular` proves a property
of every interleaving from one action of one thread, each thread having a private account of the
shared state that the others keep. -/
namespace CS330.Threads

/-- The actions, and what each returns. -/
structure Signature where
  Act : Type
  Res : Act → Type

inductive Prog (S : Signature) (α : Type) where
  | ret (a : α)
  | act (a : S.Act) (k : S.Res a → Prog S α)

/-- What an action does, where it can be done. -/
abbrev Sem (S : Signature) (σ : Type) := (a : S.Act) → σ → Option (S.Res a × σ)

/-- What an action may do. -/
abbrev Rel (S : Signature) (σ : Type) := (a : S.Act) → σ → S.Res a → σ → Prop

/-- The relation of a function. -/
def Sem.rel {S : Signature} {σ : Type} (sem : Sem S σ) : Rel S σ := fun a s b t => sem a s = some (b, t)

namespace Prog
variable {S T : Signature} {α β σ τ : Type}

def bind : Prog S α → (α → Prog S β) → Prog S β
  | .ret a, f => f a
  | .act a k, f => .act a fun b => (k b).bind f

instance : Monad (Prog S) where
  pure := .ret
  bind := .bind

@[simp]
theorem pure_eq (a : α) : (pure a : Prog S α) = .ret a := rfl

@[simp]
theorem bind_eq (p : Prog S α) (f : α → Prog S β) : p >>= f = p.bind f := rfl

@[simp]
theorem ret_bind (a : α) (f : α → Prog S β) : (ret a : Prog S α).bind f = f a := rfl

@[simp]
theorem act_bind (a : S.Act) (k : S.Res a → Prog S α) (f : α → Prog S β) :
    (act a k).bind f = act a fun b => (k b).bind f := rfl

/-- Every action of one program is a program of another. -/
def interp (code : (a : S.Act) → Prog T (S.Res a)) : Prog S α → Prog T α
  | .ret a => .ret a
  | .act a k => (code a).bind fun b => (k b).interp code

def run (sem : Sem S σ) : Prog S α → σ → Option (α × σ)
  | .ret a, s => some (a, s)
  | .act a k, s => (sem a s).bind fun r => (k r.1).run sem r.2

def Runs (R : Rel S σ) : Prog S α → σ → α → σ → Prop
  | .ret a, s, a', t => a' = a ∧ t = s
  | .act a k, s, a', t => ∃ b u, R a s b u ∧ (k b).Runs R u a' t

def wp (R : Rel S σ) (ok : S.Act → σ → Prop) (Q : α → σ → Prop) : Prog S α → σ → Prop
  | .ret a, s => Q a s
  | .act a k, s => ok a s ∧ ∀ b t, R a s b t → (k b).wp R ok Q t

section Alone
variable {sem : Sem S σ} {R : Rel S σ} {ok : S.Act → σ → Prop} {Q Q' : α → σ → Prop}

theorem run_act (a : S.Act) (s : σ) : (act a .ret).run sem s = sem a s := Option.bind_fun_some _

theorem run_bind (p : Prog S α) (f : α → Prog S β) (s : σ) :
    (p.bind f).run sem s = (p.run sem s).bind fun r => (f r.1).run sem r.2 := by
  induction p generalizing s with
  | ret a => rfl
  | act a k ih =>
    rw [act_bind, run, run, Option.bind_assoc]
    exact congrArg _ (funext fun r => ih r.1 r.2)

theorem runs_rel {p : Prog S α} {s t : σ} {a : α} : p.Runs sem.rel s a t ↔ p.run sem s = some (a, t) := by
  induction p generalizing s with
  | ret a' =>
    rw [Runs, run, Option.some_inj, Prod.mk.injEq]
    exact and_congr eq_comm eq_comm
  | act a' k ih =>
    simp only [Runs, run, Option.bind_eq_some_iff, ih, Sem.rel, Prod.exists]

theorem runs_bind {p : Prog S α} {f : α → Prog S β} {s t : σ} {b : β} :
    (p.bind f).Runs R s b t ↔ ∃ a u, p.Runs R s a u ∧ (f a).Runs R u b t := by
  induction p generalizing s with
  | ret a => exact ⟨fun h => ⟨a, s, ⟨rfl, rfl⟩, h⟩, by rintro ⟨_, _, ⟨rfl, rfl⟩, h⟩; exact h⟩
  | act a k ih =>
    simp only [act_bind, Runs, ih]
    constructor
    · rintro ⟨c, u, hR, a', v, hk, hf⟩
      exact ⟨a', v, ⟨c, u, hR, hk⟩, hf⟩
    · rintro ⟨a', v, ⟨c, u, hR, hk⟩, hf⟩
      exact ⟨c, u, hR, a', v, hk, hf⟩

/-- A run seen through a map of its states. -/
theorem Runs.map {P : Rel S τ} (f : σ → τ) (hf : ∀ a s b t, R a s b t → P a (f s) b (f t)) {p : Prog S α} {s t : σ} {a : α}
    (h : p.Runs R s a t) : p.Runs P (f s) a (f t) := by
  induction p generalizing s with
  | ret a' => exact ⟨h.1, congrArg f h.2⟩
  | act a' k ih =>
    obtain ⟨b, u, hR, hk⟩ := h
    exact ⟨b, f u, hf a' s b u hR, ih b hk⟩

theorem wp_bind {p : Prog S α} {f : α → Prog S β} {Q : β → σ → Prop} {s : σ} :
    (p.bind f).wp R ok Q s ↔ p.wp R ok (fun a t => (f a).wp R ok Q t) s := by
  induction p generalizing s with
  | ret a => rfl
  | act a k ih => simp only [act_bind, wp, ih]

theorem wp.mono {p : Prog S α} {s : σ} (h : p.wp R ok Q s) (hQ : ∀ a t, Q a t → Q' a t) : p.wp R ok Q' s := by
  induction p generalizing s with
  | ret a => exact hQ a s h
  | act a k ih => exact ⟨h.1, fun b t hR => ih b (h.2 b t hR)⟩

/-- Two accounts of one program. -/
theorem wp.prod {P : Rel S τ} {ok' : S.Act → τ → Prop} {Q' : α → τ → Prop} {p : Prog S α} {s : σ} {t : τ}
    (h : p.wp R ok Q s) (h' : p.wp P ok' Q' t) :
    p.wp (fun a u b v => R a u.1 b v.1 ∧ P a u.2 b v.2) (fun a u => ok a u.1 ∧ ok' a u.2)
      (fun a u => Q a u.1 ∧ Q' a u.2) (s, t) := by
  induction p generalizing s t with
  | ret a => exact ⟨h, h'⟩
  | act a k ih => exact ⟨⟨h.1, h'.1⟩, fun b u hu => ih b (h.2 b u.1 hu.1) (h'.2 b u.2 hu.2)⟩

theorem wp.weaken {ok' : S.Act → σ → Prop} {p : Prog S α} {s : σ} (h : p.wp R ok Q s) (hok : ∀ a s, ok a s → ok' a s) :
    p.wp R ok' Q s := by
  induction p generalizing s with
  | ret a => exact h
  | act a k ih => exact ⟨hok a s h.1, fun b t hR => ih b (h.2 b t hR)⟩

/-- What a run that is known to be safe returns with. -/
theorem wp.runs {p : Prog S α} {s t : σ} {a : α} (h : p.wp R ok Q s) (hrun : p.Runs R s a t) : Q a t := by
  induction p generalizing s with
  | ret a' =>
    obtain ⟨rfl, rfl⟩ := hrun
    exact h
  | act a' k ih =>
    obtain ⟨b, u, hR, hk⟩ := hrun
    exact ih b (h.2 b u hR) hk

/-- Safety, and what the runs return with. -/
theorem wp.post {p : Prog S α} {s : σ} (h : p.wp R ok Q s) (hQ : ∀ a t, p.Runs R s a t → Q' a t) :
    p.wp R ok Q' s := by
  induction p generalizing s with
  | ret a => exact hQ a s ⟨rfl, rfl⟩
  | act a k ih =>
    exact ⟨h.1, fun b t hR => ih b (h.2 b t hR) fun a' u hk => hQ a' u ⟨b, t, hR, hk⟩⟩

/-- What every `ok` action keeps, a safe run keeps. -/
theorem wp.invariant {I : σ → σ → Prop} (hrefl : ∀ s, I s s) (htrans : ∀ s t u, I s t → I t u → I s u)
    (hstep : ∀ a s b t, ok a s → R a s b t → I s t) {p : Prog S α} {s t : σ} {a : α} (h : p.wp R ok Q s)
    (hrun : p.Runs R s a t) : I s t := by
  induction p generalizing s with
  | ret a' =>
    obtain ⟨-, rfl⟩ := hrun
    exact hrefl t
  | act a' k ih =>
    obtain ⟨b, u, hR, hk⟩ := hrun
    exact htrans s u t (hstep a' s b u h.1 hR) (ih b (h.2 b u hR) hk)

/-- If the code of every action does what the action may do, a program's code does what the
program may do: `G` relates the states of the two levels. -/
theorem wp.interp {P : Rel T τ} {okT : T.Act → τ → Prop} {code : (a : S.Act) → Prog T (S.Res a)}
    {G : σ → τ → Prop}
    (hcode : ∀ a s t, ok a s → G s t → (code a).wp P okT (fun b t' => ∃ s', R a s b s' ∧ G s' t') t)
    {p : Prog S α} {s : σ} {t : τ} (h : p.wp R ok Q s) (hG : G s t) :
    (p.interp code).wp P okT (fun a t' => ∃ s', p.Runs R s a s' ∧ G s' t') t := by
  induction p generalizing s t with
  | ret a => exact ⟨s, ⟨rfl, rfl⟩, hG⟩
  | act a k ih =>
    refine wp_bind.mpr ((hcode a s t h.1 hG).mono fun b t' hb => ?_)
    obtain ⟨s', hR, hG'⟩ := hb
    refine (ih b (h.2 b s' hR) hG').mono fun a' t'' ha => ?_
    obtain ⟨s'', hk, hG''⟩ := ha
    exact ⟨s'', ⟨b, s', hR, hk⟩, hG''⟩

end Alone

end Prog

/-! ### Interleaved -/

/-- Threads `ι` and the state they share. -/
structure Pool (S : Signature) (ι α σ : Type) where
  threads : ι → Prog S α
  mem : σ

namespace Pool
variable {S : Signature} {ι α σ τ : Type} [DecidableEq ι] {sem : ι → Sem S σ}

/-- The next action of thread `i`: a step of the machine whose operations are the threads. -/
def step (sem : ι → Sem S σ) (i : ι) (P : Pool S ι α σ) : Option (Unit × Pool S ι α σ) :=
  match P.threads i with
  | .ret _ => none
  | .act a k => (sem i a P.mem).map fun r => ((), ⟨Function.update P.threads i (k r.1), r.2⟩)

theorem step_eq_some {i : ι} {P P' : Pool S ι α σ} {u : Unit} : step sem i P = some (u, P') ↔
    ∃ a k b, P.threads i = .act a k ∧ sem i a P.mem = some (b, P'.mem) ∧
      P'.threads = Function.update P.threads i (k b) := by
  unfold step
  cases P.threads i with
  | ret a => simp
  | act a k =>
    simp only [Option.map_eq_some_iff]
    constructor
    · rintro ⟨⟨b, s⟩, hs, hP⟩
      cases hP
      exact ⟨a, k, b, rfl, hs, rfl⟩
    · rintro ⟨a', k', b, hact, hs, hP⟩
      cases hact
      obtain ⟨threads, mem⟩ := P'
      cases hP
      exact ⟨(b, mem), hs, rfl⟩

/-- Thread by thread: `st i` is what thread `i` may rely on, and `J` says how that stands to the
shared state. If an action that is `ok` for the thread that does it keeps `J`, with that thread's
account moved on by `R` and all others left as they are, then every thread is safe in every
interleaving. -/
theorem modular {adm : σ → Prop} {R : Rel S τ} {ok : ι → S.Act → τ → Prop} {J : (ι → τ) → σ → Prop}
    (hstep : ∀ st s i a b t, J st s → ok i a (st i) → sem i a s = some (b, t) → adm t →
      ∃ u, R a (st i) b u ∧ J (Function.update st i u) t)
    {Q : ι → α → τ → Prop} {P₀ P : Pool S ι α σ} {st₀ : ι → τ} (h₀ : J st₀ P₀.mem)
    (hwp : ∀ i, (P₀.threads i).wp R (ok i) (Q i) (st₀ i))
    (h : Machine.Reaches (step sem) (fun _ _ P' => adm P'.mem) P₀ P) :
    ∃ st, J st P.mem ∧ ∀ i, (P.threads i).wp R (ok i) (Q i) (st i) := by
  refine h.invariant (fun P => ∃ st, J st P.mem ∧ ∀ i, (P.threads i).wp R (ok i) (Q i) (st i))
    ⟨st₀, h₀, hwp⟩ ?_
  rintro i P ⟨⟩ P' ⟨st, hJ, hsafe⟩ hst hadm
  obtain ⟨a, k, b, hact, hsem, hthreads⟩ := step_eq_some.mp hst
  have hi := hsafe i
  rw [hact] at hi
  obtain ⟨u, hR, hJ'⟩ := hstep st P.mem i a b P'.mem hJ hi.1 hsem hadm
  refine ⟨Function.update st i u, hJ', fun j => ?_⟩
  rw [hthreads]
  by_cases hj : j = i
  · subst hj
    rw [Function.update_self, Function.update_self]
    exact hi.2 b u hR
  · rw [Function.update_of_ne hj, Function.update_of_ne hj]
    exact hsafe j

end Pool

/-! ### Histories -/

section Histories
variable {D : Type}

/-- It was out at the start or has been given out, and has not come back since. Histories are
newest first. -/
def Out (start : Prop) (gives returns : D → Prop) : List D → Prop
  | [] => start
  | d :: ds => gives d ∨ ¬ returns d ∧ Out start gives returns ds

/-- It is never given out while it is out. -/
def Proper (start : Prop) (gives returns : D → Prop) : List D → Prop
  | [] => True
  | d :: ds => (gives d → ¬ Out start gives returns ds) ∧ Proper start gives returns ds

variable {start : Prop} {gives returns : D → Prop} {ds later earlier : List D} {d d' : D}

theorem Out.append (h : Out start gives returns ds) (hlater : ∀ r ∈ later, ¬ returns r) :
    Out start gives returns (later ++ ds) := by
  induction later with
  | nil => exact h
  | cons r later ih =>
    exact .inr ⟨hlater r (List.mem_cons_self ..), ih fun r' hr => hlater r' (List.mem_cons_of_mem r hr)⟩

theorem Proper.of_append (h : Proper start gives returns (later ++ ds)) : Proper start gives returns ds := by
  induction later with
  | nil => exact h
  | cons r later ih => exact ih h.2

/-- It came back before it was given out again. -/
theorem Proper.between (h : Proper start gives returns (later ++ d' :: (ds ++ d :: earlier))) (hd' : gives d')
    (hd : gives d) : ∃ r ∈ ds, returns r := by
  by_contra hnone
  exact h.of_append.1 hd' (Out.append (.inl hd) fun r hr hret => hnone ⟨r, hr, hret⟩)

/-- What never comes back is given out once. -/
theorem Proper.fresh (h : Proper start gives returns (d' :: ds)) (hd' : gives d') (hkept : ∀ r ∈ ds, ¬ returns r)
    (hd : d ∈ ds) : ¬ gives d := by
  intro hgives
  obtain ⟨newer, older, rfl⟩ := List.append_of_mem hd
  obtain ⟨r, hr, hret⟩ := @Proper.between D start gives returns newer [] older d d' h hd' hgives
  exact hkept r (List.mem_append_left _ hr) hret

end Histories

end CS330.Threads
