import Mathlib.Algebra.BigOperators.Group.Finset.Piecewise
import TPBench.Conc.Runs

/-!
# Interleaved Programs

A call that is not atomic as a whole is a sequence of atomic actions on the shared state,
where the next action may depend on the results of the earlier ones. `Prog` is the type of
such programs: a program has returned, or it performs a labelled action and continues with
its result. Programs form a monad, so that they are written like sequential code, and
`Prog.exec` runs a program alone.

Any number of processes, each with a program, interleave their actions on one shared state
(`ProgStep`). The labels of a run say which process performed which action, and from which
state.

## Reasoning

`Safe` is a rely-guarantee assertion. It is relative to an invariant `J` of the actions
performed so far and the shared state, to a relation `R` that says how the shared state can
evolve, and to a condition `good` on single actions. A program is safe at a state if its
next action, from every state the others may have led to, keeps `J`, respects `R` and leads
to a safe program. `Safe.bind` composes programs, `Safe.act` performs one action, and
`progs_invariant` is the rule for whole runs: if every program is safe at the start and
every action of the run is good, then `J` holds at the end, and every program that has
returned satisfies its postcondition.
-/

namespace Conc

/-! ### Programs -/

/-- A program of atomic actions over a state `σ`, labelled in `ℓ`, with errors in `ε` and a
result in `α`. -/
inductive Prog (ℓ σ ε : Type) (α : Type) : Type 1
  | ret (r : Except ε α)
  | act {β : Type} (l : ℓ) (m : EStateM ε σ β) (k : Except ε β → Prog ℓ σ ε α)

/-- The result of an action, without the state. -/
def outcome {ε σ β : Type} : EStateM.Result ε σ β → Except ε β
  | .ok b _ => .ok b
  | .error e _ => .error e

/-- The state behind an action. -/
def after {ε σ β : Type} : EStateM.Result ε σ β → σ
  | .ok _ s => s
  | .error _ s => s

namespace Prog

variable {ℓ σ ε α β : Type}

/-- Run a program, and then another one on its result; an error ends both. -/
def bind : Prog ℓ σ ε α → (α → Prog ℓ σ ε β) → Prog ℓ σ ε β
  | ret (.ok a), f => f a
  | ret (.error e), _ => ret (.error e)
  | act l m k, f => act l m fun r => (k r).bind f

instance : Monad (Prog ℓ σ ε) where
  pure a := ret (.ok a)
  bind := bind

/-- A program of one action. -/
def call (l : ℓ) (m : EStateM ε σ α) : Prog ℓ σ ε α := act l m ret

/-- A program that fails at once. -/
def fail (e : ε) : Prog ℓ σ ε α := ret (.error e)

/-- Inspect the result of a program, error or not. -/
def handle : Prog ℓ σ ε α → (Except ε α → Prog ℓ σ ε β) → Prog ℓ σ ε β
  | ret r, f => f r
  | act l m k, f => act l m fun r => (k r).handle f

/-- Run a program alone. -/
def exec : Prog ℓ σ ε α → EStateM ε σ α
  | ret (.ok a) => fun s => .ok a s
  | ret (.error e) => fun s => .error e s
  | act _ m k => fun s => exec (k (outcome (m s))) (after (m s))

theorem exec_call (l : ℓ) (m : EStateM ε σ α) : exec (call l m) = m := by
  funext s
  change exec (ret (outcome (m s))) (after (m s)) = m s
  rcases m s with ⟨a, s'⟩ | ⟨e, s'⟩
  · rfl
  · rfl

/-- Running a sequence of two programs alone runs them one after the other. -/
theorem exec_bind (p : Prog ℓ σ ε α) (f : α → Prog ℓ σ ε β) :
    exec (p >>= f) = (exec p >>= fun a => exec (f a)) := by
  induction p with
  | ret r =>
      cases r with
      | ok a => rfl
      | error e => rfl
  | act l m k ih =>
      funext s
      exact congrFun (ih (outcome (m s))) (after (m s))

/-- Running a program alone whose result is inspected. -/
theorem exec_handle (p : Prog ℓ σ ε α) (f : Except ε α → Prog ℓ σ ε β) (s : σ) :
    exec (p.handle f) s = exec (f (outcome (exec p s))) (after (exec p s)) := by
  induction p generalizing s with
  | ret r =>
      cases r with
      | ok a => rfl
      | error e => rfl
  | act l m k ih => exact ih (outcome (m s)) (after (m s))

/-- A test between two programs. -/
theorem exec_ite {c : Prop} [Decidable c] (p q : Prog ℓ σ ε α) :
    exec (if c then p else q) = if c then exec p else exec q := by
  split
  · rfl
  · rfl

end Prog

/-! ### Interleaving -/

section Interleaving

variable {ι ℓ σ ε α : Type} [DecidableEq ι]

/-- Processes with programs over a shared state. -/
structure Procs (ι ℓ σ ε α : Type) : Type 1 where
  shared : σ
  prog : ι → Prog ℓ σ ε α

/-- A performed action: by whom, which one, and from which shared state. -/
structure Performed (ι ℓ σ : Type) where
  proc : ι
  label : ℓ
  state : σ

/-- One process performs its next action. -/
inductive ProgStep : Procs ι ℓ σ ε α → Performed ι ℓ σ → Procs ι ℓ σ ε α → Prop
  | act {s : Procs ι ℓ σ ε α} {i : ι} {β : Type} {l : ℓ} {m : EStateM ε σ β}
      {k : Except ε β → Prog ℓ σ ε α} : s.prog i = .act l m k →
      ProgStep s ⟨i, l, s.shared⟩
        ⟨after (m s.shared), Function.update s.prog i (k (outcome (m s.shared)))⟩

/-- A run goes on with an action that succeeds. -/
theorem Run.act_ok {s₀ s : Procs ι ℓ σ ε α} {t : List (Performed ι ℓ σ)}
    (hrun : Run ProgStep s₀ t s) {i : ι} {β : Type} {l : ℓ} {m : EStateM ε σ β}
    {k : Except ε β → Prog ℓ σ ε α} {b : β} {x : σ} (hprog : s.prog i = .act l m k)
    (hm : m s.shared = .ok b x) :
    Run ProgStep s₀ (t ++ [⟨i, l, s.shared⟩])
      ⟨x, Function.update s.prog i (k (.ok b))⟩ := by
  have hstep := ProgStep.act hprog
  rw [hm] at hstep
  exact .snoc hrun hstep

/-- The labels of the actions process `i` performed. -/
def own (i : ι) (t : List (Performed ι ℓ σ)) : List ℓ :=
  (t.filter (·.proc = i)).map Performed.label

/-- A sum over the actions of a run is the sum over the processes of the sums over their
own actions. -/
theorem sum_labels_eq {M : Type} [AddCommMonoid M] [Fintype ι] (f : ℓ → M)
    (t : List (Performed ι ℓ σ)) :
    ((t.map Performed.label).map f).sum = ∑ i, ((own i t).map f).sum := by
  induction t with
  | nil => simp [own]
  | cons p t ih =>
      have hstep : ∀ i, ((own i (p :: t)).map f).sum =
          (if p.proc = i then f p.label else 0) + ((own i t).map f).sum := by
        intro i
        by_cases hi : p.proc = i <;> simp [own, hi]
      rw [List.map_cons, List.map_cons, List.sum_cons, ih,
        Finset.sum_congr rfl fun i _ => hstep i, Finset.sum_add_distrib,
        Finset.sum_ite_eq Finset.univ p.proc, if_pos (Finset.mem_univ _)]

end Interleaving

/-! ### Rely and guarantee -/

section Safe

variable {ι ℓ σ ε α β : Type} {J : List ℓ → σ → Prop} {R : σ → σ → Prop}
  {good : ℓ → σ → Prop}

/-- `Safe J R good p Q o s`: a process that has performed the actions `o` and goes on with
`p`, with `s` the last state it knows of, keeps the invariant `J` and the relation `R` as
long as its actions are good, and returns in a state that satisfies `Q`. -/
def Safe (J : List ℓ → σ → Prop) (R : σ → σ → Prop) (good : ℓ → σ → Prop) :
    Prog ℓ σ ε α → (Except ε α → List ℓ → σ → Prop) → List ℓ → σ → Prop
  | .ret r, Q, o, s => Q r o s
  | .act l m k, Q, o, s => ∀ h s₁, R s s₁ → J h s₁ → good l s₁ →
      J (h ++ [l]) (after (m s₁)) ∧ R s₁ (after (m s₁)) ∧
        Safe J R good (k (outcome (m s₁))) Q (o ++ [l]) (after (m s₁))

/-- A program of one action. -/
theorem Safe.call {l : ℓ} {m : EStateM ε σ α} {Q : Except ε α → List ℓ → σ → Prop}
    {o : List ℓ} {s : σ} (h : ∀ g s₁, R s s₁ → J g s₁ → good l s₁ →
      J (g ++ [l]) (after (m s₁)) ∧ R s₁ (after (m s₁)) ∧
        Q (outcome (m s₁)) (o ++ [l]) (after (m s₁))) :
    Safe J R good (Prog.call l m) Q o s := h

/-- A safe program followed by programs that are safe from its results is safe. -/
theorem Safe.bind {p : Prog ℓ σ ε α} {f : α → Prog ℓ σ ε β}
    {Q : Except ε α → List ℓ → σ → Prop} {Q' : Except ε β → List ℓ → σ → Prop} {o : List ℓ}
    {s : σ} (hp : Safe J R good p Q o s)
    (hf : ∀ a o s, Q (.ok a) o s → Safe J R good (f a) Q' o s)
    (he : ∀ e o s, Q (.error e) o s → Q' (.error e) o s) :
    Safe J R good (p >>= f) Q' o s := by
  induction p generalizing o s with
  | ret r =>
      cases r with
      | ok a => exact hf a o s hp
      | error e => exact he e o s hp
  | act l m k ih =>
      intro h s₁ hR hJ hgood
      obtain ⟨hJ', hR', hk⟩ := hp h s₁ hR hJ hgood
      exact ⟨hJ', hR', ih (outcome (m s₁)) hk⟩

/-- The same for a program whose errors are inspected, too. -/
theorem Safe.handle {p : Prog ℓ σ ε α} {f : Except ε α → Prog ℓ σ ε β}
    {Q : Except ε α → List ℓ → σ → Prop} {Q' : Except ε β → List ℓ → σ → Prop} {o : List ℓ}
    {s : σ} (hp : Safe J R good p Q o s)
    (hf : ∀ r o s, Q r o s → Safe J R good (f r) Q' o s) :
    Safe J R good (p.handle f) Q' o s := by
  induction p generalizing o s with
  | ret r => exact hf r o s hp
  | act l m k ih =>
      intro h s₁ hR hJ hgood
      obtain ⟨hJ', hR', hk⟩ := hp h s₁ hR hJ hgood
      exact ⟨hJ', hR', ih (outcome (m s₁)) hk⟩

/-- A safe program is safe with every weaker postcondition. -/
theorem Safe.imp {p : Prog ℓ σ ε α} {Q Q' : Except ε α → List ℓ → σ → Prop} {o : List ℓ}
    {s : σ} (h : Safe J R good p Q o s) (himp : ∀ r o s, Q r o s → Q' r o s) :
    Safe J R good p Q' o s := by
  induction p generalizing o s with
  | ret r => exact himp r o s h
  | act l m k ih =>
      intro g s₁ hR hJ hgood
      obtain ⟨hJ', hR', hk⟩ := h g s₁ hR hJ hgood
      exact ⟨hJ', hR', ih (outcome (m s₁)) hk⟩

/-- A safe program stays safe while the shared state evolves, if its postcondition does. -/
theorem Safe.mono {p : Prog ℓ σ ε α} {Q : Except ε α → List ℓ → σ → Prop} {o : List ℓ}
    {s s' : σ} (htrans : ∀ a b c, R a b → R b c → R a c)
    (hQ : ∀ r o a b, R a b → Q r o a → Q r o b) (hR : R s s')
    (h : Safe J R good p Q o s) : Safe J R good p Q o s' := by
  cases p with
  | ret r => exact hQ r o s s' hR h
  | act l m k =>
      intro g s₁ hR₁ hJ hgood
      exact h g s₁ (htrans s s' s₁ hR hR₁) hJ hgood

variable [DecidableEq ι]

/-- **The rule for interleaved programs**: if every program is safe at the start, and every
action of the run is good, then the invariant holds at the end of the run, the shared state
has evolved as the relation says, and every program that has returned satisfies its
postcondition. -/
theorem progs_invariant {Q : ι → Except ε α → List ℓ → σ → Prop} {s₀ s : Procs ι ℓ σ ε α}
    {t : List (Performed ι ℓ σ)} (hrefl : ∀ a, R a a)
    (htrans : ∀ a b c, R a b → R b c → R a c)
    (hQ : ∀ i r o a b, R a b → Q i r o a → Q i r o b) (hinit : J [] s₀.shared)
    (hsafe : ∀ i, Safe J R good (s₀.prog i) (Q i) [] s₀.shared)
    (hrun : Run ProgStep s₀ t s) (hgood : ∀ p ∈ t, good p.label p.state) :
    J (t.map Performed.label) s.shared ∧ R s₀.shared s.shared ∧
      ∀ i, Safe J R good (s.prog i) (Q i) (own i t) s.shared := by
  induction hrun with
  | nil => exact ⟨hinit, hrefl _, hsafe⟩
  | @snoc t s s' p _ hstep ih =>
      obtain ⟨hJ, hR, hall⟩ := ih fun q hq => hgood q (List.mem_append_left _ hq)
      have hlast := hgood p (by simp)
      cases hstep with
      | @act i β l m k hprog =>
          have hown := hall i
          rw [hprog] at hown
          obtain ⟨hJ', hR', hk⟩ := hown _ s.shared (hrefl _) hJ hlast
          rw [List.map_append, List.map_singleton]
          refine ⟨hJ', htrans _ _ _ hR hR', ?_⟩
          intro j
          by_cases hj : i = j
          · subst hj
            simpa [own] using hk
          · have hsame : own j (t ++ [⟨i, l, s.shared⟩]) = own j t := by simp [own, hj]
            rw [hsame]
            simp only [Function.update_of_ne (Ne.symm hj)]
            exact (hall j).mono htrans (hQ j) hR'

end Safe

end Conc
