import Mathlib.Logic.Function.Basic
import Mathlib.Data.List.Infix

/-!
# Runs and Interleaved Calls

A concurrent system is a labelled step relation, and `Run step s₀ t s` says that the
labels `t` lead from `s₀` to `s`. Properties of all reachable states are proved with
`Run.invariant`, whose invariant may mention the labels of the run so far.

## Interleaved calls

The second part instantiates runs with processes that each have a queue of calls to
make on one shared state, every call being one step (`CallStep`). A run of such a
system is an interleaving of the queues, and its labels are the completed calls with
their results. Two facts describe every interleaving:

* `calls_order` — the calls a process has completed, followed by the calls it has still
  to make, are its queue: no call is lost, none is made twice, and none overtakes
  another call of its process;
* `calls_invariant` — if every call succeeds from a state that satisfies the invariant
  and re-establishes it, then every call of the run succeeded and the invariant holds
  of the sequence of calls in the order in which they were made.
-/

namespace Conc

section Run

universe u v

variable {σ : Type u} {ℓ : Type v}

/-- `Run step s₀ t s`: steps with the labels `t`, in this order, lead from `s₀` to `s`. -/
inductive Run (step : σ → ℓ → σ → Prop) (s₀ : σ) : List ℓ → σ → Prop
  | nil : Run step s₀ [] s₀
  | snoc {t : List ℓ} {s s' : σ} {l : ℓ} :
      Run step s₀ t s → step s l s' → Run step s₀ (t ++ [l]) s'

variable {step : σ → ℓ → σ → Prop} {s₀ s : σ} {t : List ℓ}

/-- Runs are concatenated. -/
theorem Run.trans {s' : σ} {t' : List ℓ} (h : Run step s₀ t s) (h' : Run step s t' s') :
    Run step s₀ (t ++ t') s' := by
  induction h' with
  | nil => simpa using h
  | snoc _ hstep ih =>
      rw [← List.append_assoc]
      exact ih.snoc hstep

/-- A run without steps stays where it starts. -/
theorem Run.nil_inv (h : Run step s₀ [] s) : s = s₀ := by
  generalize ht : [] = u at h
  cases h with
  | nil => rfl
  | @snoc t => cases List.append_ne_nil_of_right_ne_nil t (List.cons_ne_nil _ []) ht.symm

/-- The last step of a run. -/
theorem Run.snoc_inv {l : ℓ} {s' : σ} (h : Run step s₀ (t ++ [l]) s') :
    ∃ s, Run step s₀ t s ∧ step s l s' := by
  generalize ht : t ++ [l] = u at h
  cases h with
  | nil => cases List.append_ne_nil_of_right_ne_nil t (List.cons_ne_nil l []) ht
  | @snoc t' s s' l' hrun hstep =>
      obtain ⟨rfl, hl⟩ := List.append_inj' ht rfl
      obtain rfl : l = l' := List.head_eq_of_cons_eq hl
      exact ⟨s, hrun, hstep⟩

/-- Where a label leads to one state, so does a run. -/
theorem Run.unique (hstep : ∀ s l s' s'', step s l s' → step s l s'' → s' = s'')
    {s' : σ} (h : Run step s₀ t s) (h' : Run step s₀ t s') : s = s' := by
  induction h generalizing s' with
  | nil =>
      generalize ht : ([] : List ℓ) = u at h'
      cases h' with
      | nil => rfl
      | snoc _ _ => cases List.append_ne_nil_of_right_ne_nil _ (List.cons_ne_nil _ _) ht.symm
  | snoc _ hs ih =>
      obtain ⟨s₁, hrun, hs'⟩ := h'.snoc_inv
      obtain rfl := ih hrun
      exact hstep _ _ _ _ hs hs'

/-- A property of the labels so far and the state that holds initially and is preserved
by every step holds along every run. -/
theorem Run.invariant {P : List ℓ → σ → Prop} (hinit : P [] s₀)
    (hstep : ∀ t s l s', P t s → step s l s' → P (t ++ [l]) s')
    (h : Run step s₀ t s) : P t s := by
  induction h with
  | nil => exact hinit
  | snoc _ hs ih => exact hstep _ _ _ _ ih hs

/-- A relation that every step can be followed along leads a run of one system to a run of
another one, with the same labels. -/
theorem Run.simulates {τ : Type u} {step' : τ → ℓ → τ → Prop} {R : σ → τ → Prop} {a₀ : τ}
    (hinit : R s₀ a₀)
    (hstep : ∀ s a l s', R s a → step s l s' → ∃ a', step' a l a' ∧ R s' a')
    (h : Run step s₀ t s) : ∃ a, Run step' a₀ t a ∧ R s a := by
  induction h with
  | nil => exact ⟨a₀, .nil, hinit⟩
  | snoc _ hs ih =>
      obtain ⟨a, hrun, hR⟩ := ih
      obtain ⟨a', ha, hR'⟩ := hstep _ a _ _ hR hs
      exact ⟨a', hrun.snoc ha, hR'⟩

end Run

/-! ### Interleaved calls -/

section Calls

variable {ι α σ ε β : Type} [DecidableEq ι]

/-- Processes over a shared state, each with the calls it has still to make. -/
structure Calls (ι α σ : Type) where
  shared : σ
  pending : ι → List α

/-- A completed call: who made it, the call, and what it returned. -/
structure Done (ι α ε β : Type) where
  proc : ι
  call : α
  result : Except ε β

/-- One process makes the next call of its queue. -/
inductive CallStep (call : α → EStateM ε σ β) :
    Calls ι α σ → Done ι α ε β → Calls ι α σ → Prop
  | ok {s : Calls ι α σ} {i : ι} {a : α} {rest : List α} {b : β} {sh : σ} :
      s.pending i = a :: rest → call a s.shared = .ok b sh →
      CallStep call s ⟨i, a, .ok b⟩ ⟨sh, Function.update s.pending i rest⟩
  | error {s : Calls ι α σ} {i : ι} {a : α} {rest : List α} {e : ε} {sh : σ} :
      s.pending i = a :: rest → call a s.shared = .error e sh →
      CallStep call s ⟨i, a, .error e⟩ ⟨sh, Function.update s.pending i rest⟩

variable {call : α → EStateM ε σ β} {s₀ s s' : Calls ι α σ} {d : Done ι α ε β}
  {t : List (Done ι α ε β)}

/-- A step takes the first call off the queue of its process, and touches no other
queue. -/
theorem CallStep.pending (h : CallStep call s d s') :
    ∃ rest, s.pending d.proc = d.call :: rest ∧
      s'.pending = Function.update s.pending d.proc rest := by
  cases h with
  | ok hp _ => exact ⟨_, hp, rfl⟩
  | error hp _ => exact ⟨_, hp, rfl⟩

/-- **Interleavings keep the queues**: what a process has called, in order, followed by
what it has still to call, is the queue it started with. -/
theorem calls_order (h : Run (CallStep call) s₀ t s) (i : ι) :
    (t.filter (·.proc = i)).map Done.call ++ s.pending i = s₀.pending i := by
  refine h.invariant
    (P := fun t s => (t.filter (·.proc = i)).map Done.call ++ s.pending i = s₀.pending i)
    rfl ?_
  intro t s d s' ih hd
  obtain ⟨rest, hp, hp'⟩ := hd.pending
  by_cases hi : d.proc = i
  · subst hi
    simp [hp', ← ih, hp]
  · simp [hp', hi, ← ih, Function.update_of_ne (Ne.symm hi)]

/-- **The invariant rule for interleaved calls**: a property of the calls made so far
and the shared state under which the next call of the run succeeds, and which that call
re-establishes, makes every call of the run succeed and holds at its end. -/
theorem calls_invariant {P : List α → σ → Prop} (h : Run (CallStep call) s₀ t s)
    (hinit : P [] s₀.shared)
    (hcall : ∀ as a sh, as ++ [a] <+: t.map Done.call → P as sh →
      ∃ b sh', call a sh = .ok b sh' ∧ P (as ++ [a]) sh') :
    (∀ d ∈ t, ∃ b, d.result = .ok b) ∧ P (t.map Done.call) s.shared := by
  induction h with
  | nil => exact ⟨by simp, hinit⟩
  | @snoc t s s' d _ hd ih =>
      have hext : t.map Done.call <+: (t ++ [d]).map Done.call := by
        rw [List.map_append]
        exact List.prefix_append _ _
      obtain ⟨hok, hP⟩ := ih fun as a sh hpre => hcall as a sh (hpre.trans hext)
      obtain ⟨b, sh', hrun, hP'⟩ := hcall (t.map Done.call) d.call s.shared (by simp) hP
      rw [List.map_append, List.map_singleton]
      cases hd with
      | ok hp hc =>
          rw [hrun] at hc
          cases hc
          refine ⟨?_, hP'⟩
          intro d hd
          rcases List.mem_append.mp hd with hd | hd
          · exact hok d hd
          · obtain rfl := List.mem_singleton.mp hd
            exact ⟨b, rfl⟩
      | error hp hc =>
          rw [hrun] at hc
          cases hc

end Calls

end Conc
