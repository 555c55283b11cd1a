import TPBench.Conc.Progs

/-!
# Actions that Fail

An action of a program can fail for a reason that is not in the model: a file cannot be opened,
or a disk is full. Such an action leaves the shared state as it is, and the program goes on with
the error. `Prog.failing` is the program in which the actions of a plan fail so.

`Alone F p Q s` is the assertion about a program that runs alone from `s`: whichever of its
actions fail with errors in `F`, it ends with `Q`. It has a rule for each way to build a program,
and `Alone.exec` is what it says about a run. With an empty `F` nothing fails.
-/

namespace Conc

/-! ### Plans of failures -/

namespace Prog

variable {ℓ σ ε α : Type}

/-- An action, or its failure. -/
def orFault {β : Type} (m : EStateM ε σ β) : Option ε → EStateM ε σ β
  | none => m
  | some e => fun s => .error e s

/-- The program with the failures of a plan, which has an entry for each action. -/
def failing : Prog ℓ σ ε α → (ℕ → Option ε) → Prog ℓ σ ε α
  | ret r, _ => ret r
  | act l m k, fault => act l (orFault m (fault 0)) fun r => (k r).failing fun n => fault (n + 1)

/-- Where nothing fails, the program is as it was. -/
theorem failing_of_none {fault : ℕ → Option ε} (h : ∀ n, fault n = none) (p : Prog ℓ σ ε α) :
    p.failing fault = p := by
  induction p generalizing fault with
  | ret r => rfl
  | act l m k ih =>
      rw [failing, h 0]
      exact congrArg (act l m) (funext fun r => ih r fun n => h (n + 1))

end Prog

/-! ### Programs that run alone -/

section Alone

variable {ℓ σ ε α β : Type} {F : ε → Prop}

/-- Whichever actions fail with errors in `F`, the program, run alone from `s`, ends with `Q`. -/
def Alone (F : ε → Prop) : Prog ℓ σ ε α → (Except ε α → σ → Prop) → σ → Prop
  | .ret r, Q, s => Q r s
  | .act _ m k, Q, s =>
      Alone F (k (outcome (m s))) Q (after (m s)) ∧ ∀ e, F e → Alone F (k (.error e)) Q s

variable {p : Prog ℓ σ ε α} {Q : Except ε α → σ → Prop} {s : σ}

/-- A program of one action. -/
theorem Alone.call {l : ℓ} {m : EStateM ε σ α} (h : Q (outcome (m s)) (after (m s)))
    (he : ∀ e, F e → Q (.error e) s) : Alone F (Prog.call l m) Q s :=
  ⟨h, he⟩

/-- A program followed by programs on its results. -/
theorem Alone.bind {f : α → Prog ℓ σ ε β} {Q' : Except ε β → σ → Prop} (hp : Alone F p Q s)
    (hf : ∀ a s, Q (.ok a) s → Alone F (f a) Q' s)
    (he : ∀ e s, Q (.error e) s → Q' (.error e) s) : Alone F (p >>= f) Q' s := by
  induction p generalizing s with
  | ret r =>
      cases r with
      | ok a => exact hf a s hp
      | error e => exact he e s hp
  | act l m k ih => exact ⟨ih _ hp.1, fun e hF => ih _ (hp.2 e hF)⟩

/-- The same for a program whose errors are inspected, too. -/
theorem Alone.handle {f : Except ε α → Prog ℓ σ ε β} {Q' : Except ε β → σ → Prop}
    (hp : Alone F p Q s) (hf : ∀ r s, Q r s → Alone F (f r) Q' s) :
    Alone F (p.handle f) Q' s := by
  induction p generalizing s with
  | ret r => exact hf r s hp
  | act l m k ih => exact ⟨ih _ hp.1, fun e hF => ih _ (hp.2 e hF)⟩

/-- What a program ends with may be weakened. -/
theorem Alone.imp {Q' : Except ε α → σ → Prop} (h : Alone F p Q s)
    (himp : ∀ r s, Q r s → Q' r s) : Alone F p Q' s := by
  induction p generalizing s with
  | ret r => exact himp r s h
  | act l m k ih => exact ⟨ih _ h.1, fun e hF => ih _ (h.2 e hF)⟩

/-- **What the assertion says**: with the failures of any plan, the program ends with `Q`. -/
theorem Alone.exec (h : Alone F p Q s) {fault : ℕ → Option ε}
    (hfault : ∀ n, ∀ e ∈ fault n, F e) :
    Q (outcome ((p.failing fault).exec s)) (after ((p.failing fault).exec s)) := by
  induction p generalizing s fault with
  | ret r =>
      cases r with
      | ok a => exact h
      | error e => exact h
  | act l m k ih =>
      have hrest : ∀ n, ∀ e ∈ fault (n + 1), F e := fun n => hfault (n + 1)
      rcases hplan : fault 0 with - | e
      · rw [Prog.failing, hplan]
        exact ih _ h.1 hrest
      · rw [Prog.failing, hplan]
        exact ih _ (h.2 e (hfault 0 e hplan)) hrest

end Alone

end Conc
