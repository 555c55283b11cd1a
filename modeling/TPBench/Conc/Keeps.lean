import TPBench.CFile.Stream
import TPBench.Conc.Progs

/-!
# Properties that a Program Keeps

`Keeps Q m` says that `m` leads from states with the property `Q` to states with `Q`, whether it
succeeds or fails. Nothing is said about what it returns. A program keeps what each of its calls
keeps (`Keeps.bind`), so the property is followed through a program without a look at its results
and at the places where it can stop.
-/

open CFile

namespace Conc

/-- The program keeps a property of the state, whether it fails or not. -/
def Keeps {ε σ α : Type} (Q : σ → Prop) (m : EStateM ε σ α) : Prop := ∀ s, Q s → Q (after (m s))

section Rules

variable {ε σ α β : Type} {Q : σ → Prop}

theorem keeps_pure (a : α) : Keeps Q (pure a : EStateM ε σ α) := fun _ h => h

/-- One program after the other. -/
theorem Keeps.bind {m : EStateM ε σ α} {f : α → EStateM ε σ β} (hm : Keeps Q m)
    (hf : ∀ a, Keeps Q (f a)) : Keeps Q (m >>= f) := by
  intro s hs
  have hm' := hm s hs
  rcases hrun : m s with ⟨a, s₁⟩ | ⟨e, s₁⟩
  · rw [hrun] at hm'
    rw [bind_ok hrun]
    exact hf a s₁ hm'
  · rw [hrun] at hm'
    rwa [bind_error hrun]

/-- A program that leaves the state alone keeps everything. -/
theorem keeps_of_after {m : EStateM ε σ α} (h : ∀ s, after (m s) = s) : Keeps Q m := by
  intro s hs
  rwa [h]

end Rules

end Conc
