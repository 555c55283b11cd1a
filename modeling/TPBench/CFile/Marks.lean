import Mathlib.Data.List.Infix

/-!
# Marks in a Sequence

A mark is a fixed sequence that a scanner looks for. When the mark has no border, that is when no
proper suffix of it is a prefix of it, two places where it stands cannot overlap, so in front of
a mark there is a further one only if what is in front holds it as a whole
(`infix_of_take_drop`).
-/

namespace Marks

variable {α : Type*} {m xs ys : List α}

/-- No proper suffix of the mark is a prefix of it. -/
def Borderless (m : List α) : Prop :=
  ∀ k, 0 < k → k < m.length → m.drop k ≠ m.take (m.length - k)

/-- A place of the mark that starts in front of another one lies in front of it. -/
theorem infix_of_take_drop (hm : Borderless m) {q : ℕ} (hq : q < xs.length)
    (h : ((xs ++ (m ++ ys)).drop q).take m.length = m) : m <:+: xs := by
  rw [List.drop_append_of_le_length hq.le] at h
  by_cases hfit : m.length ≤ (xs.drop q).length
  · rw [List.take_append_of_le_length hfit] at h
    rw [← h]
    exact (List.take_prefix _ _).isInfix.trans (List.drop_suffix _ _).isInfix
  · -- the end of the mark would be the start of the one behind
    have hlen : (xs.drop q).length = xs.length - q := List.length_drop
    have hdrop := congrArg (List.drop (xs.drop q).length) h
    rw [List.drop_take, List.drop_left,
      List.take_append_of_le_length (Nat.sub_le _ _)] at hdrop
    exact absurd hdrop.symm (hm _ (by omega) (by omega))

/-- A sequence that holds the mark has a place for it. -/
theorem exists_take_drop (h : m <:+: xs) (ys : List α) :
    ∃ q, q + m.length ≤ xs.length ∧ ((xs ++ ys).drop q).take m.length = m := by
  obtain ⟨s, t, rfl⟩ := h
  refine ⟨s.length, ?_, ?_⟩
  · simp only [List.length_append]
    omega
  · rw [List.append_assoc, List.append_assoc, List.drop_left, List.take_left]

end Marks
