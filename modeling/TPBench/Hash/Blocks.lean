import Mathlib.Algebra.Ring.Nat
import Mathlib.Data.List.Basic
import Mathlib.Order.Nat

/-!
# Hashing Block by Block

Many hash functions read their input in blocks of a fixed length `n` and fold a step over them.
`absorb` is this fold on an input of any length: the state after the whole blocks, and the rest,
which is shorter than a block.

What a program needs to know to keep a rest in a buffer between two pieces of the input is
`absorb_append`: the rest of the first piece goes in front of the second.
-/

namespace BlockHash

variable {σ α : Type*} (f : σ → List α → σ) (n : ℕ)

/-- The state after the whole blocks of an input, and the rest behind them. -/
def absorb (s : σ) (xs : List α) : σ × List α :=
  if 0 < n ∧ n ≤ xs.length then absorb (f s (xs.take n)) (xs.drop n) else (s, xs)
termination_by xs.length
decreasing_by
  rw [List.length_drop]
  omega

variable {f n} {s : σ} {xs ys : List α}

/-- Less than a block is all rest. -/
theorem absorb_of_lt (h : xs.length < n) : absorb f n s xs = (s, xs) := by
  rw [absorb, if_neg (by omega)]

/-- A whole block in front. -/
theorem absorb_of_le (hn : 0 < n) (h : n ≤ xs.length) :
    absorb f n s xs = absorb f n (f s (xs.take n)) (xs.drop n) := by
  conv_lhs => rw [absorb, if_pos ⟨hn, h⟩]

/-- A block and what follows. -/
theorem absorb_block (hn : 0 < n) (h : xs.length = n) :
    absorb f n s (xs ++ ys) = absorb f n (f s xs) ys := by
  rw [absorb_of_le hn (by rw [List.length_append]; omega), List.take_left' h, List.drop_left' h]

/-- The rest is shorter than a block, and has what is left of the length. -/
theorem length_absorb (hn : 0 < n) (s : σ) (xs : List α) :
    (absorb f n s xs).2.length = xs.length % n := by
  induction s, xs using absorb.induct (f := f) (n := n) with
  | case1 s xs h ih =>
      rw [absorb_of_le hn h.2, ih, List.length_drop, ← Nat.mod_eq_sub_mod h.2]
  | case2 s xs h =>
      have hlt : xs.length < n := by
        by_contra hle
        exact h ⟨hn, Nat.le_of_not_lt hle⟩
      rw [absorb_of_lt hlt, Nat.mod_eq_of_lt hlt]

/-- **Two pieces**: the rest of the first one goes in front of the second one. -/
theorem absorb_append (hn : 0 < n) (s : σ) (xs ys : List α) :
    absorb f n s (xs ++ ys) = absorb f n (absorb f n s xs).1 ((absorb f n s xs).2 ++ ys) := by
  induction s, xs using absorb.induct (f := f) (n := n) with
  | case1 s xs h ih =>
      have hle : n ≤ (xs ++ ys).length := by
        rw [List.length_append]
        exact h.2.trans (Nat.le_add_right _ _)
      rw [absorb_of_le hn h.2, absorb_of_le hn hle, List.take_append_of_le_length h.2,
        List.drop_append_of_le_length h.2, ih]
  | case2 s xs h =>
      have hlt : xs.length < n := by
        by_contra hle
        exact h ⟨hn, Nat.le_of_not_lt hle⟩
      rw [absorb_of_lt hlt]

end BlockHash
