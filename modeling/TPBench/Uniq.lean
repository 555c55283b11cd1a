import Mathlib.Algebra.Order.Ring.Nat
import Mathlib.Data.List.Induction
import Mathlib.Data.List.Nodup
import Mathlib.Data.List.Perm.Subperm
import Mathlib.Tactic.Positivity.Basic
import Mathlib.Tactic.Ring

/-!
# Growing Arrays of Distinct Elements

An array takes elements one after the other and keeps each of them once, at the place where it
came first. It starts without room. When it is full its capacity doubles, from a first capacity
on, and there is no larger array when the doubled capacity exceeds the greatest integer (`add`).

What the array holds depends on the elements it was given and on nothing else: `Holds first top
seen` says that these are `seen`, where `top` is the largest capacity that doubling reaches.

## Main results

* `Holds.add`, `Holds.add_eq_none`: one more element is taken if and only if the distinct
  elements fit into the largest capacity.
-/

namespace Uniq

variable {α : Type} [BEq α] [LawfulBEq α] {first max top : ℕ} {seen : List α} {x : α}

/-! ### Distinct elements -/

/-- One more element, at its first appearance. -/
theorem eraseDups_concat (as : List α) (a : α) :
    (as ++ [a]).eraseDups = if a ∈ as then as.eraseDups else as.eraseDups ++ [a] := by
  rw [List.eraseDups_append]
  by_cases h : a ∈ as
  · rw [if_pos h]
    simp [List.removeAll, h]
  · rw [if_neg h]
    simp [List.removeAll, h, List.eraseDups_cons]

/-- More elements are no fewer distinct ones. -/
theorem length_eraseDups_le_append (as bs : List α) :
    as.eraseDups.length ≤ (as ++ bs).eraseDups.length := by
  rw [List.eraseDups_append, List.length_append]
  exact Nat.le_add_right _ _

omit [LawfulBEq α] in
/-- Elements have a distinct one among them. -/
theorem eraseDups_ne_nil {as : List α} (h : as ≠ []) : as.eraseDups ≠ [] := by
  obtain ⟨a, as, rfl⟩ := List.exists_cons_of_ne_nil h
  rw [List.eraseDups_cons]
  exact List.cons_ne_nil _ _

/-- The distinct elements are distinct. -/
theorem nodup_eraseDups (as : List α) : as.eraseDups.Nodup := by
  induction as using List.reverseRecOn with
  | nil => exact List.nodup_nil
  | append_singleton as a ih =>
      rw [eraseDups_concat]
      split_ifs with h
      · exact ih
      · rw [← List.concat_eq_append, List.nodup_concat, List.mem_eraseDups]
        exact ⟨h, ih⟩

/-- Distinct elements that are among others are no more than these. -/
theorem length_eraseDups_le {as bs : List α} (h : ∀ a ∈ as, a ∈ bs) :
    as.eraseDups.length ≤ bs.length :=
  (List.Nodup.subperm (nodup_eraseDups as) fun a ha =>
    h a (List.mem_eraseDups.mp ha)).length_le

/-! ### The array -/

/-- The elements of an array, and how many it has room for. -/
structure Growing (α : Type) where
  elems : List α
  cap : ℕ

/-- An array without room. -/
def Growing.empty : Growing α := ⟨[], 0⟩

/-- One more element, unless the array has it. -/
def add (first max : ℕ) (x : α) (g : Growing α) : Option (Growing α) :=
  if x ∈ g.elems then some g
  else if g.cap ≤ g.elems.length then
    let ncap := if g.cap = 0 then first else g.cap * 2
    if ncap ≤ max then some ⟨g.elems ++ [x], ncap⟩ else none
  else some ⟨g.elems ++ [x], g.cap⟩

/-- The largest capacity that is reached from the first one by doubling. -/
structure Largest (first max top : ℕ) : Prop where
  pos : 0 < first
  doubled : ∃ k, top = first * 2 ^ k
  le : top ≤ max
  last : max < top * 2

/-- The array has taken these elements. -/
structure Holds (first top : ℕ) (seen : List α) (g : Growing α) : Prop where
  elems : g.elems = seen.eraseDups
  room : g.elems.length ≤ g.cap
  cap : g.cap = 0 ∨ ∃ k, g.cap = first * 2 ^ k ∧ g.cap ≤ top

/-- The first capacity is no larger than the largest one. -/
theorem Largest.first_le (h : Largest first max top) : first ≤ top := by
  obtain ⟨k, rfl⟩ := h.doubled
  exact Nat.le_mul_of_pos_right _ (by positivity)

/-- A capacity below the largest one can be doubled. -/
theorem Largest.mul_two_le (h : Largest first max top) {k : ℕ} (hk : first * 2 ^ k < top) :
    first * 2 ^ k * 2 ≤ top := by
  obtain ⟨m, rfl⟩ := h.doubled
  have hkm : k < m := by
    by_contra hge
    have hmono : first * 2 ^ m ≤ first * 2 ^ k := by
      gcongr
      · omega
      · omega
    omega
  calc first * 2 ^ k * 2 = first * 2 ^ (k + 1) := by ring
    _ ≤ first * 2 ^ m := by
      gcongr
      · omega
      · omega

namespace Holds

omit [LawfulBEq α] in
/-- Nothing has been taken at the start. -/
theorem empty : Holds first top [] (Growing.empty : Growing α) where
  elems := rfl
  room := Nat.le_refl 0
  cap := .inl rfl

/-- The array has what it has taken. -/
theorem mem_iff {g : Growing α} (h : Holds first top seen g) : x ∈ g.elems ↔ x ∈ seen := by
  rw [h.elems, List.mem_eraseDups]

/-- An element that is new comes last. -/
theorem elems_concat {g : Growing α} (h : Holds first top seen g) (hx : x ∉ seen) :
    g.elems ++ [x] = (seen ++ [x]).eraseDups := by
  rw [eraseDups_concat, if_neg hx, h.elems]

/-- An element is taken when the distinct elements fit into the largest capacity. -/
theorem add {g : Growing α} (h : Holds first top seen g) (htop : Largest first max top)
    (hfit : (seen ++ [x]).eraseDups.length ≤ top) :
    ∃ g', add first max x g = some g' ∧ Holds first top (seen ++ [x]) g' := by
  by_cases hx : x ∈ seen
  · refine ⟨g, by rw [Uniq.add, if_pos (h.mem_iff.mpr hx)], ?_, h.room, h.cap⟩
    rw [eraseDups_concat, if_pos hx, h.elems]
  · have hnew := h.elems_concat hx
    have hlen : g.elems.length + 1 ≤ top := by
      rw [← hnew, List.length_append, List.length_singleton] at hfit
      exact hfit
    rw [Uniq.add, if_neg (mt h.mem_iff.mp hx)]
    by_cases hfull : g.cap ≤ g.elems.length
    · -- the array is full and grows
      rw [if_pos hfull]
      rcases h.cap with hzero | ⟨k, hk, -⟩
      · refine ⟨⟨g.elems ++ [x], first⟩, ?_, hnew, ?_, .inr ⟨0, by simp, htop.first_le⟩⟩
        · simp [hzero, htop.first_le.trans htop.le]
        · have := h.room
          have := htop.pos
          rw [List.length_append, List.length_singleton]
          dsimp only
          omega
      · have hgrow : g.cap * 2 ≤ top := by
          rw [hk]
          refine htop.mul_two_le ?_
          omega
        have hpos : g.cap ≠ 0 := by
          have : 0 < first * 2 ^ k := Nat.mul_pos htop.pos (by positivity)
          omega
        refine ⟨⟨g.elems ++ [x], g.cap * 2⟩, ?_, hnew, ?_, .inr ⟨k + 1, ?_, hgrow⟩⟩
        · simp [hpos, hgrow.trans htop.le]
        · have := h.room
          rw [List.length_append, List.length_singleton]
          dsimp only
          omega
        · rw [hk]
          ring
    · rw [if_neg hfull]
      refine ⟨_, rfl, hnew, ?_, h.cap⟩
      rw [List.length_append, List.length_singleton]
      dsimp only
      omega

/-- An element is not taken when the distinct elements exceed the largest capacity. -/
theorem add_eq_none {g : Growing α} (h : Holds first top seen g) (htop : Largest first max top)
    (hfit : g.elems.length ≤ top) (hover : top < (seen ++ [x]).eraseDups.length) :
    Uniq.add first max x g = none := by
  have hx : x ∉ seen := by
    intro hx
    rw [eraseDups_concat, if_pos hx, ← h.elems] at hover
    omega
  have hlen : g.elems.length = top := by
    rw [← h.elems_concat hx, List.length_append, List.length_singleton] at hover
    omega
  have htop_pos : 0 < top := htop.pos.trans_le htop.first_le
  have hcap : g.cap = top := by
    have := h.room
    rcases h.cap with hzero | ⟨-, -, hle⟩
    · omega
    · omega
  have hlast := htop.last
  rw [Uniq.add, if_neg (mt h.mem_iff.mp hx), if_pos (by omega)]
  dsimp only
  rw [hcap, if_neg htop_pos.ne', if_neg (by omega)]

end Holds

end Uniq
