import Mathlib.Algebra.BigOperators.Group.List.Basic
import Mathlib.Algebra.Order.BigOperators.GroupWithZero.List
import Mathlib.Data.List.Perm.Basic
import Mathlib.Data.List.Sections
import Mathlib.Tactic.Linarith
import Mathlib.Tactic.Ring

/-!
# Counting Through Combinations

A list of dials, each of which has a number of positions, is run through by a counter: the first
dial takes the remainder of the counter, and the quotient goes to the dials behind it (`digits`).
A counter below the product of the sizes meets every combination of positions once, in the order
of `List.sections` (`map_digits_range`). A program that gives the fastest digit to the last dial
meets the same combinations in another order (`map_digits_reverse_perm`).

Replacing one object by several copies, one dial after the other, makes fewer objects than there
are combinations as soon as two dials have several positions (`all_one_of_grown`).
-/

namespace Odometer

variable {α δ : Type}

/-! ### Combinations -/

theorem flatMap_map_swap {β γ : Type} (f : α → β → γ) (as : List α) (bs : List β) :
    (as.flatMap fun a => bs.map (f a)).Perm (bs.flatMap fun b => as.map fun a => f a b) := by
  induction as with
  | nil => simp
  | cons a as ih =>
      rw [List.flatMap_cons]
      exact (ih.append_left _).trans (List.map_append_flatMap_perm bs (f a) _)

/-- The combinations with one more list behind the others. -/
theorem sections_concat_perm (L : List (List α)) (l : List α) :
    (L ++ [l]).sections.Perm (L.sections.flatMap fun s => l.map fun a => s ++ [a]) := by
  induction L with
  | nil => simp
  | cons m L ih =>
      rw [List.cons_append, List.sections, List.sections, List.flatMap_assoc]
      refine (ih.flatMap_right _).trans ?_
      rw [List.flatMap_assoc]
      refine .flatMap_left _ fun s _ => ?_
      rw [List.flatMap_map, List.flatMap_map]
      exact flatMap_map_swap (fun a b => b :: (s ++ [a])) l m

/-- The combinations do not depend on the order of the lists. -/
theorem sections_reverse_perm (L : List (List α)) :
    (L.reverse.sections.map List.reverse).Perm L.sections := by
  induction L with
  | nil => simp
  | cons l L ih =>
      rw [List.reverse_cons]
      refine ((sections_concat_perm L.reverse l).map _).trans ?_
      rw [List.map_flatMap, List.sections]
      have hrest := ih.flatMap_right fun s => l.map fun a => a :: s
      rw [List.flatMap_map] at hrest
      refine .trans ?_ hrest
      refine .flatMap_left _ fun s _ => ?_
      rw [List.map_map]
      refine .of_eq (List.map_congr_left fun a _ => ?_)
      simp

theorem length_sections (L : List (List α)) :
    L.sections.length = (L.map List.length).prod := by
  induction L with
  | nil => rfl
  | cons l L ih =>
      rw [List.sections, List.length_flatMap, List.map_cons, List.prod_cons, ← ih]
      simp [Nat.mul_comm]

/-- The combinations of lists of which one alone may have several elements. -/
theorem sections_of_singles (a : δ → α) (xs ys : List δ) (l : List α) :
    (xs.map (fun d => [a d]) ++ l :: ys.map fun d => [a d]).sections =
      l.map fun x => xs.map a ++ x :: ys.map a := by
  have htail : ∀ ys : List δ, (ys.map fun d => [a d]).sections = [ys.map a] := by
    intro ys
    induction ys with
    | nil => rfl
    | cons y ys ih =>
        rw [List.map_cons, List.sections, ih]
        rfl
  induction xs with
  | nil =>
      rw [List.map_nil, List.nil_append, List.sections, htail, List.flatMap_singleton]
      rfl
  | cons d xs ih =>
      rw [List.map_cons, List.cons_append, List.sections, ih, List.flatMap_map]
      simp only [List.map_cons, List.map_nil, List.cons_append]
      exact List.map_eq_flatMap.symm

/-- A line of combinations, of which the last one is given apart. -/
theorem line_perm_iff {a a' b b' t : List α} {s : ℕ → α} {n : ℕ} (hn : 1 < n)
    (hlen : a'.length = a.length) :
    (((List.range (n - 1)).map fun i => a' ++ s i :: b') ++ [t]).Perm
        ((List.range n).map fun i => a ++ s i :: b) ↔
      (a' = a ∧ b' = b) ∧ t = a ++ s (n - 1) :: b := by
  have hrange : List.range n = List.range (n - 1) ++ [n - 1] := by
    obtain ⟨m, rfl⟩ := Nat.exists_eq_succ_of_ne_zero (by omega : n ≠ 0)
    rw [List.range_succ, Nat.succ_sub_one]
  constructor
  · intro hperm
    have hmem : a' ++ s 0 :: b' ∈ (List.range n).map fun i => a ++ s i :: b := by
      refine hperm.subset (List.mem_append_left _ (List.mem_map.mpr ⟨0, ?_, rfl⟩))
      exact List.mem_range.mpr (by omega)
    obtain ⟨i, -, heq⟩ := List.mem_map.mp hmem
    obtain ⟨rfl, htail⟩ := List.append_inj heq hlen.symm
    obtain rfl := (List.cons.inj htail).2
    rw [hrange, List.map_append, List.perm_append_left_iff, List.map_singleton,
      List.singleton_perm_singleton] at hperm
    exact ⟨⟨rfl, rfl⟩, hperm⟩
  · rintro ⟨⟨rfl, rfl⟩, rfl⟩
    rw [hrange, List.map_append, List.map_singleton]

/-! ### The counter -/

/-- The positions of the dials for a counter, the first one being the fastest. -/
def digits (f : δ → ℕ → α) (n : δ → ℕ) : List δ → ℕ → List α
  | [], _ => []
  | d :: ds, c => f d (c % n d) :: digits f n ds (c / n d)

/-- A counter that starts. -/
theorem digits_zero (f : δ → ℕ → α) (n : δ → ℕ) (ds : List δ) :
    digits f n ds 0 = ds.map fun d => f d 0 := by
  induction ds with
  | nil => rfl
  | cons d ds ih => rw [digits, Nat.zero_mod, Nat.zero_div, ih, List.map_cons]

theorem map_range_mul (m n : ℕ) (g : ℕ → α) :
    (List.range (m * n)).map g =
      (List.range m).flatMap fun q => (List.range n).map fun r => g (q * n + r) := by
  induction m with
  | zero => simp
  | succ m ih =>
      rw [Nat.succ_mul, List.range_add, List.map_append, ih, List.range_succ, List.flatMap_append,
        List.flatMap_singleton, List.map_map]
      rfl

/-- **The counter meets every combination.** -/
theorem map_digits_range (f : δ → ℕ → α) (n : δ → ℕ) (ds : List δ) :
    (List.range (ds.map n).prod).map (digits f n ds) =
      (ds.map fun d => (List.range (n d)).map (f d)).sections := by
  induction ds with
  | nil => rfl
  | cons d ds ih =>
      rw [List.map_cons, List.map_cons, List.prod_cons, Nat.mul_comm, map_range_mul, List.sections,
        ← ih, List.flatMap_map]
      refine List.flatMap_congr fun q _ => ?_
      rw [List.map_map]
      refine List.map_congr_left fun r hr => ?_
      have hlt := List.mem_range.mp hr
      have hmod : (q * n d + r) % n d = r := by
        rw [Nat.add_comm, Nat.add_mul_mod_self_right, Nat.mod_eq_of_lt hlt]
      have hdiv : (q * n d + r) / n d = q := by
        rw [Nat.add_comm, Nat.add_mul_div_right _ _ (by omega), Nat.div_eq_of_lt hlt,
          Nat.zero_add]
      rw [Function.comp_apply, digits, hmod, hdiv]

/-- With the fastest digit at the last dial, the counter meets the same combinations. -/
theorem map_digits_reverse_perm (f : δ → ℕ → α) (n : δ → ℕ) (ds : List δ) :
    ((List.range (ds.map n).prod).map fun c => (digits f n ds.reverse c).reverse).Perm
      (ds.map fun d => (List.range (n d)).map (f d)).sections := by
  have hprod : (ds.map n).prod = (ds.reverse.map n).prod := by
    rw [List.map_reverse, List.prod_reverse]
  have hmap := map_digits_range f n ds.reverse
  rw [← hprod, List.map_reverse] at hmap
  have hperm := sections_reverse_perm (ds.map fun d => (List.range (n d)).map (f d))
  rw [← hmap, List.map_map] at hperm
  exact hperm

/-! ### The position of one dial -/

/-- The position of dial number `j` for a counter, among dials of the sizes `ns`, the last one
being the fastest. -/
def place (ns : List ℕ) (c j : ℕ) : ℕ := c / (ns.drop (j + 1)).prod % ns.getD j 1

theorem place_lt {ns : List ℕ} (hpos : ∀ n ∈ ns, 0 < n) (c j : ℕ) : place ns c j < ns.getD j 1 := by
  refine Nat.mod_lt _ ?_
  rw [List.getD_eq_getElem?_getD]
  rcases hn : ns[j]? with - | n
  · exact Nat.one_pos
  · exact hpos n (List.mem_of_getElem? hn)

/-- Among the reversed dials, the position is found behind the sizes in front of it. -/
theorem place_eq_reverse {ns : List ℕ} {i : ℕ} (hi : i < ns.length) (c : ℕ) :
    place ns c (ns.length - 1 - i) =
      c / (ns.reverse.take i).prod % ns.reverse.getD i 1 := by
  have hidx : ns.length - 1 - i + 1 = ns.length - i := by omega
  have hprod : (ns.reverse.take i).prod = (ns.drop (ns.length - i)).prod := by
    rw [List.take_reverse, List.prod_reverse]
  rw [place, hidx, hprod, List.getD_eq_getElem?_getD, List.getD_eq_getElem?_getD,
    List.getElem?_reverse hi]

/-- **Every choice of positions is met.** -/
theorem exists_place {ns : List ℕ} (a : ℕ → ℕ) (ha : ∀ j < ns.length, a j < ns.getD j 1) :
    ∃ c < ns.prod, ∀ j < ns.length, place ns c j = a j := by
  induction ns generalizing a with
  | nil => exact ⟨0, by simp, by simp⟩
  | cons n ns ih =>
      obtain ⟨c, hc, hplace⟩ := ih (fun j => a (j + 1)) fun j hj => ha (j + 1) (by simpa using hj)
      have hfirst : a 0 < n := ha 0 (by simp)
      refine ⟨a 0 * ns.prod + c, ?_, ?_⟩
      · rw [List.prod_cons]
        calc a 0 * ns.prod + c < a 0 * ns.prod + ns.prod := by omega
          _ = (a 0 + 1) * ns.prod := by ring
          _ ≤ n * ns.prod := Nat.mul_le_mul_right _ hfirst
      · intro j hj
        rcases j with - | j
        · have hdiv : (a 0 * ns.prod + c) / ns.prod = a 0 := by
            rw [Nat.add_comm, Nat.add_mul_div_right _ _ (by omega), Nat.div_eq_of_lt hc,
              Nat.zero_add]
          rw [place, List.drop_succ_cons, List.drop_zero, hdiv]
          exact Nat.mod_eq_of_lt hfirst
        · have hj' : j < ns.length := by simpa using hj
          rw [← hplace j hj', place, place, List.drop_succ_cons, List.getD_cons_succ]
          -- the size of the dial and of those behind it divides what is added
          have hsplit : ns.prod = (ns.take j).prod * (ns.getD j 1 * (ns.drop (j + 1)).prod) := by
            have hdrop : ns.drop j = ns.getD j 1 :: ns.drop (j + 1) := by
              rw [List.drop_eq_getElem_cons hj', List.getD_eq_getElem?_getD,
                List.getElem?_eq_getElem hj', Option.getD_some]
            conv_lhs => rw [← List.take_append_drop j ns, List.prod_append, hdrop, List.prod_cons]
          have hpos : 0 < (ns.drop (j + 1)).prod := by
            rcases Nat.eq_zero_or_pos (ns.drop (j + 1)).prod with hzero | hpos
            · rw [hsplit, hzero, Nat.mul_zero, Nat.mul_zero] at hc
              omega
            · exact hpos
          have hmul : a 0 * ns.prod + c =
              c + a 0 * (ns.take j).prod * ns.getD j 1 * (ns.drop (j + 1)).prod := by
            rw [hsplit]
            ring
          rw [hmul, Nat.add_mul_div_right _ _ hpos, Nat.add_mul_mod_self_right]

/-! ### Copies made dial by dial -/

/-- Copies made dial by dial are not more than the combinations. -/
theorem sum_pred_lt_prod {ns : List ℕ} (h : ∀ n ∈ ns, 0 < n) :
    (ns.map (· - 1)).sum < ns.prod := by
  induction ns with
  | nil => simp
  | cons n ns ih =>
      have hn := h n (by simp)
      have hlt := ih fun m hm => h m (by simp [hm])
      rw [List.map_cons, List.sum_cons, List.prod_cons]
      obtain ⟨m, rfl⟩ := Nat.exists_eq_succ_of_ne_zero hn.ne'
      rw [Nat.succ_sub_one, Nat.succ_mul]
      have hle : m ≤ m * ns.prod := Nat.le_mul_of_pos_right m (by omega)
      omega

theorem prod_eq_one_iff {ns : List ℕ} : ns.prod = 1 ↔ ∀ n ∈ ns, n = 1 := by
  induction ns with
  | nil => simp
  | cons n ns ih =>
      rw [List.prod_cons, List.forall_mem_cons, ← ih]
      constructor
      · intro h
        exact ⟨Nat.eq_one_of_mul_eq_one_right h, Nat.eq_one_of_mul_eq_one_left h⟩
      · rintro ⟨rfl, h⟩
        rw [h]

/-- **Copies made dial by dial** are as many as there are combinations only if one dial alone has
several positions: the others, and those `a` that are combined at the end, have one. -/
theorem all_one_of_grown {xs ys : List ℕ} {n a : ℕ} (hxs : ∀ m ∈ xs, 0 < m)
    (hys : ∀ m ∈ ys, 0 < m) (ha : 0 < a) (hn : 1 < n)
    (h : ((xs ++ n :: ys).map (· - 1)).sum + a = (xs ++ n :: ys).prod * a) :
    (∀ m ∈ xs ++ ys, m = 1) ∧ a = 1 := by
  obtain ⟨m, rfl⟩ : ∃ m, n = m + 2 := ⟨n - 2, by omega⟩
  have hall : ∀ m ∈ xs ++ ys, 0 < m := by
    intro m hm
    exact (List.mem_append.mp hm).elim (hxs m) (hys m)
  have hsum := sum_pred_lt_prod hall
  have hpos := List.prod_pos hall
  rw [List.map_append, List.sum_append] at hsum
  rw [List.prod_append] at hsum hpos
  rw [List.map_append, List.map_cons, List.sum_append, List.sum_cons, List.prod_append,
    List.prod_cons] at h
  set p := xs.prod * ys.prod with hp
  have hprod : xs.prod * ((m + 2) * ys.prod) * a = (m + 2) * (p * a) := by
    rw [hp]
    ring
  rw [hprod] at h
  -- the combinations of the other dials are `p * a`, and more than one are too many
  have hle : p + a ≤ p * a + 1 := by nlinarith
  have hmul : (m + 2) * (p * a) ≤ m + 1 + p * a := by omega
  have hmpos : 0 < p * a := Nat.mul_pos hpos ha
  have hone : p * a = 1 := by
    have hbound : (m + 1) * (p * a) ≤ (m + 1) * 1 := by
      rw [Nat.add_mul] at hmul ⊢
      omega
    have hupper := Nat.le_of_mul_le_mul_left hbound (Nat.succ_pos m)
    omega
  rw [← prod_eq_one_iff, List.prod_append]
  exact ⟨Nat.eq_one_of_mul_eq_one_right hone, Nat.eq_one_of_mul_eq_one_left hone⟩

end Odometer
