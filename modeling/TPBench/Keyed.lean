import Mathlib.Data.List.Dedup
import Mathlib.Order.Nat
import Mathlib.Data.List.Perm.Basic

/-!
# Lists of Keyed Elements

A list whose elements have keys, where a new element replaces the first one of its key in its
place, or is added at the end. `upsert` is one such step; a fold of steps is a table in which
each key stands once, at the place of its first element and with the value of its last
(`mem_keys_foldl_upsert`, `find_foldl_upsert`).

`setFirst` is for lists that may hold several elements of a kind: it puts the new one in the place
of the first of them and drops the others, so that the kind is a singleton afterwards and the
rest is as before.

The second part is about a table with a bounded number of slots, or any fold whose steps are
refused when they leave a set of values that no later step returns to: the fold succeeds exactly
when its result lies in the set (`foldlM_guarded`).
-/

namespace Keyed

/-! ### Steps -/

section Upsert

variable {α κ : Type*} [DecidableEq κ] (key : α → κ)

/-- Put an element in the place of the first one with its key, or at the end. -/
def upsert : List α → α → List α
  | [], x => [x]
  | y :: ys, x => if key y = key x then x :: ys else y :: upsert ys x

variable {key} {xs ys : List α} {x : α} {k : κ}

/-- A key that is new is added at the end. -/
theorem upsert_of_not_mem (h : key x ∉ xs.map key) : upsert key xs x = xs ++ [x] := by
  induction xs with
  | nil => rfl
  | cons y ys ih =>
      rw [List.map_cons, List.mem_cons, not_or] at h
      rw [upsert, if_neg (Ne.symm h.1), ih h.2]
      rfl

/-- A key that is present keeps its place. -/
theorem keys_upsert_of_mem (h : key x ∈ xs.map key) : (upsert key xs x).map key = xs.map key := by
  induction xs with
  | nil => cases h
  | cons y ys ih =>
      rw [upsert]
      by_cases hy : key y = key x
      · rw [if_pos hy, List.map_cons, List.map_cons, hy]
      · rw [List.map_cons, List.mem_cons] at h
        rw [if_neg hy, List.map_cons, List.map_cons, ih (h.resolve_left (Ne.symm hy))]

theorem length_upsert_of_mem (h : key x ∈ xs.map key) : (upsert key xs x).length = xs.length := by
  simpa using congrArg List.length (keys_upsert_of_mem h)

theorem mem_keys_upsert : k ∈ (upsert key xs x).map key ↔ k ∈ xs.map key ∨ k = key x := by
  by_cases h : key x ∈ xs.map key
  · rw [keys_upsert_of_mem h]
    refine ⟨Or.inl, ?_⟩
    rintro (hk | rfl)
    · exact hk
    · exact h
  · rw [upsert_of_not_mem h]
    simp

theorem nodup_upsert (h : (xs.map key).Nodup) : ((upsert key xs x).map key).Nodup := by
  by_cases hx : key x ∈ xs.map key
  · rwa [keys_upsert_of_mem hx]
  · rw [upsert_of_not_mem hx, List.map_append, List.map_singleton, List.nodup_append]
    refine ⟨h, List.nodup_singleton _, ?_⟩
    rintro k hk _ hkx rfl
    rw [List.mem_singleton.mp hkx] at hk
    exact hx hk

/-- A step makes no list shorter. -/
theorem length_le_length_upsert (xs : List α) (x : α) : xs.length ≤ (upsert key xs x).length := by
  by_cases hx : key x ∈ xs.map key
  · exact (length_upsert_of_mem hx).ge
  · rw [upsert_of_not_mem hx, List.length_append]
    exact Nat.le_add_right _ _

/-- A member of a list with distinct keys is found under its key. -/
theorem find_of_nodup {xs : List α} {x : α} (h : (xs.map key).Nodup) (hx : x ∈ xs) :
    xs.find? (key · = key x) = some x := by
  induction xs with
  | nil => cases hx
  | cons y ys ih =>
      rw [List.map_cons, List.nodup_cons] at h
      rcases List.mem_cons.mp hx with rfl | hx
      · exact List.find?_cons_of_pos (by simp)
      · have hne : key y ≠ key x := fun heq => h.1 (heq ▸ List.mem_map_of_mem hx)
        rw [List.find?_cons_of_neg (by simpa using hne)]
        exact ih h.2 hx

/-- What is found afterwards. -/
theorem find_upsert (xs : List α) (x : α) (k : κ) :
    (upsert key xs x).find? (key · = k) = if key x = k then some x else xs.find? (key · = k) := by
  induction xs with
  | nil =>
      rw [upsert, List.find?_cons, List.find?_nil]
      by_cases hx : key x = k
      · rw [if_pos hx, decide_eq_true hx]
      · rw [if_neg hx, decide_eq_false hx]
  | cons y ys ih =>
      rw [upsert]
      by_cases hy : key y = key x
      · rw [if_pos hy]
        by_cases hx : key x = k
        · rw [if_pos hx, List.find?_cons_of_pos (by simpa using hx)]
        · rw [if_neg hx, List.find?_cons_of_neg (by simpa using hx),
            List.find?_cons_of_neg (by simpa [hy] using hx)]
      · rw [if_neg hy]
        by_cases hyk : key y = k
        · have hx : key x ≠ k := fun hx => hy (hyk.trans hx.symm)
          rw [if_neg hx, List.find?_cons_of_pos (by simpa using hyk),
            List.find?_cons_of_pos (by simpa using hyk)]
        · rw [List.find?_cons_of_neg (by simpa using hyk), ih,
            List.find?_cons_of_neg (by simpa using hyk)]

/-- The step as a program takes it: look for the key, and change the element that has it. -/
theorem modify_findIdx_eq_upsert {i : ℕ} {f : α → α}
    (hi : xs.findIdx? (key · = key x) = some i) (hf : ∀ y, key y = key x → f y = x) :
    xs.modify i f = upsert key xs x := by
  induction xs generalizing i with
  | nil => cases hi
  | cons y ys ih =>
      rw [List.findIdx?_cons] at hi
      rw [upsert]
      by_cases hy : key y = key x
      · rw [decide_eq_true hy, if_pos rfl] at hi
        cases hi
        rw [if_pos hy, List.modify_zero_cons, hf y hy]
      · rw [decide_eq_false hy, if_neg Bool.false_ne_true] at hi
        obtain ⟨j, hj, rfl⟩ := Option.map_eq_some_iff.mp hi
        rw [if_neg hy, List.modify_succ_cons, ih hj]

theorem findIdx_eq_none_iff_not_mem :
    xs.findIdx? (key · = key x) = none ↔ key x ∉ xs.map key := by
  rw [List.findIdx?_eq_none_iff, List.mem_map, not_exists]
  simp only [decide_eq_false_iff_not, not_and]

/-! ### Folds -/

theorem mem_keys_foldl_upsert :
    k ∈ (ys.foldl (upsert key) xs).map key ↔ k ∈ xs.map key ∨ k ∈ ys.map key := by
  induction ys generalizing xs with
  | nil => simp
  | cons y ys ih => rw [List.foldl_cons, ih, mem_keys_upsert, List.map_cons, List.mem_cons,
        or_assoc]

theorem nodup_foldl_upsert (h : (xs.map key).Nodup) :
    ((ys.foldl (upsert key) xs).map key).Nodup := by
  induction ys generalizing xs with
  | nil => exact h
  | cons y ys ih => exact ih (nodup_upsert h)

/-- What is found after a fold: the last element with the key. -/
theorem find_foldl_upsert (ys xs : List α) (k : κ) :
    (ys.foldl (upsert key) xs).find? (key · = k) =
      (ys.reverse.find? (key · = k)).or (xs.find? (key · = k)) := by
  induction ys generalizing xs with
  | nil => simp
  | cons y ys ih =>
      rw [List.foldl_cons, ih, find_upsert, List.reverse_cons, List.find?_append, Option.or_assoc,
        List.find?_singleton]
      by_cases hy : key y = k
      · simp [hy]
      · simp [hy]

theorem length_le_length_foldl_upsert (ys xs : List α) :
    xs.length ≤ (ys.foldl (upsert key) xs).length := by
  induction ys generalizing xs with
  | nil => exact le_rfl
  | cons y ys ih => exact (length_le_length_upsert xs y).trans (ih _)

/-- From an empty table, a fold uses a slot for each key. -/
theorem length_foldl_upsert_nil (ys : List α) :
    (ys.foldl (upsert key) []).length = (ys.map key).dedup.length := by
  have hperm : ((ys.foldl (upsert key) []).map key).Perm (ys.map key).dedup := by
    rw [List.perm_ext_iff_of_nodup (nodup_foldl_upsert (by simp)) (List.nodup_dedup _)]
    intro k
    rw [mem_keys_foldl_upsert, List.mem_dedup]
    simp
  rw [← hperm.length_eq, List.length_map]

end Upsert

/-! ### One element of a kind -/

section SetFirst

variable {α : Type*} (p : α → Bool) (x : α)

/-- Put an element in the place of the first one with `p`, or at the end, and drop the others. -/
def setFirst : List α → List α
  | [] => [x]
  | y :: ys => if p y then x :: ys.filter (!p ·) else y :: setFirst ys

variable {p x} {q : α → Bool} {xs : List α}

/-- Without an element of the kind, the new one is added at the end. -/
theorem setFirst_of_not_any (h : xs.any p = false) : setFirst p x xs = xs ++ [x] := by
  induction xs with
  | nil => rfl
  | cons y ys ih =>
      rw [List.any_cons, Bool.or_eq_false_iff] at h
      rw [setFirst, if_neg (by simp [h.1]), ih h.2]
      rfl

/-- Nothing but the new element is added. -/
theorem mem_of_mem_setFirst {y : α} (h : y ∈ setFirst p x xs) : y = x ∨ y ∈ xs := by
  induction xs with
  | nil => exact Or.inl (List.mem_singleton.mp h)
  | cons z zs ih =>
      rw [setFirst] at h
      split_ifs at h with hz
      · rcases List.mem_cons.mp h with h | h
        · exact Or.inl h
        · exact Or.inr (List.mem_cons_of_mem _ (List.mem_of_mem_filter h))
      · rcases List.mem_cons.mp h with rfl | h
        · exact Or.inr List.mem_cons_self
        · exact (ih h).imp_right (List.mem_cons_of_mem _)

/-- The new element is the only one of its kind. -/
theorem filter_setFirst (hx : p x = true) : (setFirst p x xs).filter p = [x] := by
  induction xs with
  | nil => simp [setFirst, hx]
  | cons y ys ih =>
      rw [setFirst]
      split_ifs with hy
      · rw [List.filter_cons_of_pos hx, List.filter_filter]
        simp
      · rw [List.filter_cons_of_neg hy, ih]

/-- The elements of other kinds are as before, in their order. -/
theorem filter_not_setFirst (hx : p x = true) :
    (setFirst p x xs).filter (!p ·) = xs.filter (!p ·) := by
  induction xs with
  | nil => simp [setFirst, hx]
  | cons y ys ih =>
      rw [setFirst]
      split_ifs with hy
      · simp [hx, hy]
      · rw [List.filter_cons_of_pos (by simp [hy]), List.filter_cons_of_pos (by simp [hy]), ih]

/-- The first element of the kind is the new one. -/
theorem find_setFirst (hx : p x = true) : (setFirst p x xs).find? p = some x := by
  rw [← List.head?_filter, filter_setFirst hx]
  rfl

/-- What is looked for among the other kinds is found as before. -/
theorem find_setFirst_of_disjoint (hx : p x = true) (hpq : ∀ y, p y = true → q y = false) :
    (setFirst p x xs).find? q = xs.find? q := by
  have hq : ∀ ys : List α, ys.find? q = (ys.filter (!p ·)).find? q := by
    intro ys
    have hboth : q = fun y => !p y && q y := by
      funext y
      rcases hpy : p y with - | -
      · simp
      · simp [hpq y hpy]
    rw [List.find?_filter]
    conv_lhs => rw [hboth]
    simp
  rw [hq, filter_not_setFirst hx, ← hq]

/-- Setting it again changes nothing. -/
theorem setFirst_setFirst (hx : p x = true) :
    setFirst p x (setFirst p x xs) = setFirst p x xs := by
  induction xs with
  | nil => simp [setFirst, hx]
  | cons y ys ih =>
      by_cases hy : p y = true
      · have hset : setFirst p x (y :: ys) = x :: ys.filter (!p ·) := by
          rw [setFirst, if_pos hy]
        rw [hset, setFirst, if_pos hx, List.filter_filter]
        simp
      · have hset : setFirst p x (y :: ys) = y :: setFirst p x ys := by
          rw [setFirst, if_neg hy]
        rw [hset, setFirst, if_neg hy, ih]

end SetFirst

/-! ### Guarded folds -/

section Guarded

universe u

variable {α : Type*} {β ε σ : Type u}

/-- A value that is refused when it does not satisfy a condition. -/
def guarded (e : ε) (p : Prop) [Decidable p] (b : β) : EStateM ε σ β :=
  fun s => if p then .ok b s else .error e s

/-- **A fold of guarded steps is guarded by its result**, when no step leads back to the values
that satisfy the condition. -/
theorem foldlM_guarded {p : β → Prop} [DecidablePred p] {g : β → α → β} {e : ε}
    {f : β → α → EStateM ε σ β} {s : σ} {xs : List α} (hg : ∀ b a, p (g b a) → p b)
    (hf : ∀ a ∈ xs, ∀ b, p b → f b a s = guarded e (p (g b a)) (g b a) s) {b : β} (hb : p b) :
    xs.foldlM f b s = guarded e (p (xs.foldl g b)) (xs.foldl g b) s := by
  induction xs generalizing b with
  | nil => exact (if_pos hb).symm
  | cons a as ih =>
      have hback : ∀ (as : List α) (c : β), p (as.foldl g c) → p c := by
        intro as
        induction as with
        | nil => exact fun c hc => hc
        | cons a as ih => exact fun c hc => hg c a (ih _ hc)
      have hstep := hf a (by simp) b hb
      rw [List.foldlM_cons, List.foldl_cons]
      by_cases ha : p (g b a)
      · rw [guarded, if_pos ha] at hstep
        change EStateM.bind _ _ s = _
        rw [EStateM.bind, hstep]
        exact ih (fun c hc => hf c (by simp [hc])) ha
      · rw [guarded, if_neg ha] at hstep
        change EStateM.bind _ _ s = _
        rw [EStateM.bind, hstep, guarded, if_neg fun h => ha (hback as _ h)]

end Guarded

end Keyed
