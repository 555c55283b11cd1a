import TPBench.CFile.Bytes

/-!
# Fields Between Doubled Separators

A line of fields that are separated by two consecutive copies of one element. The reader
scans from left to right and cuts at every doubled element it meets (`splitPairs`); there
is no quoting, so the writer has to keep the doubled element out of its fields.

Two rules describe the reader. A field that does not end in the separator element is cut
off as a whole, whatever follows it (`splitPairs_append`): the line then splits field by
field (`splitPairs_join`), and the number of fields found is the number of fields written
only if each of them is read as one (`length_eq_one_of_flatMap`). A line that is read as one
field is that field (`splitPairs_of_length_eq_one`).
-/

namespace CFile

variable {α : Type} [DecidableEq α] (c : α)

/-- Cut a line at every doubled `c`, from left to right. -/
def splitPairs : List α → List (List α)
  | [] => [[]]
  | [b] => [[b]]
  | b :: b' :: bs =>
      if b = c ∧ b' = c then [] :: splitPairs bs
      else (splitPairs (b' :: bs)).modifyHead (b :: ·)

/-- The fields `es` with a doubled `c` between them. -/
def joinPairs : List (List α) → List α
  | [] => []
  | [e] => e
  | e :: e' :: es => e ++ c :: c :: joinPairs (e' :: es)

variable {c}

theorem splitPairs_ne_nil (l : List α) : splitPairs c l ≠ [] := by
  fun_induction splitPairs c l with
  | case1 => simp
  | case2 b => simp
  | case3 b b' bs h ih => simp
  | case4 b b' bs h ih =>
      rw [ne_eq, List.modifyHead_eq_nil_iff]
      exact ih

theorem splitPairs_pair (bs : List α) : splitPairs c (c :: c :: bs) = [] :: splitPairs c bs := by
  rw [splitPairs, if_pos ⟨rfl, rfl⟩]

/-- An element that does not start a doubled `c` belongs to the first field. -/
theorem splitPairs_cons {b : α} {bs : List α} (h : b = c → bs.head? ≠ some c) :
    splitPairs c (b :: bs) = (splitPairs c bs).modifyHead (b :: ·) := by
  cases bs with
  | nil => rfl
  | cons b' bs =>
      rw [splitPairs, if_neg]
      rintro ⟨rfl, rfl⟩
      exact h rfl rfl

/-- A field that does not end in `c` is cut off as a whole. -/
theorem splitPairs_append {e : List α} (he : e.getLast? ≠ some c) (rest : List α) :
    splitPairs c (e ++ c :: c :: rest) = splitPairs c e ++ splitPairs c rest := by
  fun_induction splitPairs c e with
  | case1 => exact splitPairs_pair rest
  | case2 b =>
      have hb : b ≠ c := fun h => he (by rw [h]; rfl)
      have hcons : splitPairs c (b :: c :: c :: rest) =
          (splitPairs c (c :: c :: rest)).modifyHead (b :: ·) :=
        splitPairs_cons fun h => absurd h hb
      rw [List.cons_append, List.nil_append, hcons, splitPairs_pair]
      rfl
  | case3 b b' bs h ih =>
      obtain ⟨rfl, rfl⟩ := h
      have hbs : bs.getLast? ≠ some b' := by
        intro hlast
        refine he ?_
        rw [List.getLast?_cons, List.getLast?_cons, hlast]
        rfl
      rw [List.cons_append, List.cons_append, splitPairs_pair, ih hbs]
      rfl
  | case4 b b' bs h ih =>
      have hlast : (b' :: bs).getLast? ≠ some c := by
        rwa [List.getLast?_cons_cons] at he
      have hhead : b = c → ((b' :: bs) ++ c :: c :: rest).head? ≠ some c := by
        intro hb hb'
        exact h ⟨hb, Option.some.inj hb'⟩
      obtain ⟨f, fs, hf⟩ := List.exists_cons_of_ne_nil (splitPairs_ne_nil (c := c) (b' :: bs))
      rw [List.cons_append, splitPairs_cons hhead, ih hlast, hf]
      rfl

/-- A line of fields that do not end in `c` splits field by field. -/
theorem splitPairs_join {es : List (List α)} (hne : es ≠ [])
    (hes : ∀ e ∈ es, e.getLast? ≠ some c) :
    splitPairs c (joinPairs c es) = es.flatMap (splitPairs c) := by
  fun_induction joinPairs c es with
  | case1 => exact absurd rfl hne
  | case2 e => simp
  | case3 e e' es ih =>
      rw [splitPairs_append (hes e (by simp)), ih (by simp) fun x hx => hes x (by simp [hx])]
      rfl

/-- The separators back between the fields. -/
theorem joinPairs_splitPairs (l : List α) : joinPairs c (splitPairs c l) = l := by
  fun_induction splitPairs c l with
  | case1 => rfl
  | case2 b => rfl
  | case3 b b' bs h ih =>
      obtain ⟨rfl, rfl⟩ := h
      obtain ⟨f, fs, hf⟩ := List.exists_cons_of_ne_nil (splitPairs_ne_nil (c := b') bs)
      rw [hf] at ih ⊢
      rw [joinPairs, ih]
      rfl
  | case4 b b' bs h ih =>
      obtain ⟨f, fs, hf⟩ := List.exists_cons_of_ne_nil (splitPairs_ne_nil (c := c) (b' :: bs))
      rw [hf] at ih ⊢
      rw [List.modifyHead_cons, ← ih]
      cases fs with
      | nil => rfl
      | cons f' fs => rfl

/-- A line with one field is its field. -/
theorem splitPairs_of_length_eq_one {l : List α} (h : (splitPairs c l).length = 1) :
    splitPairs c l = [l] := by
  obtain ⟨f, hf⟩ := List.length_eq_one_iff.mp h
  have hjoin := joinPairs_splitPairs (c := c) l
  rw [hf] at hjoin ⊢
  exact congrArg (fun x => [x]) hjoin

/-- A line has as many fields as were written only if each of them is one field. -/
theorem length_eq_one_of_flatMap {es : List (List α)}
    (h : (es.flatMap (splitPairs c)).length = es.length) :
    ∀ e ∈ es, (splitPairs c e).length = 1 := by
  have hle : ∀ xs : List (List α), xs.length ≤ (xs.flatMap (splitPairs c)).length := by
    intro xs
    induction xs with
    | nil => simp
    | cons x xs ih =>
        have hpos := List.length_pos_of_ne_nil (splitPairs_ne_nil (c := c) x)
        rw [List.flatMap_cons, List.length_append, List.length_cons]
        omega
  induction es with
  | nil => simp
  | cons x xs ih =>
      have hpos := List.length_pos_of_ne_nil (splitPairs_ne_nil (c := c) x)
      have hxs := hle xs
      rw [List.flatMap_cons, List.length_append, List.length_cons] at h
      intro e he
      rcases List.mem_cons.mp he with rfl | he
      · omega
      · exact ih (by omega) e he

/-- A doubled `c` makes at least two fields. -/
theorem two_le_length_splitPairs_pair (bs : List α) :
    2 ≤ (splitPairs c (c :: c :: bs)).length := by
  have hpos := List.length_pos_of_ne_nil (splitPairs_ne_nil (c := c) bs)
  rw [splitPairs_pair, List.length_cons]
  omega

/-- One more element in front does not make one field of two. -/
theorem two_le_length_splitPairs_cons (b : α) {bs : List α}
    (h : 2 ≤ (splitPairs c bs).length) : 2 ≤ (splitPairs c (b :: bs)).length := by
  by_cases hpair : b = c ∧ bs.head? = some c
  · obtain ⟨rfl, hhead⟩ := hpair
    obtain ⟨bs', rfl⟩ := List.head?_eq_some_iff.mp hhead
    exact two_le_length_splitPairs_pair bs'
  · rw [splitPairs_cons fun hb hhead => hpair ⟨hb, hhead⟩, List.length_modifyHead]
    exact h

/-- An element other than `c` at the end stays in the last field. -/
theorem length_splitPairs_concat {b : α} (hb : b ≠ c) (bs : List α) :
    (splitPairs c (bs ++ [b])).length = (splitPairs c bs).length := by
  fun_induction splitPairs c bs with
  | case1 => rfl
  | case2 b' =>
      have hhead : b' = c → [b].head? ≠ some c := fun _ h => hb (Option.some.inj h)
      rw [List.cons_append, List.nil_append, splitPairs_cons hhead]
      rfl
  | case3 b' b'' bs h ih =>
      obtain ⟨rfl, rfl⟩ := h
      rw [List.cons_append, List.cons_append, splitPairs_pair, List.length_cons, ih,
        List.length_cons]
  | case4 b' b'' bs h ih =>
      have hhead : b' = c → ((b'' :: bs) ++ [b]).head? ≠ some c := by
        intro h₁ h₂
        exact h ⟨h₁, Option.some.inj h₂⟩
      rw [List.cons_append, splitPairs_cons hhead, List.length_modifyHead, ih,
        List.length_modifyHead]

end CFile
