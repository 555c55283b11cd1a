import TPBench.CFile.Text

/-!
# Scanned Text

A format of `sscanf` is a list of directives, each of which takes something from the front of a
text or fails (`sscanf`). The items that were assigned before the first failure are returned;
their number is what `sscanf` returns. `strstr` searches a word.

The directives are those of plain formats: blanks, single characters, characters up to one that
stops them, with and without an assignment, and decimal integers.
-/

namespace CFile

/-! ### Words -/

/-- `strstr`: the text from the first occurrence of a word on. -/
def strstr (word : Bytes) : Bytes → Option Bytes
  | [] => if word = [] then some [] else none
  | b :: bs => if word.isPrefixOf (b :: bs) then some (b :: bs) else strstr word bs

/-- A word that stands in a text is found. -/
theorem isSome_strstr_append (a word b : Bytes) : (strstr word (a ++ word ++ b)).isSome = true := by
  induction a with
  | nil =>
      cases word with
      | nil => cases b <;> rfl
      | cons c word =>
          have hprefix : (c :: word).isPrefixOf (c :: (word ++ b)) = true :=
            List.isPrefixOf_iff_prefix.mpr ⟨b, rfl⟩
          rw [List.nil_append, List.cons_append, strstr, if_pos hprefix, Option.isSome_some]
  | cons c a ih =>
      rw [List.cons_append, List.cons_append, strstr]
      split_ifs
      · rfl
      · exact ih

/-- The text that is found starts with the word. -/
theorem strstr_eq_some {word s rest : Bytes} (h : strstr word s = some rest) :
    ∃ a b, s = a ++ rest ∧ rest = word ++ b := by
  induction s with
  | nil =>
      rw [strstr] at h
      split_ifs at h with hnil
      obtain rfl := Option.some.inj h
      exact ⟨[], [], rfl, by rw [hnil]; rfl⟩
  | cons c s ih =>
      rw [strstr] at h
      split_ifs at h with hprefix
      · obtain rfl := Option.some.inj h
        obtain ⟨b, hb⟩ := List.isPrefixOf_iff_prefix.mp hprefix
        exact ⟨[], b, rfl, hb.symm⟩
      · obtain ⟨a, b, rfl, hb⟩ := ih h
        exact ⟨c :: a, b, rfl, hb⟩

/-- A word is found behind a text without its first character. -/
theorem strstr_append_of_not_mem {c : UInt8} {word a : Bytes} (ha : c ∉ a) (b : Bytes) :
    strstr (c :: word) (a ++ (c :: word ++ b)) = some (c :: word ++ b) := by
  induction a with
  | nil =>
      have hprefix : (c :: word).isPrefixOf (c :: (word ++ b)) = true :=
        List.isPrefixOf_iff_prefix.mpr ⟨b, rfl⟩
      rw [List.nil_append, List.cons_append, strstr, if_pos hprefix]
  | cons d a ih =>
      have hd : c ≠ d := fun h => ha (h ▸ List.mem_cons_self)
      have hprefix : ¬(c :: word).isPrefixOf (d :: (a ++ (c :: word ++ b))) = true := by
        rw [List.isPrefixOf_iff_prefix]
        rintro ⟨t, ht⟩
        exact hd (List.cons.inj ht).1
      rw [List.cons_append, strstr, if_neg hprefix]
      exact ih fun h => ha (List.mem_cons_of_mem _ h)

/-- A word is not found where its first character is not. -/
theorem strstr_of_not_mem {c : UInt8} {word s : Bytes} (hs : c ∉ s) :
    strstr (c :: word) s = none := by
  rw [Option.eq_none_iff_forall_ne_some]
  intro rest h
  obtain ⟨a, b, rfl, rfl⟩ := strstr_eq_some h
  exact hs (List.mem_append_right _ List.mem_cons_self)

/-! ### Integers -/

/-- `strtol` to the base ten: the number, which saturates, and what stands behind it. Without a
digit nothing is taken. -/
def strtol (s : Bytes) : ℤ × Bytes :=
  let r := splitSign (s.dropWhile isspace)
  let digits := r.2.takeWhile isdigit
  if digits = [] then (0, s)
  else (max (-9223372036854775808) (min 9223372036854775807 (r.1 * digitsNat digits)),
    r.2.drop digits.length)

/-- Digits alone are read whole. -/
theorem strtol_digits {s : Bytes} (hs : ∀ b ∈ s, isdigit b = true) (hne : s ≠ []) :
    strtol s = (min 9223372036854775807 (digitsNat s : ℤ), []) := by
  obtain ⟨b, bs, rfl⟩ := List.exists_cons_of_ne_nil hne
  have hb := hs b List.mem_cons_self
  have htake : (b :: bs).takeWhile isdigit = b :: bs := List.takeWhile_eq_self_iff.mpr hs
  rw [strtol, List.dropWhile_cons_of_neg (by simp [not_isspace_of_isdigit hb]),
    splitSign_of_isdigit hb]
  simp only [htake, List.drop_length, one_mul]
  rw [if_neg (List.cons_ne_nil _ _), max_eq_right (by omega)]

/-- A `long` that `strtol` saturates, narrowed to an `int`. -/
def narrowed (i : ℤ) : ℤ := (max (-2 ^ 63) (min (2 ^ 63 - 1) i)).bmod (2 ^ 32)

/-- What is in the range of an `int` stays as it is. -/
theorem narrowed_of_range {i : ℤ} (hlo : -2 ^ 31 ≤ i) (hhi : i < 2 ^ 31) : narrowed i = i := by
  have hclamp : max (-2 ^ 63) (min (2 ^ 63 - 1) i) = i := by omega
  rw [narrowed, hclamp]
  exact Int.bmod_eq_of_le (by omega) (by omega)

/-! ### Formats -/

/-- A directive of a format. -/
inductive Directive where
  /-- Blanks, as many as there are. -/
  | blank
  /-- A character. -/
  | lit (b : UInt8)
  /-- Characters up to `stop`, at least one, without an assignment: `%*[^stop]`. -/
  | skipTo (stop : UInt8)
  /-- Characters up to `stop`, at least one and at most `width`: `%width[^stop]`. -/
  | takeTo (width : ℕ) (stop : UInt8)
  /-- A decimal integer: `%d`. -/
  | int
  deriving DecidableEq, Repr

/-- An item that a directive assigns. -/
inductive Scanned where
  | str (s : Bytes)
  | int (i : ℤ)
  deriving DecidableEq, Repr

/-- The items that `sscanf` assigns. -/
def sscanf : List Directive → Bytes → List Scanned
  | [], _ => []
  | .blank :: ds, s => sscanf ds (s.dropWhile isspace)
  | .lit b :: ds, s => if s.head? = some b then sscanf ds s.tail else []
  | .skipTo stop :: ds, s =>
      if s.takeWhile (· ≠ stop) = [] then [] else sscanf ds (s.dropWhile (· ≠ stop))
  | .takeTo width stop :: ds, s =>
      let item := (s.takeWhile (· ≠ stop)).take width
      if item = [] then [] else .str item :: sscanf ds (s.drop item.length)
  | .int :: ds, s =>
      let r := splitSign (s.dropWhile isspace)
      let digits := r.2.takeWhile isdigit
      if digits = [] then []
      else .int (narrowed (r.1 * digitsNat digits)) :: sscanf ds (r.2.drop digits.length)

/-- A printed integer is read. -/
theorem sscanf_int_formatInt {i : ℤ} (hlo : -2 ^ 31 ≤ i) (hhi : i < 2 ^ 31) {b : UInt8}
    (hb : isdigit b = false) (bs : Bytes) :
    sscanf [.int] (formatInt i ++ b :: bs) = [.int i] := by
  obtain ⟨d, ds, hds⟩ := List.exists_cons_of_ne_nil (formatD_ne_nil i.natAbs)
  have hall : ∀ c ∈ formatD i.natAbs, isdigit c = true := fun c => isdigit_of_mem_formatD
  have hd : isdigit d = true := hall d (by rw [hds]; exact List.mem_cons_self)
  have htake : (formatD i.natAbs ++ b :: bs).takeWhile isdigit = formatD i.natAbs := by
    rw [List.takeWhile_append_of_pos hall, List.takeWhile_cons_of_neg (by simp [hb]),
      List.append_nil]
  have hfront : ∃ sign : ℤ, splitSign ((formatInt i ++ b :: bs).dropWhile isspace) =
      (sign, formatD i.natAbs ++ b :: bs) ∧ sign * i.natAbs = i := by
    rw [formatInt]
    split_ifs with hneg
    · refine ⟨-1, ?_, by omega⟩
      rw [List.cons_append, List.dropWhile_cons_of_neg (by decide), splitSign]
    · refine ⟨1, ?_, by omega⟩
      rw [hds, List.cons_append,
        List.dropWhile_cons_of_neg (by simp [not_isspace_of_isdigit hd]), splitSign_of_isdigit hd]
  obtain ⟨sign, hsplit, hsign⟩ := hfront
  simp only [sscanf, hsplit, htake, digitsNat_formatD, hsign, if_neg (formatD_ne_nil i.natAbs),
    narrowed_of_range hlo hhi]

end CFile
