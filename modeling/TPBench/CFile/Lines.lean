import TPBench.CFile.Text

/-!
# Lines of Text

A text file is read with `fgets`, which returns a line with its newline, or as much of it as
the buffer holds (`fgetsLines`). A file whose lines all fit the buffer is read back line by
line (`fgetsLines_flatMap`).
-/

namespace CFile

/-! ### Lines -/

/-- The newline. -/
def newline : UInt8 := 10

/-- What the calls of `fgets` with a buffer for `cap` bytes and a terminator return, one
after the other, when the bytes `line` of the current line were read before. -/
def fgetsFrom (cap : ℕ) (line : Bytes) : Bytes → List Bytes
  | [] => if line = [] then [] else [line]
  | b :: bs =>
      if b = newline ∨ line.length + 1 = cap then (line ++ [b]) :: fgetsFrom cap [] bs
      else fgetsFrom cap (line ++ [b]) bs

/-- What the calls of `fgets` with a buffer for `cap` bytes and a terminator return. -/
def fgetsLines (cap : ℕ) (bs : Bytes) : List Bytes := fgetsFrom cap [] bs

/-- The rest of a line that fits the buffer is read to its newline. -/
theorem fgetsFrom_line {cap : ℕ} {rest : Bytes} (hrest : newline ∉ rest) (line bs : Bytes)
    (hlen : line.length + rest.length < cap) :
    fgetsFrom cap line (rest ++ newline :: bs) =
      (line ++ rest ++ [newline]) :: fgetsFrom cap [] bs := by
  induction rest generalizing line with
  | nil => simp [fgetsFrom]
  | cons b rest ih =>
      rw [List.mem_cons, not_or] at hrest
      obtain ⟨hb, hrest⟩ := hrest
      rw [List.length_cons] at hlen
      have hfit : ¬ (b = newline ∨ line.length + 1 = cap) := by
        rintro (rfl | h)
        · exact hb rfl
        · omega
      rw [List.cons_append, fgetsFrom, if_neg hfit, ih hrest]
      · simp
      · rw [List.length_append, List.length_singleton]
        omega

/-- A line that fills the buffer is read up to there. -/
theorem fgetsFrom_full {cap : ℕ} {rest : Bytes} (hrest : newline ∉ rest) (hne : rest ≠ [])
    (line bs : Bytes) (hlen : line.length + rest.length = cap) :
    fgetsFrom cap line (rest ++ bs) = (line ++ rest) :: fgetsFrom cap [] bs := by
  induction rest generalizing line with
  | nil => exact absurd rfl hne
  | cons b rest ih =>
      rw [List.mem_cons, not_or] at hrest
      obtain ⟨hb, hrest⟩ := hrest
      rw [List.length_cons] at hlen
      rw [List.cons_append, fgetsFrom]
      by_cases hnil : rest = []
      · rw [hnil, List.length_nil] at hlen
        rw [if_pos (.inr (by omega)), hnil, List.nil_append]
      · have hpos := List.length_pos_iff.mpr hnil
        have hfit : ¬ (b = newline ∨ line.length + 1 = cap) := by
          rintro (rfl | h)
          · exact hb rfl
          · omega
        rw [if_neg hfit, ih hrest hnil]
        · simp
        · rw [List.length_append, List.length_singleton]
          omega

/-- A file of lines that fit the buffer is read line by line. -/
theorem fgetsLines_flatMap {α : Type} {cap : ℕ} (f : α → Bytes) (as : List α)
    (h : ∀ a ∈ as, newline ∉ f a ∧ (f a).length < cap) :
    fgetsLines cap (as.flatMap fun a => f a ++ [newline]) = as.map fun a => f a ++ [newline] := by
  induction as with
  | nil => rfl
  | cons a as ih =>
      obtain ⟨hnl, hlen⟩ := h a (by simp)
      have hline := fgetsFrom_line hnl [] (as.flatMap fun a => f a ++ [newline])
        (by simpa using hlen)
      have htail := ih fun x hx => h x (by simp [hx])
      rw [fgetsLines] at htail
      rw [fgetsLines, List.flatMap_cons, List.append_assoc, List.singleton_append, hline, htail,
        List.nil_append, List.map_cons]

/-! ### Classes of characters -/

/-- `isxdigit`. -/
def isxdigit (b : UInt8) : Bool := isdigit b ∨ 97 ≤ b ∧ b ≤ 102 ∨ 65 ≤ b ∧ b ≤ 70

/-- `tolower` in the C locale. -/
def tolower (b : UInt8) : UInt8 := if 65 ≤ b ∧ b ≤ 90 then b + 32 else b

end CFile
