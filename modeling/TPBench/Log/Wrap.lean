import Mathlib.Data.List.DropRight
import TPBench.CFile.Text

/-!
# The Lines of a Table Cell

`tpblog_printf_ctab` prints one row of a table. The text of a cell is wrapped to the width of
its column (`tpb-printf.c`): blanks in front of a line are passed over, a text that fits is the
last line, and otherwise a line ends at the last blank within the width, or inside of a word,
with a hyphen if the column has them (`nextLine`).

What the rules make of a text has no bound (`wrapAll`). The lines of a cell are kept in an array
of 64 buffers of 256 bytes (`cellLines`), and what does not fit is lost without a word.

## Main results

* `cellWrapped_iff`: the lines of a cell fit its column and hold the characters of its text, if
  and only if the rules make at most 64 lines of it and no line has more than 255 characters.
-/

open CFile

namespace TPBench

/-! ### The rules -/

/-- A line of a cell: what it takes of the text, and whether a hyphen stands behind it. -/
structure CellLine where
  taken : Bytes
  broken : Bool
  deriving DecidableEq

/-- The hyphen behind a line. -/
def CellLine.hyphen (l : CellLine) : Bytes := if l.broken then [45] else []

/-- A line as its buffer of 256 bytes holds it. -/
def CellLine.stored (l : CellLine) : Bytes := (l.taken ++ l.hyphen).take 255

/-- A stored line without the hyphen that was put behind it. -/
def CellLine.content (l : CellLine) : Bytes :=
  if l.broken ∧ (l.taken ++ l.hyphen).length ≤ 255 then l.stored.dropLast else l.stored

/-- The search for a blank, from the end of the width on: how much of the text reaches up to it. -/
def findSpace (text : Bytes) : ℕ → Option ℕ
  | 0 => none
  | i + 1 => if (text.drop i).head?.any isspace then some (i + 1) else findSpace text i

/-- The next line of a column of a width, and the text behind it. -/
def nextLine (width : ℕ) (noHyphen : Bool) (text : Bytes) : Option (CellLine × Bytes) :=
  let rest := text.dropWhile isspace
  if rest = [] then none
  else if rest.length ≤ width then some (⟨rest, false⟩, [])
  else
    match findSpace rest width with
    | none =>
        let chunk := max 1 (width - if noHyphen then 0 else 1)
        some (⟨rest.take chunk, !noHyphen⟩, rest.drop chunk)
    | some i =>
        let line := (rest.take i).rdropWhile isspace
        some (⟨line, false⟩, rest.drop line.length)

/-- The loop of `tpblog_printf_ctab` over the text of a cell, with room for some more lines. -/
def wrapLoop (width : ℕ) (noHyphen : Bool) : ℕ → Bytes → List CellLine
  | 0, _ => []
  | left + 1, text =>
      match nextLine width noHyphen text with
      | none => []
      | some (line, rest) => line :: wrapLoop width noHyphen left rest

/-- The lines that `tpblog_printf_ctab` makes of a cell: one at least. -/
def cellLines (width : ℕ) (noHyphen : Bool) (text : Bytes) : List CellLine :=
  match wrapLoop width noHyphen 64 text with
  | [] => [⟨[], false⟩]
  | lines => lines

/-! ### One line -/

/-- The characters of a text that are no blanks. -/
def inked (bs : Bytes) : Bytes := bs.filter (!isspace ·)

theorem inked_append (as bs : Bytes) : inked (as ++ bs) = inked as ++ inked bs :=
  List.filter_append as bs

/-- Blanks in front of a text have no ink. -/
theorem inked_dropWhile (text : Bytes) : inked (text.dropWhile isspace) = inked text := by
  induction text with
  | nil => rfl
  | cons b bs ih =>
      by_cases hb : isspace b = true
      · rw [List.dropWhile_cons_of_pos hb, ih, inked, inked, List.filter_cons_of_neg (by simp [hb])]
      · rw [List.dropWhile_cons_of_neg hb]

/-- A text that begins with another character has ink. -/
theorem inked_cons_ne_nil {b : UInt8} (hb : isspace b = false) (bs : Bytes) :
    inked (b :: bs) ≠ [] := by
  rw [inked, List.filter_cons_of_pos (by simp [hb])]
  exact List.cons_ne_nil _ _

/-- The place of a blank is within the width. -/
theorem findSpace_bounds {text : Bytes} {n i : ℕ} (h : findSpace text n = some i) :
    0 < i ∧ i ≤ n := by
  induction n with
  | zero => cases h
  | succ n ih =>
      rw [findSpace] at h
      split_ifs at h with hspace
      · obtain rfl := Option.some.inj h
        omega
      · have := ih h
        omega

/-- What is left of the front of a text without the blanks at its end is a front of the text. -/
theorem trimmed_front (text : Bytes) (i : ℕ) : (text.take i).rdropWhile isspace <+: text :=
  (List.rdropWhile_prefix isspace (text.take i)).trans (List.take_prefix i text)

/-- **One line**: the ink of the text is that of the line and of what is left, and a line has
ink. -/
structure NextLine (width : ℕ) (text : Bytes) (line : CellLine) (rest : Bytes) : Prop where
  ink : inked text = inked line.taken ++ inked rest
  inked : inked line.taken ≠ []
  shorter : rest.length < text.length
  fits : 2 ≤ width → (line.taken ++ line.hyphen).length ≤ width

section Rules

variable {width : ℕ} {text bs : Bytes} {b : UInt8}

/-- The rest of a text that fits is one line. -/
theorem NextLine.rest_fits (hb : isspace b = false)
    (hink : TPBench.inked (b :: bs) = TPBench.inked text)
    (hle : (b :: bs).length ≤ text.length) (hfits : (b :: bs).length ≤ width) :
    NextLine width text ⟨b :: bs, false⟩ [] := by
  refine ⟨?_, inked_cons_ne_nil hb bs, ?_, fun _ => ?_⟩
  · rw [← hink]
    exact (List.append_nil _).symm
  · rw [List.length_nil]
    rw [List.length_cons] at hle
    omega
  · rw [CellLine.hyphen]
    simpa using hfits

/-- A word that is longer than the width is broken. -/
theorem NextLine.broken_word (noHyphen : Bool) (hb : isspace b = false)
    (hink : TPBench.inked (b :: bs) = TPBench.inked text) (hle : (b :: bs).length ≤ text.length) :
    NextLine width text
      ⟨(b :: bs).take (max 1 (width - if noHyphen then 0 else 1)), !noHyphen⟩
      ((b :: bs).drop (max 1 (width - if noHyphen then 0 else 1))) := by
  obtain ⟨n, hn⟩ : ∃ n, max 1 (width - if noHyphen = true then 0 else 1) = n + 1 :=
    ⟨_, (Nat.sub_add_cancel (le_max_left _ _)).symm⟩
  rw [hn, List.take_succ_cons, List.drop_succ_cons]
  refine ⟨?_, inked_cons_ne_nil hb _, ?_, fun hwidth => ?_⟩
  · rw [← inked_append, List.cons_append, List.take_append_drop, hink]
  · rw [List.length_cons] at hle
    have := List.length_drop (i := n) (l := bs)
    omega
  · have htake := List.length_take_le n bs
    rw [CellLine.hyphen, List.length_append, List.length_cons]
    cases noHyphen with
    | true =>
        simp only [if_true] at hn
        simp only [Bool.not_true, Bool.false_eq_true, if_false, List.length_nil]
        omega
    | false =>
        simp only [Bool.false_eq_true, if_false] at hn
        simp only [Bool.not_false, if_true, List.length_singleton]
        omega

/-- A line that ends at a blank within the width. -/
theorem NextLine.at_blank {i : ℕ} (hb : isspace b = false)
    (hink : TPBench.inked (b :: bs) = TPBench.inked text) (hle : (b :: bs).length ≤ text.length)
    (hpos : 0 < i) (hi : i ≤ width) :
    NextLine width text ⟨((b :: bs).take i).rdropWhile isspace, false⟩
      ((b :: bs).drop (((b :: bs).take i).rdropWhile isspace).length) := by
  obtain ⟨n, rfl⟩ : ∃ n, i = n + 1 := ⟨i - 1, by omega⟩
  have hfront := trimmed_front (b :: bs) (n + 1)
  have hne : ((b :: bs).take (n + 1)).rdropWhile isspace ≠ [] := by
    rw [List.take_succ_cons, Ne, List.rdropWhile_eq_nil_iff]
    intro hall
    rw [hall b List.mem_cons_self] at hb
    cases hb
  obtain ⟨c, cs, hline⟩ := List.exists_cons_of_ne_nil hne
  have hc : c = b := by
    rw [hline] at hfront
    exact (List.cons_prefix_cons.mp hfront).1
  refine ⟨?_, ?_, ?_, fun _ => ?_⟩
  · rw [← inked_append, List.prefix_iff_eq_append.mp hfront, hink]
  · dsimp only
    rw [hline, hc]
    exact inked_cons_ne_nil hb _
  · rw [List.length_drop]
    have := List.length_pos_of_ne_nil hne
    rw [List.length_cons] at hle ⊢
    omega
  · have hlen := (List.rdropWhile_prefix isspace ((b :: bs).take (n + 1))).length_le
    have htake := List.length_take_le (n + 1) (b :: bs)
    rw [CellLine.hyphen, List.length_append]
    simp only [Bool.false_eq_true, if_false, List.length_nil]
    omega

end Rules

/-- The next line that the rules make. -/
theorem nextLine_cases {width : ℕ} {noHyphen : Bool} {text : Bytes} {line : CellLine} {rest : Bytes}
    (h : nextLine width noHyphen text = some (line, rest)) : NextLine width text line rest := by
  have hle := List.length_dropWhile_le isspace text
  have hink := inked_dropWhile text
  rw [nextLine] at h
  cases htext : text.dropWhile isspace with
  | nil =>
      rw [htext] at h
      cases h
  | cons b bs =>
      have hb : isspace b = false := by
        have hhead := List.head?_dropWhile_not isspace text
        rw [htext] at hhead
        simpa using hhead
      rw [htext] at h hle hink
      dsimp only at h
      rw [if_neg (List.cons_ne_nil b bs)] at h
      by_cases hfits : (b :: bs).length ≤ width
      · rw [if_pos hfits] at h
        obtain ⟨rfl, rfl⟩ := Prod.mk.inj (Option.some.inj h)
        exact .rest_fits hb hink hle hfits
      · rw [if_neg hfits] at h
        cases hspace : findSpace (b :: bs) width with
        | none =>
            rw [hspace] at h
            obtain ⟨rfl, rfl⟩ := Prod.mk.inj (Option.some.inj h)
            exact .broken_word noHyphen hb hink hle
        | some i =>
            rw [hspace] at h
            obtain ⟨rfl, rfl⟩ := Prod.mk.inj (Option.some.inj h)
            obtain ⟨hpos, hi⟩ := findSpace_bounds hspace
            exact .at_blank hb hink hle hpos hi

/-- A text without a next line has no ink. -/
theorem nextLine_eq_none {width : ℕ} {noHyphen : Bool} {text : Bytes}
    (h : nextLine width noHyphen text = none) : inked text = [] := by
  rw [nextLine] at h
  dsimp only at h
  by_cases hnil : text.dropWhile isspace = []
  · rw [← inked_dropWhile, hnil]
    rfl
  · rw [if_neg hnil] at h
    by_cases hfits : (text.dropWhile isspace).length ≤ width
    · rw [if_pos hfits] at h
      cases h
    · rw [if_neg hfits] at h
      cases hspace : findSpace (text.dropWhile isspace) width with
      | none =>
          rw [hspace] at h
          cases h
      | some i =>
          rw [hspace] at h
          cases h

/-! ### All lines -/

/-- The lines that the rules make of a text. -/
def wrapAll (width : ℕ) (noHyphen : Bool) (text : Bytes) : List CellLine :=
  match _h : nextLine width noHyphen text with
  | none => []
  | some (line, rest) => line :: wrapAll width noHyphen rest
termination_by text.length
decreasing_by exact (nextLine_cases _h).shorter

section Lines

variable {width : ℕ} {noHyphen : Bool} {text : Bytes}

theorem wrapAll_of_none (h : nextLine width noHyphen text = none) :
    wrapAll width noHyphen text = [] := by
  rw [wrapAll]
  split
  · rfl
  · rename_i h'
    rw [h] at h'
    cases h'

theorem wrapAll_of_some {line : CellLine} {rest : Bytes}
    (h : nextLine width noHyphen text = some (line, rest)) :
    wrapAll width noHyphen text = line :: wrapAll width noHyphen rest := by
  rw [wrapAll]
  split
  · rename_i h'
    rw [h] at h'
    cases h'
  · rename_i h'
    rw [h] at h'
    obtain ⟨rfl, rfl⟩ := Prod.mk.inj (Option.some.inj h')
    rfl

/-- The loop makes the first of the lines, as many as there is room for. -/
theorem wrapLoop_eq_take (left : ℕ) (text : Bytes) :
    wrapLoop width noHyphen left text = (wrapAll width noHyphen text).take left := by
  induction left generalizing text with
  | zero => rw [wrapLoop, List.take_zero]
  | succ left ih =>
      rw [wrapLoop]
      cases h : nextLine width noHyphen text with
      | none => rw [wrapAll_of_none h, List.take_nil]
      | some r =>
          obtain ⟨line, rest⟩ := r
          rw [wrapAll_of_some h, List.take_succ_cons]
          exact congrArg _ (ih rest)

/-- **No ink is lost** by the rules, in no order but that of the text. -/
theorem inked_wrapAll (text : Bytes) :
    inked ((wrapAll width noHyphen text).flatMap CellLine.taken) = inked text := by
  induction hn : text.length using Nat.strong_induction_on generalizing text with
  | _ n ih =>
      cases h : nextLine width noHyphen text with
      | none => rw [wrapAll_of_none h, nextLine_eq_none h]; rfl
      | some r =>
          have hline := nextLine_cases h
          rw [wrapAll_of_some h, List.flatMap_cons, inked_append,
            ih _ (hn ▸ hline.shorter) r.2 rfl, hline.ink]

/-- Every line has ink and fits the column. -/
theorem wrapAll_lines (text : Bytes) :
    ∀ l ∈ wrapAll width noHyphen text,
      inked l.taken ≠ [] ∧ (2 ≤ width → (l.taken ++ l.hyphen).length ≤ width) := by
  induction hn : text.length using Nat.strong_induction_on generalizing text with
  | _ n ih =>
      intro l hl
      cases h : nextLine width noHyphen text with
      | none =>
          rw [wrapAll_of_none h] at hl
          cases hl
      | some r =>
          have hline := nextLine_cases h
          rw [wrapAll_of_some h] at hl
          rcases List.mem_cons.mp hl with rfl | hl
          · exact ⟨hline.inked, hline.fits⟩
          · exact ih _ (hn ▸ hline.shorter) r.2 rfl l hl

end Lines

/-! ### The buffers -/

/-- A buffer holds the first 255 characters that a line takes. -/
theorem CellLine.content_eq (l : CellLine) : l.content = l.taken.take 255 := by
  rw [content, stored, hyphen]
  by_cases hbroken : l.broken = true
  · rw [if_pos hbroken, List.length_append, List.length_singleton]
    by_cases hlen : l.taken.length + 1 ≤ 255
    · rw [if_pos ⟨hbroken, hlen⟩,
        List.take_of_length_le (by rw [List.length_append, List.length_singleton]; exact hlen),
        List.dropLast_concat, List.take_of_length_le (by omega)]
    · rw [if_neg fun h => hlen h.2, List.take_append_of_le_length (by omega)]
  · rw [if_neg hbroken, if_neg fun h => hbroken h.1, List.append_nil]

/-- What buffers hold of some lines is no more than what the lines take. -/
theorem inked_take_sublist (n : ℕ) (ls : List CellLine) :
    (inked ((ls.take n).flatMap CellLine.content)).Sublist
      (inked (ls.flatMap CellLine.taken)) := by
  refine List.Sublist.filter _ ?_
  induction ls generalizing n with
  | nil => simp
  | cons l ls ih =>
      cases n with
      | zero => exact List.nil_sublist _
      | succ n =>
          rw [List.take_succ_cons, List.flatMap_cons, List.flatMap_cons]
          refine List.Sublist.append ?_ (ih n)
          rw [l.content_eq]
          exact List.take_sublist _ _

/-- Buffers hold all the ink of some lines if and only if there is a buffer for each of them, and no
line has ink behind its 255th character. -/
theorem inked_stored_iff {ls : List CellLine} (hinked : ∀ l ∈ ls, inked l.taken ≠ []) (n : ℕ) :
    inked ((ls.take n).flatMap CellLine.content) = inked (ls.flatMap CellLine.taken) ↔
      ls.length ≤ n ∧ ∀ l ∈ ls, inked (l.taken.drop 255) = [] := by
  induction ls generalizing n with
  | nil => simp
  | cons l ls ih =>
      have hl := hinked l List.mem_cons_self
      cases n with
      | zero =>
          rw [List.take_zero, List.flatMap_nil, List.flatMap_cons, inked_append]
          constructor
          · intro h
            exact absurd (List.append_eq_nil_iff.mp h.symm).1 hl
          · rintro ⟨hlen, -⟩
            simp at hlen
      | succ n =>
          have hsplit : inked l.taken = inked (l.taken.take 255) ++ inked (l.taken.drop 255) := by
            rw [← inked_append, List.take_append_drop]
          have hrest := ih (fun x hx => hinked x (List.mem_cons_of_mem _ hx)) n
          rw [List.take_succ_cons, List.flatMap_cons, List.flatMap_cons, inked_append, inked_append,
            l.content_eq, hsplit, List.append_assoc, List.append_cancel_left_eq,
            List.forall_mem_cons,
            List.length_cons]
          constructor
          · intro h
            have hle := (inked_take_sublist n ls).length_le
            have hlen := congrArg List.length h
            rw [List.length_append] at hlen
            have hnil : inked (l.taken.drop 255) = [] := List.length_eq_zero_iff.mp (by omega)
            rw [hnil, List.nil_append, hrest] at h
            exact ⟨by omega, hnil, h.2⟩
          · rintro ⟨hlen, hnil, hall⟩
            rw [hnil, List.nil_append, hrest]
            exact ⟨by omega, hall⟩

/-! ### Cells -/

/-- The lines of a cell fit its column, and their characters other than blanks, without the hyphens
that were put behind broken words, are those of the text. -/
def CellWrapped (width : ℕ) (noHyphen : Bool) (text : Bytes) : Prop :=
  (∀ l ∈ cellLines width noHyphen text, l.stored.length ≤ width) ∧
    inked ((cellLines width noHyphen text).flatMap CellLine.content) = inked text

/-- The lines that the rules make of a text have buffers: there are at most 64, and only blanks
stand behind the 255th character of a line. -/
def HasBuffers (width : ℕ) (noHyphen : Bool) (text : Bytes) : Prop :=
  (wrapAll width noHyphen text).length ≤ 64 ∧
    ∀ l ∈ wrapAll width noHyphen text, inked (l.taken.drop 255) = []

/-- **A cell is wrapped without a loss** if and only if its lines have buffers. -/
theorem cellWrapped_iff {width : ℕ} (hwidth : 2 ≤ width) (noHyphen : Bool) (text : Bytes) :
    CellWrapped width noHyphen text ↔ HasBuffers width noHyphen text := by
  have hlines := @wrapAll_lines width noHyphen text
  have hloop := @wrapLoop_eq_take width noHyphen 64 text
  have hcell : inked ((cellLines width noHyphen text).flatMap CellLine.content) =
      inked (((wrapAll width noHyphen text).take 64).flatMap CellLine.content) := by
    rw [cellLines, ← hloop]
    cases wrapLoop width noHyphen 64 text with
    | nil => rfl
    | cons l ls => rfl
  have hfits : ∀ l ∈ cellLines width noHyphen text, l.stored.length ≤ width := by
    intro l hl
    have hmem : l = ⟨[], false⟩ ∨ l ∈ wrapAll width noHyphen text := by
      rw [cellLines, hloop] at hl
      split at hl
      · exact .inl (List.mem_singleton.mp hl)
      · exact .inr (List.mem_of_mem_take hl)
    rcases hmem with rfl | hmem
    · exact Nat.zero_le _
    · exact (List.length_take_le' 255 _).trans ((hlines l hmem).2 hwidth)
  rw [CellWrapped, HasBuffers, hcell, ← @inked_wrapAll width noHyphen text,
    inked_stored_iff (fun l hl => (hlines l hl).1) 64]
  exact and_iff_right hfits

/-- Two words in a column of four characters. -/
theorem cellWrapped_words :
    CellWrapped 4 false [97, 98, 32, 99, 100, 101] ↔
      HasBuffers 4 false [97, 98, 32, 99, 100, 101] :=
  cellWrapped_iff (by omega) false _

/-- A word of 66 letters in a column of two characters loses its last two letters. -/
theorem letters_lost : ¬CellWrapped 2 false (List.replicate 66 97) := by
  rintro ⟨-, hink⟩
  revert hink
  decide +kernel

end TPBench
