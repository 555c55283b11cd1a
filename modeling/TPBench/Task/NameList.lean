import Mathlib.Data.List.DropRight
import TPBench.CFile.Segments
import TPBench.Kernel.Tags
import TPBench.Cli.Driver
import TPBench.Raf.Entry
import TPBench.Uniq

/-!
# Lists of Names

`--data-name` and `--meta-name` take a list of names in one text (`tpbcliTaskParseNameCsv`,
`tpbcli-task-select.c`). Commas stand between the names, and blanks around a name are left out. A
name may stand in double quotes, where two quotes stand for one and a comma is a character of the
name. Names that come again are left out.

The parser is a scanner over the text. What it accepts is stated over the entries of the text
(`nameEntries`): what stands between two commas outside of quotes. An entry has a name or has none
(`NameEntry.name?`), and the parser reads the names of the entries one after the other
(`map_nameLoop`).

A blank entry at the end of the text is never looked at: the loop over the names stops at the end of
the text, whether a name or a comma stands in front of it.

## Main results

* `nameCsv_iff`: names in quotes are read back, and a text with a faulty entry is refused, except
  for an empty entry behind the last comma.
-/

open CFile

namespace TPBench

/-! ### The parser -/

/-- The double quote. -/
def nameQuote : UInt8 := 34

/-- The largest capacity of an array that starts with eight elements and doubles as an `int`. -/
def largestArray : ℕ := 1073741824

/-- What the functions that append to an array without repetitions do. -/
def appendUnique {α : Type} [BEq α] [LawfulBEq α] (x : α) (xs : Uniq.Growing α) :
    Except Err (Uniq.Growing α) :=
  match Uniq.add 8 intMax x xs with
  | some xs => .ok xs
  | none => .error .undefined

/-- `_sf_append_name_unique`. -/
def sfAppendNameUnique (name : Bytes) (names : Uniq.Growing Bytes) :
    Except Err (Uniq.Growing Bytes) :=
  if name = [] then .error (.code .cliMisc .cliFail) else appendUnique name names

/-- A name in quotes, behind the opening one: the characters up to the closing quote are added
to the token, and what follows is left. -/
def quotedToken : Bytes → Bytes → Except Err (Bytes × Bytes)
  | _, [] => .error (.code .cliMisc .cliFail)
  | token, b :: bs =>
      if b = nameQuote then
        match bs with
        | [] => .ok (token, [])
        | c :: cs =>
            if c = nameQuote then
              if token.length + 1 ≥ nameStrMaxLen then .error (.code .cliMisc .cliFail)
              else quotedToken (token ++ [nameQuote]) cs
            else if c ≠ comma then .error (.code .cliMisc .cliFail)
            else .ok (token, c :: cs)
      else if token.length + 1 ≥ nameStrMaxLen then .error (.code .cliMisc .cliFail)
      else quotedToken (token ++ [b]) bs

/-- A name without quotes, up to the next comma and without the blanks around it. -/
def plainToken (p : Bytes) : Except Err (Bytes × Bytes) :=
  let token := p.takeWhile (· ≠ comma)
  if token.length ≥ nameStrMaxLen then .error (.code .cliMisc .cliFail)
  else .ok ((token.rdropWhile isBlank).dropWhile isBlank, p.dropWhile (· ≠ comma))

/-- The next name of the list, behind blanks, or nothing at the end of the text. -/
def nameToken : Bytes → Except Err (Option (Bytes × Bytes))
  | [] => .ok none
  | b :: bs =>
      if b = comma then .error (.code .cliMisc .cliFail)
      else if b = nameQuote then (quotedToken [] bs).map some
      else (plainToken (b :: bs)).map some

/-- The rest behind a name in quotes is no longer than the text. -/
theorem length_le_of_quotedToken {token s name rest : Bytes}
    (h : quotedToken token s = .ok (name, rest)) : rest.length ≤ s.length := by
  fun_induction quotedToken token s with
  | case1 => cases h
  | case2 =>
      obtain ⟨rfl, rfl⟩ := Prod.mk.inj (Except.ok.inj h)
      simp
  | case3 => cases h
  | case4 _ _ _ ih =>
      have := ih h
      simp only [List.length_cons]
      omega
  | case5 => cases h
  | case6 =>
      obtain ⟨rfl, rfl⟩ := Prod.mk.inj (Except.ok.inj h)
      simp
  | case7 => cases h
  | case8 _ _ _ _ _ ih =>
      have := ih h
      simp only [List.length_cons]
      omega

/-- A name takes something of the text. -/
theorem length_lt_of_nameToken {p name rest : Bytes}
    (h : nameToken p = .ok (some (name, rest))) : rest.length < p.length := by
  cases p with
  | nil => cases h
  | cons b bs =>
      rw [nameToken] at h
      split_ifs at h with hsep hquote
      · cases ht : quotedToken [] bs with
        | error e => rw [ht] at h; cases h
        | ok r =>
            rw [ht] at h
            obtain rfl := Option.some.inj (Except.ok.inj h)
            have := length_le_of_quotedToken ht
            simp only [List.length_cons]
            omega
      · rw [plainToken] at h
        split_ifs at h with hlong
        · cases h
        obtain ⟨-, rfl⟩ := Prod.mk.inj (Option.some.inj (Except.ok.inj h))
        rw [List.dropWhile_cons_of_pos (by simpa using hsep), List.length_cons]
        exact Nat.lt_succ_of_le (List.length_dropWhile_le _ _)

/-- The loop of `tpbcli_task_parse_name_csv`. -/
def nameLoop (p : Bytes) (names : Uniq.Growing Bytes) : Except Err (Uniq.Growing Bytes) :=
  match _h : nameToken (p.dropWhile isBlank) with
  | .error e => .error e
  | .ok none => .ok names
  | .ok (some (token, rest)) =>
      match sfAppendNameUnique token names with
      | .error e => .error e
      | .ok names => nameLoop (if rest.head? = some comma then rest.tail else rest) names
termination_by p.length
decreasing_by
  have hlt := length_lt_of_nameToken _h
  have hle := List.length_dropWhile_le isBlank p
  split_ifs
  · rw [List.length_tail]
    omega
  · omega

/-- `tpbcli_task_parse_name_csv`. -/
def tpbcliTaskParseNameCsv (text : Bytes) : Except Err (List Bytes) :=
  match nameLoop text .empty with
  | .error e => .error e
  | .ok names => if names.elems = [] then .error (.code .cliMisc .cliFail) else .ok names.elems

/-! ### The entries of a text -/

/-- An entry of a list of names: a text without quotes, a name in quotes with what stands between
the closing quote and the next comma, or a quote that is not closed. -/
inductive NameEntry
  | plain (text : Bytes)
  | quoted (name tail : Bytes)
  | unclosed
  deriving DecidableEq

/-- The name behind an opening quote, and what stands behind the closing one. Two quotes stand for
one in the name. -/
def quotedSpan : Bytes → Option (Bytes × Bytes)
  | [] => none
  | b :: bs =>
      if b = nameQuote then
        match bs with
        | [] => some ([], [])
        | c :: cs =>
            if c = nameQuote then (quotedSpan cs).map fun r => (nameQuote :: r.1, r.2)
            else some ([], c :: cs)
      else (quotedSpan bs).map fun r => (b :: r.1, r.2)

/-- The first entry of a text, and the rest from its comma on. A quote opens a name where the entry
begins, behind blanks. -/
def firstEntry (text : Bytes) : NameEntry × Bytes :=
  match text.dropWhile isBlank with
  | [] => (.plain text, [])
  | b :: bs =>
      if b = nameQuote then
        match quotedSpan bs with
        | none => (.unclosed, [])
        | some (name, rest) =>
            (.quoted name (rest.takeWhile (· ≠ comma)), rest.dropWhile (· ≠ comma))
      else (.plain (text.takeWhile (· ≠ comma)), text.dropWhile (· ≠ comma))

/-- What stands behind a closing quote is no longer than the text. -/
theorem length_le_of_quotedSpan {s name rest : Bytes} (h : quotedSpan s = some (name, rest)) :
    rest.length ≤ s.length := by
  fun_induction quotedSpan s generalizing name with
  | case1 => cases h
  | case2 =>
      obtain ⟨-, rfl⟩ := Prod.mk.inj (Option.some.inj h)
      simp
  | case3 _ ih =>
      obtain ⟨⟨n, r⟩, hr, he⟩ := Option.map_eq_some_iff.mp h
      obtain ⟨-, rfl⟩ := Prod.mk.inj he
      have := ih hr
      rw [List.length_cons, List.length_cons]
      omega
  | case4 =>
      obtain ⟨-, rfl⟩ := Prod.mk.inj (Option.some.inj h)
      simp
  | case5 _ _ _ ih =>
      obtain ⟨⟨n, r⟩, hr, he⟩ := Option.map_eq_some_iff.mp h
      obtain ⟨-, rfl⟩ := Prod.mk.inj he
      have := ih hr
      rw [List.length_cons]
      omega

/-- An entry does not add to the text. -/
theorem length_firstEntry_le (text : Bytes) : (firstEntry text).2.length ≤ text.length := by
  rw [firstEntry]
  cases hq : text.dropWhile isBlank with
  | nil => simp
  | cons b bs =>
      dsimp only
      have hle := List.length_dropWhile_le isBlank text
      rw [hq, List.length_cons] at hle
      split_ifs with hquote
      · cases hspan : quotedSpan bs with
        | none => simp
        | some r =>
            have := length_le_of_quotedSpan hspan
            have := List.length_dropWhile_le (· ≠ comma) r.2
            dsimp only
            omega
      · exact List.length_dropWhile_le _ _

/-- The entries of a text. -/
def nameEntries (text : Bytes) : List NameEntry :=
  match _h : (firstEntry text).2 with
  | [] => [(firstEntry text).1]
  | _ :: rest => (firstEntry text).1 :: nameEntries rest
termination_by text.length
decreasing_by
  have := length_firstEntry_le text
  rw [_h, List.length_cons] at this
  omega

/-- There is nothing but blanks in an entry without quotes. -/
def NameEntry.blank : NameEntry → Bool
  | plain text => text.all isBlank
  | _ => false

/-- An entry that is empty, has a quote that is not closed, or other than blanks behind its closing
quote. -/
def NameEntry.Faulty : NameEntry → Prop
  | plain text => text.all isBlank = true
  | quoted name tail => name = [] ∨ tail.all isBlank = false
  | unclosed => True

/-- The name of an entry that the parser takes: it fits the buffer of the parser, and nothing stands
behind a closing quote. -/
def NameEntry.name? : NameEntry → Option Bytes
  | plain text =>
      let name := ((text.dropWhile isBlank).rdropWhile isBlank).dropWhile isBlank
      if name = [] ∨ (text.dropWhile isBlank).length ≥ nameStrMaxLen then none else some name
  | quoted name tail =>
      if name = [] ∨ name.length ≥ nameStrMaxLen ∨ tail ≠ [] then none else some name
  | unclosed => none

/-- The error of the parser. -/
def nameFail {α : Type} : Except Err α := .error (.code .cliMisc .cliFail)

/-- A character of the name. -/
theorem quotedSpan_char {b : UInt8} (hb : b ≠ nameQuote) (bs : Bytes) :
    quotedSpan (b :: bs) = (quotedSpan bs).map fun r => (b :: r.1, r.2) := by
  rw [quotedSpan.eq_def]
  dsimp only
  rw [if_neg hb]

/-- Two quotes stand for one. -/
theorem quotedSpan_quotes (cs : Bytes) :
    quotedSpan (nameQuote :: nameQuote :: cs) =
      (quotedSpan cs).map fun r => (nameQuote :: r.1, r.2) := by
  rw [quotedSpan.eq_def]
  dsimp only
  rw [if_pos rfl, if_pos rfl]

/-- A single quote closes the name. -/
theorem quotedSpan_close {cs : Bytes} (hcs : cs.head? ≠ some nameQuote) :
    quotedSpan (nameQuote :: cs) = some ([], cs) := by
  rw [quotedSpan.eq_def]
  dsimp only
  rw [if_pos rfl]
  cases cs with
  | nil => rfl
  | cons c cs =>
      have hc : c ≠ nameQuote := by simpa using hcs
      dsimp only
      rw [if_neg hc]

/-- A name in quotes is taken when it fits the buffer and stands in front of a comma or of the
end of the text. -/
theorem quotedToken_eq {token : Bytes} (s : Bytes) (ht : token.length < nameStrMaxLen) :
    quotedToken token s = match quotedSpan s with
      | none => nameFail
      | some (name, rest) =>
          if token.length + name.length < nameStrMaxLen ∧ rest.takeWhile (· ≠ comma) = [] then
            .ok (token ++ name, rest)
          else nameFail := by
  fun_induction quotedToken token s with
  | case1 => rfl
  | case2 => simp [quotedSpan, ht]
  | case3 token cs hlong =>
      rw [quotedSpan_quotes]
      cases quotedSpan cs with
      | none => rfl
      | some r =>
          rw [Option.map_some]
          dsimp only
          rw [if_neg (by rw [List.length_cons]; omega)]
          rfl
  | case4 token cs hfit ih =>
      rw [ih (by rw [List.length_append, List.length_singleton]; omega), quotedSpan_quotes]
      cases quotedSpan cs with
      | none => rfl
      | some r =>
          rw [Option.map_some]
          dsimp only
          rw [List.length_append, List.length_singleton, List.length_cons, ← List.append_cons,
            show token.length + 1 + r.1.length = token.length + (r.1.length + 1) by omega]
  | case5 token c cs hquote hsep =>
      rw [quotedSpan_close (by simpa using hquote)]
      dsimp only
      rw [List.takeWhile_cons_of_pos (by simpa using hsep), if_neg (by simp)]
      rfl
  | case6 token c cs hquote hsep =>
      rw [quotedSpan_close (by simpa using hquote)]
      dsimp only
      rw [List.takeWhile_cons_of_neg (by simpa using hsep), if_pos ⟨by simpa using ht, rfl⟩,
        List.append_nil]
  | case7 token b bs hquote hlong =>
      rw [quotedSpan_char hquote]
      cases quotedSpan bs with
      | none => rfl
      | some r =>
          rw [Option.map_some]
          dsimp only
          rw [if_neg (by rw [List.length_cons]; omega)]
          rfl
  | case8 token b bs hquote hfit ih =>
      rw [ih (by rw [List.length_append, List.length_singleton]; omega), quotedSpan_char hquote]
      cases quotedSpan bs with
      | none => rfl
      | some r =>
          rw [Option.map_some]
          dsimp only
          rw [List.length_append, List.length_singleton, List.length_cons, ← List.append_cons,
            show token.length + 1 + r.1.length = token.length + (r.1.length + 1) by omega]

/-- A comma is no blank. -/
theorem isBlank_comma : isBlank comma = false := rfl

/-- The blanks in front of a text are in front of its first comma. -/
theorem dropWhile_takeWhile_comma (text : Bytes) :
    (text.takeWhile (· ≠ comma)).dropWhile isBlank =
      (text.dropWhile isBlank).takeWhile (· ≠ comma) := by
  induction text with
  | nil => rfl
  | cons b bs ih =>
      by_cases hb : isBlank b = true
      · have hsep : b ≠ comma := by
          rintro rfl
          exact absurd hb (by rw [isBlank_comma]; exact Bool.false_ne_true)
        rw [List.takeWhile_cons_of_pos (by simpa using hsep), List.dropWhile_cons_of_pos hb,
          List.dropWhile_cons_of_pos hb, ih]
      · rw [List.dropWhile_cons_of_neg hb]
        by_cases hsep : b = comma
        · rw [List.takeWhile_cons_of_neg (by simpa using hsep), List.dropWhile_nil]
        · rw [List.takeWhile_cons_of_pos (by simpa using hsep), List.dropWhile_cons_of_neg hb]

/-- The text behind the first comma does not depend on the blanks in front. -/
theorem dropWhile_dropWhile_comma (text : Bytes) :
    (text.dropWhile isBlank).dropWhile (· ≠ comma) = text.dropWhile (· ≠ comma) := by
  induction text with
  | nil => rfl
  | cons b bs ih =>
      by_cases hb : isBlank b = true
      · have hsep : b ≠ comma := by
          rintro rfl
          exact absurd hb (by rw [isBlank_comma]; exact Bool.false_ne_true)
        rw [List.dropWhile_cons_of_pos hb, ih, List.dropWhile_cons_of_pos (by simpa using hsep)]
      · rw [List.dropWhile_cons_of_neg hb]

/-- A text of blanks has nothing behind them. -/
theorem dropWhile_isBlank_eq_nil {text : Bytes} :
    text.dropWhile isBlank = [] ↔ text.all isBlank = true := by
  rw [List.dropWhile_eq_nil_iff, List.all_eq_true]

/-- The parser takes the name of the first entry, and goes on behind the entry. Where the entry has
no name, the parser fails or has an empty token. -/
theorem nameToken_cases {text : Bytes} (hblank : text.all isBlank = false) :
    (∃ name, (firstEntry text).1.name? = some name ∧
      nameToken (text.dropWhile isBlank) = .ok (some (name, (firstEntry text).2))) ∨
    (firstEntry text).1.name? = none ∧
      (nameToken (text.dropWhile isBlank) = nameFail ∨
        ∃ rest, nameToken (text.dropWhile isBlank) = .ok (some ([], rest))) := by
  cases hq : text.dropWhile isBlank with
  | nil =>
      rw [dropWhile_isBlank_eq_nil, hblank] at hq
      cases hq
  | cons b bs =>
      rw [firstEntry, hq]
      dsimp only
      by_cases hquote : b = nameQuote
      · -- the entry begins with a quote
        rw [if_pos hquote, nameToken, if_neg (by rw [hquote]; rintro ⟨⟩), if_pos hquote,
          quotedToken_eq bs (by exact Nat.zero_lt_succ 255)]
        cases quotedSpan bs with
        | none => exact .inr ⟨rfl, .inl rfl⟩
        | some r =>
            obtain ⟨name, rest⟩ := r
            dsimp only
            rw [List.length_nil, Nat.zero_add, List.nil_append]
            by_cases htail : rest.takeWhile (· ≠ comma) = []
            · by_cases hlen : name.length < nameStrMaxLen
              · rw [if_pos ⟨hlen, htail⟩, NameEntry.name?, htail]
                have hrest : rest.dropWhile (· ≠ comma) = rest := by
                  have := List.takeWhile_append_dropWhile (p := (· ≠ comma)) (l := rest)
                  rwa [htail, List.nil_append] at this
                rw [hrest]
                by_cases hname : name = []
                · subst hname
                  exact .inr ⟨rfl, .inr ⟨rest, rfl⟩⟩
                · exact .inl ⟨name, if_neg (by simp [hname, hlen]), rfl⟩
              · rw [if_neg (by tauto), NameEntry.name?, if_pos (.inr (.inl (by omega)))]
                exact .inr ⟨rfl, .inl rfl⟩
            · rw [if_neg (by tauto), NameEntry.name?, if_pos (.inr (.inr htail))]
              exact .inr ⟨rfl, .inl rfl⟩
      · rw [if_neg hquote, nameToken, if_neg hquote, plainToken, NameEntry.name?,
          dropWhile_takeWhile_comma, hq, ← dropWhile_dropWhile_comma text, hq]
        dsimp only
        by_cases hsep : b = comma
        · rw [if_pos hsep, List.takeWhile_cons_of_neg (by simpa using hsep)]
          exact .inr ⟨rfl, .inl rfl⟩
        · rw [if_neg hsep]
          by_cases hlen : ((b :: bs).takeWhile (· ≠ comma)).length ≥ nameStrMaxLen
          · rw [if_pos hlen, if_pos (.inr hlen)]
            exact .inr ⟨rfl, .inl rfl⟩
          · rw [if_neg hlen]
            by_cases hname :
                (((b :: bs).takeWhile (· ≠ comma)).rdropWhile isBlank).dropWhile isBlank = []
            · rw [hname]
              exact .inr ⟨if_pos (.inl rfl), .inr ⟨_, rfl⟩⟩
            · exact .inl ⟨_, if_neg (by tauto), rfl⟩

/-! ### The loop -/

/-- Eight elements are doubled up to the largest array. -/
theorem largest_largestArray : Uniq.Largest 8 intMax largestArray where
  pos := by omega
  doubled := ⟨27, by norm_num [largestArray]⟩
  le := by
    rw [largestArray, intMax]
    omega
  last := by norm_num [largestArray, intMax]

/-- An array has taken these elements. -/
abbrev Took {α : Type} [BEq α] [LawfulBEq α] (seen : List α) (xs : Uniq.Growing α) : Prop :=
  Uniq.Holds 8 largestArray seen xs

/-- An element is taken as long as there are not too many distinct ones. -/
theorem appendUnique_eq_ok {α : Type} [BEq α] [LawfulBEq α] {seen : List α} {xs : Uniq.Growing α}
    (h : Took seen xs) {x : α} (hfit : (seen ++ [x]).eraseDups.length ≤ largestArray) :
    ∃ xs', appendUnique x xs = .ok xs' ∧ Took (seen ++ [x]) xs' := by
  obtain ⟨xs', hadd, h'⟩ := h.add largest_largestArray hfit
  exact ⟨xs', by rw [appendUnique, hadd], h'⟩

/-- Otherwise the capacity does not fit an `int`. -/
theorem appendUnique_eq_undefined {α : Type} [BEq α] [LawfulBEq α] {seen : List α}
    {xs : Uniq.Growing α} (h : Took seen xs) {x : α}
    (hseen : seen.eraseDups.length ≤ largestArray)
    (hover : ¬(seen ++ [x]).eraseDups.length ≤ largestArray) :
    appendUnique x xs = .error .undefined := by
  rw [appendUnique,
    h.add_eq_none largest_largestArray (by rwa [h.elems]) (Nat.lt_of_not_le hover)]

/-- The names that are read from entries when these were read before. -/
def namesFrom : List Bytes → List NameEntry → Except Err (List Bytes)
  | seen, [] => .ok seen.eraseDups
  | seen, e :: es =>
      match e.name? with
      | some name =>
          if (seen ++ [name]).eraseDups.length ≤ largestArray then namesFrom (seen ++ [name]) es
          else .error .undefined
      | none => if e.blank = true ∧ es = [] then .ok seen.eraseDups else nameFail

/-- One round of the loop. -/
theorem nameLoop_eq (p : Bytes) (names : Uniq.Growing Bytes) :
    nameLoop p names = match nameToken (p.dropWhile isBlank) with
      | .error e => .error e
      | .ok none => .ok names
      | .ok (some (token, rest)) =>
          match sfAppendNameUnique token names with
          | .error e => .error e
          | .ok names => nameLoop (if rest.head? = some comma then rest.tail else rest) names := by
  rw [nameLoop]
  split
  · rename_i h
    rw [h]
  · rename_i h
    rw [h]
  · rename_i h
    rw [h]

/-- At the end of the text the loop stops. -/
theorem nameLoop_nil (names : Uniq.Growing Bytes) : nameLoop [] names = .ok names := by
  rw [nameLoop_eq]
  rfl

/-- The first entry and the others. -/
theorem nameEntries_eq (text : Bytes) :
    nameEntries text = (firstEntry text).1 :: match (firstEntry text).2 with
      | [] => []
      | _ :: rest => nameEntries rest := by
  rw [nameEntries]
  split
  · rename_i h
    rw [h]
  · rename_i h
    rw [h]

/-- A name is not empty. -/
theorem NameEntry.ne_nil_of_name? {e : NameEntry} {name : Bytes} (h : e.name? = some name) :
    name ≠ [] := by
  cases e with
  | plain text | quoted name' tail =>
      rw [name?] at h
      split_ifs at h with hcond
      obtain rfl := Option.some.inj h
      exact fun hnil => hcond (.inl hnil)
  | unclosed => cases h

/-- The rest behind an entry is empty or begins with a comma. -/
theorem firstEntry_rest (text : Bytes) :
    (firstEntry text).2 = [] ∨ ∃ rest, (firstEntry text).2 = comma :: rest := by
  have hdrop : ∀ s : Bytes, s.dropWhile (· ≠ comma) = [] ∨
      ∃ rest, s.dropWhile (· ≠ comma) = comma :: rest := by
    intro s
    cases hs : s.dropWhile (· ≠ comma) with
    | nil => exact .inl rfl
    | cons b rest =>
        have hb := List.head?_dropWhile_not (· ≠ comma) s
        rw [hs] at hb
        have hsep : b = comma := by simpa using hb
        exact .inr ⟨rest, by rw [hsep]⟩
  rw [firstEntry]
  cases text.dropWhile isBlank with
  | nil => exact .inl rfl
  | cons b bs =>
      dsimp only
      split_ifs
      · cases quotedSpan bs with
        | none => exact .inl rfl
        | some r => exact hdrop r.2
      · exact hdrop text

/-- A text of blanks is one entry. -/
theorem firstEntry_of_blank {text : Bytes} (h : text.all isBlank = true) :
    firstEntry text = (.plain text, []) := by
  rw [firstEntry, dropWhile_isBlank_eq_nil.mpr h]

/-- An entry of blanks has no name. -/
theorem NameEntry.name?_of_blank {e : NameEntry} (h : e.blank = true) : e.name? = none := by
  cases e with
  | plain text =>
      rw [name?, dropWhile_isBlank_eq_nil.mpr h]
      rfl
  | quoted => cases h
  | unclosed => cases h

/-- Where a text is not blank and nothing follows its first entry, the entry is not blank. -/
theorem blank_firstEntry {text : Bytes} (hblank : text.all isBlank = false)
    (hrest : (firstEntry text).2 = []) : (firstEntry text).1.blank = false := by
  rw [firstEntry] at hrest ⊢
  cases hq : text.dropWhile isBlank with
  | nil =>
      rw [dropWhile_isBlank_eq_nil, hblank] at hq
      cases hq
  | cons b bs =>
      rw [hq] at hrest
      dsimp only at hrest ⊢
      split_ifs at hrest ⊢ with hquote
      · cases quotedSpan bs with
        | none => rfl
        | some r => rfl
      · have hall : text.takeWhile (· ≠ comma) = text := by
          have := List.takeWhile_append_dropWhile (p := (· ≠ comma)) (l := text)
          dsimp only at hrest
          rwa [hrest, List.append_nil] at this
        rw [NameEntry.blank, hall, hblank]

/-- The loop reads the names of the entries. -/
theorem map_nameLoop {seen : List Bytes} {names : Uniq.Growing Bytes} (text : Bytes)
    (h : Took seen names) (hseen : seen.eraseDups.length ≤ largestArray) :
    (nameLoop text names).map (·.elems) = namesFrom seen (nameEntries text) := by
  induction hn : text.length using Nat.strong_induction_on generalizing text seen names with
  | _ n ih =>
      subst hn
      rw [nameLoop_eq, nameEntries_eq, namesFrom]
      by_cases hblank : text.all isBlank = true
      · rw [dropWhile_isBlank_eq_nil.mpr hblank, firstEntry_of_blank hblank]
        dsimp only [nameToken]
        rw [@NameEntry.name?_of_blank (.plain text) hblank]
        dsimp only
        rw [if_pos ⟨hblank, rfl⟩]
        exact congrArg Except.ok h.elems
      · rw [Bool.not_eq_true] at hblank
        rcases nameToken_cases hblank with ⟨name, hname, htok⟩ | ⟨hname, htok⟩
        · rw [htok, hname]
          dsimp only
          rw [sfAppendNameUnique, if_neg (NameEntry.ne_nil_of_name? hname)]
          by_cases hfit : (seen ++ [name]).eraseDups.length ≤ largestArray
          · obtain ⟨names', hadd, h'⟩ := appendUnique_eq_ok h hfit
            rw [hadd, if_pos hfit]
            dsimp only
            have hle := length_firstEntry_le text
            rcases firstEntry_rest text with hrest | ⟨rest, hrest⟩
            · rw [hrest]
              change (nameLoop [] names').map (·.elems) = namesFrom (seen ++ [name]) []
              rw [nameLoop_nil, namesFrom]
              exact congrArg Except.ok h'.elems
            · rw [hrest] at hle ⊢
              rw [List.head?_cons, if_pos rfl, List.tail_cons]
              exact ih _ (by rw [List.length_cons] at hle; omega) rest h' hfit rfl
          · rw [appendUnique_eq_undefined h hseen hfit, if_neg hfit]
            rfl
        · have hlast : ¬((firstEntry text).1.blank = true ∧
              (match (firstEntry text).2 with
                | [] => []
                | _ :: rest => nameEntries rest) = []) := by
            rintro ⟨hb, hnil⟩
            cases hrest : (firstEntry text).2 with
            | nil => rw [blank_firstEntry hblank hrest] at hb; cases hb
            | cons b rest =>
                rw [hrest] at hnil
                dsimp only at hnil
                rw [nameEntries_eq] at hnil
                cases hnil
          rw [hname]
          dsimp only
          rw [if_neg hlast]
          rcases htok with htok | ⟨rest, htok⟩
          · rw [htok]
            rfl
          · rw [htok]
            rfl

/-- The parser reads the names of the entries, and fails when there are none. -/
theorem tpbcliTaskParseNameCsv_eq (text : Bytes) :
    tpbcliTaskParseNameCsv text = match namesFrom [] (nameEntries text) with
      | .error e => .error e
      | .ok names => if names = [] then nameFail else .ok names := by
  have hloop := map_nameLoop text Uniq.Holds.empty (by exact Nat.zero_le _)
  rw [tpbcliTaskParseNameCsv, ← hloop]
  cases nameLoop text Uniq.Growing.empty with
  | error e => rfl
  | ok names => rfl

/-! ### What is accepted -/

/-- The names of the entries in front of the first one without a name. -/
def rightNames : List NameEntry → List Bytes
  | [] => []
  | e :: es =>
      match e.name? with
      | some name => name :: rightNames es
      | none => []

/-- Every entry has a name, a blank one at the end apart. -/
def acceptable : List NameEntry → Bool
  | [] => true
  | e :: es =>
      match e.name? with
      | some _ => acceptable es
      | none => e.blank && es.isEmpty

/-- The names of acceptable entries are read, as many as an array can hold. -/
theorem namesFrom_eq {seen : List Bytes} (es : List NameEntry)
    (hseen : seen.eraseDups.length ≤ largestArray) :
    namesFrom seen es =
      if (seen ++ rightNames es).eraseDups.length ≤ largestArray then
        if acceptable es then .ok (seen ++ rightNames es).eraseDups else nameFail
      else .error .undefined := by
  induction es generalizing seen with
  | nil => rw [namesFrom, rightNames, List.append_nil, if_pos hseen, acceptable, if_pos rfl]
  | cons e es ih =>
      rw [namesFrom, rightNames, acceptable]
      cases e.name? with
      | none =>
          dsimp only
          rw [List.append_nil, if_pos hseen]
          simp only [Bool.and_eq_true, List.isEmpty_iff]
      | some name =>
          dsimp only
          rw [List.append_cons seen name (rightNames es)]
          by_cases hfit : (seen ++ [name]).eraseDups.length ≤ largestArray
          · rw [if_pos hfit, ih hfit]
          · have hmono := Uniq.length_eraseDups_le_append (seen ++ [name]) (rightNames es)
            rw [if_neg hfit, if_neg (by omega)]

/-- A faulty entry has no name. -/
theorem NameEntry.Faulty.name?_eq_none {e : NameEntry} (h : e.Faulty) : e.name? = none := by
  cases e with
  | plain text => exact name?_of_blank h
  | quoted name tail =>
      rw [name?]
      rcases h with hname | htail
      · rw [if_pos (.inl hname)]
      · refine if_pos (.inr (.inr ?_))
        rintro rfl
        cases htail
  | unclosed => rfl

/-- An entry of blanks is faulty. -/
theorem NameEntry.faulty_of_blank {e : NameEntry} (h : e.blank = true) : e.Faulty := by
  cases e with
  | plain text => exact h
  | quoted => cases h
  | unclosed => cases h

/-- Entries with names come first. -/
theorem acceptable_append {es fs : List NameEntry} (h : ∀ e ∈ es, e.name? ≠ none) :
    acceptable (es ++ fs) = acceptable fs := by
  induction es with
  | nil => rfl
  | cons e es ih =>
      obtain ⟨name, hname⟩ := Option.ne_none_iff_exists'.mp (h e List.mem_cons_self)
      rw [List.cons_append, acceptable, hname]
      exact ih fun x hx => h x (List.mem_cons_of_mem _ hx)

/-- The first entry is read. -/
theorem rightNames_append_ne_nil {es fs : List NameEntry} (hes : es ≠ [])
    (h : ∀ e ∈ es, e.name? ≠ none) : rightNames (es ++ fs) ≠ [] := by
  obtain ⟨e, es, rfl⟩ := List.exists_cons_of_ne_nil hes
  obtain ⟨name, hname⟩ := Option.ne_none_iff_exists'.mp (h e List.mem_cons_self)
  rw [List.cons_append, rightNames, hname]
  exact List.cons_ne_nil _ _

/-- Acceptable entries, one of which is faulty, are entries with names and a blank one behind
them. -/
theorem exists_of_acceptable {es : List NameEntry} (hes : acceptable es = true)
    (hfaulty : ∃ e ∈ es, e.Faulty) :
    ∃ fs e, es = fs ++ [e] ∧ (∀ x ∈ fs, x.name? ≠ none) ∧ e.blank = true := by
  induction es with
  | nil => simp at hfaulty
  | cons e es ih =>
      rw [acceptable] at hes
      cases hname : e.name? with
      | none =>
          rw [hname, Bool.and_eq_true, List.isEmpty_iff] at hes
          obtain ⟨hblank, rfl⟩ := hes
          exact ⟨[], e, rfl, by simp, hblank⟩
      | some name =>
          rw [hname] at hes
          obtain ⟨x, hx, hf⟩ := hfaulty
          have hx' : x ∈ es := by
            rcases List.mem_cons.mp hx with rfl | hx
            · rw [hf.name?_eq_none] at hname
              cases hname
            · exact hx
          obtain ⟨fs, e', rfl, hfs, hblank⟩ := ih hes ⟨x, hx', hf⟩
          refine ⟨e :: fs, e', rfl, ?_, hblank⟩
          intro y hy
          rcases List.mem_cons.mp hy with rfl | hy
          · rw [hname]
            exact Option.some_ne_none _
          · exact hfs y hy

/-! ### Names in quotes -/

/-- A name in quotes, with its own quotes doubled. -/
def quotedEntry (name : Bytes) : Bytes :=
  nameQuote ::
    (name.flatMap (fun b => if b = nameQuote then [nameQuote, nameQuote] else [b]) ++ [nameQuote])

/-- Names in quotes with commas between them. -/
def quotedList (names : List Bytes) : Bytes := joinSep comma (names.map quotedEntry)

/-- A name in quotes is read back. -/
theorem quotedSpan_doubled (name : Bytes) {rest : Bytes} (hrest : rest.head? ≠ some nameQuote) :
    quotedSpan (name.flatMap (fun b => if b = nameQuote then [nameQuote, nameQuote] else [b]) ++
      nameQuote :: rest) = some (name, rest) := by
  induction name with
  | nil => rw [List.flatMap_nil, List.nil_append, quotedSpan_close hrest]
  | cons b name ih =>
      rw [List.flatMap_cons, List.append_assoc]
      by_cases hb : b = nameQuote
      · rw [if_pos hb, List.cons_append, List.cons_append, List.nil_append, quotedSpan_quotes, ih,
          hb]
        rfl
      · rw [if_neg hb, List.cons_append, List.nil_append, quotedSpan_char hb, ih]
        rfl

/-- The first entry is the name in quotes. -/
theorem firstEntry_quotedEntry (name : Bytes) {rest : Bytes}
    (hrest : rest = [] ∨ ∃ more, rest = comma :: more) :
    firstEntry (quotedEntry name ++ rest) = (.quoted name [], rest) := by
  have hhead : rest.head? ≠ some nameQuote := by
    rcases hrest with rfl | ⟨more, rfl⟩
    · exact nofun
    · rw [List.head?_cons]
      exact fun h => absurd (Option.some.inj h) (by rw [comma, nameQuote]; exact nofun)
  have htail : rest.takeWhile (· ≠ comma) = [] ∧ rest.dropWhile (· ≠ comma) = rest := by
    rcases hrest with rfl | ⟨more, rfl⟩
    · exact ⟨rfl, rfl⟩
    · exact ⟨List.takeWhile_cons_of_neg (by simp), List.dropWhile_cons_of_neg (by simp)⟩
  rw [quotedEntry, List.cons_append, List.append_assoc, List.singleton_append, firstEntry,
    List.dropWhile_cons_of_neg (by rw [isBlank, nameQuote]; exact nofun)]
  dsimp only
  rw [if_pos rfl, quotedSpan_doubled name hhead]
  dsimp only
  rw [htail.1, htail.2]

/-- The entries of names in quotes. -/
theorem nameEntries_quotedList {names : List Bytes} (hne : names ≠ []) :
    nameEntries (quotedList names) = names.map (.quoted · []) := by
  induction names with
  | nil => exact absurd rfl hne
  | cons name names ih =>
      rw [nameEntries_eq, quotedList, List.map_cons]
      by_cases hnil : names = []
      · subst hnil
        rw [List.map_nil, joinSep_singleton, ← List.append_nil (quotedEntry name),
          firstEntry_quotedEntry name (.inl rfl)]
        rfl
      · rw [joinSep_cons (by simpa using hnil), ← quotedList,
          firstEntry_quotedEntry name (.inr ⟨_, rfl⟩), List.map_cons]
        exact congrArg _ (ih hnil)

/-- Names in quotes that fit the buffer are all read. -/
theorem rightNames_quoted {names : List Bytes}
    (h : ∀ name ∈ names, name ≠ [] ∧ name.length ≤ 255) :
    rightNames (names.map (.quoted · [])) = names ∧
      acceptable (names.map (.quoted · [])) = true := by
  induction names with
  | nil => exact ⟨rfl, rfl⟩
  | cons name names ih =>
      obtain ⟨hne, hlen⟩ := h name List.mem_cons_self
      obtain ⟨hright, hacc⟩ := ih fun x hx => h x (List.mem_cons_of_mem _ hx)
      have hname : (NameEntry.quoted name []).name? = some name := by
        rw [NameEntry.name?]
        refine if_neg ?_
        rintro (hnil | hlong | htail)
        · exact hne hnil
        · rw [nameStrMaxLen] at hlong
          omega
        · exact htail rfl
      rw [List.map_cons, rightNames, acceptable, hname]
      exact ⟨by dsimp only; rw [hright], hacc⟩

/-! ### What is read back and what is refused -/

/-- An entry of the text is faulty. -/
def FaultyList (text : Bytes) : Prop := ∃ e ∈ nameEntries text, e.Faulty

/-- Nothing is wrong with the entries of the text but that the last one, behind a comma, is
empty. -/
def OnlyLastEmpty (text : Bytes) : Prop :=
  ∃ es e, nameEntries text = es ++ [e] ∧ es ≠ [] ∧ (∀ x ∈ es, x.name? ≠ none) ∧ e.blank = true

/-- More distinct names stand in front of the first entry without a name than an array can hold. -/
def Overfull (text : Bytes) : Prop :=
  largestArray < (rightNames (nameEntries text)).eraseDups.length

/-- **Lists of names.** Names in quotes are read back if and only if an array can hold them. A text
with a faulty entry is refused if and only if it has more wrong with it than an empty last entry,
and the array is not full before the parser gets there. -/
theorem nameCsv_iff {names : List Bytes} (hne : names ≠ [])
    (hnames : ∀ name ∈ names, name ≠ [] ∧ name.length ≤ 255) (text : Bytes) :
    (tpbcliTaskParseNameCsv (quotedList names) = .ok names.eraseDups ↔
      names.eraseDups.length ≤ largestArray) ∧
    ((FaultyList text → tpbcliTaskParseNameCsv text = .error (.code .cliMisc .cliFail)) ↔
      ¬OnlyLastEmpty text ∧ ¬(FaultyList text ∧ Overfull text)) := by
  constructor
  · obtain ⟨hright, hacc⟩ := rightNames_quoted hnames
    rw [tpbcliTaskParseNameCsv_eq, nameEntries_quotedList hne,
      namesFrom_eq _ (by exact Nat.zero_le _), List.nil_append, hright, hacc]
    constructor
    · intro h
      by_contra hover
      rw [if_neg hover] at h
      cases h
    · intro hfit
      rw [if_pos hfit, if_pos rfl]
      exact if_neg (Uniq.eraseDups_ne_nil hne)
  · rw [tpbcliTaskParseNameCsv_eq, namesFrom_eq _ (by exact Nat.zero_le _), List.nil_append]
    constructor
    · intro h
      constructor
      · rintro ⟨es, e, hes, hne', hright, hblank⟩
        have hf : FaultyList text := ⟨e, by simp [hes], e.faulty_of_blank hblank⟩
        have hacc : acceptable (es ++ [e]) = true := by
          rw [acceptable_append hright, acceptable, e.name?_of_blank hblank, hblank]
          rfl
        have hnil : (rightNames (es ++ [e])).eraseDups ≠ [] :=
          Uniq.eraseDups_ne_nil (rightNames_append_ne_nil hne' hright)
        have hfail := h hf
        rw [hes, hacc, if_pos rfl] at hfail
        by_cases hfit : (rightNames (es ++ [e])).eraseDups.length ≤ largestArray
        · rw [if_pos hfit] at hfail
          dsimp only at hfail
          rw [if_neg hnil] at hfail
          cases hfail
        · rw [if_neg hfit] at hfail
          cases hfail
      · rintro ⟨hf, hover⟩
        have hfail := h hf
        rw [if_neg (Nat.not_le_of_lt hover)] at hfail
        cases hfail
    · rintro ⟨hlast, hover⟩ hf
      rw [if_pos (Nat.le_of_not_lt fun hlt => hover ⟨hf, hlt⟩)]
      by_cases hacc : acceptable (nameEntries text) = true
      · obtain ⟨es, e, hes, hright, hblank⟩ := exists_of_acceptable hacc hf
        have hnil : es = [] := by
          by_contra hne'
          exact hlast ⟨es, e, hes, hne', hright, hblank⟩
        rw [if_pos hacc, hes, hnil, List.nil_append, rightNames, e.name?_of_blank hblank]
        rfl
      · rw [if_neg hacc]
        rfl

/-- Names with a quote and a comma are read back, and a text of two commas is refused. -/
theorem nameCsv_quote :
    tpbcliTaskParseNameCsv (quotedList [[97, 34, 98], [44]]) = .ok [[97, 34, 98], [44]] ∧
      tpbcliTaskParseNameCsv [44, 44] = .error (.code .cliMisc .cliFail) := by
  have hentries : nameEntries [44, 44] = [.plain [], .plain [], .plain []] := by
    have hlast : nameEntries [] = [.plain []] := by
      rw [nameEntries_eq]
      rfl
    have hrest : nameEntries [44] = [.plain [], .plain []] := by
      rw [nameEntries_eq]
      exact congrArg _ hlast
    rw [nameEntries_eq]
    exact congrArg _ hrest
  obtain ⟨hread, hrefused⟩ := @nameCsv_iff [[97, 34, 98], [44]] (by simp) (by simp) [44, 44]
  refine ⟨hread.mpr (by decide), hrefused.mpr ⟨?_, ?_⟩ ⟨.plain [], by simp [hentries], rfl⟩⟩
  · rintro ⟨es, e, hes, -, hnames, -⟩
    have hdrop := congrArg List.dropLast (hentries.symm.trans hes)
    rw [List.dropLast_concat] at hdrop
    exact hnames (.plain []) (hdrop ▸ List.mem_cons_self) rfl
  · rintro ⟨-, hover⟩
    rw [Overfull, hentries] at hover
    exact absurd hover (by decide)

/-- A comma behind the last name is accepted. -/
theorem last_comma_accepted :
    FaultyList [97, 44] ∧ tpbcliTaskParseNameCsv [97, 44] = .ok [[97]] := by
  have hentries : nameEntries [97, 44] = [.plain [97], .plain []] := by
    have hrest : nameEntries [] = [.plain []] := by
      rw [nameEntries_eq]
      rfl
    rw [nameEntries_eq]
    exact congrArg _ hrest
  constructor
  · exact ⟨.plain [], by simp [hentries], rfl⟩
  · rw [tpbcliTaskParseNameCsv_eq, hentries, namesFrom_eq _ (by exact Nat.zero_le _)]
    rfl

end TPBench
