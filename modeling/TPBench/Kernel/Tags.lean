import Mathlib.Data.List.DropRight
import Mathlib.Data.List.Sort
import TPBench.CFile.Segments
import TPBench.Cli.Driver

/-!
# Names and Role Tags

An argument or output of a kernel has a name and a list of tags (`tpb-tag-norm.c`). A name
is a text without `:` that fits the field it is stored in. The tags are a text of tokens
with commas between them: the caller's own tokens and the role the driver adds are put
together and normalized, by which every token is trimmed and turned to upper case, kept
once, and sorted.

A function of the source that returns `-1` returns `none` here. A tag text that is `NULL` is
the empty text, which every function treats alike.
-/

open CFile

namespace TPBench

/-- `toupper` in the C locale. -/
def toupper (b : UInt8) : UInt8 := if 97 ≤ b ∧ b ≤ 122 then b - 32 else b

/-- `,`. -/
def comma : UInt8 := 44

/-- `:`. -/
def colon : UInt8 := 58

/-- `TPB_TAG_MAX_TOKENS`. -/
def tagMaxTokens : ℕ := 64

/-- `TPBM_TAG_USER_MAX_LEN`. -/
def tagUserMaxLen : ℕ := 191

/-- A token without the blanks and tabulators at its ends. -/
def trimBlanks (tok : Bytes) : Bytes := (tok.dropWhile isBlank).rdropWhile isBlank

/-- One round of the loop over the tokens: `toks` are the tokens accepted so far. -/
def acceptToken (toks : List Bytes) (tok : Bytes) : Option (List Bytes) :=
  let t := trimBlanks tok
  if t = [] then some toks
  else if colon ∈ t then none
  else if t.map toupper ∈ toks then some toks
  else if tagMaxTokens ≤ toks.length then none
  else some (toks ++ [t.map toupper])

/-- The loop over the tokens of `strtok_r`. -/
def acceptTokens : List Bytes → List Bytes → Option (List Bytes)
  | toks, [] => some toks
  | toks, tok :: rest =>
      match acceptToken toks tok with
      | none => none
      | some toks' => acceptTokens toks' rest

/-- The loop that writes the tokens behind the first one. -/
def joinTokens (dstSz : ℕ) : Bytes → List Bytes → Option Bytes
  | out, [] => some out
  | out, t :: ts =>
      if dstSz ≤ out.length + 1 then none
      else if dstSz ≤ out.length + 1 + t.length then none
      else joinTokens dstSz (out ++ comma :: t) ts

/-- The last part of `_sf_normalize_tags`: the sorted tokens are written to `dst`. -/
def writeTokens (dstSz : ℕ) : List Bytes → Option Bytes
  | [] => some []
  | t :: ts => if dstSz ≤ t.length then none else joinTokens dstSz t ts

/-- `_sf_normalize_tags`, which works on a copy of the text in a field of its own. -/
def sfNormalizeTags (dstSz : ℕ) (raw : Bytes) : Option Bytes :=
  match acceptTokens [] (segments comma (printedIn nameStrMaxLen raw)) with
  | none => none
  | some toks => writeTokens dstSz (toks.insertionSort (· ≤ ·))

/-- `_sf_validate_header_name`. -/
def sfValidateHeaderName (name : Bytes) : Bool :=
  name ≠ [] ∧ name.length ≤ nameStrMaxLen - 1 ∧ colon ∉ name

/-- `_sf_validate_user_tags`. -/
def sfValidateUserTags (tag : Bytes) : Bool :=
  tag = [] ∨ tag.length ≤ tagUserMaxLen ∧ colon ∉ tag

/-- `_sf_finalize_role_tags`. -/
def sfFinalizeRoleTags (dstSz : ℕ) (userTag sysTag : Bytes) : Option Bytes :=
  if sysTag = [] then none
  else if sfValidateUserTags userTag = false then none
  else
    sfNormalizeTags dstSz (printedIn (nameStrMaxLen + 64)
      (if userTag = [] then sysTag else userTag ++ comma :: sysTag))

/-- `TPB_TAG_INPUT`. -/
def tpbTagInput : Bytes := ascii "TPBINPUT".toList

/-- `TPB_TAG_ENVVAR`. -/
def tpbTagEnvvar : Bytes := ascii "TPBENVVAR".toList

/-- `TPB_TAG_OUTPUT`. -/
def tpbTagOutput : Bytes := ascii "TPBOUTPUT".toList

example : sfFinalizeRoleTags nameStrMaxLen (ascii " t,,B ,T".toList)
    tpbTagOutput = some (ascii "B,T,".toList ++ tpbTagOutput) := by decide +kernel

end TPBench
