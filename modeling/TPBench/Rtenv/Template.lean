import Mathlib.Data.List.DropRight
import TPBench.CFile.Lines
import TPBench.CFile.Segments
import TPBench.Cli.Driver
import TPBench.Rtenv.Load

/-!
# Templates of Environments

An environment of the command line tool can be written down as a template, a text with a line
for each of its applications and variables (`tpbcliRtenvWriteTemplate`), which can be edited and
read again (`tpbcliRtenvParseTemplateFile`). A line is a word, a sign of equality and fields
between colons, and a field with a colon or a blank in it is put in quotes. Both sides split
such fields with `splitColonQuoted`, which drops fields that are empty and takes at most 64.

The reader adds to the settings it is given: `rtenv new` has it continue with those of the
command line.
-/

open CFile

namespace TPBench

/-! ### The settings -/

/-- `tpbcli_rtenv_spec_t`. -/
structure RtenvSettings extends RtenvSpec where
  envName : CArr 256
  note : CArr 256
  inheritFrom : Int32
  hasInherit : Bool
  inheritFromText : CArr 256

/-- Zeroed settings. -/
def RtenvSettings.zero : RtenvSettings where
  apps := []
  vars := []
  napp_le := napp_le_nil
  nenv_le := nenv_le_nil
  envName := zeroArr 256
  note := zeroArr 256
  inheritFrom := 0
  hasInherit := false
  inheritFromText := zeroArr 256

/-- The slot of an application. -/
def RtenvApp.of (name version note : Bytes) : RtenvApp :=
  ⟨snprintfS 64 name, snprintfS 64 version, snprintfS 64 note⟩

/-- The slot of a variable. -/
def RtenvVar.of (key value : Bytes) (onSet onGet : UInt32) : RtenvVar :=
  ⟨snprintfS 256 key, snprintfS 4096 value, onSet, onGet⟩

/-- `_sf_add_app`. -/
def RtenvSettings.addApp (s : RtenvSettings) (a : RtenvApp) : Option RtenvSettings :=
  if h : s.apps.length < 32 then
    some { s with
      apps := s.apps ++ [a]
      napp_le := by rw [List.length_append, List.length_singleton]; omega }
  else none

/-- `_sf_add_var`. -/
def RtenvSettings.addVar (s : RtenvSettings) (v : RtenvVar) : Option RtenvSettings :=
  if h : s.vars.length < 128 then
    some { s with
      vars := s.vars ++ [v]
      nenv_le := by rw [List.length_append, List.length_singleton]; omega }
  else none

/-- `--inherit-from` and `inherit_from=`. -/
def RtenvSettings.inherit (s : RtenvSettings) (text : Bytes) : RtenvSettings :=
  { s with
    inheritFromText := snprintfS 256 text
    inheritFrom := Int32.ofInt (strtoll (cstr (snprintfS 256 text).toList))
    hasInherit := true }

/-! ### Fields -/

/-- `:`. -/
def fieldSep : UInt8 := 58

/-- Whether a character opens a quoted field. -/
def isQuote (b : UInt8) : Bool := b = 39 ∨ b = 34

/-- `_sf_split_colon_quoted`, with room for `n` fields. A field that is quoted ends behind its
second quote, and is stored without quotes. Where there is no second quote, the field is the
rest of the text, with the quote it starts with. -/
def splitColonQuoted : ℕ → Bytes → List Bytes
  | 0, _ => []
  | n + 1, s =>
      match s.dropWhile (· = fieldSep) with
      | [] => []
      | c :: rest =>
          if isQuote c then
            match rest.dropWhile (· ≠ c) with
            | [] => [c :: rest]
            | _ :: behind => rest.takeWhile (· ≠ c) :: splitColonQuoted n behind
          else
            (c :: rest.takeWhile (· ≠ fieldSep)) ::
              splitColonQuoted n (rest.dropWhile (· ≠ fieldSep))

/-- The room that callers have for fields. -/
def maxParts : ℕ := 64

/-- The rounds of `_sf_join_colon_parts` behind the first one, on what stands in the buffer of
`outlen` bytes. -/
def joinRest (outlen : ℕ) : Bytes → List Bytes → Option Bytes
  | out, [] => some out
  | out, p :: parts =>
      if outlen ≤ out.length + 1 then none
      else if outlen ≤ out.length + 1 + p.length then none
      else joinRest outlen (out ++ fieldSep :: p) parts

/-- `_sf_join_colon_parts`. -/
def sfJoinColonParts (outlen : ℕ) : List Bytes → Option Bytes
  | [] => some []
  | p :: parts => if outlen ≤ p.length then none else joinRest outlen p parts

/-! ### Modes -/

/-- `_sf_on_set_name`. -/
def sfOnSetName (v : UInt32) : Bytes :=
  if v = tpbRtenvOnSetIgnore then ascii "ignore".toList
  else if v = tpbRtenvOnSetOverwrite then ascii "overwrite".toList
  else if v = tpbRtenvOnSetPrepend then ascii "prepend".toList
  else if v = tpbRtenvOnSetAppend then ascii "append".toList
  else ascii "?".toList

/-- `_sf_parse_on_set`. -/
def sfParseOnSet (s : Bytes) : Option UInt32 :=
  if s = ascii "ignore".toList then some tpbRtenvOnSetIgnore
  else if s = ascii "overwrite".toList then some tpbRtenvOnSetOverwrite
  else if s = ascii "prepend".toList then some tpbRtenvOnSetPrepend
  else if s = ascii "append".toList then some tpbRtenvOnSetAppend
  else none

/-- `TPB_RTENV_ON_GET_IGNORE`. -/
def tpbRtenvOnGetIgnore : UInt32 := 0

/-- `TPB_RTENV_ON_GET_WARN`. -/
def tpbRtenvOnGetWarn : UInt32 := 1

/-- `TPB_RTENV_ON_GET_FAIL`. -/
def tpbRtenvOnGetFail : UInt32 := 2

/-- `TPB_RTENV_ON_GET_OVERWRITE`. -/
def tpbRtenvOnGetOverwrite : UInt32 := 3

/-- The values of `on_get` that are a mode. -/
def IsOnGet (onGet : UInt32) : Prop :=
  onGet = tpbRtenvOnGetIgnore ∨ onGet = tpbRtenvOnGetWarn ∨
    onGet = tpbRtenvOnGetFail ∨ onGet = tpbRtenvOnGetOverwrite

/-- `_sf_on_get_name`. -/
def sfOnGetName (v : UInt32) : Bytes :=
  if v = tpbRtenvOnGetIgnore then ascii "ignore".toList
  else if v = tpbRtenvOnGetWarn then ascii "warn".toList
  else if v = tpbRtenvOnGetFail then ascii "fail".toList
  else if v = tpbRtenvOnGetOverwrite then ascii "overwrite".toList
  else ascii "?".toList

/-- `_sf_parse_on_get`. -/
def sfParseOnGet (s : Bytes) : Option UInt32 :=
  if s = ascii "ignore".toList then some tpbRtenvOnGetIgnore
  else if s = ascii "warn".toList then some tpbRtenvOnGetWarn
  else if s = ascii "fail".toList then some tpbRtenvOnGetFail
  else if s = ascii "overwrite".toList then some tpbRtenvOnGetOverwrite
  else none

/-! ### Writing -/

/-- The line of comment at the start of a template. -/
def templateHead : Bytes :=
  ascii ("# Set this ID to inherit settings from an existing runtime_environment tpbr, use " ++
    "`tpbcli rtenv ls` and `tpbcli rtenv show` to view existing records.").toList ++ [newline]

/-- The line of an application. -/
def appLine (a : RtenvApp) : Bytes :=
  ascii "application=".toList ++ cstr a.name.toList ++ fieldSep :: cstr a.version.toList ++
    fieldSep :: cstr a.note.toList ++ [newline]

/-- A field of a value, with a colon in front of it. -/
def valueField (p : Bytes) : Bytes :=
  if fieldSep ∈ p ∨ (32 : UInt8) ∈ p then fieldSep :: 39 :: p ++ [39] else fieldSep :: p

/-- The line of a variable. Its value is split into fields, joined and split again. -/
def varLine (v : RtenvVar) : Option Bytes := do
  let head := ascii "var=".toList ++ sfOnGetName v.onGet ++ fieldSep :: sfOnSetName v.onSet ++
    fieldSep :: cstr v.key.toList
  let parts := splitColonQuoted maxParts (cstr v.value.toList)
  if parts = [] then return head ++ [newline]
  let joined ← sfJoinColonParts 4096 parts
  return head ++ (splitColonQuoted maxParts joined).flatMap valueField ++ [newline]

/-- The lines of the variables, `none` when one of them cannot be written. -/
def varLines : List RtenvVar → Option Bytes
  | [] => some []
  | v :: vs => do
      let line ← varLine v
      let rest ← varLines vs
      return line ++ rest

/-- `tpbcli_rtenv_write_template`: the text that is written. -/
def tpbcliRtenvWriteTemplate (s : RtenvSettings) : Option Bytes := do
  let vars ← varLines s.vars
  return templateHead ++
    (ascii "inherit_from=".toList ++
      (if s.hasInherit then cstr s.inheritFromText.toList else []) ++ [newline]) ++
    (if cstr s.envName.toList = [] then []
      else ascii "name=".toList ++ cstr s.envName.toList ++ [newline]) ++
    (if cstr s.note.toList = [] then []
      else ascii "note=".toList ++ cstr s.note.toList ++ [newline]) ++
    (ascii "# Set applications used in the run-time environment.".toList ++ [newline]) ++
    s.apps.flatMap appLine ++
    (ascii "# Set environment variables and modes".toList ++ [newline]) ++ vars

/-! ### Reading -/

/-- `_sf_rtrim_inplace`. -/
def sfRtrim (s : Bytes) : Bytes :=
  s.rdropWhile fun b => b = newline ∨ b = 13 ∨ b = 32 ∨ b = 9

/-- `application=`, with the fields behind it. -/
def readApplication (parts : List Bytes) (s : RtenvSettings) : Option RtenvSettings :=
  match parts with
  | [] => none
  | name :: rest => s.addApp (.of name (rest.getD 0 []) (rest.getD 1 []))

/-- `var=`, with the fields behind it. -/
def readVar (parts : List Bytes) (s : RtenvSettings) : Option RtenvSettings :=
  match parts with
  | get :: set :: key :: rest => do
      let onGet ← sfParseOnGet get
      let onSet ← sfParseOnSet set
      let value ← sfJoinColonParts 4096 rest
      s.addVar (.of key value onSet onGet)
  | _ => none

/-- What a line with the word `key` does. -/
def readSetting (key rhs : Bytes) (s : RtenvSettings) : Option RtenvSettings :=
  if key = ascii "name".toList then some { s with envName := snprintfS 256 rhs }
  else if key = ascii "note".toList then some { s with note := snprintfS 256 rhs }
  else if key = ascii "inherit_from".toList then some (if rhs = [] then s else s.inherit rhs)
  else if key = ascii "application".toList then
    readApplication (splitColonQuoted maxParts rhs) s
  else if key = ascii "var".toList then readVar (splitColonQuoted maxParts rhs) s
  else none

/-- A line of a template. -/
def readTemplateLine (line : Bytes) (s : RtenvSettings) : Option RtenvSettings :=
  let p := (cstr line).dropWhile isBlank
  if p = [] ∨ p.head? = some 35 ∨ p.head? = some newline then some s
  else
    match p.dropWhile (· ≠ 61) with
    | [] => none
    | _ :: rhs => readSetting (sfRtrim (p.takeWhile (· ≠ 61))) (sfRtrim rhs) s

/-- Why a template is not read. -/
inductive TemplateError where
  /-- `TPBE_FILE_IO_FAIL`. -/
  | fileIoFail
  /-- `TPBE_CLI_FAIL`, and the number of the line. -/
  | line (number : ℕ)
  deriving DecidableEq

/-- The lines of a template, behind `ln` lines that are read. -/
def readTemplateLines : ℕ → List Bytes → RtenvSettings → Except TemplateError RtenvSettings
  | _, [], s => .ok s
  | ln, line :: lines, s =>
      match readTemplateLine line s with
      | none => .error (.line (ln + 1))
      | some s' => readTemplateLines (ln + 1) lines s'

/-- `tpbcli_rtenv_parse_template_file`. The buffer has room for 4095 bytes of a line. -/
def tpbcliRtenvParseTemplateFile (file : Option Bytes) (s : RtenvSettings) :
    Except TemplateError RtenvSettings :=
  match file with
  | none => .error .fileIoFail
  | some text => readTemplateLines 0 (fgetsLines 4095 text) s

end TPBench
