import TPBench.CFile.Text

/-!
# Reading Shell Text

The words of a command language in the style of the POSIX shell, read byte by byte. Words
are separated by blanks and commands by newlines and semicolons. A part of a word may stand
in single quotes, where every byte is literal, in double quotes, where the value of a
variable may be asked for as `$NAME` or `${NAME:-}`, or behind a backslash. What the shell
would interpret in another way is outside of the fragment, and reading it yields `none`:
pipes, lists, redirections, substitutions of commands, variables outside of quotes,
continued lines.

A word keeps for each byte whether it was quoted, since this decides about keywords,
assignments and patterns. Reading is a fold over the bytes, so that the text of a command
can be read piece by piece: `run_append` composes, and each kind of piece has its rule
(`run_plain`, `run_quote`, `run_var`, `run_varBrace`); `Reads` says what a piece contributes
to the word it stands in.
-/

open CFile

namespace Sh

/-! ### Words -/

/-- A part of a word: a byte, or the value of a variable in double quotes. -/
inductive Part where
  | lit (b : UInt8) (quoted : Bool)
  | var (name : Bytes)
  deriving DecidableEq

/-- A word before expansion. -/
abbrev Word := List Part

/-- The parts of a text in quotes. -/
def quotedLits (bs : Bytes) : Word := bs.map (Part.lit · true)

/-- The parts of a text outside of quotes. -/
def plainLits (bs : Bytes) : Word := bs.map (Part.lit · false)

/-- The bytes a name begins with. -/
def isNameStart (b : UInt8) : Bool := 65 ≤ b ∧ b ≤ 90 ∨ 97 ≤ b ∧ b ≤ 122 ∨ b = 95

/-- The bytes of a name. -/
def isNameChar (b : UInt8) : Bool := isNameStart b ∨ isdigit b

/-- A name of a variable. -/
def IsName (n : Bytes) : Prop := ∃ b bs, n = b :: bs ∧ isNameStart b ∧ ∀ c ∈ bs, isNameChar c

/-! ### The lexer -/

/-- Where the lexer stands. -/
inductive Mode where
  | gap
  | comment
  | word
  | escape
  | single
  | double
  | doubleEscape
  | dollar
  | name (n : Bytes)
  | brace (n : Bytes)
  | braceColon (n : Bytes)
  | braceDash (n : Bytes)
  deriving DecidableEq

/-- The state of the lexer: the word that is being read, the words of the command in front
of it, and the commands in front of that. -/
structure Lexer where
  mode : Mode
  word : Word
  words : List Word
  cmds : List (List Word)
  deriving DecidableEq

/-- The state at the beginning of a text. -/
def Lexer.start : Lexer := ⟨.gap, [], [], []⟩

/-- Another part of the word. -/
def Lexer.push (l : Lexer) (mode : Mode) (p : Part) : Lexer :=
  { l with mode, word := l.word ++ [p] }

/-- The word ends, if there is one. -/
def Lexer.endWord (l : Lexer) : Lexer :=
  if l.mode = .gap then l else ⟨.gap, [], l.words ++ [l.word], l.cmds⟩

/-- The command ends, if there is one. -/
def Lexer.endCommand (l : Lexer) : Lexer :=
  if l.endWord.words = [] then l.endWord
  else ⟨.gap, [], [], l.endWord.cmds ++ [l.endWord.words]⟩

/-- The bytes that are not literal outside of quotes. -/
def active : Bytes :=
  ascii [' ', '\t', '\n', ';', '|', '&', '<', '>', '(', ')', '$'] ++ [39, 34, 92, 96]

/-- A byte outside of quotes. -/
def Lexer.outside (l : Lexer) (b : UInt8) : Option Lexer :=
  if b ∉ active then
    if b = 35 ∧ l.mode = .gap then some { l with mode := .comment }
    else some (l.push .word (.lit b false))
  else if isBlank b then some l.endWord
  else if b = 10 then some l.endCommand
  else if b = 59 then
    -- a semicolon needs a command in front of it
    if l.endWord.words = [] then none else some l.endCommand
  else if b = 39 then some { l with mode := .single }
  else if b = 34 then some { l with mode := .double }
  else if b = 92 then some { l with mode := .escape }
  else none

/-- A byte inside double quotes. -/
def Lexer.inDouble (l : Lexer) (b : UInt8) : Option Lexer :=
  if b = 34 then some { l with mode := .word }
  else if b = 92 then some { l with mode := .doubleEscape }
  else if b = 36 then some { l with mode := .dollar }
  else if b = 96 then none
  else some (l.push .double (.lit b true))

/-- A byte behind a backslash inside double quotes. -/
def Lexer.inDoubleEscape (l : Lexer) (b : UInt8) : Option Lexer :=
  if b = 36 ∨ b = 96 ∨ b = 34 ∨ b = 92 then some (l.push .double (.lit b true))
  else if b = 10 then none
  else some ((l.push .double (.lit 92 true)).push .double (.lit b true))

/-- A byte behind `${` and the part `n` of a name. -/
def Lexer.inBrace (l : Lexer) (n : Bytes) (b : UInt8) : Option Lexer :=
  if n = [] then if isNameStart b then some { l with mode := .brace [b] } else none
  else if isNameChar b then some { l with mode := .brace (n ++ [b]) }
  else if b = 125 then some (l.push .double (.var n))
  else if b = 58 then some { l with mode := .braceColon n }
  else none

/-- One byte. -/
def Lexer.step (l : Lexer) (b : UInt8) : Option Lexer :=
  match l.mode with
  | .gap => l.outside b
  | .word => l.outside b
  | .comment => if b = 10 then some { l with mode := .gap }.endCommand else some l
  | .escape => if b = 10 then none else some (l.push .word (.lit b true))
  | .single =>
      if b = 39 then some { l with mode := .word } else some (l.push .single (.lit b true))
  | .double => l.inDouble b
  | .doubleEscape => l.inDoubleEscape b
  | .dollar =>
      if isNameStart b then some { l with mode := .name [b] }
      else if b = 123 then some { l with mode := .brace [] }
      else none
  | .name n =>
      if isNameChar b then some { l with mode := .name (n ++ [b]) }
      else (l.push .double (.var n)).inDouble b
  | .brace n => l.inBrace n b
  | .braceColon n => if b = 45 then some { l with mode := .braceDash n } else none
  | .braceDash n => if b = 125 then some (l.push .double (.var n)) else none

/-- A text. -/
def Lexer.run (l : Lexer) (bs : Bytes) : Option Lexer := bs.foldlM Lexer.step l

/-- The commands at the end of a text. The text may not end inside of quotes. -/
def Lexer.finish (l : Lexer) : Option (List (List Word)) :=
  match l.mode with
  | .gap | .word => some l.endCommand.cmds
  | .comment => some { l with mode := .gap }.endCommand.cmds
  | _ => none

/-- The commands of a text, each a list of words. -/
def commands (bs : Bytes) : Option (List (List Word)) := (Lexer.start.run bs).bind Lexer.finish

/-! ### Reading piece by piece -/

@[simp] theorem run_nil (l : Lexer) : l.run [] = some l := rfl

theorem run_cons (l : Lexer) (b : UInt8) (bs : Bytes) :
    l.run (b :: bs) = (l.step b).bind fun l' => l'.run bs := rfl

/-- A text is read piece by piece. -/
theorem run_append (l : Lexer) (as bs : Bytes) :
    l.run (as ++ bs) = (l.run as).bind fun l' => l'.run bs := List.foldlM_append

/-- The rule for the front of a text. -/
theorem run_append_of {l l' : Lexer} {as : Bytes} (h : l.run as = some l') (bs : Bytes) :
    l.run (as ++ bs) = l'.run bs := by
  rw [run_append, h]
  rfl

section Pieces

variable {w : Word} {ws : List Word} {cs : List (List Word)} {bs n : Bytes}

/-- A byte that is literal, in a word. -/
theorem step_plain {b : UInt8} (hb : b ∉ active) :
    Lexer.step ⟨.word, w, ws, cs⟩ b = some ⟨.word, w ++ [.lit b false], ws, cs⟩ := by
  change Lexer.outside _ b = _
  rw [Lexer.outside, if_pos hb, if_neg (by simp)]
  rfl

/-- Literal bytes in a word. -/
theorem run_plain (hbs : ∀ b ∈ bs, b ∉ active) :
    Lexer.run ⟨.word, w, ws, cs⟩ bs = some ⟨.word, w ++ plainLits bs, ws, cs⟩ := by
  induction bs generalizing w with
  | nil => simp [plainLits]
  | cons b bs ih =>
      rw [run_cons, step_plain (hbs b (by simp)), Option.bind_some,
        ih fun c hc => hbs c (by simp [hc])]
      simp [plainLits]

/-- Literal bytes begin a word. -/
theorem run_plain_gap {b : UInt8} (hb : b ∉ active) (hhash : b ≠ 35)
    (hbs : ∀ c ∈ bs, c ∉ active) :
    Lexer.run ⟨.gap, [], ws, cs⟩ (b :: bs) = some ⟨.word, plainLits (b :: bs), ws, cs⟩ := by
  have hstep : Lexer.step ⟨.gap, [], ws, cs⟩ b = some ⟨.word, [.lit b false], ws, cs⟩ := by
    change Lexer.outside _ b = _
    rw [Lexer.outside, if_pos hb, if_neg (by simp [hhash])]
    rfl
  rw [run_cons, hstep, Option.bind_some, run_plain hbs]
  rfl

/-- A blank ends a word. -/
theorem run_blank (bs : Bytes) :
    Lexer.run ⟨.word, w, ws, cs⟩ (32 :: bs) = Lexer.run ⟨.gap, [], ws ++ [w], cs⟩ bs := rfl

/-- A semicolon and a blank end a command. -/
theorem run_semi (bs : Bytes) :
    Lexer.run ⟨.word, w, ws, cs⟩ (59 :: 32 :: bs) =
      Lexer.run ⟨.gap, [], [], cs ++ [ws ++ [w]]⟩ bs := by
  have hstep : Lexer.step ⟨.word, w, ws, cs⟩ 59 = some ⟨.gap, [], [], cs ++ [ws ++ [w]]⟩ := by
    change Lexer.outside _ 59 = _
    rw [Lexer.outside, if_neg (by decide), if_neg (by decide), if_neg (by decide),
      if_pos rfl, if_neg (by simp [Lexer.endWord]), Lexer.endCommand,
      if_neg (by simp [Lexer.endWord])]
    rfl
  rw [run_cons, hstep]
  rfl

/-- A newline ends a command. -/
theorem run_newline (bs : Bytes) :
    Lexer.run ⟨.word, w, ws, cs⟩ (10 :: bs) =
      Lexer.run ⟨.gap, [], [], cs ++ [ws ++ [w]]⟩ bs := by
  have hstep : Lexer.step ⟨.word, w, ws, cs⟩ 10 = some ⟨.gap, [], [], cs ++ [ws ++ [w]]⟩ := by
    change Lexer.outside _ 10 = _
    rw [Lexer.outside, if_neg (by decide), if_neg (by decide), if_pos rfl, Lexer.endCommand,
      if_neg (by simp [Lexer.endWord])]
    rfl
  rw [run_cons, hstep]
  rfl

/-! ### Single quotes -/

/-- A text as it stands inside single quotes: a single quote ends them, stands behind a
backslash, and begins them again. -/
def escapeQuotes (bs : Bytes) : Bytes :=
  bs.flatMap fun b => if b = 39 then [39, 92, 39, 39] else [b]

/-- A text in single quotes. -/
def quote (bs : Bytes) : Bytes := 39 :: (escapeQuotes bs ++ [39])

@[simp] theorem escapeQuotes_nil : escapeQuotes [] = [] := rfl

@[simp] theorem escapeQuotes_cons (b : UInt8) (bs : Bytes) :
    escapeQuotes (b :: bs) = (if b = 39 then [39, 92, 39, 39] else [b]) ++ escapeQuotes bs := rfl

theorem escapeQuotes_append (as bs : Bytes) :
    escapeQuotes (as ++ bs) = escapeQuotes as ++ escapeQuotes bs := List.flatMap_append

/-- A single quote takes four bytes. -/
theorem length_escapeQuotes (bs : Bytes) :
    (escapeQuotes bs).length = bs.length + 3 * bs.count 39 := by
  induction bs with
  | nil => rfl
  | cons b bs ih =>
      rw [escapeQuotes_cons, List.length_append, ih, List.count_cons, List.length_cons]
      by_cases hb : b = 39
      · simp only [hb, if_true, List.length_cons, List.length_nil, beq_self_eq_true]
        omega
      · simp only [hb, if_false, List.length_cons, List.length_nil, beq_iff_eq]
        omega

/-- Inside single quotes, a text is read as it was before quoting. -/
theorem run_escapeQuotes :
    Lexer.run ⟨.single, w, ws, cs⟩ (escapeQuotes bs) =
      some ⟨.single, w ++ quotedLits bs, ws, cs⟩ := by
  induction bs generalizing w with
  | nil => simp [quotedLits]
  | cons b bs ih =>
      have hhead : Lexer.run ⟨.single, w, ws, cs⟩
          (if b = 39 then [39, 92, 39, 39] else [b]) =
          some ⟨.single, w ++ [.lit b true], ws, cs⟩ := by
        by_cases hb : b = 39
        · subst hb
          rfl
        · rw [if_neg hb, run_cons]
          simp [Lexer.step, hb, Lexer.push]
      rw [escapeQuotes_cons, run_append_of hhead, ih]
      simp [quotedLits]

/-- A quoted text at the beginning of a word or inside of one. -/
theorem run_quote {mode : Mode} (hmode : mode = .gap ∨ mode = .word) :
    Lexer.run ⟨mode, w, ws, cs⟩ (quote bs) = some ⟨.word, w ++ quotedLits bs, ws, cs⟩ := by
  have hopen : Lexer.step ⟨mode, w, ws, cs⟩ 39 = some ⟨.single, w, ws, cs⟩ := by
    rcases hmode with rfl | rfl
    · rfl
    · rfl
  rw [quote, run_cons, hopen, Option.bind_some, run_append_of run_escapeQuotes]
  rfl

/-! ### Variables in double quotes -/

theorem not_active_of_isNameChar {b : UInt8} (hb : isNameChar b = true) : b ∉ active := by
  have hall : active.all (fun a => !isNameChar a) = true := by decide
  intro hmem
  have hb' := List.all_eq_true.mp hall b hmem
  rw [hb] at hb'
  cases hb'

theorem isNameChar_of_isNameStart {b : UInt8} (hb : isNameStart b = true) :
    isNameChar b = true := by
  simp [isNameChar, hb]

/-- The bytes of a name that follow. -/
theorem run_name (m : Bytes) (hbs : ∀ c ∈ bs, isNameChar c = true) :
    Lexer.run ⟨.name m, w, ws, cs⟩ bs = some ⟨.name (m ++ bs), w, ws, cs⟩ := by
  induction bs generalizing m with
  | nil => simp
  | cons b bs ih =>
      have hstep : Lexer.step ⟨.name m, w, ws, cs⟩ b = some ⟨.name (m ++ [b]), w, ws, cs⟩ :=
        if_pos (hbs b (by simp))
      rw [run_cons, hstep, Option.bind_some, ih (m ++ [b]) fun c hc => hbs c (by simp [hc])]
      simp

/-- The bytes of a name that follow, in braces. -/
theorem run_brace {m : Bytes} (hm : m ≠ []) (hbs : ∀ c ∈ bs, isNameChar c = true) :
    Lexer.run ⟨.brace m, w, ws, cs⟩ bs = some ⟨.brace (m ++ bs), w, ws, cs⟩ := by
  induction bs generalizing m with
  | nil => simp
  | cons b bs ih =>
      have hstep : Lexer.step ⟨.brace m, w, ws, cs⟩ b =
          some ⟨.brace (m ++ [b]), w, ws, cs⟩ := by
        change Lexer.inBrace _ m b = _
        rw [Lexer.inBrace, if_neg hm, if_pos (hbs b (by simp))]
      rw [run_cons, hstep, Option.bind_some,
        ih (by simp) fun c hc => hbs c (by simp [hc])]
      simp

/-- `"$NAME"` in a word. -/
theorem run_var (hn : IsName n) :
    Lexer.run ⟨.word, w, ws, cs⟩ ([34, 36] ++ (n ++ [34])) =
      some ⟨.word, w ++ [.var n], ws, cs⟩ := by
  obtain ⟨b, bs, rfl, hb, hbs⟩ := hn
  have hopen : Lexer.run ⟨.word, w, ws, cs⟩ [34, 36] = some ⟨.dollar, w, ws, cs⟩ := rfl
  have hfirst : Lexer.step ⟨.dollar, w, ws, cs⟩ b = some ⟨.name [b], w, ws, cs⟩ := if_pos hb
  rw [run_append_of hopen, List.cons_append, run_cons, hfirst, Option.bind_some,
    run_append_of (run_name [b] hbs)]
  rfl

/-- A text that is read as a part of a word. -/
def Reads (t : Bytes) (p : Word) : Prop :=
  ∀ (w : Word) (ws : List Word) (cs : List (List Word)),
    Lexer.run ⟨.word, w, ws, cs⟩ t = some ⟨.word, w ++ p, ws, cs⟩

theorem Reads.append {s t : Bytes} {p q : Word} (hs : Reads s p) (ht : Reads t q) :
    Reads (s ++ t) (p ++ q) := by
  intro w ws cs
  rw [run_append_of (hs w ws cs), ht, List.append_assoc]

theorem reads_plain (hbs : ∀ b ∈ bs, b ∉ active) : Reads bs (plainLits bs) :=
  fun _ _ _ => run_plain hbs

theorem reads_quote (bs : Bytes) : Reads (quote bs) (quotedLits bs) :=
  fun _ _ _ => run_quote (.inr rfl)

theorem reads_var (hn : IsName n) : Reads ([34, 36] ++ (n ++ [34])) [.var n] :=
  fun _ _ _ => run_var hn

/-- `"${NAME:-}"` begins a word. -/
theorem run_varBrace (hn : IsName n) :
    Lexer.run ⟨.gap, w, ws, cs⟩ ([34, 36, 123] ++ (n ++ [58, 45, 125, 34])) =
      some ⟨.word, w ++ [.var n], ws, cs⟩ := by
  obtain ⟨b, bs, rfl, hb, hbs⟩ := hn
  have hopen : Lexer.run ⟨.gap, w, ws, cs⟩ [34, 36, 123] = some ⟨.brace [], w, ws, cs⟩ := rfl
  have hfirst : Lexer.step ⟨.brace [], w, ws, cs⟩ b = some ⟨.brace [b], w, ws, cs⟩ := by
    change Lexer.inBrace _ [] b = _
    rw [Lexer.inBrace, if_pos rfl, if_pos hb]
  rw [run_append_of hopen, List.cons_append, run_cons, hfirst, Option.bind_some,
    run_append_of (run_brace (by simp) hbs)]
  rfl

end Pieces

end Sh
