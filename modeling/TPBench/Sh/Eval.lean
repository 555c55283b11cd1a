import Mathlib.Logic.Function.Basic
import TPBench.Sh.Lexer

/-!
# Evaluating Shell Commands

Words are expanded in an environment, and commands are evaluated one after the other. The
commands of the fragment are `export NAME=word`, the test `[ -n word ]`, and `if`, whose
parts are kept apart by keywords at the beginning of a command; an `if` that has been
entered is a frame on a stack. As in the lexer, `none` is what lies outside of the fragment:
other commands, and words that are subject to the expansion of patterns or of tildes.

`sets_exportText` and `sets_ifSetText` are the rules for a line that sets a variable and for
one that looks at the variable first.
-/

open CFile

namespace Sh

/-! ### Expansion -/

/-- The variables that are set. -/
abbrev Env := Bytes → Option Bytes

/-- The value of a part of a word. -/
def Part.expand (env : Env) : Part → Bytes
  | .lit b _ => [b]
  | .var n => (env n).getD []

/-- The value of a word. -/
def expand (env : Env) (w : Word) : Bytes := w.flatMap (Part.expand env)

/-- Whether a word is a pattern of file names: an asterisk, a question mark, or brackets. -/
def isPattern : Word → Bool
  | [] => false
  | .lit b false :: w =>
      b = 42 ∨ b = 63 ∨ b = 91 ∧ (w.any fun p => p matches .lit 93 _) ∨ isPattern w
  | _ :: w => isPattern w

/-- Whether there is a tilde at the beginning of a word, `front` being whether this is the
beginning, or behind a colon. -/
def hasTilde (front : Bool) : Word → Bool
  | [] => false
  | .lit b false :: w => front ∧ b = 126 ∨ hasTilde (b = 58) w
  | _ :: w => hasTilde false w

/-- A word of a command. -/
def field (env : Env) (w : Word) : Option Bytes :=
  if isPattern w ∨ hasTilde true w then none else some (expand env w)

/-- The name and the rest of a word of the form `NAME=rest`, with the part `n` of the name in
front of it. -/
def splitAssign (n : Bytes) : Word → Option (Bytes × Word)
  | .lit b false :: w =>
      if n ≠ [] ∧ b = 61 then some (n, w)
      else if isNameChar b ∧ (n ≠ [] ∨ isNameStart b) then splitAssign (n ++ [b]) w
      else none
  | _ => none

/-- An assignment. -/
def assignment (env : Env) (w : Word) : Option (Bytes × Bytes) :=
  match splitAssign [] w with
  | some (n, v) => if hasTilde true v then none else some (n, expand env v)
  | none => none

/-! ### Commands -/

/-- The part of an `if` that is being evaluated. -/
inductive Phase where
  | cond
  | thn
  | els
  deriving DecidableEq

/-- An `if` that has been entered: its part, whether the commands of this part are executed,
and whether those around it are. -/
structure Frame where
  phase : Phase
  live : Bool
  outer : Bool

/-- The state of the shell: the variables, whether the last command succeeded, and the
compound commands that have been entered. -/
structure Shell where
  env : Env
  ok : Bool
  frames : List Frame

/-- Whether commands are executed. -/
def Shell.live (s : Shell) : Bool :=
  match s.frames with
  | [] => true
  | f :: _ => f.live

/-- `export` of the words behind it, which are assignments. -/
def exportAll : List Word → Shell → Option Shell
  | [], s => some { s with ok := true }
  | w :: ws, s =>
      match assignment s.env w with
      | some (n, v) =>
          if isPattern w then none
          else exportAll ws { s with env := Function.update s.env n (some v) }
      | none => none

/-- `-n`, and the closing bracket. -/
def isTestOf (env : Env) (o c : Word) : Bool :=
  field env o = some [45, 110] ∧ field env c = some [93]

/-- A command other than a keyword. -/
def simple (ws : List Word) (s : Shell) : Option Shell :=
  match ws with
  | [] => none
  | w :: args =>
      if field s.env w = some (ascii "export".toList) ∧ args ≠ [] then
        exportAll args s
      else if field s.env w = some [91] then
        match args with
        | [o, x, c] =>
            if isTestOf s.env o c then
              (field s.env x).map fun v => { s with ok := v ≠ [] }
            else none
        | _ => none
      else none

/-- The keywords of `if`. -/
inductive Keyword where
  | «if»
  | «then»
  | «else»
  | «fi»
  deriving DecidableEq

/-- The keyword that a word is. -/
def keyword (w : Word) : Option Keyword :=
  if w = plainLits (ascii ['i', 'f']) then some .if
  else if w = plainLits (ascii "then".toList) then some .then
  else if w = plainLits (ascii "else".toList) then some .else
  else if w = plainLits (ascii ['f', 'i']) then some .fi
  else none

/-- What a keyword does to the frames. -/
def Keyword.enter (k : Keyword) (s : Shell) : Option Shell :=
  match k, s.frames with
  | .if, fs => some { s with frames := ⟨.cond, s.live, s.live⟩ :: fs }
  | .then, ⟨.cond, _, outer⟩ :: fs =>
      some { s with frames := ⟨.thn, outer && s.ok, outer⟩ :: fs }
  | .else, ⟨.thn, live, outer⟩ :: fs =>
      some { s with frames := ⟨.els, outer && !live, outer⟩ :: fs }
  | .fi, ⟨.thn, live, outer⟩ :: fs =>
      -- without a branch that is taken, the command succeeds
      some { s with frames := fs, ok := s.ok || (outer && !live) }
  | .fi, ⟨.els, _, _⟩ :: fs => some { s with frames := fs }
  | _, _ => none

/-- A command: keywords, and what follows them. Behind `fi` nothing follows. -/
def command : List Word → Shell → Option Shell
  | [], _ => none
  | w :: ws, s =>
      match keyword w with
      | some .fi => if ws = [] then Keyword.enter .fi s else none
      | some k => (Keyword.enter k s).bind (command ws)
      | none => if s.live then simple (w :: ws) s else some s

/-- Commands one after the other. -/
def evalAll (cs : List (List Word)) (s : Shell) : Option Shell :=
  cs.foldlM (fun s c => command c s) s

/-- The variables after a text has been evaluated. Every `if` is closed. -/
def eval (bs : Bytes) (env : Env) : Option Env :=
  match (commands bs).bind fun cs => evalAll cs ⟨env, true, []⟩ with
  | some ⟨env', _, []⟩ => some env'
  | _ => none

/-! ### Rules -/

section Rules

variable {env : Env} {n v : Bytes}

@[simp] theorem expand_nil (env : Env) : expand env [] = [] := rfl

@[simp] theorem expand_append (env : Env) (w w' : Word) :
    expand env (w ++ w') = expand env w ++ expand env w' := List.flatMap_append

@[simp] theorem expand_quotedLits (env : Env) (bs : Bytes) :
    expand env (quotedLits bs) = bs := by
  induction bs with
  | nil => rfl
  | cons b bs ih => exact congrArg (b :: ·) ih

@[simp] theorem expand_lit (env : Env) (b : UInt8) (quoted : Bool) :
    expand env [.lit b quoted] = [b] := rfl

@[simp] theorem expand_var (env : Env) (n : Bytes) :
    expand env [.var n] = (env n).getD [] := by
  simp [expand, Part.expand]

/-- A quoted text is not a pattern. -/
theorem isPattern_quotedLits_append (bs : Bytes) (w : Word) :
    isPattern (quotedLits bs ++ w) = isPattern w := by
  induction bs with
  | nil => rfl
  | cons b bs ih => exact ih

theorem isPattern_quotedLits (bs : Bytes) : isPattern (quotedLits bs) = false := by
  rw [← List.append_nil (quotedLits bs), isPattern_quotedLits_append]
  rfl

/-- There is no tilde in a quoted text, but there may be one behind it. -/
theorem hasTilde_quotedLits_append (bs : Bytes) (w : Word) (front : Bool) :
    hasTilde front (quotedLits bs ++ w) = hasTilde (front ∧ bs = []) w := by
  induction bs generalizing front with
  | nil => simp [quotedLits]
  | cons b bs ih =>
      have hcons : hasTilde front (quotedLits (b :: bs) ++ w) =
          hasTilde false (quotedLits bs ++ w) := rfl
      rw [hcons, ih]
      simp

/-- The characters of a name are no part of a pattern. -/
theorem isPattern_plainLits_append {bs : Bytes} (hbs : ∀ c ∈ bs, isNameChar c = true)
    (w : Word) : isPattern (plainLits bs ++ w) = isPattern w := by
  induction bs with
  | nil => rfl
  | cons b bs ih =>
      have hb := hbs b (by simp)
      have hne : b ≠ 42 ∧ b ≠ 63 ∧ b ≠ 91 := by
        refine ⟨?_, ?_, ?_⟩
        all_goals
          rintro rfl
          cases hb
      rw [← ih fun c hc => hbs c (by simp [hc])]
      simp [plainLits, isPattern, hne]

/-- The rest of an assignment, once part of the name has been read. -/
theorem splitAssign_append {m bs : Bytes} (hm : m ≠ []) (hbs : ∀ c ∈ bs, isNameChar c = true)
    (w : Word) :
    splitAssign m (plainLits bs ++ .lit 61 false :: w) = some (m ++ bs, w) := by
  induction bs generalizing m with
  | nil => simp [plainLits, splitAssign, hm]
  | cons b bs ih =>
      have hb := hbs b (by simp)
      have hne : b ≠ 61 := by
        rintro rfl
        cases hb
      have hstep : splitAssign m (plainLits (b :: bs) ++ .lit 61 false :: w) =
          splitAssign (m ++ [b]) (plainLits bs ++ .lit 61 false :: w) := by
        change (if m ≠ [] ∧ b = 61 then _ else if _ then _ else _) = _
        rw [if_neg (by simp [hne]), if_pos ⟨hb, .inl hm⟩]
        rfl
      rw [hstep, ih (by simp) fun c hc => hbs c (by simp [hc])]
      simp

/-- The word of an assignment. -/
def assignWord (n : Bytes) (w : Word) : Word := plainLits n ++ .lit 61 false :: w

theorem splitAssign_assignWord (hn : IsName n) (w : Word) :
    splitAssign [] (assignWord n w) = some (n, w) := by
  obtain ⟨b, bs, rfl, hb, hbs⟩ := hn
  have hstep : splitAssign [] (assignWord (b :: bs) w) =
      splitAssign [b] (plainLits bs ++ .lit 61 false :: w) := by
    change (if _ then _ else if _ then _ else _) = _
    rw [if_neg (by simp), if_pos ⟨isNameChar_of_isNameStart hb, .inr hb⟩]
    rfl
  rw [hstep, splitAssign_append (by simp) hbs]
  rfl

theorem isNameChar_of_mem {b : UInt8} (hn : IsName n) (hb : b ∈ n) : isNameChar b = true := by
  obtain ⟨c, bs, rfl, hc, hbs⟩ := hn
  rcases List.mem_cons.mp hb with rfl | hb
  · exact isNameChar_of_isNameStart hc
  · exact hbs b hb

/-- **`export NAME=word`**, where the word is neither a pattern nor has a tilde. -/
theorem command_export (hn : IsName n) {w : Word} (hpat : isPattern w = false)
    (htilde : hasTilde true w = false) {s : Shell} (hlive : s.live = true) :
    command [plainLits (ascii "export".toList), assignWord n w] s =
      some { s with env := Function.update s.env n (some (expand s.env w)), ok := true } := by
  have hassign : assignment s.env (assignWord n w) = some (n, expand s.env w) := by
    simp [assignment, splitAssign_assignWord hn, htilde]
  have hword : isPattern (assignWord n w) = false := by
    rw [assignWord, isPattern_plainLits_append fun c hc => isNameChar_of_mem hn hc]
    simpa [isPattern] using hpat
  have hall : exportAll [assignWord n w] s =
      some { s with env := Function.update s.env n (some (expand s.env w)), ok := true } := by
    simp [exportAll, hassign, hword]
  rw [← hall]
  change (if s.live = true then simple _ s else some s) = _
  rw [if_pos hlive]
  rfl

/-- A command in a part that is not executed. -/
theorem command_skip {w : Word} {ws : List Word} (hw : keyword w = none) {s : Shell}
    (hlive : s.live = false) : command (w :: ws) s = some s := by
  change (match keyword w with | some .fi => _ | some k => _ | none => _) = _
  rw [hw]
  change (if s.live = true then _ else some s) = _
  rw [hlive, if_neg (by simp)]

/-- The words of `export NAME=word`. -/
def exportWords (n : Bytes) (w : Word) : List Word :=
  [plainLits (ascii "export".toList), assignWord n w]

/-- The words of `if [ -n "${NAME:-}" ]`. -/
def ifSetWords (n : Bytes) : List Word :=
  [plainLits (ascii ['i', 'f']), plainLits [91], plainLits [45, 110], [.var n], plainLits [93]]

/-- The commands of `if [ -n "${NAME:-}" ]; then export NAME=wt; else export NAME=wf; fi`. -/
def ifSetCommands (n : Bytes) (wt wf : Word) : List (List Word) :=
  [ifSetWords n, plainLits (ascii "then".toList) :: exportWords n wt,
    plainLits (ascii "else".toList) :: exportWords n wf, [plainLits (ascii ['f', 'i'])]]

/-- **One of two values**, according to whether the variable has a value. -/
theorem evalAll_ifSet (hn : IsName n) {wt wf : Word} (hpt : isPattern wt = false)
    (hpf : isPattern wf = false) (htt : hasTilde true wt = false)
    (htf : hasTilde true wf = false) (env : Env) :
    evalAll (ifSetCommands n wt wf) ⟨env, true, []⟩ =
      some ⟨Function.update env n
        (some (expand env (if (env n).getD [] ≠ [] then wt else wf))), true, []⟩ := by
  have htest : command (ifSetWords n) ⟨env, true, []⟩ =
      some ⟨env, (env n).getD [] ≠ [], [⟨.cond, true, true⟩]⟩ := by
    rw [← expand_var]
    rfl
  have hthen : ∀ s : Shell, command (plainLits (ascii "then".toList) ::
      exportWords n wt) s = (Keyword.enter .then s).bind (command (exportWords n wt)) :=
    fun _ => rfl
  have helse : ∀ s : Shell, command (plainLits (ascii "else".toList) ::
      exportWords n wf) s = (Keyword.enter .else s).bind (command (exportWords n wf)) :=
    fun _ => rfl
  have hfi : ∀ s : Shell, command [plainLits (ascii ['f', 'i'])] s = Keyword.enter .fi s :=
    fun _ => rfl
  have hskip : ∀ (w : Word) (s : Shell), s.live = false →
      command (exportWords n w) s = some s := fun w s => command_skip rfl
  rw [evalAll, ifSetCommands, List.foldlM_cons, htest, Option.bind_eq_bind, Option.bind_some,
    List.foldlM_cons, hthen]
  by_cases hset : (env n).getD [] ≠ []
  · -- the first export is executed, and the second is not
    have hfirst := command_export hn hpt htt
      (s := ⟨env, true, [⟨.thn, true, true⟩]⟩) rfl
    rw [if_pos hset, decide_eq_true hset]
    change ((command (exportWords n wt) ⟨env, true, [⟨.thn, true, true⟩]⟩).bind fun s =>
      List.foldlM (fun s c => command c s) s [_, _]) = _
    rw [exportWords, hfirst, Option.bind_some, List.foldlM_cons, helse]
    change (((command (exportWords n wf) ⟨_, true, [⟨.els, false, true⟩]⟩).bind fun s =>
      List.foldlM (fun s c => command c s) s [_]) = _)
    rw [hskip _ _ rfl]
    rfl
  · have hsecond := command_export hn hpf htf
      (s := ⟨env, false, [⟨.els, true, true⟩]⟩) rfl
    rw [if_neg hset, decide_eq_false hset]
    change ((command (exportWords n wt) ⟨env, false, [⟨.thn, false, true⟩]⟩).bind fun s =>
      List.foldlM (fun s c => command c s) s [_, _]) = _
    rw [hskip _ _ rfl, Option.bind_some, List.foldlM_cons, helse]
    change (((command (exportWords n wf) ⟨env, false, [⟨.els, true, true⟩]⟩).bind fun s =>
      List.foldlM (fun s c => command c s) s [_]) = _)
    rw [exportWords, hsecond]
    rfl

/-! ### Whole lines -/

/-- A text of whole lines that takes the variables from `env` to `env'`, behind a command that
succeeded, and ends with one that succeeds. -/
def Sets (t : Bytes) (env env' : Env) : Prop :=
  ∃ cs, (∀ done, Lexer.run ⟨.gap, [], [], done⟩ t = some ⟨.gap, [], [], done ++ cs⟩) ∧
    evalAll cs ⟨env, true, []⟩ = some ⟨env', true, []⟩

theorem sets_nil (env : Env) : Sets [] env env := by
  refine ⟨[], fun done => ?_, rfl⟩
  rw [run_nil, List.append_nil]

/-- Lines are evaluated one after the other. -/
theorem Sets.append {s t : Bytes} {env₁ env₂ env₃ : Env} (hs : Sets s env₁ env₂)
    (ht : Sets t env₂ env₃) : Sets (s ++ t) env₁ env₃ := by
  obtain ⟨cs, hcs, hcsEval⟩ := hs
  obtain ⟨ds, hds, hdsEval⟩ := ht
  refine ⟨cs ++ ds, fun done => ?_, ?_⟩
  · rw [run_append_of (hcs done), hds, List.append_assoc]
  · rw [evalAll] at hcsEval hdsEval ⊢
    rw [List.foldlM_append, hcsEval]
    exact hdsEval

/-- What lines set, the evaluation sets. -/
theorem Sets.eval {t : Bytes} {env env' : Env} (h : Sets t env env') :
    eval t env = some env' := by
  obtain ⟨cs, hcs, heval⟩ := h
  have hcommands : commands t = some cs := by
    rw [commands, Lexer.start, hcs, List.nil_append]
    rfl
  rw [Sh.eval, hcommands, Option.bind_some, heval]

/-! ### Texts -/

/-- `export NAME=t`. -/
def exportText (n t : Bytes) : Bytes :=
  ascii "export ".toList ++ (n ++ (61 :: t))

/-- `if [ -n "${NAME:-}" ]; then export NAME=tt; else export NAME=tf; fi`. -/
def ifSetText (n tt tf : Bytes) : Bytes :=
  ascii "if [ -n ".toList ++ (([34, 36, 123] ++ (n ++ [58, 45, 125, 34])) ++
    (ascii " ]; then ".toList ++ (exportText n tt ++
      (ascii "; else ".toList ++ (exportText n tf ++
        ascii "; fi".toList)))))

/-- The text of an export is read as its words. -/
theorem run_exportText (hn : IsName n) {t : Bytes} {w : Word} (ht : Reads t w)
    (ws : List Word) (cs : List (List Word)) :
    Lexer.run ⟨.gap, [], ws, cs⟩ (exportText n t) =
      some ⟨.word, assignWord n w, ws ++ [plainLits (ascii "export".toList)],
        cs⟩ := by
  have hfront : Lexer.run ⟨.gap, [], ws, cs⟩ (ascii "export ".toList) =
      some ⟨.gap, [], ws ++ [plainLits (ascii "export".toList)], cs⟩ := rfl
  have hname : ∀ c ∈ n, c ∉ active :=
    fun c hc => not_active_of_isNameChar (isNameChar_of_mem hn hc)
  have heq : Reads [61] (plainLits [61]) := reads_plain (List.forall_mem_singleton.mpr (by decide))
  rw [exportText, run_append_of hfront]
  obtain ⟨b, bs, rfl, hb, hbs⟩ := hn
  have hhash : b ≠ 35 := by
    rintro rfl
    cases hb
  rw [run_append_of (run_plain_gap (hname b (by simp)) hhash fun c hc => hname c (by simp [hc]))]
  exact (heq.append ht) _ _ _

/-- **A line with an export.** -/
theorem sets_exportText (hn : IsName n) {t : Bytes} {w : Word} (ht : Reads t w)
    (hpat : isPattern w = false) (htilde : hasTilde true w = false) (env : Env) :
    Sets (exportText n t ++ [10]) env (Function.update env n (some (expand env w))) := by
  refine ⟨[exportWords n w], fun done => ?_, ?_⟩
  · rw [run_append_of (run_exportText hn ht [] done), run_newline]
    rfl
  · rw [evalAll, List.foldlM_cons, exportWords, command_export hn hpat htilde rfl]
    rfl

/-- **A line that looks at the variable.** -/
theorem sets_ifSetText (hn : IsName n) {tt tf : Bytes} {wt wf : Word} (ht : Reads tt wt)
    (hf : Reads tf wf) (hpt : isPattern wt = false) (hpf : isPattern wf = false)
    (htt : hasTilde true wt = false) (htf : hasTilde true wf = false) (env : Env) :
    Sets (ifSetText n tt tf ++ [10]) env
      (Function.update env n (some (expand env (if (env n).getD [] ≠ [] then wt else wf)))) := by
  refine ⟨ifSetCommands n wt wf, fun done => ?_, evalAll_ifSet hn hpt hpf htt htf env⟩
  · have hfront : Lexer.run ⟨.gap, [], [], done⟩ (ascii "if [ -n ".toList) =
        some ⟨.gap, [], (ifSetWords n).take 3, done⟩ := rfl
    have hthen : ∀ w ws cs, Lexer.run ⟨.word, w, ws, cs⟩
        (ascii " ]; then ".toList) =
        some ⟨.gap, [], [plainLits (ascii "then".toList)],
          cs ++ [ws ++ [w] ++ [plainLits [93]]]⟩ := by
      intro w ws cs
      change Lexer.run ⟨.word, plainLits [93], ws ++ [w], cs⟩
        (59 :: 32 :: ascii "then ".toList) = _
      rw [run_semi]
      rfl
    have helse : ∀ w ws cs, Lexer.run ⟨.word, w, ws, cs⟩
        (ascii "; else ".toList) =
        some ⟨.gap, [], [plainLits (ascii "else".toList)], cs ++ [ws ++ [w]]⟩ := by
      intro w ws cs
      change Lexer.run _ (59 :: 32 :: ascii "else ".toList) = _
      rw [run_semi]
      rfl
    have hfi : ∀ w ws cs, Lexer.run ⟨.word, w, ws, cs⟩
        (ascii "; fi".toList ++ [10]) =
        some ⟨.gap, [], [], cs ++ [ws ++ [w]] ++ [[plainLits (ascii ['f', 'i'])]]⟩ := by
      intro w ws cs
      change Lexer.run _ (59 :: 32 :: [102, 105, 10]) = _
      rw [run_semi]
      rfl
    rw [ifSetText]
    simp only [List.append_assoc _ _ [(10 : UInt8)]]
    rw [run_append_of hfront, run_append_of (run_varBrace hn), run_append_of (hthen _ _ _),
      run_append_of (run_exportText hn ht _ _), run_append_of (helse _ _ _),
      run_append_of (run_exportText hn hf _ _), hfi]
    simp [ifSetCommands, exportWords, ifSetWords]

end Rules

end Sh
