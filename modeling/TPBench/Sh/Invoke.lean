import TPBench.Sh.Eval

/-!
# Programs Started by Shell Text

A text that is a single command starts a program. The words in front that have the form
`NAME=word` set variables in the environment of the program, one after the other; the words
behind them are its argument vector, the first one being the program itself. As in the rest
of the fragment, `none` is what the shell does in another way: several commands, patterns and
tildes, a keyword in front, or no program.

Bytes that are not active stand for themselves, and a blank ends a word. `IsBare` is such a
word, and `run_bares` reads any number of them. A text between bare words may be anything
that is read as whole words (`ReadsWords`), quotes and all.

## Main results

* `invoke_of_run` — a text that is read up to a last blank as assignments, entries
  `NAME=value` with bare values, and further words, starts the program of these words.
* `updateAll_of_mem` — of the entries that are set one after the other, each one is there
  in the end when entries of the same name have the same value.
-/

open CFile

namespace Sh

/-! ### Starting a program -/

/-- The program a command starts: its environment and its argument vector. -/
structure Started where
  env : Env
  argv : List Bytes

/-- The assignments in front of a command set variables; what is behind them is left. -/
def assignAll : List Word → Env → Option (Env × List Word)
  | [], env => some (env, [])
  | w :: ws, env =>
      match splitAssign [] w with
      | none => some (env, w :: ws)
      | some (n, v) =>
          if hasTilde true v then none
          else assignAll ws (Function.update env n (some (expand env v)))

/-- The program that the words of a command start. They are expanded in the environment of
the shell. -/
def start (env : Env) (ws : List Word) : Option Started :=
  if (ws.head?.bind keyword).isSome then none
  else
    match assignAll ws env with
    | none => none
    | some (env', args) =>
        if args = [] then none else (args.mapM (field env)).map fun argv => ⟨env', argv⟩

/-- The program that a text starts, which is a single command. -/
def invoke (env : Env) (bs : Bytes) : Option Started :=
  match commands bs with
  | some [ws] => start env ws
  | _ => none

/-! ### Bare words -/

/-- A word that the lexer takes as it is. -/
structure IsBare (bs : Bytes) : Prop where
  ne_nil : bs ≠ []
  plain : ∀ b ∈ bs, b ∉ active
  no_hash : bs.head? ≠ some 35

/-- A bare word that is not expanded either. -/
structure IsLiteral (bs : Bytes) : Prop extends IsBare bs where
  no_pattern : isPattern (plainLits bs) = false
  no_tilde : hasTilde true (plainLits bs) = false

/-- A value of an assignment that stands for itself. -/
structure IsValue (v : Bytes) : Prop where
  plain : ∀ b ∈ v, b ∉ active
  no_tilde : hasTilde true (plainLits v) = false

/-- A text that is read as whole words, behind other words of the command. -/
def ReadsWords (t : Bytes) (ws : List Word) : Prop :=
  ∀ (acc : List Word) (cs : List (List Word)), acc ≠ [] →
    Lexer.run ⟨.gap, [], acc, cs⟩ t = some ⟨.gap, [], acc ++ ws, cs⟩

section Rules

variable {env : Env} {bs : Bytes} {ws acc : List Word} {cs : List (List Word)}

/-- A bare word and a blank. -/
theorem IsBare.run (h : IsBare bs) :
    Lexer.run ⟨.gap, [], acc, cs⟩ (bs ++ [32]) = some ⟨.gap, [], acc ++ [plainLits bs], cs⟩ := by
  obtain ⟨hne, hplain, hhash⟩ := h
  obtain ⟨b, rest, rfl⟩ := List.exists_cons_of_ne_nil hne
  have hb : b ≠ 35 := fun heq => hhash (by rw [heq, List.head?_cons])
  rw [run_append_of (run_plain_gap (hplain b (by simp)) hb fun c hc => hplain c (by simp [hc])),
    run_blank, run_nil]

/-- Bare words, each with a blank. -/
theorem run_bares {bss : List Bytes} (h : ∀ bs ∈ bss, IsBare bs) :
    Lexer.run ⟨.gap, [], acc, cs⟩ (bss.map (· ++ [32])).flatten =
      some ⟨.gap, [], acc ++ bss.map plainLits, cs⟩ := by
  induction bss generalizing acc with
  | nil => simp
  | cons bs bss ih =>
      obtain ⟨hbs, hbss⟩ := List.forall_mem_cons.mp h
      rw [List.map_cons, List.flatten_cons, run_append_of hbs.run, ih hbss, List.map_cons,
        List.append_assoc]
      rfl

theorem readsWords_bares {bss : List Bytes} (h : ∀ bs ∈ bss, IsBare bs) :
    ReadsWords (bss.map (· ++ [32])).flatten (bss.map plainLits) :=
  fun _ _ _ => run_bares h

/-- A blank leads to a gap only outside of quotes. -/
theorem mode_of_step_blank {l l' : Lexer} (h : l.step 32 = some l') (hgap : l'.mode = .gap) :
    l.mode = .gap ∨ l.mode = .word := by
  obtain ⟨mode, w, ws, cs⟩ := l
  cases mode with
  | gap => exact .inl rfl
  | word => exact .inr rfl
  | brace n =>
      rcases n with - | ⟨b, bs⟩
      · cases h
      · cases h
  | dollar | braceColon | braceDash => cases h
  | _ =>
      obtain rfl := Option.some.inj h
      cases hgap

/-- The last blank of a text does not matter. -/
theorem commands_of_run_blank (h : Lexer.start.run (bs ++ [32]) = some ⟨.gap, [], ws, cs⟩)
    (hws : ws ≠ []) : commands bs = some (cs ++ [ws]) := by
  rw [run_append] at h
  rcases hrun : Lexer.start.run bs with - | l
  · rw [hrun] at h
    cases h
  rw [hrun, Option.bind_some, run_cons] at h
  obtain ⟨l', hstep, hl'⟩ := Option.bind_eq_some_iff.mp h
  obtain rfl := Option.some.inj hl'
  have hmode := mode_of_step_blank hstep rfl
  have hend : l.endWord = ⟨.gap, [], ws, cs⟩ := by
    refine Option.some.inj (Eq.trans ?_ hstep)
    rcases hmode with hmode | hmode
    · simp only [Lexer.step, hmode]
      rfl
    · simp only [Lexer.step, hmode]
      rfl
  have hcmds : l.endCommand.cmds = cs ++ [ws] := by
    rw [Lexer.endCommand, hend, if_neg hws]
  rw [commands, hrun, Option.bind_some]
  rcases hmode with hmode | hmode
  · simp only [Lexer.finish, hmode, hcmds]
  · simp only [Lexer.finish, hmode, hcmds]

/-! ### Values -/

@[simp] theorem expand_plainLits (env : Env) (bs : Bytes) : expand env (plainLits bs) = bs := by
  induction bs with
  | nil => rfl
  | cons b bs ih => exact congrArg (b :: ·) ih

theorem IsLiteral.isValue (h : IsLiteral bs) : IsValue bs := ⟨h.plain, h.no_tilde⟩

/-- A name has a first character and further ones. -/
theorem isName_of_all {n : Bytes}
    (h : (n.head?.any isNameStart && n.tail.all isNameChar) = true) : IsName n := by
  cases n with
  | nil => cases h
  | cons b bs =>
      rw [Bool.and_eq_true, List.all_eq_true] at h
      exact ⟨b, bs, rfl, h.1, h.2⟩

/-- The word of an entry. -/
theorem plainLits_entry (n v : Bytes) :
    plainLits (n ++ 61 :: v) = assignWord n (plainLits v) := by
  simp [assignWord, plainLits]

/-- An entry with a name and a value without active bytes is a bare word. -/
theorem isBare_entry {n v : Bytes} (hn : IsName n) (hv : IsValue v) : IsBare (n ++ 61 :: v) := by
  have hname : ∀ c ∈ n, c ∉ active := fun c hc =>
    not_active_of_isNameChar (isNameChar_of_mem hn hc)
  refine ⟨by simp, ?_, ?_⟩
  · intro b hb
    rcases List.mem_append.mp hb with hb | hb
    · exact hname b hb
    · rcases List.mem_cons.mp hb with rfl | hb
      · decide
      · exact hv.plain b hb
  · obtain ⟨b, rest, rfl, hb, -⟩ := hn
    rintro ⟨⟩
    cases hb

theorem isPattern_plainLits (h : ∀ b ∈ bs, b ∉ [42, 63, 91]) :
    isPattern (plainLits bs) = false := by
  induction bs with
  | nil => rfl
  | cons b bs ih =>
      obtain ⟨hb, hbs⟩ := List.forall_mem_cons.mp h
      simp only [List.mem_cons, List.not_mem_nil, or_false, not_or] at hb
      change decide (b = 42 ∨ b = 63 ∨ b = 91 ∧ _ ∨ isPattern (plainLits bs) = true) = false
      simp [hb, ih hbs]

theorem hasTilde_plainLits (h : 126 ∉ bs) (front : Bool) :
    hasTilde front (plainLits bs) = false := by
  induction bs generalizing front with
  | nil => rfl
  | cons b bs ih =>
      rw [List.mem_cons, not_or] at h
      change decide ((front : Prop) ∧ b = 126 ∨ hasTilde (b = 58) (plainLits bs) = true) = false
      simp [Ne.symm h.1, ih h.2]

/-- A text without any special byte is literal. -/
theorem isLiteral_of_forall (hne : bs ≠ [])
    (h : ∀ b ∈ bs, b ∉ active ∧ b ∉ [35, 42, 63, 91, 126]) : IsLiteral bs where
  ne_nil := hne
  plain b hb := (h b hb).1
  no_hash := by
    intro hhead
    exact (h 35 (List.mem_of_head? hhead)).2 (by simp)
  no_pattern := isPattern_plainLits fun b hb hmem => (h b hb).2 (by
    simp only [List.mem_cons, List.not_mem_nil, or_false] at hmem ⊢
    tauto)
  no_tilde := hasTilde_plainLits (fun hmem => (h 126 hmem).2 (by simp)) true

/-- A single byte is literal also when it is an opening bracket. -/
theorem isLiteral_singleton {c : UInt8} (h : c ∉ active) (hc : c ∉ [35, 42, 63, 126]) :
    IsLiteral [c] where
  ne_nil := by simp
  plain := List.forall_mem_singleton.mpr h
  no_hash := by
    rintro ⟨⟩
    exact hc (by simp)
  no_pattern := by
    simp only [List.mem_cons, List.not_mem_nil, or_false, not_or] at hc
    simp [plainLits, isPattern, hc]
  no_tilde := hasTilde_plainLits (by
    rw [List.mem_singleton]
    rintro rfl
    exact hc (by simp)) true

theorem IsLiteral.field_eq (h : IsLiteral bs) : field env (plainLits bs) = some bs := by
  rw [field, h.no_pattern, h.no_tilde, expand_plainLits]
  rfl

/-- Literal words stand for themselves. -/
theorem mapM_field_literals {bss : List Bytes} (h : ∀ bs ∈ bss, IsLiteral bs) :
    (bss.map plainLits).mapM (field env) = some bss := by
  induction bss with
  | nil => rfl
  | cons bs bss ih =>
      obtain ⟨hbs, hbss⟩ := List.forall_mem_cons.mp h
      rw [List.map_cons, List.mapM_cons, hbs.field_eq, ih hbss]
      rfl

/-! ### Assignments -/

/-- Words that are assignments, without tildes. -/
def Assigns (ws : List Word) : Prop :=
  ∀ w ∈ ws, ∃ n v, splitAssign [] w = some (n, v) ∧ hasTilde true v = false

/-- Assignments lead to an environment, whatever is behind them. -/
theorem Assigns.exists_env (h : Assigns acc) (env : Env) :
    ∃ env', ∀ ws, assignAll (acc ++ ws) env = assignAll ws env' := by
  induction acc generalizing env with
  | nil => exact ⟨env, fun _ => rfl⟩
  | cons w acc ih =>
      obtain ⟨⟨n, v, hsplit, htilde⟩, hacc⟩ := List.forall_mem_cons.mp h
      obtain ⟨env', henv'⟩ := ih hacc (Function.update env n (some (expand env v)))
      refine ⟨env', fun ws => ?_⟩
      rw [List.cons_append, assignAll, hsplit]
      simp only [htilde, Bool.false_eq_true, if_false, henv']

/-- The variables of some entries, set one after the other. -/
def updateAll (env : Env) (es : List (Bytes × Bytes)) : Env :=
  es.foldl (fun env e => Function.update env e.1 (some e.2)) env

/-- The words of entries set their variables. -/
theorem assignAll_entries {es : List (Bytes × Bytes)}
    (h : ∀ e ∈ es, IsName e.1 ∧ IsValue e.2) (env : Env) :
    assignAll (es.map (fun e => plainLits (e.1 ++ 61 :: e.2)) ++ ws) env =
      assignAll ws (updateAll env es) := by
  induction es generalizing env with
  | nil => rfl
  | cons e es ih =>
      obtain ⟨⟨hn, hv⟩, hes⟩ := List.forall_mem_cons.mp h
      rw [List.map_cons, List.cons_append, assignAll, plainLits_entry,
        splitAssign_assignWord hn]
      simp only [hv.no_tilde, Bool.false_eq_true, if_false, expand_plainLits]
      rw [ih hes]
      rfl

/-- The text of some entries. -/
def entriesText (es : List (Bytes × Bytes)) : Bytes :=
  (es.map fun e => e.1 ++ 61 :: e.2 ++ [32]).flatten

/-- Entries are read as their words. -/
theorem run_entriesText {es : List (Bytes × Bytes)} (h : ∀ e ∈ es, IsName e.1 ∧ IsValue e.2) :
    Lexer.run ⟨.gap, [], acc, cs⟩ (entriesText es) =
      some ⟨.gap, [], acc ++ es.map (fun e => plainLits (e.1 ++ 61 :: e.2)), cs⟩ := by
  have hbare : ∀ bs ∈ es.map (fun e => e.1 ++ 61 :: e.2), IsBare bs := by
    intro bs hbs
    obtain ⟨e, he, rfl⟩ := List.mem_map.mp hbs
    exact isBare_entry (h e he).1 (h e he).2
  have hmap : entriesText es = ((es.map fun e => e.1 ++ 61 :: e.2).map (· ++ [32])).flatten := by
    rw [List.map_map]
    rfl
  rw [hmap, run_bares hbare, List.map_map]
  rfl

theorem assigns_entries {es : List (Bytes × Bytes)} (h : ∀ e ∈ es, IsName e.1 ∧ IsValue e.2) :
    Assigns (es.map fun e => plainLits (e.1 ++ 61 :: e.2)) := by
  intro w hw
  obtain ⟨e, he, rfl⟩ := List.mem_map.mp hw
  exact ⟨e.1, plainLits e.2, plainLits_entry _ _ ▸ splitAssign_assignWord (h e he).1 _,
    (h e he).2.no_tilde⟩

/-- **Every entry is there in the end**, when entries of one name have one value. -/
theorem updateAll_of_mem {es : List (Bytes × Bytes)} {e : Bytes × Bytes} (he : e ∈ es)
    (hone : ∀ e' ∈ es, e'.1 = e.1 → e'.2 = e.2) : updateAll env es e.1 = some e.2 := by
  induction es using List.reverseRecOn with
  | nil => cases he
  | append_singleton es e' ih =>
      rw [updateAll, List.foldl_append, List.foldl_cons, List.foldl_nil, ← updateAll]
      by_cases hname : e'.1 = e.1
      · rw [hname, Function.update_self, hone e' (by simp) hname]
      · rw [Function.update_of_ne (Ne.symm hname)]
        refine ih ?_ fun e'' he'' => hone e'' (List.mem_append_left _ he'')
        rcases List.mem_append.mp he with he | he
        · exact he
        · rw [List.mem_singleton.mp he] at hname
          exact absurd rfl hname

/-! ### A command in four parts -/

/-- No keyword is an assignment. -/
theorem keyword_of_splitAssign {w : Word} {p : Bytes × Word} (h : splitAssign [] w = some p) :
    keyword w = none := by
  have hne : ∀ bs : Bytes, splitAssign [] (plainLits bs) = none → w ≠ plainLits bs := by
    rintro bs hnone rfl
    rw [hnone] at h
    cases h
  rw [keyword, if_neg (hne _ rfl), if_neg (hne _ rfl), if_neg (hne _ rfl), if_neg (hne _ rfl)]

/-- The text of some arguments. -/
def argsText (args : List Bytes) : Bytes := (args.map (32 :: ·)).flatten

/-- The blank behind the arguments may as well stand in front of them. -/
theorem argsText_append_blank (args : List Bytes) :
    argsText args ++ [32] = 32 :: (args.map (· ++ [32])).flatten := by
  induction args with
  | nil => rfl
  | cons a args ih =>
      rw [argsText, List.map_cons, List.flatten_cons, ← argsText, List.append_assoc, ih,
        List.map_cons, List.flatten_cons]
      simp

/-- **A command in four parts**: assignments, entries, further words, and arguments. The program
is started with all of the words, and with the entries in its environment. -/
theorem invoke_of_run {front mid : Bytes} {L : List Word} {w : Word} {launch args : List Bytes}
    {es : List (Bytes × Bytes)} (hfront : Lexer.start.run front = some ⟨.gap, [], acc, []⟩)
    (hacc : acc ≠ []) (hassigns : Assigns acc) (hes : ∀ e ∈ es, IsName e.1 ∧ IsValue e.2)
    (hmid : ReadsWords (mid ++ [32]) (w :: L)) (hw : splitAssign [] w = none)
    (hlaunch : (w :: L).mapM (field env) = some launch) (hargs : ∀ a ∈ args, IsLiteral a) :
    ∃ env', invoke env (front ++ (entriesText es ++ (mid ++ argsText args))) =
      some ⟨updateAll env' es, launch ++ args⟩ := by
  obtain ⟨env', henv'⟩ := hassigns.exists_env env
  let entries := es.map fun e => plainLits (e.1 ++ 61 :: e.2)
  let words := acc ++ (entries ++ (w :: L ++ args.map plainLits))
  have hrun : Lexer.start.run ((front ++ (entriesText es ++ (mid ++ argsText args))) ++ [32]) =
      some ⟨.gap, [], words, []⟩ := by
    have hsplit : (front ++ (entriesText es ++ (mid ++ argsText args))) ++ [32] =
        front ++ (entriesText es ++ ((mid ++ [32]) ++ (args.map (· ++ [32])).flatten)) := by
      rw [List.append_assoc, List.append_assoc, List.append_assoc, argsText_append_blank]
      simp
    rw [hsplit, run_append_of hfront, run_append_of (run_entriesText hes),
      run_append_of (hmid _ _ fun h => hacc (List.append_eq_nil_iff.mp h).1),
      run_bares fun a ha => (hargs a ha).toIsBare]
    simp only [words, entries, List.append_assoc]
  have hcommands := commands_of_run_blank hrun (by simp [words])
  have hkeyword : words.head?.bind keyword = none := by
    obtain ⟨a, as, rfl⟩ := List.exists_cons_of_ne_nil hacc
    obtain ⟨n, v, hsplit, -⟩ := hassigns a List.mem_cons_self
    exact keyword_of_splitAssign hsplit
  have hassign : assignAll words env =
      some (updateAll env' es, w :: L ++ args.map plainLits) := by
    rw [henv', assignAll_entries hes, List.cons_append, assignAll, hw]
  have hfields : (w :: L ++ args.map plainLits).mapM (field env) = some (launch ++ args) := by
    rw [List.mapM_append, hlaunch, mapM_field_literals hargs]
    rfl
  refine ⟨env', ?_⟩
  rw [invoke, hcommands, List.nil_append]
  simp only [start, hkeyword, hassign, hfields, Option.isSome_none, Bool.false_eq_true, if_false]
  rw [if_neg (by simp)]
  rfl

end Rules

end Sh
