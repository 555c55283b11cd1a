import TPBench.Rtenv.MergeRecord
import TPBench.Sh.Eval

/-!
# Loading a Runtime Environment into a Shell

The variables of a runtime environment reach a process in two ways. `rtenv load` prints a
line of shell text for each of them, and a shell evaluates it (`tpbcli-rtenv-load.c`). The
core library computes the value of a variable itself, from the recorded value and the one
in the environment (`tpb_rtenv_apply_onset`). Both put the recorded value in front of the
current one, behind it, or in its place.

`load_line_agrees_iff` says when the two give the same value. They differ in two ways:

* The core library does not write a second colon behind a current value that ends in one,
  and the shell text does.
* The text in single quotes is written into a buffer of 8192 bytes, where a single quote
  takes four bytes. A value that does not fit is cut, and where the buffer is filled up to
  its last byte, the terminator is written behind it.
-/

open CFile

namespace TPBench

/-! ### The modes -/

/-- `TPB_RTENV_ON_SET_IGNORE`. -/
def tpbRtenvOnSetIgnore : UInt32 := 0

/-- `TPB_RTENV_ON_SET_OVERWRITE`. -/
def tpbRtenvOnSetOverwrite : UInt32 := 1

/-- `TPB_RTENV_ON_SET_PREPEND`. -/
def tpbRtenvOnSetPrepend : UInt32 := 2

/-- `TPB_RTENV_ON_SET_APPEND`. -/
def tpbRtenvOnSetAppend : UInt32 := 3

/-- The values of `on_set` that are a mode. -/
def IsOnSet (onSet : UInt32) : Prop :=
  onSet = tpbRtenvOnSetIgnore ∨ onSet = tpbRtenvOnSetOverwrite ∨
    onSet = tpbRtenvOnSetPrepend ∨ onSet = tpbRtenvOnSetAppend

/-! ### The core library -/

/-- `tpb_rtenv_apply_onset` with a buffer of `outlen` bytes, where `cur` is what `getenv`
finds. -/
def tpbRtenvApplyOnset (cur : Option Bytes) (recordVal : Bytes) (onSet : UInt32)
    (outlen : ℕ) : Except Err Bytes :=
  if outlen = 0 then .error (.code .misc .nullptrArg)
  else if onSet = tpbRtenvOnSetIgnore then .error (.code .none .cliFail)
  else if onSet = tpbRtenvOnSetOverwrite then .ok (cut outlen recordVal)
  else if onSet = tpbRtenvOnSetPrepend then
    match cur with
    | some (b :: bs) => .ok (cut outlen (recordVal ++ 58 :: b :: bs))
    | _ => .ok (cut outlen recordVal)
  else if onSet = tpbRtenvOnSetAppend then
    match cur with
    | some (b :: bs) =>
        if (b :: bs).getLast? = some 58 then .ok (cut outlen (b :: bs ++ recordVal))
        else .ok (cut outlen (b :: bs ++ 58 :: recordVal))
    | _ => .ok (cut outlen recordVal)
  else .error (.code .misc .cliFail)

/-! ### The shell text -/

/-- Programs that print: the state is what was printed. -/
abbrev PrintM := EStateM Err Bytes

/-- `printf`. -/
def printf (bs : Bytes) : PrintM Unit := fun out => .ok () (out ++ bs)

/-- `_sf_valid_env_key`. -/
def sfValidEnvKey : Bytes → Bool
  | [] => false
  | b :: bs => (isalpha b ∨ b = 95) ∧ bs.all fun c => isalnum c ∨ c = 95

/-- The loop of `_sf_shell_quote`, with what stands in the buffer of `outlen` bytes. -/
def quoteLoop (outlen : ℕ) : Bytes → Bytes → Bytes
  | [], out => out
  | b :: bs, out =>
      if out.length + 2 < outlen then
        if b = 39 then
          if outlen ≤ out.length + 4 then out
          else quoteLoop outlen bs (out ++ [39, 92, 39, 39])
        else quoteLoop outlen bs (out ++ [b])
      else out

/-- The end of `_sf_shell_quote`, with what stands in the buffer. The terminator may come to
stand behind the buffer. -/
def quoteEnd (outlen : ℕ) (out : Bytes) : Except Err Bytes :=
  if out.length < outlen then
    if out.length + 1 < outlen then .ok (out ++ [39]) else .error .undefined
  else .ok out

/-- `_sf_shell_quote` with a buffer of `outlen` bytes: the string that it leaves. -/
def sfShellQuote (s : Bytes) (outlen : ℕ) : Except Err Bytes :=
  if outlen = 0 then .ok [] else quoteEnd outlen (quoteLoop outlen s [39])

/-- `_sf_shell_quote` in a program that prints. -/
def shellQuote (s : Bytes) (outlen : ℕ) : PrintM Bytes :=
  match sfShellQuote s outlen with
  | .ok q => pure q
  | .error e => throw e

/-- `"export "`. -/
def exportWord : Bytes := ascii "export ".toList

/-- `_sf_emit_export`. -/
def sfEmitExport (key value : Bytes) : PrintM Unit := do
  let qv ← shellQuote value 8192
  printf (exportWord ++ key ++ [61] ++ qv ++ [10])

/-- What `_sf_emit_prepend` and `_sf_emit_append` print: the values are `set` if the variable
has a value, and `unset` if it has none. -/
def ifSetLine (key set unset : Bytes) : Bytes :=
  ascii "if [ -n ".toList ++ [34, 36, 123] ++ key ++
    [58, 45, 125, 34] ++ ascii " ]; then ".toList ++
    exportWord ++ key ++ [61] ++ set ++ ascii "; else ".toList ++
    exportWord ++ key ++ [61] ++ unset ++ ascii "; fi".toList ++ [10]

/-- The current value as the printed lines ask for it. -/
def currentText (key : Bytes) : Bytes := [34, 36] ++ (key ++ [34])

/-- `_sf_emit_prepend`. -/
def sfEmitPrepend (key value : Bytes) : PrintM Unit := do
  let qv ← shellQuote value 8192
  printf (ifSetLine key (qv ++ [58] ++ currentText key) qv)

/-- `_sf_emit_append`. -/
def sfEmitAppend (key value : Bytes) : PrintM Unit := do
  let qv ← shellQuote value 8192
  printf (ifSetLine key (currentText key ++ [58] ++ qv) qv)

/-- One round of the loop of `tpbcli_rtenv_load`; what is logged about a bad key is left to
`logged`. -/
def loadVar (x : EnvVar) : PrintM Unit :=
  if sfValidEnvKey x.key = false then throw (.code .cliRtenv .cliFail)
  else if x.onSet = tpbRtenvOnSetIgnore then pure ()
  else if x.onSet = tpbRtenvOnSetPrepend then sfEmitPrepend x.key x.value
  else if x.onSet = tpbRtenvOnSetAppend then sfEmitAppend x.key x.value
  else sfEmitExport x.key x.value

/-- `"export TPB_RTENV_"` -/
def exportRtenv : Bytes := exportWord ++ ascii "TPB_RTENV_".toList

/-- `tpbcli_rtenv_load` once the environment was found and its chain was merged. -/
def tpbcliRtenvLoad (id : Int32) (envName : Bytes) (merged : Merged) : PrintM Unit := do
  let qid ← shellQuote (formatInt id.toInt) 64
  printf (exportRtenv ++ ascii ['I', 'D'] ++ [61] ++ qid ++ [10])
  let qname ← shellQuote envName 512
  printf (exportRtenv ++ ascii "NAME".toList ++ [61] ++ qname ++ [10])
  merged.vars.forM loadVar

/-- The output with the lines that are logged when it fails. -/
def logged (log : Bytes) : EStateM.Result Err Bytes Unit → EStateM.Result Err Bytes Unit
  | .ok () out => .ok () out
  | .error e out => .error e (out ++ log)

@[simp] theorem logged_eq_ok {log out : Bytes} {r : EStateM.Result Err Bytes Unit} :
    logged log r = .ok () out ↔ r = .ok () out := by
  rcases r with ⟨⟩ | ⟨e, out'⟩
  · rfl
  · exact iff_of_false (by simp [logged]) (by simp)

/-! ### Quoting -/

/-- A value with its quotes fits into the buffer. -/
def QuoteFits (s : Bytes) (outlen : ℕ) : Prop := s.length + 3 * s.count 39 + 3 ≤ outlen

/-- The loop quotes a part of the text from its front, and stops inside the buffer. -/
theorem quoteLoop_of_lt (outlen : ℕ) (bs : Bytes) {out : Bytes} (hout : out.length < outlen) :
    ∃ p r, bs = p ++ r ∧ quoteLoop outlen bs out = out ++ Sh.escapeQuotes p ∧
      (out ++ Sh.escapeQuotes p).length < outlen := by
  induction bs generalizing out with
  | nil => exact ⟨[], [], rfl, by simp [quoteLoop], by simpa using hout⟩
  | cons b bs ih =>
      have hstop : ∃ p r, b :: bs = p ++ r ∧ out = out ++ Sh.escapeQuotes p ∧
          (out ++ Sh.escapeQuotes p).length < outlen :=
        ⟨[], b :: bs, rfl, by simp, by simpa using hout⟩
      have hnext : ∀ e, Sh.escapeQuotes [b] = e → (out ++ e).length < outlen →
          ∃ p r, b :: bs = p ++ r ∧ quoteLoop outlen bs (out ++ e) = out ++ Sh.escapeQuotes p ∧
            (out ++ Sh.escapeQuotes p).length < outlen := by
        rintro e rfl hlt
        obtain ⟨p, r, rfl, hrun, hlen⟩ := ih hlt
        have happ : out ++ Sh.escapeQuotes [b] ++ Sh.escapeQuotes p =
            out ++ Sh.escapeQuotes (b :: p) := by
          simp
        exact ⟨b :: p, r, rfl, hrun.trans happ, happ ▸ hlen⟩
      rw [quoteLoop]
      split_ifs with hroom hquote hfull
      · exact hstop
      · refine hnext _ (by simp [hquote]) ?_
        simp only [List.length_append, List.length_cons, List.length_nil]
        omega
      · refine hnext _ (by simp [hquote]) ?_
        simp only [List.length_append, List.length_cons, List.length_nil]
        omega
      · exact hstop

/-- The loop quotes the whole text if it fits. -/
theorem quoteLoop_all (outlen : ℕ) (bs : Bytes) {out : Bytes}
    (hfits : out.length + bs.length + 3 * bs.count 39 + 2 ≤ outlen) :
    quoteLoop outlen bs out = out ++ Sh.escapeQuotes bs := by
  induction bs generalizing out with
  | nil => simp [quoteLoop]
  | cons b bs ih =>
      rw [List.length_cons, List.count_cons] at hfits
      have hnext : ∀ e, Sh.escapeQuotes [b] = e →
          (out ++ e).length + bs.length + 3 * bs.count 39 + 2 ≤ outlen →
          quoteLoop outlen bs (out ++ e) = out ++ Sh.escapeQuotes (b :: bs) := by
        rintro e rfl hle
        rw [ih hle]
        simp
      rw [quoteLoop, if_pos (by omega)]
      split_ifs with hquote hfull
      · simp only [hquote, beq_self_eq_true, if_true] at hfits
        omega
      · simp only [hquote, beq_self_eq_true, if_true] at hfits
        refine hnext _ (by simp [hquote]) ?_
        simp only [List.length_append, List.length_cons, List.length_nil]
        omega
      · refine hnext _ (by simp [hquote]) ?_
        simp only [List.length_append, List.length_cons, List.length_nil]
        omega

/-- A value that fits is quoted. -/
theorem sfShellQuote_of_fits {s : Bytes} {outlen : ℕ} (hfits : QuoteFits s outlen) :
    sfShellQuote s outlen = .ok (Sh.quote s) := by
  rw [QuoteFits] at hfits
  have hloop : quoteLoop outlen s [39] = 39 :: Sh.escapeQuotes s :=
    quoteLoop_all outlen s (by simp only [List.length_cons, List.length_nil]; omega)
  have hlen : (39 :: Sh.escapeQuotes s).length = s.length + 3 * s.count 39 + 1 := by
    rw [List.length_cons, Sh.length_escapeQuotes]
  rw [sfShellQuote, if_neg (by omega), hloop, quoteEnd, if_pos (by omega), if_pos (by omega)]
  rfl

/-- What the buffer holds is a quoted part of the value that fits, unless the terminator
stands behind the buffer. -/
theorem sfShellQuote_cases (s : Bytes) (outlen : ℕ) (hlen : 2 ≤ outlen) :
    sfShellQuote s outlen = .error .undefined ∨
      ∃ p r, s = p ++ r ∧ sfShellQuote s outlen = .ok (Sh.quote p) ∧ QuoteFits p outlen := by
  obtain ⟨p, r, hs, hloop, hlt⟩ := @quoteLoop_of_lt outlen s [39]
    (by simp only [List.length_cons, List.length_nil]; omega)
  have hcount : ([39] ++ Sh.escapeQuotes p).length = p.length + 3 * p.count 39 + 1 := by
    rw [List.singleton_append, List.length_cons, Sh.length_escapeQuotes]
  rw [sfShellQuote, if_neg (by omega), hloop, quoteEnd, if_pos hlt]
  by_cases hend : ([39] ++ Sh.escapeQuotes p).length + 1 < outlen
  · rw [if_pos hend]
    refine .inr ⟨p, r, hs, rfl, ?_⟩
    rw [QuoteFits]
    omega
  · rw [if_neg hend]
    exact .inl rfl

/-! ### The lines -/

/-- The keys that are printed are the names of the shell. -/
theorem isName_of_sfValidEnvKey {key : Bytes} (h : sfValidEnvKey key = true) :
    Sh.IsName key := by
  cases key with
  | nil => cases h
  | cons b bs =>
      simp only [sfValidEnvKey, Bool.decide_and, Bool.and_eq_true, decide_eq_true_eq,
        List.all_eq_true] at h
      refine ⟨b, bs, rfl, ?_, fun c hc => ?_⟩
      · simpa [Sh.isNameStart, isalpha, or_assoc] using h.1
      · have hchar := h.2 c hc
        simp only [isalnum, isalpha, decide_eq_true_eq] at hchar
        simp only [Sh.isNameChar, Sh.isNameStart, decide_eq_true_eq]
        tauto

/-- The text that is printed is the one the shell rule is about. -/
theorem ifSetLine_eq (key set unset : Bytes) :
    ifSetLine key set unset = Sh.ifSetText key set unset ++ [10] := by
  simp only [ifSetLine, Sh.ifSetText, Sh.exportText, exportWord, List.append_assoc,
    List.singleton_append]

/-- The line of a variable whose value is quoted as `qv`. -/
def lineOf (key qv : Bytes) (onSet : UInt32) : Bytes :=
  if onSet = tpbRtenvOnSetPrepend then ifSetLine key (qv ++ [58] ++ currentText key) qv
  else if onSet = tpbRtenvOnSetAppend then ifSetLine key (currentText key ++ [58] ++ qv) qv
  else exportWord ++ key ++ [61] ++ qv ++ [10]

/-- What is printed for a variable that is not ignored. -/
theorem loadVar_eq {x : EnvVar} (hkey : sfValidEnvKey x.key = true)
    (hset : x.onSet ≠ tpbRtenvOnSetIgnore) (out : Bytes) :
    loadVar x out = match sfShellQuote x.value 8192 with
      | .ok qv => .ok () (out ++ lineOf x.key qv x.onSet)
      | .error e => .error e out := by
  have hemit : ∀ line : Bytes → Bytes,
      (do let qv ← shellQuote x.value 8192; printf (line qv) : PrintM Unit) out =
        match sfShellQuote x.value 8192 with
        | .ok qv => .ok () (out ++ line qv)
        | .error e => .error e out := by
    intro line
    simp only [shellQuote, bind, EStateM.bind]
    cases sfShellQuote x.value 8192 with
    | ok qv => rfl
    | error e => rfl
  rw [loadVar, if_neg (by simp [hkey]), if_neg hset]
  unfold lineOf
  split_ifs
  · exact hemit _
  · exact hemit _
  · exact hemit _

/-- What a line makes of the current value: the recorded value `p` in front of it, behind
it, or in its place. -/
def loadedValue (onSet : UInt32) (p cur : Bytes) : Bytes :=
  if onSet = tpbRtenvOnSetPrepend then if cur ≠ [] then p ++ 58 :: cur else p
  else if onSet = tpbRtenvOnSetAppend then if cur ≠ [] then cur ++ 58 :: p else p
  else p

/-- A line that exports a quoted value. -/
theorem sets_exportLine {key : Bytes} (hname : Sh.IsName key) (p : Bytes) (env : Sh.Env) :
    Sh.Sets (exportWord ++ key ++ [61] ++ Sh.quote p ++ [10]) env
      (Function.update env key (some p)) := by
  have hplain : Sh.hasTilde true (Sh.quotedLits p) = false := by
    simpa [Sh.hasTilde] using Sh.hasTilde_quotedLits_append p [] true
  have hline := Sh.sets_exportText hname (Sh.reads_quote p) (Sh.isPattern_quotedLits p) hplain env
  have htext : exportWord ++ key ++ [61] ++ Sh.quote p ++ [10] =
      Sh.exportText key (Sh.quote p) ++ [10] := by
    simp [Sh.exportText, exportWord]
  rw [Sh.expand_quotedLits] at hline
  rw [htext]
  exact hline

/-- **What the shell does with a line.** -/
theorem sets_lineOf {key : Bytes} (hkey : sfValidEnvKey key = true) (p : Bytes)
    (onSet : UInt32) (env : Sh.Env) :
    Sh.Sets (lineOf key (Sh.quote p) onSet) env
      (Function.update env key (some (loadedValue onSet p ((env key).getD [])))) := by
  have hname := isName_of_sfValidEnvKey hkey
  have hquote := Sh.reads_quote p
  have hcolon : Sh.Reads [58] [.lit 58 false] := Sh.reads_plain
      (List.forall_mem_singleton.mpr (by decide))
  have hvar : Sh.Reads (currentText key) [.var key] := Sh.reads_var hname
  have hplain : Sh.isPattern (Sh.quotedLits p) = false ∧
      Sh.hasTilde true (Sh.quotedLits p) = false := by
    constructor
    · exact Sh.isPattern_quotedLits p
    · simpa [Sh.hasTilde] using Sh.hasTilde_quotedLits_append p [] true
  have hfront : ∀ w, Sh.isPattern (Sh.quotedLits p ++ w) = Sh.isPattern w :=
    Sh.isPattern_quotedLits_append p
  rw [lineOf, loadedValue]
  split_ifs with hpre hset happ hset
  · have hline := Sh.sets_ifSetText hname ((hquote.append hcolon).append hvar) hquote
      (by rw [List.append_assoc, hfront]; rfl) hplain.1
      (by rw [List.append_assoc, Sh.hasTilde_quotedLits_append]; simp [Sh.hasTilde])
      hplain.2 env
    have hvalue : Sh.expand env (Sh.quotedLits p ++ [.lit 58 false] ++ [.var key]) =
        p ++ 58 :: (env key).getD [] := by
      rw [Sh.expand_append, Sh.expand_append, Sh.expand_quotedLits, Sh.expand_lit, Sh.expand_var,
        List.append_assoc, List.singleton_append]
    rw [if_pos hset, hvalue] at hline
    rw [ifSetLine_eq]
    exact hline
  · have hline := Sh.sets_ifSetText hname ((hquote.append hcolon).append hvar) hquote
      (by rw [List.append_assoc, hfront]; rfl) hplain.1
      (by rw [List.append_assoc, Sh.hasTilde_quotedLits_append]; simp [Sh.hasTilde])
      hplain.2 env
    rw [if_neg hset, Sh.expand_quotedLits] at hline
    rw [ifSetLine_eq]
    exact hline
  · have hline := Sh.sets_ifSetText hname ((hvar.append hcolon).append hquote) hquote
      (by simpa [Sh.isPattern] using hplain.1) hplain.1
      (by simpa [Sh.hasTilde] using hplain.2)
      hplain.2 env
    have hvalue : Sh.expand env ([.var key] ++ [.lit 58 false] ++ Sh.quotedLits p) =
        (env key).getD [] ++ 58 :: p := by
      rw [Sh.expand_append, Sh.expand_append, Sh.expand_var, Sh.expand_lit, Sh.expand_quotedLits,
        List.append_assoc, List.singleton_append]
    rw [if_pos hset, hvalue] at hline
    rw [ifSetLine_eq]
    exact hline
  · have hline := Sh.sets_ifSetText hname ((hvar.append hcolon).append hquote) hquote
      (by simpa [Sh.isPattern] using hplain.1) hplain.1
      (by simpa [Sh.hasTilde] using hplain.2)
      hplain.2 env
    rw [if_neg hset, Sh.expand_quotedLits] at hline
    rw [ifSetLine_eq]
    exact hline
  · exact sets_exportLine hname p env

/-- What the shell does with a line alone. -/
theorem eval_lineOf {key : Bytes} (hkey : sfValidEnvKey key = true) (p : Bytes)
    (onSet : UInt32) (env : Sh.Env) :
    Sh.eval (lineOf key (Sh.quote p) onSet) env =
      some (Function.update env key (some (loadedValue onSet p ((env key).getD [])))) :=
  (sets_lineOf hkey p onSet env).eval

/-! ### The two values -/

/-- What the function of the core library makes of the current value `cur`, where an empty
value is none. -/
def appliedValue (onSet : UInt32) (v cur : Bytes) : Bytes :=
  if onSet = tpbRtenvOnSetPrepend then if cur ≠ [] then v ++ 58 :: cur else v
  else if onSet = tpbRtenvOnSetAppend then
    if cur ≠ [] then if cur.getLast? = some 58 then cur ++ v else cur ++ 58 :: v else v
  else v

/-- The room that the value of the core library needs. -/
def appliedRoom (v : Bytes) (cur : Option Bytes) : ℕ := v.length + 1 + (cur.getD []).length

theorem tpbRtenvApplyOnset_eq {onSet : UInt32} (hmode : IsOnSet onSet)
    (hset : onSet ≠ tpbRtenvOnSetIgnore) (cur : Option Bytes) (v : Bytes) {outlen : ℕ}
    (hroom : appliedRoom v cur < outlen) :
    tpbRtenvApplyOnset cur v onSet outlen = .ok (appliedValue onSet v (cur.getD [])) := by
  have hcut : ∀ s : Bytes, s.length ≤ appliedRoom v cur → cut outlen s = s :=
    fun s hs => List.take_of_length_le (by omega)
  have hv : cut outlen v = v := hcut v (by rw [appliedRoom]; omega)
  unfold tpbRtenvApplyOnset
  rw [if_neg (by omega), if_neg hset]
  rcases hmode with rfl | rfl | rfl | rfl
  · exact absurd rfl hset
  · rw [if_pos rfl, hv]
    rfl
  · rw [if_neg (by decide), if_pos rfl]
    rcases cur with - | - | ⟨b, bs⟩
    · exact congrArg _ hv
    · exact congrArg _ hv
    · change Except.ok (cut outlen (v ++ 58 :: b :: bs)) = _
      rw [hcut _ (by simp [appliedRoom]; omega)]
      rfl
  · rw [if_neg (by decide), if_neg (by decide), if_pos rfl]
    rcases cur with - | - | ⟨b, bs⟩
    · exact congrArg _ hv
    · exact congrArg _ hv
    · have hvalue : appliedValue tpbRtenvOnSetAppend v (b :: bs) =
          if (b :: bs).getLast? = some 58 then b :: bs ++ v else b :: bs ++ 58 :: v := rfl
      change (if (b :: bs).getLast? = some 58 then _ else _) =
          Except.ok (appliedValue _ v (b :: bs))
      rw [hvalue, hcut _ (by simp [appliedRoom]; omega), hcut _ (by simp [appliedRoom]; omega)]
      split_ifs
      · rfl
      · rfl

/-- A current value behind which the core library writes no colon. -/
def EndsInColon (cur : Option Bytes) : Prop := (cur.getD []).getLast? = some 58

/-- A text that is equal to one with another byte in front and one less behind consists of
this byte. -/
theorem eq_of_append_eq_cons {p r : Bytes} {a : UInt8} (h : p ++ r = a :: p) :
    ∀ b ∈ p ++ r, b = a := by
  induction p with
  | nil =>
      intro b hb
      rw [h] at hb
      exact List.mem_singleton.mp hb
  | cons x p ih =>
      obtain ⟨rfl, htail⟩ := List.cons.inj h
      intro b hb
      rcases List.mem_cons.mp hb with rfl | hb
      · rfl
      · exact ih htail b hb

/-- The two values are equal when the whole value was quoted and the core library does not
leave out a colon. Where a part of the value is missing, there is a quote in the value. -/
theorem loadedValue_eq_iff {v p r cur : Bytes} {onSet : UInt32} (hv : v = p ++ r)
    (hcount : r ≠ [] → 39 ∈ v) :
    loadedValue onSet p cur = appliedValue onSet v cur ↔
      r = [] ∧ ¬(onSet = tpbRtenvOnSetAppend ∧ cur.getLast? = some 58) := by
  subst hv
  have hend : p = p ++ r ↔ r = [] := by simp
  rw [loadedValue, appliedValue]
  by_cases hpre : onSet = tpbRtenvOnSetPrepend
  · subst hpre
    rw [if_pos rfl, if_pos rfl]
    have hother : ¬(tpbRtenvOnSetPrepend = tpbRtenvOnSetAppend ∧ cur.getLast? = some 58) :=
      fun h => absurd h.1 (by decide)
    simp only [hother, not_false_eq_true, and_true]
    split_ifs
    · rw [List.append_left_inj, hend]
    · exact hend
  · rw [if_neg hpre, if_neg hpre]
    by_cases happ : onSet = tpbRtenvOnSetAppend
    · rw [if_pos happ, if_pos happ]
      simp only [happ, true_and]
      split_ifs with hcur hlast
      · -- the shell writes a colon and the core library does not
        refine iff_of_false (fun heq => ?_) fun h => h.2 hlast
        have hshift : p ++ r = 58 :: p := (List.append_cancel_left heq).symm
        by_cases hr : r = []
        · have hlen := congrArg List.length hshift
          rw [hr, List.append_nil, List.length_cons] at hlen
          omega
        · exact absurd (eq_of_append_eq_cons hshift 39 (hcount hr)) (by decide)
      · simp only [hlast, not_false_eq_true, and_true, List.append_cancel_left_eq,
          List.cons.injEq, true_and]
        exact hend
      · have hempty : cur = [] := not_not.mp hcur
        simp only [hempty, List.getLast?_nil, reduceCtorEq, not_false_eq_true, and_true]
        exact hend
    · rw [if_neg happ, if_neg happ]
      simp only [happ, false_and, not_false_eq_true, and_true]
      exact hend

/-! ### Agreement -/

/-- The line that is printed for a variable, evaluated where the variables are `env`, gives
the variable the value that the core library computes with a buffer of `outlen` bytes. A
variable whose mode is to be ignored is left alone. -/
def LineAgrees (x : EnvVar) (env : Sh.Env) (outlen : ℕ) : Prop :=
  ∃ line env', (∀ out, loadVar x out = .ok () (out ++ line)) ∧ Sh.eval line env = some env' ∧
    (x.onSet = tpbRtenvOnSetIgnore → env' x.key = env x.key) ∧
    (x.onSet ≠ tpbRtenvOnSetIgnore → ∃ value,
      tpbRtenvApplyOnset (env x.key) x.value x.onSet outlen = .ok value ∧
      env' x.key = some value)

/-- A variable that is ignored. -/
theorem lineAgrees_of_ignore {x : EnvVar} (hkey : sfValidEnvKey x.key = true)
    (hset : x.onSet = tpbRtenvOnSetIgnore) (env : Sh.Env) (outlen : ℕ) :
    LineAgrees x env outlen := by
  refine ⟨[], env, fun out => ?_, rfl, fun _ => rfl, fun h => absurd hset h⟩
  rw [loadVar, if_neg (by simp [hkey]), if_pos hset, List.append_nil]
  rfl

/-- A variable whose value is quoted up to a part `p` of it. -/
theorem lineAgrees_of_quote {x : EnvVar} (hkey : sfValidEnvKey x.key = true)
    (hmode : IsOnSet x.onSet) (hset : x.onSet ≠ tpbRtenvOnSetIgnore) {env : Sh.Env}
    {outlen : ℕ} (hroom : appliedRoom x.value (env x.key) < outlen) {p : Bytes}
    (hquote : sfShellQuote x.value 8192 = .ok (Sh.quote p)) :
    LineAgrees x env outlen ↔
      loadedValue x.onSet p ((env x.key).getD []) =
        appliedValue x.onSet x.value ((env x.key).getD []) := by
  have hline : ∀ out, loadVar x out = .ok () (out ++ lineOf x.key (Sh.quote p) x.onSet) := by
    intro out
    rw [loadVar_eq hkey hset, hquote]
  have happly := tpbRtenvApplyOnset_eq hmode hset (env x.key) x.value hroom
  constructor
  · rintro ⟨line, env', hprint, heval, -, hvalue⟩
    obtain ⟨value, hcompute, hget⟩ := hvalue hset
    have hsame : line = lineOf x.key (Sh.quote p) x.onSet :=
      (EStateM.Result.ok.inj ((hprint []).symm.trans (hline []))).2
    rw [hsame, eval_lineOf hkey] at heval
    obtain rfl := Option.some.inj heval
    rw [happly] at hcompute
    obtain rfl := Except.ok.inj hcompute
    rw [Function.update_self] at hget
    exact Option.some.inj hget
  · intro heq
    refine ⟨_, _, hline, eval_lineOf hkey p x.onSet env, fun h => absurd h hset, fun _ => ?_⟩
    exact ⟨_, happly, by rw [Function.update_self, heq]⟩

/-- A value of less than 4096 bytes that does not fit has a quote in it. -/
theorem quote_mem_of_not_fits {v : Bytes} (hlen : v.length < 4096) (h : ¬QuoteFits v 8192) :
    39 ∈ v := by
  by_contra hmem
  rw [QuoteFits, List.count_eq_zero_of_not_mem hmem] at h
  omega

/-- **When loading and applying agree.** The value of a variable that is not ignored fits
into the buffer with its quotes, and it is not appended to a value that ends in a colon. -/
theorem load_line_agrees_iff (x : EnvVar) (hkey : sfValidEnvKey x.key = true)
    (hlen : x.value.length < 4096) (hmode : IsOnSet x.onSet) (env : Sh.Env) (outlen : ℕ)
    (hroom : appliedRoom x.value (env x.key) < outlen) :
    LineAgrees x env outlen ↔
      (x.onSet = tpbRtenvOnSetIgnore ∨ QuoteFits x.value 8192) ∧
        ¬(x.onSet = tpbRtenvOnSetAppend ∧ EndsInColon (env x.key)) := by
  by_cases hset : x.onSet = tpbRtenvOnSetIgnore
  · refine iff_of_true (lineAgrees_of_ignore hkey hset env outlen) ⟨.inl hset, ?_⟩
    rintro ⟨happ, -⟩
    exact absurd (hset.symm.trans happ) (by decide)
  rw [or_iff_right hset]
  rcases sfShellQuote_cases x.value 8192 (by omega) with
    hundef | ⟨p, r, hv, hquote, hfits⟩
  · -- the terminator stands behind the buffer
    refine iff_of_false ?_ fun h => ?_
    · rintro ⟨line, -, hprint, -⟩
      have herror := (loadVar_eq hkey hset []).symm.trans (hprint [])
      rw [hundef] at herror
      cases herror
    · rw [sfShellQuote_of_fits h.1] at hundef
      cases hundef
  · have hnil : r = [] ↔ QuoteFits x.value 8192 := by
      constructor
      · rintro rfl
        rwa [hv, List.append_nil]
      · intro h
        have hq : Sh.quote p = Sh.quote x.value :=
          Except.ok.inj (hquote.symm.trans (sfShellQuote_of_fits h))
        have hlength := congrArg List.length hq
        simp only [Sh.quote, List.length_cons, List.length_append, Sh.length_escapeQuotes, hv,
          List.count_append, List.length_nil] at hlength
        exact List.length_eq_zero_iff.mp (by omega)
    rw [lineAgrees_of_quote hkey hmode hset hroom hquote,
      loadedValue_eq_iff hv fun hr => quote_mem_of_not_fits hlen fun h => hr (hnil.mpr h), hnil]
    rfl

/-- A variable that is appended to a value that ends in a colon. -/
def appended : EnvVar := ⟨[80], [98], tpbRtenvOnSetAppend, 0⟩

/-- An environment in which the only variable has a value that ends in a colon. -/
def colonEnv : Sh.Env := fun n => if n = [80] then some [97, 58] else none

/-- A value `b` is appended to `a:`. The core library makes `a:b` of it, and the shell
`a::b`. -/
theorem load_line_writes_second_colon :
    ¬LineAgrees appended colonEnv 4096 ∧
      ∃ line env', loadVar appended [] = .ok () line ∧ Sh.eval line colonEnv = some env' ∧
        env' [80] = some [97, 58, 58, 98] ∧
        tpbRtenvApplyOnset (colonEnv [80]) [98] tpbRtenvOnSetAppend 4096 =
          .ok [97, 58, 98] := by
  have hset : appended.onSet ≠ tpbRtenvOnSetIgnore := by decide
  have hquote : sfShellQuote appended.value 8192 = .ok (Sh.quote [98]) := rfl
  have hprint : loadVar appended [] =
      .ok () (lineOf appended.key (Sh.quote [98]) appended.onSet) := by
    rw [loadVar_eq (by rfl) hset, hquote]
    rfl
  have heval := @eval_lineOf appended.key rfl [98] appended.onSet colonEnv
  constructor
  · have hagree := @lineAgrees_of_quote appended rfl (.inr (.inr (.inr rfl))) hset colonEnv 4096
      (by decide) [98] hquote
    rw [hagree]
    decide
  · exact ⟨_, _, hprint, heval, rfl, rfl⟩

/-- The same variable where it has no value. -/
theorem load_line_agrees_unset : LineAgrees appended (fun _ => none) 4096 :=
  (load_line_agrees_iff appended rfl (by decide) (.inr (.inr (.inr rfl))) (fun _ => none) 4096
    (by decide)).mpr ⟨.inr (by decide : [98].length + 3 * [98].count 39 + 3 ≤ 8192),
      fun h => absurd h.2 (by simp [EndsInColon])⟩

end TPBench
