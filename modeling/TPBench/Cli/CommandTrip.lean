import TPBench.Cli.CheckKargs
import TPBench.Cli.ListValues
import TPBench.Cli.RunPli
import TPBench.Sh.Invoke

/-!
# From the Handle to the Process of the Kernel

`tpb_run_pli` (`tpb-driver.c`) starts a kernel with a text that goes through the shell: the
environment entries of the handle as `NAME=value`, the wrappers and the program with the
timer, and the values of the arguments. The process of the kernel finds the entries in its
environment, and `tpb_k_pli_build_handle` reads the values from the words behind the name of
the timer.

Nothing is quoted in that text. A value with a blank ends at the blank, a quote is taken out,
and a character that is a blank, a quote or a semicolon is no word of its own. Integers come
through in any case: `comesThrough` is the round trip of a single argument.

## Convention

`ReachesChild` is what the process of the kernel has to find. The shell is the fragment of
`Sh`, where a text with anything that the shell expands or runs in another way is not a
command. The words in front of the arguments are whatever the wrappers and the program are
read as (`Launches`), quotes and variables included.

## Main results

* `command_reaches_child` — a command whose texts have no special bytes (`ShellSafe`), and
  that fits its buffer, gives the process of the kernel every value and every entry;
* `blank_in_value` — one blank in the value of an entry is enough to lose it.
-/

open CFile

namespace TPBench

/-! ### What arrives -/

/-- The member of the union that the type of an argument reads. -/
def RtArg.member (a : RtArg) : UInt64 :=
  if a.typeCode = typeChar then a.value.toUInt8.toUInt64 else a.value

/-- `full_cmd`, where every call of `snprintf` writes into it. -/
def fullCmd (F : Doubles) (r : PliRun) (h : Handle) : Option Bytes :=
  ((commandParts F r h).foldlM (PrintBuf.add cmdSize) PrintBuf.empty).map (·.text)

/-- The command fits `full_cmd`, with the zero byte behind it. -/
def CommandFits (F : Doubles) (r : PliRun) (h : Handle) : Prop :=
  (commandParts F r h).flatten.length < cmdSize

/-- No declaration of a runtime environment applies to an entry. -/
def Undeclared (r : PliRun) (h : Handle) : Prop :=
  ∀ e ∈ h.envs.zipIdx, r.declared e.2 e.1.1 = none

/-- The variables in front of the entries. -/
def frontText (r : PliRun) : Bytes :=
  (timerPart r :: kernelIdPart r :: (rtenvParts r ++ batchParts r)).flatten

/-- The wrappers, the program and the timer. -/
def launchText (r : PliRun) (h : Handle) : Bytes :=
  (h.wrappers.map wrapperParts).flatten.flatten ++ execPart r

/-- The shell reads the wrappers and the program as the words `front`, the timer behind them,
and does not take the first one for an assignment. -/
def Launches (env : Sh.Env) (r : PliRun) (h : Handle) (front : List Bytes) : Prop :=
  ∃ w ws, Sh.ReadsWords (launchText r h ++ [32]) (w :: ws) ∧ Sh.splitAssign [] w = none ∧
    (w :: ws).mapM (Sh.field env) = some (front ++ [r.timer])

/-- **The process of the kernel has what the handle has**: the command is one that the shell
starts, the words behind the timer build a handle whose arguments have the same values, and
every entry is in the environment. `d` is the driver in that process. -/
def ReachesChild (F : Floats) (timer : Timer) (env : Sh.Env) (r : PliRun) (h : Handle)
    (d : PliDriver) : Prop :=
  ∃ text s front argv d' hdl, fullCmd F.toDoubles r h = some text ∧
    Sh.invoke env text = some s ∧ Launches env r h front ∧ s.argv = front ++ [r.timer] ++ argv ∧
    tpbKPliBuildHandle F timer argv d = .ok () d' ∧ d'.currentRthdl = some hdl ∧
    hdl.args.map (·.member) = h.args.map (·.member) ∧ ∀ e ∈ h.envs, s.env e.1 = some e.2

/-! ### The condition -/

/-- The bytes that are no word of their own: a zero byte, the active ones, and those that begin
a comment, a pattern or a home directory. -/
def specialChars : Bytes := 0 :: (Sh.active ++ ascii "#*?~".toList)

/-- The texts of a command have no byte that the shell interprets: the entries have names of
variables, literal values, and one value for each name, and the characters are literal. The
variables in front and the wrappers are texts that the shell reads on their own. -/
structure ShellSafe (env : Sh.Env) (r : PliRun) (h : Handle) : Prop where
  front : ∃ w ws, Sh.Lexer.start.run (frontText r) = some ⟨.gap, [], w :: ws, []⟩ ∧
    Sh.Assigns (w :: ws)
  launch : ∃ front, Launches env r h front
  entry : ∀ e ∈ h.envs, Sh.IsName e.1 ∧ Sh.IsValue e.2
  one_value : ∀ e ∈ h.envs, ∀ e' ∈ h.envs, e.1 = e'.1 → e.2 = e'.2
  char : ∀ a ∈ h.args, a.typeCode = typeChar → a.value.toUInt8 ∉ specialChars

/-! ### A single argument -/

/-- The type of an argument belongs to what it is declared as. -/
theorem typeCode_of_decl {a b : RtArg} (h : a.decl = b.decl) : a.typeCode = b.typeCode := by
  have hdecl : a.decl.typeCode = b.decl.typeCode := congrArg RtArg.typeCode h
  exact hdecl

section Arg

variable {F : Floats} {a : RtArg}

/-- The range of `int64_t`. -/
theorem toInt64_mem (v : UInt64) :
    -2 ^ 63 ≤ v.toInt64.toInt ∧ v.toInt64.toInt < 2 ^ 63 :=
  ⟨v.toInt64.minValue_le_toInt, v.toInt64.toInt_lt⟩

/-- The bytes of a printed integer are digits, and a sign. -/
theorem mem_formatInt {i : ℤ} {b : UInt8} (hb : b ∈ formatInt i) : isdigit b = true ∨ b = 45 := by
  rw [formatInt] at hb
  split_ifs at hb
  · rcases List.mem_cons.mp hb with rfl | hb
    · exact .inr rfl
    · exact .inl (isdigit_of_mem_formatD hb)
  · exact .inl (isdigit_of_mem_formatD hb)

/-- A printed integer is a literal word. -/
theorem isLiteral_formatInt (i : ℤ) : Sh.IsLiteral (formatInt i) := by
  have hall : (Sh.active ++ [35, 42, 63, 91, 126]).all (fun b => !isdigit b && b != 45) = true := by
    decide
  refine Sh.isLiteral_of_forall ?_ fun b hb => ?_
  · rw [formatInt]
    split_ifs
    · simp
    · exact formatD_ne_nil _
  · rw [← not_or, ← List.mem_append]
    intro hmem
    have hspecial := List.all_eq_true.mp hall b hmem
    rcases mem_formatInt hb with hdigit | rfl
    · simp [hdigit] at hspecial
    · cases hspecial

/-- An integer of eight bytes has at most twenty digits, and a sign. -/
theorem length_formatInt_lt {i : ℤ} (hi : i.natAbs < 2 ^ 64) : (formatInt i).length < 256 := by
  have hdigits : (formatD i.natAbs).length ≤ 20 := by
    rw [formatD, ascii, List.length_map]
    exact (Nat.length_toDigits_le_iff (by omega) (by omega)).mpr (by omega)
  rw [formatInt]
  split_ifs
  · rw [List.length_cons]
    omega
  · omega

/-- What is printed is read back. -/
theorem strtoll_formatInt {i : ℤ} (hlo : -2 ^ 63 ≤ i) (hhi : i < 2 ^ 63) :
    strtoll (formatInt i) = i := by
  rw [strtoll, signedDigits_formatInt]
  dsimp only
  split_ifs
  · omega
  · omega

theorem strtoull_formatInt (v : UInt64) : strtoull (formatInt v.toNat) = v := by
  have hlt := v.toNat_lt
  rw [strtoull, signedDigits_formatInt, Int.natAbs_natCast, if_neg (by omega)]
  dsimp only
  rw [if_neg (by omega), UInt64.ofNat_toNat]

/-- A character replaces the lowest byte. -/
theorem toUInt8_replace (x : UInt64) (c : UInt8) :
    (x &&& ~~~(0xFF : UInt64) ||| c.toUInt64).toUInt8 = c := by
  have hmask : (~~~(0xFF : UInt64)).toUInt8 = 0 := by decide
  rw [UInt64.toUInt8_or, UInt64.toUInt8_and, hmask, UInt8.and_zero, UInt8.zero_or,
    UInt8.toUInt8_toUInt64]

/-- An argument of an exact type has a literal text, and the text gives an argument of the same
declaration the same member. -/
structure ComesThrough (F : Floats) (a : RtArg) : Prop where
  literal : Sh.IsLiteral (argText F.toDoubles a)
  apply_eq : ∀ b : ArgInfo, b.typeCode = a.typeCode →
    (b.apply F (argText F.toDoubles a)).member = a.member

/-- An argument that is printed as an integer. -/
theorem comesThrough_of_formatInt {i : ℤ} (hchar : a.typeCode ≠ typeChar)
    (htext : argText F.toDoubles a = formatInt i)
    (hread : parmFromText F.toDoubles a.typeCode (formatInt i) = some a.value) :
    ComesThrough F a := by
  constructor
  · rw [htext]
    exact isLiteral_formatInt i
  · intro b hb
    have hb' : b.typeCode ≠ typeChar := fun h => hchar (hb.symm.trans h)
    rw [ArgInfo.apply, htext, hb, hread]
    simp only [hchar, if_false, RtArg.member]
    exact if_neg hb'

theorem comesThrough_int (ht : IsExactType a.typeCode) (hint : isIntType a.typeCode = true) :
    ComesThrough F a := by
  obtain ⟨hlo, hhi⟩ := toInt64_mem a.value
  have hchar : a.typeCode ≠ typeChar := by
    intro heq
    rw [heq, typeChar_exact.1] at hint
    cases hint
  refine comesThrough_of_formatInt (i := a.value.toInt64.toInt) hchar ?_ ?_
  · rw [argText, if_neg ht.not_float, if_pos hint, printedIn_of_lt (length_formatInt_lt (by omega))]
  · rw [parmFromText, if_neg ht.not_float, if_pos hint, strtoll_formatInt hlo hhi,
      Int64.ofInt_toInt, UInt64.toUInt64_toInt64]

theorem comesThrough_uint (ht : IsExactType a.typeCode) (hint : isIntType a.typeCode = false)
    (huint : isUintType a.typeCode = true) : ComesThrough F a := by
  have hlt := a.value.toNat_lt
  have hchar : a.typeCode ≠ typeChar := by
    intro heq
    rw [heq, typeChar_exact.2.1] at huint
    cases huint
  refine comesThrough_of_formatInt (i := a.value.toNat) hchar ?_ ?_
  · rw [argText, if_neg ht.not_float, if_neg (by simp [hint]), if_pos huint, ← formatInt_natCast,
      printedIn_of_lt (length_formatInt_lt (by omega))]
  · rw [parmFromText, if_neg ht.not_float, if_neg (by simp [hint]), if_pos huint,
      strtoull_formatInt]

/-- A character that is not special. -/
theorem comesThrough_char (ha : a.typeCode = typeChar) (hc : a.value.toUInt8 ∉ specialChars) :
    ComesThrough F a := by
  obtain ⟨hint, huint, hdouble⟩ := typeChar_exact
  have hfloat : ¬(typeChar = typeFloat ∨ isDoubleType typeChar = true) := by
    rw [hdouble]
    decide
  rw [specialChars, List.mem_cons, List.mem_append, not_or, not_or] at hc
  obtain ⟨hzero, hactive, hspecial⟩ := hc
  have htext : argText F.toDoubles a = [a.value.toUInt8] := by
    rw [argText, ha, if_neg hfloat, if_neg (by simp [hint]), if_neg (by simp [huint]), if_pos rfl,
      cstr_of_not_mem fun h => hzero (List.mem_singleton.mp h).symm]
    rfl
  constructor
  · rw [htext]
    exact Sh.isLiteral_singleton hactive hspecial
  · intro b hb
    have hread : parmFromText F.toDoubles b.typeCode (argText F.toDoubles a) =
        some a.value.toUInt8.toUInt64 := by
      rw [hb, ha, parmFromText, if_neg hfloat, if_neg (by simp [hint]), if_neg (by simp [huint]),
        if_pos rfl, htext]
      rfl
    rw [ArgInfo.apply, hread]
    simp only [hb, ha, if_true, RtArg.member]
    refine (if_pos (hb.trans ha)).trans ?_
    rw [toUInt8_replace]

/-- **The round trip of an argument.** -/
theorem comesThrough (ht : IsExactType a.typeCode)
    (hchar : a.typeCode = typeChar → a.value.toUInt8 ∉ specialChars) : ComesThrough F a := by
  rcases hint : isIntType a.typeCode with - | -
  · rcases huint : isUintType a.typeCode with - | -
    · have ha : a.typeCode = typeChar := by
        rcases ht with h | h | h
        · rw [hint] at h
          cases h
        · rw [huint] at h
          cases h
        · exact h
      exact comesThrough_char ha (hchar ha)
    · exact comesThrough_uint ht hint huint
  · exact comesThrough_int ht hint

end Arg

/-! ### The text -/

section Text

variable {F : Floats} {r : PliRun} {h : Handle}

/-- The entries are printed as they are, when no declaration applies. -/
theorem flatten_envParts (hdecl : Undeclared r h) :
    (envParts r h.envs).flatten = Sh.entriesText h.envs := by
  have hemit : (h.envs.zipIdx.map fun e =>
      ((emitVal r e.2 e.1.1 e.1.2).map (assignment e.1.1)).toList) =
      h.envs.zipIdx.map fun e => [assignment e.1.1 e.1.2] := by
    refine List.map_congr_left fun e he => ?_
    rw [emitVal, hdecl e he]
    rfl
  have hentries : h.envs.map (fun e => assignment e.1 e.2) =
      (h.envs.zipIdx.map Prod.fst).map fun e => assignment e.1 e.2 := by
    rw [List.zipIdx_map_fst]
  rw [envParts, hemit, ← List.flatMap_def, ← List.map_eq_flatMap, Sh.entriesText]
  change _ = (h.envs.map fun e => assignment e.1 e.2).flatten
  rw [hentries, List.map_map]
  rfl

/-- The command is made of four parts. -/
theorem flatten_commandParts (hdecl : Undeclared r h) :
    (commandParts F.toDoubles r h).flatten =
      frontText r ++ (Sh.entriesText h.envs ++
        (launchText r h ++ Sh.argsText (h.args.map (argText F.toDoubles)))) := by
  rw [commandParts, frontText, launchText, ← flatten_envParts hdecl, Sh.argsText, List.map_map]
  simp only [List.flatten_cons, List.flatten_append, List.append_assoc]
  rfl

/-- What `full_cmd` holds. -/
theorem fullCmd_of_fits (hdecl : Undeclared r h) (hfits : CommandFits F.toDoubles r h) :
    fullCmd F.toDoubles r h = some (frontText r ++ (Sh.entriesText h.envs ++
      (launchText r h ++ Sh.argsText (h.args.map (argText F.toDoubles))))) := by
  rw [fullCmd, run_of_fits hfits (by decide), Option.map_some, flatten_commandParts hdecl]

/-- The arguments that the child builds from the texts of the parent's arguments. -/
theorem member_applyArgv {as : List RtArg} {bs : List ArgInfo}
    (hdecl : as.map (·.decl) = bs.map (·.decl)) (h : ∀ a ∈ as, ComesThrough F a) :
    (applyArgv F bs (as.map (argText F.toDoubles))).map (·.member) = as.map (·.member) := by
  induction as generalizing bs with
  | nil =>
      cases bs with
      | nil => rfl
      | cons b bs => cases hdecl
  | cons a as ih =>
      cases bs with
      | nil => cases hdecl
      | cons b bs =>
          obtain ⟨hb, hbs⟩ := List.cons.inj hdecl
          obtain ⟨ha, has⟩ := List.forall_mem_cons.mp h
          rw [List.map_cons, applyArgv, List.map_cons, List.map_cons,
            ha.apply_eq b (typeCode_of_decl hb.symm), ih hbs has]

/-- **The command reaches the process of the kernel.** The kernel has arguments of integer types
and of type `char`, and the child has registered the same kernel. -/
theorem command_reaches_child (F : Floats) (timer : Timer) (env : Sh.Env) (r : PliRun)
    (h : Handle) (k : Kernel) (ki : KernelInfo) (d : PliDriver) (hof : h.Of k)
    (hsame : k.args = ki.args.map (·.toRtArg)) (hlast : d.kernelAll.getLast? = some ki)
    (htypes : ∀ a ∈ k.args, IsExactType a.typeCode) (hdecl : Undeclared r h)
    (hfits : CommandFits F.toDoubles r h) (hsafe : ShellSafe env r h) :
    ReachesChild F timer env r h d := by
  obtain ⟨⟨w₀, acc, hfront, hassigns⟩, ⟨front, w, ws, hmid, hw, hlaunch⟩, hentry, hone,
    hchar⟩ := hsafe
  have hdecls : h.args.map (·.decl) = ki.args.map (·.decl) := by
    rw [hof, hsame, List.map_map]
    rfl
  -- every argument of the handle is declared by the kernel
  have hexact : ∀ a ∈ h.args, IsExactType a.typeCode := by
    intro a ha
    have hmem : a.decl ∈ k.args.map (·.decl) := hof ▸ List.mem_map_of_mem ha
    obtain ⟨b, hb, heq⟩ := List.mem_map.mp hmem
    exact typeCode_of_decl heq ▸ htypes b hb
  have hthrough : ∀ a ∈ h.args, ComesThrough F a := fun a ha =>
    comesThrough (hexact a ha) (hchar a ha)
  have hliteral : ∀ t ∈ h.args.map (argText F.toDoubles), Sh.IsLiteral t := by
    intro t ht
    obtain ⟨a, ha, rfl⟩ := List.mem_map.mp ht
    exact (hthrough a ha).literal
  obtain ⟨env', hinvoke⟩ :=
    Sh.invoke_of_run hfront (by simp) hassigns hentry hmid hw hlaunch hliteral
  refine ⟨_, _, front, h.args.map (argText F.toDoubles), _, Rthdl.build F timer ki _,
    fullCmd_of_fits hdecl hfits, hinvoke, ⟨w, ws, hmid, hw, hlaunch⟩, rfl,
    tpbKPliBuildHandle_ok_iff.mpr ⟨ki, hlast, rfl⟩, rfl, ?_, ?_⟩
  · exact member_applyArgv hdecls hthrough
  · intro e he
    exact Sh.updateAll_of_mem he fun e' he' hname => hone e' he' e he hname

end Text

/-! ### Texts without special bytes -/

section Plain

variable {env : Sh.Env} {r : PliRun} {h : Handle}

/-- Texts that are entries with names and literal values. -/
def AreEntries (parts : List Bytes) : Prop :=
  ∃ es, parts.flatten = Sh.entriesText es ∧ ∀ e ∈ es, Sh.IsName e.1 ∧ Sh.IsValue e.2

theorem areEntries_nil : AreEntries [] := ⟨[], rfl, by simp⟩

theorem areEntries_cons {n v : Bytes} {parts : List Bytes} (hn : Sh.IsName n) (hv : Sh.IsValue v)
    (h : AreEntries parts) : AreEntries (assignment n v :: parts) := by
  obtain ⟨es, heq, hes⟩ := h
  refine ⟨(n, v) :: es, ?_, List.forall_mem_cons.mpr ⟨⟨hn, hv⟩, hes⟩⟩
  rw [List.flatten_cons, heq]
  rfl

/-- The digits of an ID are literal. -/
theorem isValue_hexBytes (bs : Bytes) : Sh.IsValue (hexBytes bs) := by
  have hall : (List.range 16).all (fun n => hexLower n ∉ Sh.active ∧ hexLower n ≠ 126) = true := by
    decide
  have hbyte : ∀ c ∈ hexBytes bs, c ∉ Sh.active ∧ c ≠ 126 := by
    intro c hc
    obtain ⟨n, hn, rfl⟩ := exists_of_mem_hexBytes hc
    exact of_decide_eq_true (List.all_eq_true.mp hall n (List.mem_range.mpr hn))
  exact ⟨fun c hc => (hbyte c hc).1,
    Sh.hasTilde_plainLits (fun hmem => (hbyte 126 hmem).2 rfl) true⟩

/-- The variables in front are entries, when the timer and the workspace are literal. -/
theorem areEntries_front (htimer : Sh.IsValue r.timer)
    (hworkspace : ∀ ws ∈ r.workspace, Sh.IsValue ws) :
    AreEntries (timerPart r :: kernelIdPart r :: (rtenvParts r ++ batchParts r)) := by
  have hnumber : ∀ i, Sh.IsValue (formatInt i) := fun i => (isLiteral_formatInt i).isValue
  have hname : ∀ n ∈ [ascii "TPBENCH_TIMER".toList, ascii "TPB_KERNEL_ID".toList,
      ascii "TPB_RTENV_ID".toList, ascii "TPB_TBATCH_ID".toList, ascii "TPB_HANDLE_INDEX".toList,
      ascii "TPB_WORKSPACE".toList], Sh.IsName n := by
    have hall : ∀ n ∈ [ascii "TPBENCH_TIMER".toList, ascii "TPB_KERNEL_ID".toList,
        ascii "TPB_RTENV_ID".toList, ascii "TPB_TBATCH_ID".toList,
        ascii "TPB_HANDLE_INDEX".toList, ascii "TPB_WORKSPACE".toList],
        (n.head?.any Sh.isNameStart && n.tail.all Sh.isNameChar) = true := by
      decide +kernel
    exact fun n hn => Sh.isName_of_all (hall n hn)
  have hbatch : AreEntries (batchParts r) := by
    rw [batchParts]
    split
    · exact areEntries_nil
    · refine areEntries_cons (hname _ (by simp)) (isValue_hexBytes _)
        (areEntries_cons (hname _ (by simp)) (hnumber _) ?_)
      split
      · exact areEntries_nil
      · rename_i ws hws
        exact areEntries_cons (hname _ (by simp)) (hworkspace ws hws) areEntries_nil
  refine areEntries_cons (hname _ (by simp)) htimer
    (areEntries_cons (hname _ (by simp)) (isValue_hexBytes _) ?_)
  rw [rtenvParts]
  split
  · exact areEntries_cons (hname _ (by simp)) (hnumber _) hbatch
  · exact hbatch

/-- The variables in front are read as assignments. -/
theorem front_of_values (htimer : Sh.IsValue r.timer)
    (hworkspace : ∀ ws ∈ r.workspace, Sh.IsValue ws) :
    ∃ w ws, Sh.Lexer.start.run (frontText r) = some ⟨.gap, [], w :: ws, []⟩ ∧
      Sh.Assigns (w :: ws) := by
  obtain ⟨es, heq, hes⟩ := areEntries_front htimer hworkspace
  cases es with
  | nil => cases heq
  | cons e es =>
      refine ⟨_, _, ?_, Sh.assigns_entries hes⟩
      rw [frontText, heq]
      exact Sh.run_entriesText hes

/-- Literal words launch the program that they are. -/
theorem launches_of_literals {app : Bytes} {front : List Bytes}
    (htext : launchText r h ++ [32] = ((app :: front ++ [r.timer]).map (· ++ [32])).flatten)
    (hwords : ∀ bs ∈ app :: front ++ [r.timer], Sh.IsLiteral bs)
    (happ : Sh.splitAssign [] (Sh.plainLits app) = none) : Launches env r h (app :: front) := by
  refine ⟨Sh.plainLits app, (front ++ [r.timer]).map Sh.plainLits, ?_, happ,
    Sh.mapM_field_literals hwords⟩
  rw [htext]
  exact Sh.readsWords_bares fun bs hbs => (hwords bs hbs).toIsBare

end Plain

/-! ### A blank in a value -/

/-- Handles of a kernel whose arguments and entries were set by the calls of the driver. -/
inductive Handle.SetBy (F : Doubles) (k : Kernel) : Handle → Prop
  | new : SetBy F k (Handle.ofKernel k)
  | karg {h h' : Handle} {name text : Bytes} :
      SetBy F k h → h.setKarg F name text = .ok h' → SetBy F k h'
  | env {h : Handle} (name value : Bytes) : SetBy F k h → SetBy F k (h.setEnv name value)

/-- Such a handle has the arguments the kernel declares. -/
theorem Handle.SetBy.of {F : Doubles} {k : Kernel} {h : Handle} (hset : h.SetBy F k) : h.Of k := by
  induction hset with
  | new => exact Handle.of_ofKernel k
  | karg _ hkarg ih => exact ih.setKarg hkarg
  | env name value _ ih => exact ih.setEnv

/-- An argument `n` of type `int64_t` and an argument `c` of type `char`. -/
def tripArgs : List ArgInfo :=
  [⟨⟨ascii ['n'], 0, typeInt64, []⟩, [], []⟩, ⟨⟨ascii ['c'], 32, typeChar, []⟩, [], []⟩]

/-- The kernel, as the parent has registered it. -/
def tripKernel : Kernel := ⟨ascii ['k'], true, true, tripArgs.map (·.toRtArg), k_lt⟩

/-- The driver of the child. -/
def tripDriver : PliDriver := ⟨[⟨ascii ['k'], [], 0, tripArgs, []⟩], none, none⟩

/-- `n` is `-5`, `c` is `x`, and the entry `A` has a value. -/
def tripHandle (value : Bytes) : Handle :=
  ⟨tripKernel, [⟨ascii ['n'], 0xfffffffffffffffb, typeInt64, []⟩, ⟨ascii ['c'], 120, typeChar, []⟩],
    [(ascii ['A'], value)], []⟩

theorem tripHandle_setBy {value : Bytes} (hvalue : value.length < cliStrMaxLen) :
    (tripHandle value).SetBy noFloats.toDoubles tripKernel := by
  have hn : (Handle.ofKernel tripKernel).setKarg noFloats.toDoubles (ascii ['n'])
      (ascii ['-', '5']) = .ok ⟨tripKernel, [⟨ascii ['n'], 0xfffffffffffffffb, typeInt64, []⟩,
        ⟨ascii ['c'], 32, typeChar, []⟩], [], []⟩ := rfl
  have hc : Handle.setKarg noFloats.toDoubles ⟨tripKernel, [⟨ascii ['n'], 0xfffffffffffffffb,
      typeInt64, []⟩, ⟨ascii ['c'], 32, typeChar, []⟩], [], []⟩ (ascii ['c']) (ascii ['x']) =
      .ok ⟨tripKernel, (tripHandle value).args, [], []⟩ := rfl
  have hset := ((Handle.SetBy.new.karg hn).karg hc).env (ascii ['A']) value
  rw [Handle.setEnv, setEnvEntry, printedIn_of_lt hvalue] at hset
  exact hset

/-- The launcher, the program and the timer of `plainRun` are literal. -/
theorem isLiteral_plainRun : ∀ bs ∈ [ascii "/opt/bin/tpbcli-pli-launcher".toList,
    ascii "/opt/lib/libtpbk_stream.so".toList, plainRun.timer], Sh.IsLiteral bs := by
  have hall : ∀ bs ∈ [ascii "/opt/bin/tpbcli-pli-launcher".toList,
      ascii "/opt/lib/libtpbk_stream.so".toList, plainRun.timer],
      bs ≠ [] ∧ bs.all (fun b => b ∉ Sh.active ∧ b ∉ [35, 42, 63, 91, 126]) = true := by
    decide +kernel
  intro bs hbs
  obtain ⟨hne, hbytes⟩ := hall bs hbs
  exact Sh.isLiteral_of_forall hne fun b hb => of_decide_eq_true (List.all_eq_true.mp hbytes b hb)

/-- A literal value of the entry is safe. -/
theorem shellSafe_tripHandle {value : Bytes} (hvalue : Sh.IsValue value) (env : Sh.Env) :
    ShellSafe env plainRun (tripHandle value) := by
  constructor
  · refine front_of_values (isLiteral_plainRun _ (by simp)).isValue ?_
    rintro ws ⟨⟩
  · have htext : launchText plainRun (tripHandle value) = execPart plainRun := rfl
    have hlaunch : Launches env plainRun (tripHandle value)
        [ascii "/opt/bin/tpbcli-pli-launcher".toList,
          ascii "/opt/lib/libtpbk_stream.so".toList] := by
      refine launches_of_literals ?_ isLiteral_plainRun (by decide +kernel)
      rw [htext]
      decide +kernel
    exact ⟨_, hlaunch⟩
  · intro e he
    rw [List.mem_singleton.mp he]
    exact ⟨⟨65, [], rfl, rfl, by simp⟩, hvalue⟩
  · intro e he e' he' _
    rw [List.mem_singleton.mp he, List.mem_singleton.mp he']
  · intro a ha hchar
    rcases List.mem_cons.mp ha with rfl | ha
    · cases hchar
    · rw [List.mem_singleton.mp ha]
      decide

theorem exact_tripKernel : ∀ a ∈ tripKernel.args, IsExactType a.typeCode := by
  intro a ha
  rcases List.mem_cons.mp ha with rfl | ha
  · exact .inl rfl
  · rw [List.mem_singleton.mp ha]
    exact .inr (.inr rfl)

/-- The entry `A=1` and both arguments reach the child. -/
theorem trip_reaches_child :
    ReachesChild noFloats nsTimer (fun _ => none) plainRun (tripHandle (ascii ['1']))
      tripDriver := by
  refine command_reaches_child _ _ _ _ _ tripKernel _ _ (tripHandle_setBy ?_).of rfl rfl
    exact_tripKernel (fun _ _ => rfl) ?_ (shellSafe_tripHandle ?_ _)
  · decide
  · unfold CommandFits
    decide +kernel
  · exact (Sh.isLiteral_singleton (by decide) (by decide)).isValue

/-- **A blank in a value**: the entry `A=a b` leaves `a` in the variable, and `b` is run as the
program. -/
theorem blank_in_value :
    ¬ ∀ (F : Floats) (timer : Timer) (env : Sh.Env) (r : PliRun) (h : Handle) (k : Kernel)
      (ki : KernelInfo) (d : PliDriver), h.SetBy F.toDoubles k →
      k.args = ki.args.map (·.toRtArg) → d.kernelAll.getLast? = some ki →
      (∀ a ∈ k.args, IsExactType a.typeCode) → Undeclared r h → CommandFits F.toDoubles r h →
      ReachesChild F timer env r h d := by
  intro hall
  have hfits : CommandFits noFloats.toDoubles plainRun (tripHandle (ascii ['a', ' ', 'b'])) := by
    unfold CommandFits
    decide +kernel
  obtain ⟨text, s, front, argv, d', hdl, htext, hinvoke, -, -, -, -, -, henv⟩ :=
    hall noFloats nsTimer (fun _ => none) plainRun (tripHandle (ascii ['a', ' ', 'b'])) tripKernel
      _ tripDriver (tripHandle_setBy (by decide)) rfl rfl exact_tripKernel (fun _ _ => rfl) hfits
  have hcut : ((fullCmd noFloats.toDoubles plainRun (tripHandle (ascii ['a', ' ', 'b']))).bind
      (Sh.invoke fun _ => none)).map (fun s => s.env (ascii ['A'])) =
      some (some (ascii ['a'])) := by
    decide +kernel
  rw [htext, Option.bind_some, hinvoke, Option.map_some, henv _ List.mem_cons_self] at hcut
  cases hcut

end TPBench
