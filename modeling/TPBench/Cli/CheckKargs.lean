import TPBench.Cli.SweepDims
import TPBench.Keyed
import TPBench.Kernel.Sound
import TPBench.Raf.GenIds

/-!
# Two Checks of the Same Arguments

The value of an argument reaches the core library on two ways. `tpb_driver_set_hdl_karg`
(`tpb-driver.c`) sets the argument of the current handle, and `tpb_check_kargs`
(`tpb-argp.c`) reads tokens `name=value` for a kernel. Both parse the value and check it
against the limits of the argument, and they were written independently of each other.

`setsAlike_iff` compares them for arguments of integer and character types. They differ in
what they check: `tpb_driver_set_hdl_karg` has no case for lists and none for a range of
characters, so that it takes any value there. They also differ in what they read: a token is
cut to the size of a buffer, its value may not be blank and has no blanks at its ends, and
its name ends at the first sign of equality.

## Main definitions

* `tpbCheckKargs`: the second of the two.
* `RtArg.Admits`: what the limits of an argument mean.
* `SetsAlike`: both accept a value or both reject it, and they store the same.
* `ReadsAlike`: the condition on the argument and the text.
-/

open CFile Conc

namespace TPBench

/-! ### The tokens of a kernel -/

/-- The operations of `Floats`, with the comparisons of the entries of a list: `near` for
`fabs(a - b) < 1e-15` of `double`s and `near32` for `fabs(a - b) < 1e-7` of `float`s. -/
structure ListFloats extends Floats where
  near : UInt64 → UInt64 → Bool
  near32 : UInt32 → UInt32 → Bool

/-- `_sf_check_arg_range`. -/
def sfCheckArgRange (F : ListFloats) (a : RtArg) (v : UInt64) : Bool :=
  match a.plims with
  | [lo, hi] =>
      if a.typeCode = typeChar then
        !(v.toUInt8.toInt8 < lo.toUInt8.toInt8 ∨ hi.toUInt8.toInt8 < v.toUInt8.toInt8)
      else parmInRange F.toDoubles a.typeCode v lo hi
  | _ => false

/-- `_sf_check_arg_list`. -/
def sfCheckArgList (F : ListFloats) (a : RtArg) (v : UInt64) : Bool :=
  a.plims.any fun p =>
    if isDoubleType a.typeCode then F.near v p
    else if a.typeCode = typeFloat then F.near32 v.toUInt32 p.toUInt32
    else if isIntType a.typeCode then v.toInt64 = p.toInt64
    else if isUintType a.typeCode then v = p
    else a.typeCode = typeChar ∧ v.toUInt8 = p.toUInt8

/-- The value of an argument in a token, once the token is taken apart. -/
def checkedValue (F : ListFloats) (a : RtArg) (value : Bytes) : Except Err UInt64 :=
  match parmFromText F.toDoubles a.typeCode value with
  | none => .error (.code .argp .kernArgFail)
  | some v =>
      if a.typeCode = typeChar ∧ v.toUInt8 = 0 then .error (.code .argp .mallocFail)
      else if a.ctrlbits &&& parmCheckMask = parmRange then
        if sfCheckArgRange F a v then .ok v else .error (.code .argp .kernArgFail)
      else if a.ctrlbits &&& parmCheckMask = parmList then
        if sfCheckArgList F a v then .ok v else .error (.code .argp .kernArgFail)
      else .ok v

/-- A round of the loop of `_sf_apply_karg_tokens`. A name that is not known is passed over. -/
def applyKargToken (F : ListFloats) (args : List RtArg) (token : Bytes) :
    Except Err (List RtArg) :=
  match strchr 61 (printedIn cliStrMaxLen token) with
  | none => .error (.code .argp .kernArgFail)
  | some (front, back) =>
      if sfTrimWhitespace front = [] ∨ sfTrimWhitespace back = [] then
        .error (.code .argp .kernArgFail)
      else
        match args.find? (·.name = sfTrimWhitespace front) with
        | none => .ok args
        | some a =>
            match checkedValue F a (sfTrimWhitespace back) with
            | .error e => .error e
            | .ok v => .ok (setArgValue (sfTrimWhitespace front) v args)

/-- `_sf_apply_karg_tokens`. -/
def sfApplyKargTokens (F : ListFloats) (tokens : List Bytes) (args : List RtArg)
    (warnUnknown : Bool) : Except Err (List RtArg) :=
  if tokens = [] then .ok args
  else if args = [] then if warnUnknown then .error (.code .argp .kernArgFail) else .ok args
  else tokens.foldlM (applyKargToken F) args

/-- `_sf_build_rt_parms`: the arguments of a kernel, and those of the common kernel under
names that are not there yet. -/
def sfBuildRtParms (args commonArgs : List RtArg) : List RtArg :=
  commonArgs.foldl
    (fun ps a => if (ps.find? (·.name = a.name)).isSome then ps else ps ++ [a]) args

/-- The name of the kernel whose arguments all kernels have. -/
def commonName : Bytes := ascii "_tpb_common".toList

/-- The arguments `tpb_check_kargs` knows for a kernel. -/
def knownArgs (reg : Registry) (k : Kernel) : List RtArg :=
  sfBuildRtParms k.args (((sfGetKernelByName reg commonName).map Kernel.args).getD [])

/-- `tpb_check_kargs`. -/
def tpbCheckKargs (F : ListFloats) (reg : Registry) (commonTokens kernelTokens : List Bytes)
    (k : Kernel) : Except Err (List RtArg) := do
  let args ← sfApplyKargTokens F commonTokens (knownArgs reg k) false
  sfApplyKargTokens F kernelTokens args true

/-! ### What the limits mean -/

/-- The number or the character a text stands for, in an integer or a character type. -/
def argNumber (t : UInt32) (text : Bytes) : UInt64 :=
  if isIntType t then (Int64.ofInt (strtoll text)).toUInt64
  else if isUintType t then strtoull text
  else (text.headD 0).toUInt64

/-- The integer and character types. -/
def IsExactType (t : UInt32) : Prop := isIntType t = true ∨ isUintType t = true ∨ t = typeChar

/-- A value lies between two others, in the order of its type. -/
def Between (t : UInt32) (v lo hi : UInt64) : Prop :=
  if isIntType t then lo.toInt64 ≤ v.toInt64 ∧ v.toInt64 ≤ hi.toInt64
  else if isUintType t then lo ≤ v ∧ v ≤ hi
  else lo.toUInt8.toInt8 ≤ v.toUInt8.toInt8 ∧ v.toUInt8.toInt8 ≤ hi.toUInt8.toInt8

/-- The limits of an argument admit a value: it lies in the range, or it is in the list. -/
def RtArg.Admits (a : RtArg) (v : UInt64) : Prop :=
  (a.ctrlbits &&& parmCheckMask = parmRange →
      ∀ lo hi, a.plims = [lo, hi] → Between a.typeCode v lo hi) ∧
    (a.ctrlbits &&& parmCheckMask = parmList →
      ∃ p ∈ a.plims, if a.typeCode = typeChar then v.toUInt8 = p.toUInt8 else v = p)

/-! ### Agreement -/

/-- The value of an argument in a list. -/
def valueIn (args : List RtArg) (name : Bytes) : Option UInt64 :=
  (args.find? (·.name = name)).map (·.value)

/-- A token. -/
def kargToken (name text : Bytes) : Bytes := name ++ 61 :: text

/-- **Both ways agree on a value**: `tpb_driver_set_hdl_karg` accepts it for a handle of the
kernel if and only if `tpb_check_kargs` accepts the token, both store the same, and a value
that is rejected leaves the handles as they were. -/
structure SetsAlike (F : ListFloats) (reg : Registry) (k : Kernel) (name text : Bytes) : Prop where
  accept : ∀ h : Handle, h.Of k →
    ((∃ h', h.setKarg F.toDoubles name text = .ok h') ↔
      ∃ as, tpbCheckKargs F reg [] [kargToken name text] k = .ok as)
  store : ∀ (h h' : Handle) (as : List RtArg), h.Of k →
    h.setKarg F.toDoubles name text = .ok h' →
      tpbCheckKargs F reg [] [kargToken name text] k = .ok as → h'.arg? name = valueIn as name
  reject : ∀ (d d' : Driver) (e : Err),
    tpbDriverSetHdlKarg F.toDoubles name text d = .error e d' → d' = d

/-- The name in a token and the text it carries: the token is cut to the size of the buffer,
and blanks at the ends are left out. -/
def tokenKey (name text : Bytes) : Bytes :=
  sfTrimWhitespace ((printedIn cliStrMaxLen (kargToken name text)).takeWhile (· ≠ 61))

def tokenText (name text : Bytes) : Bytes :=
  sfTrimWhitespace
    (((printedIn cliStrMaxLen (kargToken name text)).dropWhile (· ≠ 61)).drop 1)

/-- The limits of an argument that `tpb_driver_set_hdl_karg` looks at: it has a case for a
range of integers only. -/
def RtArg.Guarded (a : RtArg) : Prop :=
  a.ctrlbits &&& parmCheckMask = parmRange ∧ a.typeCode ≠ typeChar

/-- A token that is for another argument than it is named after, or for none, passes. -/
def StrayPasses (F : ListFloats) (args : List RtArg) (key text : Bytes) : Prop :=
  key ≠ [] ∧ text ≠ [] ∧
    ∀ b, args.find? (·.name = key) = some b → ∃ v, checkedValue F b text = .ok v

/-- **The condition.** A token under the name of the argument carries a text that is not blank
and stands for the same value, and the limits admit that value; or the argument is an integer
with a range, its value is out of the range, and the token carries a blank text or one that is
out of the range as well. Where a name cannot be spelled in a token, the value is the default
that the argument keeps and the token passes; or the value is out of range and the token does
not pass. -/
def ReadsAlike (F : ListFloats) (args : List RtArg) (a : RtArg) (text : Bytes) : Prop :=
  if tokenKey a.name text = a.name then
    tokenText a.name text ≠ [] ∧
        argNumber a.typeCode (tokenText a.name text) = argNumber a.typeCode text ∧
        a.Admits (argNumber a.typeCode text) ∨
      a.Guarded ∧ ¬ a.Admits (argNumber a.typeCode text) ∧
        (tokenText a.name text = [] ∨
          ¬ a.Admits (argNumber a.typeCode (tokenText a.name text)))
  else
    argNumber a.typeCode text = a.value ∧ (a.Guarded → a.Admits (argNumber a.typeCode text)) ∧
        StrayPasses F args (tokenKey a.name text) (tokenText a.name text) ∨
      a.Guarded ∧ ¬ a.Admits (argNumber a.typeCode text) ∧
        ¬ StrayPasses F args (tokenKey a.name text) (tokenText a.name text)

section Values

variable {F : ListFloats} {a : RtArg} {text : Bytes} {v lo hi : UInt64}

theorem typeChar_exact : isIntType typeChar = false ∧ isUintType typeChar = false ∧
    isDoubleType typeChar = false := by decide

/-- An exact type is none of the floating-point types. -/
theorem IsExactType.not_float {t : UInt32} (ht : IsExactType t) :
    ¬ (t = typeFloat ∨ isDoubleType t = true) := by
  have hcases : ∀ t, isIntType t = true ∨ isUintType t = true →
      ¬ (t = typeFloat ∨ isDoubleType t = true) := by
    intro t h
    simp only [isIntType, isUintType, isDoubleType, typeFloat, decide_eq_true_eq] at *
    rintro (rfl | rfl | rfl)
    all_goals revert h; decide
  rcases ht with h | h | rfl
  · exact hcases t (.inl h)
  · exact hcases t (.inr h)
  · decide

theorem parmFromText_exact {t : UInt32} (ht : IsExactType t) (text : Bytes) :
    parmFromText F.toDoubles t text = some (argNumber t text) := by
  rw [parmFromText, if_neg ht.not_float, argNumber]
  split_ifs with hint huint hchar
  · rfl
  · rfl
  · rfl
  · exact absurd ht (by simp [IsExactType, hint, huint, hchar])

theorem parmInRange_exact {t : UInt32} (ht : IsExactType t) :
    parmInRange F.toDoubles t v lo hi = true ↔ t ≠ typeChar → Between t v lo hi := by
  have hfloat : ¬ t = typeFloat := fun h => ht.not_float (.inl h)
  have hdouble : ¬ isDoubleType t = true := fun h => ht.not_float (.inr h)
  obtain ⟨hci, hcu, -⟩ := typeChar_exact
  rw [parmInRange, if_neg hdouble, if_neg hfloat, Between]
  rcases ht with hint | huint | rfl
  · have hchar : t ≠ typeChar := by rintro rfl; rw [hci] at hint; cases hint
    simp [hint, hchar]
  · have hchar : t ≠ typeChar := by rintro rfl; rw [hcu] at huint; cases huint
    by_cases hint : isIntType t = true
    · simp [hint, hchar]
    · simp [hint, huint, hchar]
  · simp [hci, hcu]

theorem sfCheckArgRange_iff (ht : IsExactType a.typeCode) (hlims : a.plims = [lo, hi]) :
    sfCheckArgRange F a v = true ↔ Between a.typeCode v lo hi := by
  obtain ⟨hci, hcu, -⟩ := typeChar_exact
  simp only [sfCheckArgRange, hlims]
  split_ifs with hchar
  · simp [hchar, Between, hci, hcu]
  · rw [parmInRange_exact ht]
    exact ⟨fun h => h hchar, fun h _ => h⟩

theorem sfCheckArgList_iff (ht : IsExactType a.typeCode) :
    sfCheckArgList F a v = true ↔
      ∃ p ∈ a.plims, if a.typeCode = typeChar then v.toUInt8 = p.toUInt8 else v = p := by
  have hfloat : ¬ a.typeCode = typeFloat := fun h => ht.not_float (.inl h)
  have hdouble : ¬ isDoubleType a.typeCode = true := fun h => ht.not_float (.inr h)
  obtain ⟨hci, hcu, -⟩ := typeChar_exact
  rw [sfCheckArgList, List.any_eq_true]
  refine exists_congr fun p => and_congr_right fun _ => ?_
  rw [if_neg hdouble, if_neg hfloat]
  by_cases hchar : a.typeCode = typeChar
  · simp [hchar, hci, hcu]
  · rcases ht with hint | huint | h
    · rw [if_pos hint, if_neg hchar, decide_eq_true_eq]
      constructor
      · intro h
        rw [← UInt64.toUInt64_toInt64 v, h, UInt64.toUInt64_toInt64]
      · exact fun h => congrArg UInt64.toInt64 h
    · by_cases hint : isIntType a.typeCode = true
      · rw [if_pos hint, if_neg hchar, decide_eq_true_eq]
        constructor
        · intro h
          rw [← UInt64.toUInt64_toInt64 v, h, UInt64.toUInt64_toInt64]
        · exact fun h => congrArg UInt64.toInt64 h
      · rw [if_neg hint, if_pos huint, if_neg hchar, decide_eq_true_eq]
    · exact absurd h hchar

/-- The argument has two limits if it has a range. -/
def RtArg.Ranged (a : RtArg) : Prop :=
  a.ctrlbits &&& parmCheckMask = parmRange → ∃ lo hi, a.plims = [lo, hi]

theorem admits_of_range (hmode : a.ctrlbits &&& parmCheckMask = parmRange)
    (hlims : a.plims = [lo, hi]) : a.Admits v ↔ Between a.typeCode v lo hi := by
  constructor
  · exact fun h => h.1 hmode lo hi hlims
  · intro h
    constructor
    · rintro - lo' hi' hlims'
      rw [hlims] at hlims'
      cases hlims'
      exact h
    · intro hlist
      rw [hmode] at hlist
      exact absurd hlist (by decide)

/-- What `tpb_driver_set_hdl_karg` stores. -/
theorem valueOf_eq_ok_iff (ht : IsExactType a.typeCode) (hr : a.Ranged) :
    a.valueOf F.toDoubles text = .ok v ↔
      v = argNumber a.typeCode text ∧ (a.Guarded → a.Admits v) := by
  rw [RtArg.valueOf.eq_def, parmFromText_exact ht]
  dsimp only
  by_cases hmode : a.ctrlbits &&& parmCheckMask = parmRange
  · obtain ⟨lo, hi, hlims⟩ := hr hmode
    simp only [if_pos hmode, hlims]
    have hguard : a.Guarded ↔ a.typeCode ≠ typeChar := and_iff_right hmode
    rw [hguard, admits_of_range hmode hlims]
    split_ifs with hin
    · rw [parmInRange_exact ht] at hin
      constructor
      · rintro ⟨⟩
        exact ⟨rfl, hin⟩
      · rintro ⟨rfl, -⟩
        rfl
    · rw [parmInRange_exact ht] at hin
      constructor
      · intro h
        cases h
      · rintro ⟨rfl, h⟩
        exact absurd h hin
  · rw [if_neg hmode]
    constructor
    · rintro ⟨⟩
      exact ⟨rfl, fun hguard => absurd hguard.1 hmode⟩
    · rintro ⟨rfl, -⟩
      rfl

/-- What `tpb_check_kargs` stores for a text that is not empty. -/
theorem checkedValue_eq_ok_iff (ht : IsExactType a.typeCode) (hr : a.Ranged) (hne : text ≠ [])
    (hzero : 0 ∉ text) :
    checkedValue F a text = .ok v ↔ v = argNumber a.typeCode text ∧ a.Admits v := by
  have hchar : ¬ (a.typeCode = typeChar ∧ (argNumber a.typeCode text).toUInt8 = 0) := by
    rintro ⟨hchar, hnul⟩
    obtain ⟨hci, hcu, -⟩ := typeChar_exact
    obtain ⟨b, bs, rfl⟩ := List.exists_cons_of_ne_nil hne
    rw [argNumber, hchar, if_neg (by simp [hci]), if_neg (by simp [hcu])] at hnul
    have hb : b = 0 := by simpa using hnul
    exact hzero (by simp [hb])
  rw [checkedValue, parmFromText_exact ht]
  simp only [if_neg hchar]
  by_cases hmode : a.ctrlbits &&& parmCheckMask = parmRange
  · obtain ⟨lo, hi, hlims⟩ := hr hmode
    rw [if_pos hmode, admits_of_range hmode hlims]
    split_ifs with hin
    · rw [sfCheckArgRange_iff ht hlims] at hin
      constructor
      · rintro ⟨⟩
        exact ⟨rfl, hin⟩
      · rintro ⟨rfl, -⟩
        rfl
    · rw [sfCheckArgRange_iff ht hlims] at hin
      constructor
      · intro h
        cases h
      · rintro ⟨rfl, h⟩
        exact absurd h hin
  · rw [if_neg hmode]
    by_cases hlist : a.ctrlbits &&& parmCheckMask = parmList
    · have hadmits : ∀ v, a.Admits v ↔ sfCheckArgList F a v = true := by
        intro v
        rw [sfCheckArgList_iff ht]
        exact ⟨fun h => h.2 hlist, fun h => ⟨fun hm => absurd hm hmode, fun _ => h⟩⟩
      rw [if_pos hlist, hadmits]
      split_ifs with hin
      · constructor
        · rintro ⟨⟩
          exact ⟨rfl, hin⟩
        · rintro ⟨rfl, -⟩
          rfl
      · constructor
        · intro h
          cases h
        · rintro ⟨rfl, h⟩
          exact absurd h hin
    · rw [if_neg hlist]
      constructor
      · rintro ⟨⟩
        exact ⟨rfl, fun hm => absurd hm hmode, fun hm => absurd hm hlist⟩
      · rintro ⟨rfl, -⟩
        rfl

end Values

/-! ### The token of an argument -/

section Token

variable {F : ListFloats} {reg : Registry} {k : Kernel} {a : RtArg} {args : List RtArg}
  {name text : Bytes}

theorem sublist_sfTrimWhitespace (s : Bytes) : (sfTrimWhitespace s).Sublist s := by
  have hfront : (s.dropWhile isspace).Sublist s := List.dropWhile_sublist _
  have hback := (List.dropWhile_sublist (l := (s.dropWhile isspace).reverse) isspace).reverse
  rw [List.reverse_reverse] at hback
  exact hback.trans hfront

/-- A token under the name of an argument carries the text, cut and without blanks around it. -/
theorem tokenText_of_key (hname : name.length ≤ 255) (hkey : tokenKey name text = name) :
    tokenText name text = sfTrimWhitespace (text.take (4094 - name.length)) := by
  have hcut : printedIn cliStrMaxLen (kargToken name text) =
      name ++ 61 :: text.take (4094 - name.length) := by
    rw [printedIn, kargToken, cliStrMaxLen, List.take_append, List.take_of_length_le (by omega)]
    obtain ⟨n, hn⟩ : ∃ n, 4096 - 1 - name.length = n + 1 := ⟨4094 - name.length, by omega⟩
    rw [hn, List.take_succ_cons, show n = 4094 - name.length by omega]
  have hnone : ∀ b ∈ name, b ≠ 61 := by
    by_contra hsome
    push Not at hsome
    obtain ⟨b, hb, rfl⟩ := hsome
    obtain ⟨front, back, hsplit⟩ := List.append_of_mem hb
    -- the name ends in front of its sign of equality
    have hshort : (tokenKey name text).length ≤ front.length := by
      refine (sublist_sfTrimWhitespace _).length_le.trans ?_
      rw [hcut, hsplit, List.append_assoc, List.takeWhile_append]
      split_ifs
      · simp
      · exact (List.takeWhile_sublist _).length_le
    rw [hkey, hsplit, List.length_append, List.length_cons] at hshort
    omega
  rw [tokenText, hcut, List.dropWhile_append_of_pos (by simpa using hnone)]
  simp

theorem strchr_token (hname : name.length ≤ 255) :
    strchr 61 (printedIn cliStrMaxLen (kargToken name text)) =
      some ((printedIn cliStrMaxLen (kargToken name text)).takeWhile (· ≠ 61),
        ((printedIn cliStrMaxLen (kargToken name text)).dropWhile (· ≠ 61)).drop 1) := by
  have hmem : 61 ∈ printedIn cliStrMaxLen (kargToken name text) := by
    rw [printedIn, kargToken, cliStrMaxLen, List.take_append, List.mem_append]
    obtain ⟨n, hn⟩ : ∃ n, 4096 - 1 - name.length = n + 1 := ⟨4094 - name.length, by omega⟩
    rw [hn, List.take_succ_cons]
    exact .inr (by simp)
  exact if_pos hmem

/-- The arguments that are known begin with those of the kernel. -/
theorem find_sfBuildRtParms (commonArgs : List RtArg) (h : args.find? (·.name = name) = some a) :
    (sfBuildRtParms args commonArgs).find? (·.name = name) = some a := by
  induction commonArgs generalizing args with
  | nil => exact h
  | cons c cs ih =>
      rw [sfBuildRtParms, List.foldl_cons]
      refine ih ?_
      split_ifs
      · exact h
      · rw [List.find?_append, h]
        rfl

theorem tpbCheckKargs_single (h : knownArgs reg k ≠ []) (token : Bytes) :
    tpbCheckKargs F reg [] [token] k = applyKargToken F (knownArgs reg k) token := by
  have hnone : sfApplyKargTokens F [] (knownArgs reg k) false = .ok (knownArgs reg k) := if_pos rfl
  rw [tpbCheckKargs, hnone]
  change sfApplyKargTokens F [token] (knownArgs reg k) true = _
  rw [sfApplyKargTokens, if_neg (List.cons_ne_nil _ _), if_neg h, List.foldlM_cons]
  simp

/-- A token is taken apart into its name and its text. -/
theorem applyKargToken_eq (hname : name.length ≤ 255) :
    applyKargToken F args (kargToken name text) =
      if tokenKey name text = [] ∨ tokenText name text = [] then
        .error (.code .argp .kernArgFail)
      else
        match args.find? (·.name = tokenKey name text) with
        | none => .ok args
        | some a =>
            match checkedValue F a (tokenText name text) with
            | .error e => .error e
            | .ok v => .ok (setArgValue (tokenKey name text) v args) := by
  rw [applyKargToken, strchr_token hname]
  rfl

/-- A token for the argument it is named after. -/
theorem applyKargToken_own (ht : IsExactType a.typeCode) (hr : a.Ranged) (hne : a.name ≠ [])
    (hname : a.name.length ≤ 255) (hzero : 0 ∉ text)
    (hfind : args.find? (·.name = a.name) = some a) (hkey : tokenKey a.name text = a.name)
    {as : List RtArg} :
    applyKargToken F args (kargToken a.name text) = .ok as ↔
      tokenText a.name text ≠ [] ∧ a.Admits (argNumber a.typeCode (tokenText a.name text)) ∧
        as = setArgValue a.name (argNumber a.typeCode (tokenText a.name text)) args := by
  have hzero' : 0 ∉ tokenText a.name text := by
    rw [tokenText_of_key hname hkey]
    exact fun h => hzero (List.mem_of_mem_take ((sublist_sfTrimWhitespace _).mem h))
  rw [applyKargToken_eq hname]
  simp only [hkey, hne, hfind, false_or]
  split_ifs with hblank
  · constructor
    · intro h
      cases h
    · rintro ⟨h, -⟩
      exact absurd hblank h
  · have hiff := fun v => checkedValue_eq_ok_iff (F := F) (v := v) ht hr hblank hzero'
    rcases hv : checkedValue F a (tokenText a.name text) with e | v
    · constructor
      · intro h
        cases h
      · rintro ⟨-, hadm, -⟩
        have hok := (hiff _).mpr ⟨rfl, hadm⟩
        rw [hv] at hok
        cases hok
    · obtain ⟨rfl, hadm⟩ := (hiff v).mp hv
      constructor
      · rintro ⟨⟩
        exact ⟨hblank, hadm, rfl⟩
      · rintro ⟨-, -, rfl⟩
        rfl

/-- A token for another argument than it is named after, or for none. -/
theorem applyKargToken_stray (hname : name.length ≤ 255) {as : List RtArg}
    (h : applyKargToken F args (kargToken name text) = .ok as) :
    StrayPasses F args (tokenKey name text) (tokenText name text) ∧
      (tokenKey name text ≠ name → valueIn as name = valueIn args name) := by
  rw [applyKargToken_eq hname] at h
  split_ifs at h with hblank
  rw [not_or] at hblank
  refine ⟨⟨hblank.1, hblank.2, ?_⟩, ?_⟩
  · intro b hb
    simp only [hb] at h
    split at h
    · cases h
    · rename_i v hv
      exact ⟨v, hv⟩
  · intro hother
    split at h
    · cases h
      rfl
    · split at h
      · cases h
      · cases h
        rw [valueIn, find_setArgValue, if_neg (Ne.symm hother), valueIn]

theorem exists_applyKargToken (hname : name.length ≤ 255)
    (h : StrayPasses F args (tokenKey name text) (tokenText name text)) :
    ∃ as, applyKargToken F args (kargToken name text) = .ok as := by
  obtain ⟨hkey, htext, hpass⟩ := h
  rw [applyKargToken_eq hname]
  rw [if_neg (by simp [hkey, htext])]
  rcases hfind : args.find? (·.name = tokenKey name text) with - | b
  · exact ⟨args, by simp only [hfind]⟩
  · obtain ⟨v, hv⟩ := hpass b hfind
    exact ⟨setArgValue (tokenKey name text) v args, by simp only [hfind, hv]⟩

end Token

/-! ### When both agree -/

section Agreement

variable {F : ListFloats} {reg : Registry} {k : Kernel} {a : RtArg} {text : Bytes}

/-- `tpb_driver_set_hdl_karg` on a handle of a kernel. -/
theorem setKarg_exact_iff (ht : IsExactType a.typeCode) (hr : a.Ranged)
    (hfind : k.args.find? (·.name = a.name) = some a) {h h' : Handle} (hof : h.Of k) :
    ((∃ h', h.setKarg F.toDoubles a.name text = .ok h') ↔
        (a.Guarded → a.Admits (argNumber a.typeCode text))) ∧
      (h.setKarg F.toDoubles a.name text = .ok h' →
        h'.arg? a.name = some (argNumber a.typeCode text)) := by
  have hvalue : ∀ v, k.argValue F.toDoubles a.name text = some v ↔
      a.valueOf F.toDoubles text = .ok v := by
    intro v
    rw [Kernel.argValue]
    simp only [hfind]
    rcases a.valueOf F.toDoubles text with e | w
    · simp [Except.toOption]
    · simp [Except.toOption]
  have hok : ∀ v, a.valueOf F.toDoubles text = .ok v ↔
      v = argNumber a.typeCode text ∧ (a.Guarded → a.Admits v) :=
    fun v => valueOf_eq_ok_iff ht hr
  constructor
  · rw [setKarg_ok_iff hof, Option.isSome_iff_exists]
    constructor
    · rintro ⟨v, hv⟩
      obtain ⟨rfl, hadm⟩ := (hok v).mp ((hvalue v).mp hv)
      exact hadm
    · intro hadm
      exact ⟨_, (hvalue _).mpr ((hok _).mpr ⟨rfl, hadm⟩)⟩
  · intro hset
    rw [arg?_setKarg hof hset, if_pos rfl]
    obtain ⟨v, hv⟩ := Option.isSome_iff_exists.mp ((setKarg_ok_iff hof).mp ⟨h', hset⟩)
    obtain ⟨rfl, -⟩ := (hok v).mp ((hvalue v).mp hv)
    exact hv

/-- A value that is rejected leaves the driver as it was. -/
theorem setHdlKarg_error {F : Doubles} {name text : Bytes} {d d' : Driver} {e : Err}
    (h : tpbDriverSetHdlKarg F name text d = .error e d') : d' = d := by
  rw [tpbDriverSetHdlKarg] at h
  split at h
  · cases h
    rfl
  · split at h
    · cases h
      rfl
    · cases h

/-- Both ways agree when they accept the same texts and store the same value for them. -/
theorem setsAlike_iff_of (ht : IsExactType a.typeCode) (hr : a.Ranged)
    (hfind : k.args.find? (·.name = a.name) = some a) {C : Prop} {m : UInt64}
    (haccept : (∃ as, tpbCheckKargs F reg [] [kargToken a.name text] k = .ok as) ↔ C)
    (hstore : ∀ as, tpbCheckKargs F reg [] [kargToken a.name text] k = .ok as →
      valueIn as a.name = some m) :
    SetsAlike F reg k a.name text ↔
      ((a.Guarded → a.Admits (argNumber a.typeCode text)) ↔ C) ∧
        (C → (a.Guarded → a.Admits (argNumber a.typeCode text)) →
          argNumber a.typeCode text = m) := by
  have hset : ∀ h h' : Handle, h.Of k →
      ((∃ h', h.setKarg F.toDoubles a.name text = .ok h') ↔
        (a.Guarded → a.Admits (argNumber a.typeCode text))) ∧
      (h.setKarg F.toDoubles a.name text = .ok h' →
        h'.arg? a.name = some (argNumber a.typeCode text)) :=
    fun h h' hof => setKarg_exact_iff ht hr hfind hof
  constructor
  · intro halike
    have hfirst := halike.accept _ (Handle.of_ofKernel k)
    rw [(hset _ (Handle.ofKernel k) (Handle.of_ofKernel k)).1, haccept] at hfirst
    refine ⟨hfirst, fun hC hS => ?_⟩
    obtain ⟨h', hh'⟩ := (hset _ (Handle.ofKernel k) (Handle.of_ofKernel k)).1.mpr hS
    obtain ⟨as, has⟩ := haccept.mpr hC
    have heq := halike.store _ h' as (Handle.of_ofKernel k) hh' has
    rw [hstore as has, (hset _ h' (Handle.of_ofKernel k)).2 hh'] at heq
    exact Option.some.inj heq
  · rintro ⟨hiff, hsame⟩
    refine ⟨fun h hof => ?_, fun h h' as hof hh' has => ?_, fun d d' e => setHdlKarg_error⟩
    · rw [(hset h h hof).1, haccept]
      exact hiff
    · rw [hstore as has, (hset h h' hof).2 hh']
      exact congrArg some (hsame (haccept.mp ⟨as, has⟩)
        ((hset h h' hof).1.mp ⟨h', hh'⟩))

/-- Agreement, for an argument that a kernel has under its name. -/
theorem setsAlike_iff_readsAlike (ht : IsExactType a.typeCode) (hr : a.Ranged)
    (hne : a.name ≠ []) (hname : a.name.length ≤ 255) (hzero : 0 ∉ text)
    (hfind : k.args.find? (·.name = a.name) = some a) :
    SetsAlike F reg k a.name text ↔ ReadsAlike F (knownArgs reg k) a text := by
  have hknown : (knownArgs reg k).find? (·.name = a.name) = some a := find_sfBuildRtParms _ hfind
  have hargs : knownArgs reg k ≠ [] := by
    intro hnil
    rw [hnil] at hknown
    cases hknown
  have hsingle := tpbCheckKargs_single (F := F) hargs (kargToken a.name text)
  rw [ReadsAlike]
  split_ifs with hkey
  · have hown : ∀ as, applyKargToken F (knownArgs reg k) (kargToken a.name text) = .ok as ↔ _ :=
      fun as => applyKargToken_own ht hr hne hname hzero hknown hkey
    rw [setsAlike_iff_of (C := tokenText a.name text ≠ [] ∧
        a.Admits (argNumber a.typeCode (tokenText a.name text)))
      (m := argNumber a.typeCode (tokenText a.name text)) ht hr hfind]
    · constructor
      · rintro ⟨hiff, hsame⟩
        by_cases hset : a.Guarded → a.Admits (argNumber a.typeCode text)
        · obtain ⟨htext, hadm⟩ := hiff.mp hset
          have heq := hsame ⟨htext, hadm⟩ hset
          exact .inl ⟨htext, heq.symm, heq ▸ hadm⟩
        · obtain ⟨hguard, hout⟩ := Classical.not_imp.mp hset
          refine .inr ⟨hguard, hout, ?_⟩
          by_contra hboth
          rw [not_or, not_not] at hboth
          exact hset (hiff.mpr hboth)
      · rintro (⟨htext, heq, hadm⟩ | ⟨hguard, hout, hrej⟩)
        · rw [heq]
          exact ⟨iff_of_true (fun _ => hadm) ⟨htext, hadm⟩, fun _ _ => rfl⟩
        · have hset : ¬ (a.Guarded → a.Admits (argNumber a.typeCode text)) :=
            fun h => hout (h hguard)
          refine ⟨iff_of_false hset ?_, fun _ h => absurd h hset⟩
          rintro ⟨htext, hadm⟩
          rcases hrej with hrej | hrej
          · exact htext hrej
          · exact hrej hadm
    · rw [hsingle]
      constructor
      · rintro ⟨as, has⟩
        obtain ⟨htext, hadm, -⟩ := (hown as).mp has
        exact ⟨htext, hadm⟩
      · rintro ⟨htext, hadm⟩
        exact ⟨_, (hown _).mpr ⟨htext, hadm, rfl⟩⟩
    · intro as has
      rw [hsingle] at has
      obtain ⟨-, -, rfl⟩ := (hown as).mp has
      rw [valueIn, find_setArgValue, if_pos rfl, hknown]
      rfl
  · rw [setsAlike_iff_of (C := StrayPasses F (knownArgs reg k) (tokenKey a.name text)
        (tokenText a.name text)) (m := a.value) ht hr hfind]
    · constructor
      · rintro ⟨hiff, hsame⟩
        by_cases hset : a.Guarded → a.Admits (argNumber a.typeCode text)
        · have hpass := hiff.mp hset
          exact .inl ⟨hsame hpass hset, hset, hpass⟩
        · obtain ⟨hguard, hout⟩ := Classical.not_imp.mp hset
          exact .inr ⟨hguard, hout, fun hpass => hset (hiff.mpr hpass)⟩
      · rintro (⟨heq, hset, hpass⟩ | ⟨hguard, hout, hrej⟩)
        · exact ⟨iff_of_true hset hpass, fun _ _ => heq⟩
        · have hset : ¬ (a.Guarded → a.Admits (argNumber a.typeCode text)) :=
            fun h => hout (h hguard)
          exact ⟨iff_of_false hset hrej, fun _ h => absurd h hset⟩
    · rw [hsingle]
      constructor
      · rintro ⟨as, has⟩
        exact (applyKargToken_stray hname has).1
      · exact exists_applyKargToken hname
    · intro as has
      rw [hsingle] at has
      rw [(applyKargToken_stray hname has).2 hkey, valueIn, hknown]
      rfl

end Agreement

/-! ### Arguments of registered kernels -/

/-- **When the two checks agree.** For every argument of an integer or a character type that was
registered, without a check, with a range or with a list, and for every text: both ways accept
the text or both reject it, store the same value, and leave the handles alone when they reject
it, exactly when the text is read alike. -/
theorem setsAlike_iff {F : ListFloats} {timer : Timer} {t : List RegCall} {d : PliDriver}
    (hrun : Run (RegStep F.toFloats timer) PliDriver.empty t d) {info : KernelInfo}
    (hinfo : info ∈ d.kernelAll) {k : Kernel} (hk : k.args = info.args.map (·.toRtArg))
    {a : RtArg} (ha : a ∈ k.args) (ht : IsExactType a.typeCode) (reg : Registry) (text : CString) :
    SetsAlike F reg k a.name text.1 ↔ ReadsAlike F (knownArgs reg k) a text.1 := by
  have hsound := (sound_of_run hrun).1 info hinfo
  rw [hk] at ha
  obtain ⟨b, hb, rfl⟩ := List.mem_map.mp ha
  have hvalid := (hsound.arg b hb).name
  simp only [sfValidateHeaderName, decide_eq_true_eq] at hvalid
  have hnodup : (k.args.map (·.name)).Nodup := by
    have hargs := (List.nodup_append.mp hsound.names).1
    rw [hk, List.map_map]
    exact hargs
  have hfind : k.args.find? (·.name = b.name) = some b.toRtArg := by
    have hmem : b.toRtArg ∈ k.args := by
      rw [hk]
      exact ha
    exact Keyed.find_of_nodup hnodup hmem
  exact setsAlike_iff_readsAlike ht (hsound.arg b hb).range hvalid.1 hvalid.2.1 text.2 hfind

/-- The operations of `noFloats`, with lists of floating-point numbers that have no entry. -/
def noListFloats : ListFloats :=
  { noFloats with near := fun _ _ => false, near32 := fun _ _ => false }

/-- An argument that is one of two numbers. -/
def choiceArg : RtArg := ⟨ascii ['n'], 1, typeInt64 ||| parmList, [1, 2]⟩

/-- The kernel of that argument, and the calls that register it. -/
def choiceKernel : Kernel := ⟨ascii ['k'], true, true, [choiceArg], k_lt⟩

def choiceCalls : List RegCall :=
  [.register (ascii ['k']) [] 2,
    .addArg (ascii ['n']) [] [] (ascii ['1']) (typeInt64 ||| parmList) [1, 2], .finalizePli]

/-- The kernels of a process with that kernel. -/
def choiceRegistry : Registry := ⟨⟨commonName, false, true, [], by decide⟩, [choiceKernel]⟩

/-- The kernel is registered with its argument. -/
theorem exists_choiceKernel :
    ∃ d info, Run (RegStep noFloats nsTimer) PliDriver.empty choiceCalls d ∧
      info ∈ d.kernelAll ∧ choiceKernel.args = info.args.map (·.toRtArg) := by
  have hargs : (driverAfter noFloats nsTimer choiceCalls PliDriver.empty).map
      (fun d => d.kernelAll.map fun k => k.args.map (·.toRtArg)) = some [[choiceArg]] := by
    decide +kernel
  obtain ⟨d, hd, hall⟩ := Option.map_eq_some_iff.mp hargs
  obtain ⟨info, rest, hinfo, hone, -⟩ := List.map_eq_cons_iff.mp hall
  exact ⟨d, info, run_of_driverAfter hd, by simp [hinfo], hone.symm⟩

/-- A number that is not in the list is taken by one of the two only. -/
theorem choice_not_alike :
    ¬ SetsAlike noListFloats choiceRegistry choiceKernel choiceArg.name (ascii ['3']) := by
  have ht : IsExactType choiceArg.typeCode := .inl (by decide)
  rw [setsAlike_iff_readsAlike ht (fun h => absurd h (by decide)) (by decide) (by decide)
    (by decide) (by decide), ReadsAlike, if_pos (by decide)]
  rintro (⟨-, -, -, hlist⟩ | ⟨hguard, -⟩)
  · obtain ⟨p, hp, heq⟩ := hlist (by decide)
    rw [if_neg (by decide)] at heq
    rcases List.mem_cons.mp hp with rfl | hp
    · exact absurd heq (by decide)
    · rw [List.mem_singleton.mp hp] at heq
      exact absurd heq (by decide)
  · exact absurd hguard.1 (by decide)

/-- A number of the list. -/
theorem choice_alike_iff :
    SetsAlike noListFloats choiceRegistry choiceKernel choiceArg.name (ascii ['2']) ↔
      ReadsAlike noListFloats (knownArgs choiceRegistry choiceKernel) choiceArg (ascii ['2']) := by
  obtain ⟨d, info, hrun, hinfo, hargs⟩ := exists_choiceKernel
  exact setsAlike_iff hrun hinfo hargs (List.mem_singleton.mpr rfl) (.inl (by decide))
    choiceRegistry ⟨ascii ['2'], by decide⟩

end TPBench
