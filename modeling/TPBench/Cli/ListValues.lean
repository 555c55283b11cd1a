import TPBench.CFile.Double
import TPBench.Cli.SweepDims

/-!
# Integers in an Explicit List

The elements of a list `--kargs-dim name=[e1,...,en]` are kept as texts and as numbers of type
`double`. When one of them is no number, the texts are used. Otherwise `apply_dim_value` prints
the number again, as an integer if it is one and with `%.15g` if not, and
`tpb_driver_set_hdl_karg` reads an integer from the front of what was printed.

An integer argument therefore gets the value of the element itself exactly when one element of the
list is no number, or the `double` nearest to the element begins with the integer the element
begins with (`dimKarg_eq_setKarg_iff`).

## Main definitions

* `Doubles.Converts`: the conversions of the C language and `%.15g`, at one `double`.
* `ListAgrees`: the condition on an element and its list.
-/

open CFile

namespace TPBench

/-! ### Conversions -/

/-- The conversions of a `double` do what the C language says: to `int64_t` it is truncated, where
that fits, a whole number is the one that is converted back, and `%.15g` prints 15 significant
digits. -/
structure Doubles.Converts (F : Doubles) (d : UInt64) : Prop where
  toI64 : F.toI64 d = (doubleValue d).bind fun q =>
    if -2 ^ 63 ≤ truncate q ∧ truncate q < 2 ^ 63 then some (truncate q) else none
  eq_ofI64 : ∀ i, F.toI64 d = some i → (F.eq d (F.ofI64 i) = true ↔ doubleValue d = some (i : ℚ))
  printG15 : ∀ q, doubleValue d = some q → q ≠ 0 → F.printG15 d = formatG15 q

/-- The eight bytes an integer type reads from a text. -/
def readInteger (t : UInt32) (text : Bytes) : UInt64 :=
  if isIntType t then (Int64.ofInt (strtoll text)).toUInt64 else strtoull text

/-- The check of `tpb_driver_set_hdl_karg` on a value. -/
def RtArg.allows (F : Doubles) (a : RtArg) (v : UInt64) : Bool :=
  if a.ctrlbits &&& parmCheckMask = parmRange then
    match a.plims with
    | [lo, hi] => parmInRange F a.typeCode v lo hi
    | _ => true
  else true

/-- An argument of an integer type. -/
def RtArg.IsInteger (a : RtArg) : Prop := isIntType a.typeCode ∨ isUintType a.typeCode

section Read

variable {F : Doubles} {a : RtArg} {text text' : Bytes}

theorem parmFromText_of_isInteger (ha : a.IsInteger) (text : Bytes) :
    parmFromText F a.typeCode text = some (readInteger a.typeCode text) := by
  have hfloat : ¬(a.typeCode = typeFloat ∨ isDoubleType a.typeCode) := by
    rintro (h | h)
    · rw [RtArg.IsInteger, h] at ha
      exact absurd ha (by decide)
    · simp only [isDoubleType, decide_eq_true_eq] at h
      rcases h with h | h
      · rw [RtArg.IsInteger, h] at ha
        exact absurd ha (by decide)
      · rw [RtArg.IsInteger, h] at ha
        exact absurd ha (by decide)
  rw [parmFromText, if_neg hfloat, readInteger]
  by_cases hint : isIntType a.typeCode = true
  · rw [if_pos hint, if_pos hint]
  · rw [if_neg hint, if_pos (ha.resolve_left hint), if_neg hint]

/-- What an integer argument stores for a text. -/
theorem valueOf_of_isInteger (ha : a.IsInteger) (text : Bytes) :
    a.valueOf F text =
      if a.allows F (readInteger a.typeCode text) then .ok (readInteger a.typeCode text)
      else .error (.code .driver .kernArgFail) := by
  rw [RtArg.valueOf.eq_def, parmFromText_of_isInteger ha, RtArg.allows]
  by_cases hcheck : a.ctrlbits &&& parmCheckMask = parmRange
  · simp only [hcheck, if_true]
    rcases a.plims with - | ⟨lo, - | ⟨hi, - | ⟨p, ps⟩⟩⟩
    · rfl
    · rfl
    · rfl
    · rfl
  · simp only [hcheck, if_false, if_true]

/-- The bytes of an integer do not depend on the type it is read for. -/
theorem readInteger_of_signedDigits {t : UInt32} {sign i : ℤ} {n : ℕ}
    (hread : signedDigits text = (sign, n)) (hsign : sign = 1 ∨ sign = -1) (hi : i = sign * n)
    (hlo : -2 ^ 63 ≤ i) (hhi : i < 2 ^ 63) :
    readInteger t text = (Int64.ofInt i).toUInt64 := by
  rw [readInteger]
  split_ifs with hint
  · have hclamp : strtoll text = i := by
      rw [strtoll, hread]
      simp only [← hi]
      omega
    rw [hclamp]
  · have hn : ¬18446744073709551615 < n := by
      rcases hsign with rfl | rfl
      · omega
      · omega
    rw [strtoull, hread]
    simp only [hn, if_false]
    rcases hsign with rfl | rfl
    · rw [if_neg (by omega), hi, Int.one_mul, Int64.ofInt_eq_ofNat]
      exact UInt64.toBitVec_inj.mp (by simp)
    · rw [if_pos (by omega), hi]
      have hneg : (-1 * n : ℤ) = -(n : ℤ) := by omega
      rw [hneg, ← Int64.neg_ofInt, Int64.ofInt_eq_ofNat]
      exact UInt64.toBitVec_inj.mp (by simp)

theorem dropWhile_isspace_of_digit {b : UInt8} (hb : isdigit b = true) (bs : Bytes) :
    (b :: bs).dropWhile isspace = b :: bs :=
  List.dropWhile_cons_of_neg (by simp [not_isspace_of_isdigit hb])

/-- What is read from a printed integer. -/
theorem signedDigits_formatInt (i : ℤ) :
    signedDigits (formatInt i) = (if i < 0 then -1 else 1, i.natAbs) := by
  obtain ⟨b, bs, hbs⟩ := List.exists_cons_of_ne_nil (formatD_ne_nil i.natAbs)
  have hall : ∀ c ∈ formatD i.natAbs, isdigit c = true := fun c => isdigit_of_mem_formatD
  have hb : isdigit b = true := hall b (by simp [hbs])
  have htake : (formatD i.natAbs).takeWhile isdigit = formatD i.natAbs :=
    List.takeWhile_eq_self_iff.mpr hall
  rw [formatInt]
  split_ifs with hi
  · rw [signedDigits, List.dropWhile_cons_of_neg (by decide), splitSign]
    simp only [htake, digitsNat_formatD]
  · have hspace : (formatD i.natAbs).dropWhile isspace = formatD i.natAbs := by
      rw [hbs, dropWhile_isspace_of_digit hb]
    have hsign : splitSign (formatD i.natAbs) = (1, formatD i.natAbs) := by
      rw [hbs, splitSign_of_isdigit hb]
    rw [signedDigits, hspace, hsign]
    simp only [htake, digitsNat_formatD]

/-- What is read from a number printed with 15 significant digits. -/
theorem signedDigits_formatG15 (q : ℚ) :
    signedDigits (formatG15 q) =
      if q < 0 then (-1, leadNat (-q)) else (1, leadNat q) := by
  have hspace : (formatG15 q).dropWhile isspace = formatG15 q := by
    rw [formatG15]
    split_ifs
    · exact List.dropWhile_cons_of_neg (by decide)
    · obtain ⟨b, bs, hbs, hb⟩ := exists_formatMag15 q
      rw [hbs, dropWhile_isspace_of_digit hb]
  rw [signedDigits, hspace, splitSign_formatG15]
  split_ifs
  · simp only [digitsNat_front_formatMag15]
  · simp only [digitsNat_front_formatMag15]

/-- **What is read from a `double` that was printed**: the integer its text begins with. -/
theorem readInteger_doubleText {d : UInt64} {q : ℚ} (hconv : F.Converts d)
    (hq : doubleValue d = some q) (hlo : -2 ^ 63 ≤ truncate q) (hhi : truncate q < 2 ^ 63)
    (t : UInt32) :
    ∃ text, doubleText F d = .ok text ∧
      readInteger t text = (Int64.ofInt (leadInt q)).toUInt64 := by
  have hi64 : F.toI64 d = some (truncate q) := by
    rw [hconv.toI64, hq, Option.bind_some, if_pos ⟨hlo, hhi⟩]
  have heq := hconv.eq_ofI64 _ hi64
  rw [hq] at heq
  rw [doubleText, hi64]
  simp only
  by_cases hwhole : q.den = 1
  · have hnum : (q.num : ℚ) = q := (Rat.den_eq_one_iff q).mp hwhole
    have htrunc : truncate q = q.num := by
      conv_lhs => rw [← hnum]
      exact truncate_intCast _
    rw [htrunc] at hlo hhi heq ⊢
    rw [if_pos (heq.mpr (by rw [hnum]))]
    refine ⟨_, rfl, ?_⟩
    rw [leadInt, if_pos hwhole]
    refine readInteger_of_signedDigits (signedDigits_formatInt _) ?_ ?_ hlo hhi
    · split_ifs
      · exact .inr rfl
      · exact .inl rfl
    · split_ifs
      · omega
      · omega
  · have hne : ¬F.eq d (F.ofI64 (truncate q)) = true := by
      rw [heq]
      intro hsame
      refine hwhole ?_
      rw [Option.some.inj hsame]
      exact Rat.den_intCast _
    have hzero : q ≠ 0 := by
      rintro rfl
      exact hwhole rfl
    rw [if_neg hne]
    refine ⟨_, rfl, ?_⟩
    rw [hconv.printG15 q hq hzero, leadInt, if_neg hwhole]
    have hread := signedDigits_formatG15 q
    have hlt := leadNat_lt q
    have hlt' := leadNat_lt (-q)
    split_ifs at hread ⊢
    · exact readInteger_of_signedDigits hread (.inr rfl) (by omega) (by omega) (by omega)
    · exact readInteger_of_signedDigits hread (.inl rfl) (by omega) (by omega) (by omega)

end Read

/-! ### Elements of a list -/

/-- The condition on an element of a list, for an argument of an integer type: an element of the
list is no number, or the `double` of the element fits `int64_t` and begins with the integer the
element begins with, or the argument takes neither of the two. -/
def ListAgrees (F : Doubles) (a : RtArg) (strs : List Bytes) (e : Bytes) : Prop :=
  (∃ s ∈ strs, isNumericString F s = false) ∨
    ∃ q, doubleValue (F.strtod e).1 = some q ∧ -2 ^ 63 ≤ truncate q ∧ truncate q < 2 ^ 63 ∧
      ((Int64.ofInt (leadInt q)).toUInt64 = readInteger a.typeCode e ∨
        a.allows F (Int64.ofInt (leadInt q)).toUInt64 = false ∧
          a.allows F (readInteger a.typeCode e) = false)

section Elements

variable {F : Doubles} {k : Kernel} {a : RtArg} {h : Handle} {name text text' : Bytes}

/-- Two texts leave a handle alike when the argument stores the same for them. -/
theorem setKarg_eq_iff (hof : h.Of k) (ha : k.args.find? (·.name = name) = some a) :
    h.setKarg F name text = h.setKarg F name text' ↔ a.valueOf F text = a.valueOf F text' := by
  have hset : ∀ t, h.setKarg F name t =
      (a.valueOf F t).map fun v => { h with args := setArgValue name v h.args } := by
    intro t
    rw [hof.setKarg_eq, ha]
    dsimp only
    rcases a.valueOf F t with e | v <;> rfl
  constructor
  · intro heq
    rcases hv : a.valueOf F text with e | v
    · rw [hset, hset, hv] at heq
      rcases hv' : a.valueOf F text' with e' | v'
      · rw [hv'] at heq
        exact congrArg _ (Except.error.inj heq)
      · rw [hv'] at heq
        cases heq
    · have hok : h.setKarg F name text = .ok { h with args := setArgValue name v h.args } := by
        rw [hset, hv, Except.map]
      have harg := arg?_setKarg hof hok name
      have harg' := arg?_setKarg hof (heq ▸ hok) name
      rw [harg, if_pos rfl, if_pos rfl, Kernel.argValue, Kernel.argValue, ha] at harg'
      simp only [hv, Except.toOption] at harg'
      rcases hv' : a.valueOf F text' with e' | v'
      · rw [hv'] at harg'
        cases harg'
      · rw [hv'] at harg'
        rw [Option.some.inj harg']
  · intro heq
    rw [hset, hset, heq]

/-- Two texts are stored alike by an integer argument when they stand for the same integer, or it
takes neither. -/
theorem valueOf_eq_iff (ha : a.IsInteger) :
    a.valueOf F text = a.valueOf F text' ↔
      readInteger a.typeCode text = readInteger a.typeCode text' ∨
        a.allows F (readInteger a.typeCode text) = false ∧
          a.allows F (readInteger a.typeCode text') = false := by
  rw [valueOf_of_isInteger ha, valueOf_of_isInteger ha]
  split_ifs with h₁ h₂ h₂
  · simp [h₁]
  · simp [h₁]
    intro heq
    rw [heq] at h₁
    exact absurd h₁ h₂
  · simp [h₂]
    intro heq
    rw [heq] at h₁
    exact absurd h₂ h₁
  · simp [h₁, h₂]

theorem tpbArgpParseDimRecur_ne_list {spec : Bytes} {strs : List Bytes} {values : List UInt64}
    {isString : Bool} : tpbArgpParseDimRecur F spec ≠ .ok (.list strs values isString) := by
  have hrecur : ∀ op x st min max nlim,
      recurSpec F op x st min max nlim ≠ .ok (.list strs values isString) := by
    intro op x st min max nlim h
    rw [recurSpec] at h
    split_ifs at h
    · cases h
    · cases h
    · cases h
  intro h
  obtain ⟨p, -, h⟩ := except_bind_eq_ok.mp h
  split at h
  · cases h
  · obtain ⟨op, -, h⟩ := except_bind_eq_ok.mp h
    obtain ⟨first, -, h⟩ := except_bind_eq_ok.mp h
    obtain ⟨operands, -, h⟩ := except_bind_eq_ok.mp h
    split at h
    · cases h
    · split at h
      · obtain ⟨params, -, h⟩ := except_bind_eq_ok.mp h
        split at h
        · exact hrecur _ _ _ _ _ _ h
        · cases h
      · cases h

/-- What is kept of a list: beside each text the number it stands for, and whether one of the
texts is no number. -/
theorem list_of_parse {argstr : Bytes} {cfg : DimConfig} {strs : List Bytes}
    {values : List UInt64} {isString : Bool} (hparse : tpbArgpParseDim F argstr = .ok cfg)
    (hspec : cfg.spec = .list strs values isString) :
    values = strs.map (fun s => (F.strtod s).1) ∧
      isString = strs.any (fun s => !isNumericString F s) ∧
      cfg.parmName.length < nameStrMaxLen := by
  obtain ⟨p, -, hrest⟩ := except_bind_eq_ok.mp hparse
  split_ifs at hrest
  · cases hrest
  · obtain ⟨spec, hdim, hcfg⟩ := except_bind_eq_ok.mp hrest
    obtain rfl := Except.ok.inj hcfg
    obtain rfl : spec = .list strs values isString := hspec
    have hlist : ∀ inner, listSpec F inner = .ok (.list strs values isString) →
        values = strs.map (fun s => (F.strtod s).1) ∧
          isString = strs.any (fun s => !isNumericString F s) := by
      intro inner hinner
      rw [listSpec] at hinner
      split_ifs at hinner
      · cases hinner
      · cases hinner
        exact ⟨rfl, rfl⟩
    rw [dimSpecOf.eq_def] at hdim
    split at hdim
    · rw [tpbArgpParseList] at hdim
      split at hdim
      · obtain ⟨r, -, hinner⟩ := except_bind_eq_ok.mp hdim
        obtain ⟨hvalues, hstring⟩ := hlist _ hinner
        exact ⟨hvalues, hstring, length_printedIn_lt (by decide) _⟩
      · cases hdim
    · split_ifs at hdim
      · exact absurd hdim tpbArgpParseDimRecur_ne_list
      · cases hdim
    · cases hdim

/-- **An element of a list**: setting it is the same as setting its text exactly under the
condition. -/
theorem dimKarg_eq_setKarg_iff {argstr : Bytes} {cfg : DimConfig} {strs : List Bytes}
    {values : List UInt64} {isString : Bool}
    (hparse : tpbArgpParseDim F argstr = .ok cfg) (hspec : cfg.spec = .list strs values isString)
    (ha : k.args.find? (·.name = cfg.parmName) = some a) (hint : a.IsInteger) (i : ℕ)
    (hi : i < strs.length) (hconv : F.Converts (F.strtod strs[i]).1) (hof : h.Of k) :
    dimKarg F (tpbDimGenerateValues F cfg) i h = h.setKarg F cfg.parmName strs[i] ↔
      ListAgrees F a strs strs[i] := by
  obtain ⟨hvalues, hstring, hname⟩ := list_of_parse hparse hspec
  have hvals : tpbDimGenerateValues F cfg = ⟨cfg.parmName, some strs, values, isString⟩ := by
    rw [tpbDimGenerateValues, hspec, printedIn_of_lt hname]
  have hvalue : values[i]? = some (F.strtod strs[i]).1 := by
    rw [hvalues, List.getElem?_map, List.getElem?_eq_getElem hi]
    rfl
  rw [hvals, dimKarg, ListAgrees]
  by_cases hany : isString = true
  · have htext : DimValues.text F ⟨cfg.parmName, some strs, values, isString⟩ i =
        .ok strs[i] := by
      rw [DimValues.text, hvalue, hany]
      simp [hi]
    have hword : ∃ s ∈ strs, isNumericString F s = false := by
      rw [hstring, List.any_eq_true] at hany
      obtain ⟨s, hs, hno⟩ := hany
      exact ⟨s, hs, by simpa using hno⟩
    rw [htext]
    exact iff_of_true rfl (.inl hword)
  · have hno : isString = false := by simpa using hany
    have htext : DimValues.text F ⟨cfg.parmName, some strs, values, isString⟩ i =
        doubleText F (F.strtod strs[i]).1 := by
      rw [DimValues.text, hvalue, hno]
    have hnumbers : ¬∃ s ∈ strs, isNumericString F s = false := by
      rintro ⟨s, hs, hs'⟩
      rw [hno] at hstring
      have hall := List.any_eq_false.mp hstring.symm s hs
      rw [hs'] at hall
      exact hall rfl
    rw [htext, or_iff_right hnumbers]
    by_cases hrange : ∃ q, doubleValue (F.strtod strs[i]).1 = some q ∧ -2 ^ 63 ≤ truncate q ∧
        truncate q < 2 ^ 63
    · obtain ⟨q, hq, hlo, hhi⟩ := hrange
      obtain ⟨text, hprint, hread⟩ := readInteger_doubleText hconv hq hlo hhi a.typeCode
      rw [hprint]
      simp only
      rw [setKarg_eq_iff hof ha, valueOf_eq_iff hint, hread]
      constructor
      · exact fun hsame => ⟨q, hq, hlo, hhi, hsame⟩
      · rintro ⟨q', hq', -, -, hsame⟩
        obtain rfl : q = q' := Option.some.inj (hq.symm.trans hq')
        exact hsame
    · have hnone : F.toI64 (F.strtod strs[i]).1 = none := by
        rw [hconv.toI64]
        rcases hq : doubleValue (F.strtod strs[i]).1 with - | q
        · rfl
        · rw [Option.bind_some, if_neg fun hin => hrange ⟨q, hq, hin⟩]
      rw [doubleText, hnone]
      -- the conversion to `int64_t` is undefined, and a call of the setter never is
      constructor
      · intro hsame
        rw [hof.setKarg_eq, ha] at hsame
        simp only [valueOf_of_isInteger hint] at hsame
        by_cases hallow : a.allows F (readInteger a.typeCode strs[i]) = true
        · simp only [hallow, if_true] at hsame
          cases hsame
        · simp only [hallow] at hsame
          cases hsame
      · rintro ⟨q, hq, hlo, hhi, -⟩
        exact absurd ⟨q, hq, hlo, hhi⟩ hrange

end Elements

/-! ### Numbers a double has, and has not -/

/-- The arithmetic of a machine on one text, with the integer it is read as. -/
def oneNumber (text : Bytes) (d : UInt64) (i : ℤ) : Doubles where
  strtod s := if s = text then (d, []) else (0, s)
  lt a b := a < b
  lt32 a b := a < b
  eq a b := a = b
  add a _ := a
  sub a _ := a
  mul a _ := a
  div a _ := a
  pow a _ := a
  toI64 v := if v = d then some i else none
  ofI64 j := if j = i then d else 0
  printG15 v := formatG15 ((doubleValue v).getD 0)

theorem oneNumber_converts {text : Bytes} {d : UInt64} {i : ℤ}
    (hd : doubleValue d = some (i : ℚ)) (hlo : -2 ^ 63 ≤ i) (hhi : i < 2 ^ 63) :
    (oneNumber text d i).Converts d := by
  have htoI64 : (oneNumber text d i).toI64 d = some i := if_pos rfl
  constructor
  · rw [htoI64, hd, Option.bind_some, truncate_intCast, if_pos ⟨hlo, hhi⟩]
  · intro j hj
    obtain rfl : i = j := Option.some.inj (htoI64.symm.trans hj)
    have heq : (oneNumber text d i).eq d ((oneNumber text d i).ofI64 i) = true := by
      simp [oneNumber]
    exact iff_of_true heq hd
  · intro q hq _
    change formatG15 ((doubleValue d).getD 0) = formatG15 q
    rw [hq]
    rfl

/-- A kernel `k` with an argument `n` of type `int64_t`. -/
def int64Kernel : Kernel :=
  ⟨ascii ['k'], true, true, [⟨ascii ['n'], 0, 0x0000083a, []⟩], k_lt⟩

/-- `9007199254740993`, which no `double` has. -/
def bigText : Bytes :=
  ascii "9007199254740993".toList

/-- A machine that reads it as the nearest `double`. -/
def bigNumber : Doubles := oneNumber bigText 0x4340000000000000 9007199254740992

theorem bigNumber_converts : bigNumber.Converts (bigNumber.strtod bigText).1 := by
  have hread : (bigNumber.strtod bigText).1 = 0x4340000000000000 := by decide
  rw [hread]
  exact oneNumber_converts (by decide +kernel) (by decide) (by decide)

/-- `n=[9007199254740993]`. -/
def bigList : Bytes := ascii ['n', '=', '['] ++ bigText ++ ascii [']']

/-- The list stores 9007199254740992, and the element alone 9007199254740993. -/
theorem bigList_differs :
    ∃ cfg, tpbArgpParseDim bigNumber bigList = .ok cfg ∧
      cfg.spec = .list [bigText] [0x4340000000000000] false ∧
      bigNumber.Converts (bigNumber.strtod bigText).1 ∧
      ((dimKarg bigNumber (tpbDimGenerateValues bigNumber cfg) 0
        (.ofKernel int64Kernel)).toOption.bind (·.arg? cfg.parmName)) = some 9007199254740992 ∧
      (((Handle.ofKernel int64Kernel).setKarg bigNumber cfg.parmName
        bigText).toOption.bind (·.arg? cfg.parmName)) = some 9007199254740993 ∧
      dimKarg bigNumber (tpbDimGenerateValues bigNumber cfg) 0 (.ofKernel int64Kernel) ≠
        (Handle.ofKernel int64Kernel).setKarg bigNumber cfg.parmName bigText := by
  have hrun : ∃ cfg ∈ (tpbArgpParseDim bigNumber bigList).toOption,
      cfg.spec = .list [bigText] [0x4340000000000000] false ∧
      ((dimKarg bigNumber (tpbDimGenerateValues bigNumber cfg) 0
        (.ofKernel int64Kernel)).toOption.bind (·.arg? cfg.parmName)) = some 9007199254740992 ∧
      (((Handle.ofKernel int64Kernel).setKarg bigNumber cfg.parmName
        bigText).toOption.bind (·.arg? cfg.parmName)) = some 9007199254740993 := by
    decide +kernel
  obtain ⟨cfg, hparse, hspec, hlist, halone⟩ := hrun
  refine ⟨cfg, eq_ok_of_mem_toOption hparse, hspec, bigNumber_converts, hlist, halone,
    fun heq => ?_⟩
  rw [heq, halone] at hlist
  cases hlist

/-- A machine that reads `2`. -/
def twoNumber : Doubles := oneNumber (ascii ['2']) 0x4000000000000000 2

/-- `n=[2,2]`. -/
def twoList : Bytes := ascii "n=[2,2]".toList

/-- The second element of the list stores what it does alone. -/
theorem twoList_same :
    ∃ cfg, tpbArgpParseDim twoNumber twoList = .ok cfg ∧
      dimKarg twoNumber (tpbDimGenerateValues twoNumber cfg) 1 (.ofKernel int64Kernel) =
        (Handle.ofKernel int64Kernel).setKarg twoNumber cfg.parmName (ascii ['2']) ∧
      ((Handle.ofKernel int64Kernel).setKarg twoNumber cfg.parmName
        (ascii ['2'])).toOption.bind (·.arg? cfg.parmName) = some 2 := by
  have hrun : ∃ cfg ∈ (tpbArgpParseDim twoNumber twoList).toOption,
      cfg.spec = .list [ascii ['2'], ascii ['2']] [0x4000000000000000, 0x4000000000000000]
        false ∧
      cfg.parmName = ascii ['n'] ∧
      ((Handle.ofKernel int64Kernel).setKarg twoNumber cfg.parmName
        (ascii ['2'])).toOption.bind (·.arg? cfg.parmName) = some 2 := by
    decide +kernel
  obtain ⟨cfg, hparse, hspec, hname, hstored⟩ := hrun
  have hparse' := eq_ok_of_mem_toOption hparse
  have hvalue : doubleValue 0x4000000000000000 = some ((2 : ℤ) : ℚ) := by decide +kernel
  have hread : (twoNumber.strtod (ascii ['2'])).1 = 0x4000000000000000 := by decide
  have hfind : int64Kernel.args.find? (·.name = cfg.parmName) =
      some ⟨ascii ['n'], 0, 0x0000083a, []⟩ := by
    rw [hname]
    decide
  refine ⟨cfg, hparse', (dimKarg_eq_setKarg_iff hparse' hspec hfind (.inl (by decide)) 1 (by simp)
    ?_ (Handle.of_ofKernel _)).mpr (.inr ⟨(2 : ℤ), ?_, ?_, ?_, .inl ?_⟩), hstored⟩
  · exact hread ▸ oneNumber_converts hvalue (by decide) (by decide)
  · exact (congrArg doubleValue hread).trans hvalue
  · rw [truncate_intCast]
    decide
  · rw [truncate_intCast]
    decide
  · decide +kernel

end TPBench
