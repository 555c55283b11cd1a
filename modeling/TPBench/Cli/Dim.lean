import TPBench.Cli.Driver
import TPBench.CFile.Segments

/-!
# Dimensions of a Sweep

The value of `--kargs-dim` and of `--kenvs-dim` names a parameter and the values it runs
through (`tpbcli-run-dim.c`): an explicit list `name=[a, b, c]`, or a recursive sequence
`name=op(@,x)(st,min,max,nlim)` that starts at `st` and applies an operation until it
leaves its bounds. A list keeps the texts of its elements, and beside them the numbers the
texts stand for; the texts are used when one of them is not a number.

## Main results

* `values_ne_nil`: a dimension that was parsed has a value.
-/

open CFile

namespace TPBench

/-! ### Texts -/

/-- `trim_whitespace_dim`. -/
def trimWhitespaceDim (s : Bytes) : Bytes :=
  ((s.dropWhile isspace).reverse.dropWhile isspace).reverse

/-- `strchr`: what stands in front of the first occurrence of a character, and behind it. -/
def strchr (c : UInt8) (s : Bytes) : Option (Bytes × Bytes) :=
  if c ∈ s then some (s.takeWhile (· ≠ c), (s.dropWhile (· ≠ c)).drop 1) else none

/-- `find_matching_bracket` at a nesting depth: what stands in front of the bracket that
closes, and behind it. -/
def findMatchingBracket (openCh closeCh : UInt8) : ℕ → Bytes → Option (Bytes × Bytes)
  | _, [] => none
  | depth, b :: bs =>
      let depth' := if b = openCh then depth + 1 else if b = closeCh then depth - 1 else depth
      if depth' = 0 then some ([], bs)
      else (findMatchingBracket openCh closeCh depth' bs).map fun r => (b :: r.1, r.2)

/-- `is_numeric_string`. -/
def isNumericString (F : Doubles) (s : Bytes) : Bool :=
  s ≠ [] ∧ (F.strtod s).2.dropWhile isspace = []

/-! ### Configurations -/

/-- `tpb_dim_op_t`. -/
inductive DimOp
  | add
  | sub
  | mul
  | div
  | pow
  deriving DecidableEq, Repr

/-- The sequence of a dimension, with the parameters of its type. -/
inductive DimSpec
  | list (strValues : List Bytes) (values : List UInt64) (isString : Bool)
  | recur (op : DimOp) (x st min max : UInt64) (nlim : Int32)
  deriving DecidableEq, Repr

/-- `tpb_dim_config_t`. -/
structure DimConfig where
  parmName : Bytes
  spec : DimSpec
  deriving DecidableEq, Repr

/-- `tpb_dim_values_t`: the texts of the values are there for a list only. -/
structure DimValues where
  parmName : Bytes
  strValues : Option (List Bytes)
  values : List UInt64
  isString : Bool
  deriving DecidableEq, Repr

/-- The error of a specification that cannot be read. -/
def dimFail {α : Type} : Except Err α := .error (.code .cliRun .cliFail)

/-- A part of a specification that has to be there. -/
def orDimFail {α : Type} : Option α → Except Err α
  | some a => .ok a
  | none => dimFail

/-- The elements of a list: one that is not a number makes a list of texts. -/
def listSpec (F : Doubles) (strVals : List Bytes) : Except Err DimSpec :=
  if strVals = [] then dimFail
  else
    .ok (.list strVals (strVals.map fun s => (F.strtod s).1)
      (strVals.any fun s => !isNumericString F s))

/-- `tpb_argp_parse_list`. -/
def tpbArgpParseList (F : Doubles) (spec : Bytes) : Except Err DimSpec :=
  match trimWhitespaceDim (printedIn cliStrMaxLen spec) with
  | 91 :: p => do
      let r ← orDimFail (findMatchingBracket 91 93 1 p)
      listSpec F ((segments 44 r.1).map trimWhitespaceDim)
  | _ => dimFail

/-- The operator of a recursive sequence. -/
def dimOpOfName (s : Bytes) : Option DimOp :=
  if s = ascii ['a', 'd', 'd'] then some .add
  else if s = ascii ['s', 'u', 'b'] then some .sub
  else if s = ascii ['m', 'u', 'l'] then some .mul
  else if s = ascii ['d', 'i', 'v'] then some .div
  else if s = ascii ['p', 'o', 'w'] then some .pow
  else none

/-- The range of a recursive sequence: the start value has to lie between the bounds. -/
def recurSpec (F : Doubles) (op : DimOp) (x st min max : UInt64) (nlim : Int32) :
    Except Err DimSpec :=
  if F.lt max min then dimFail
  else if F.lt st min || F.lt max st then dimFail
  else .ok (.recur op x st min max nlim)

/-- `tpb_argp_parse_dim_recur`. -/
def tpbArgpParseDimRecur (F : Doubles) (spec : Bytes) : Except Err DimSpec := do
  let p ← orDimFail (strchr 40 (trimWhitespaceDim (printedIn cliStrMaxLen spec)))
  if 16 ≤ p.1.length then dimFail
  else do
    let op ← orDimFail (dimOpOfName p.1)
    let first ← orDimFail (findMatchingBracket 40 41 1 p.2)
    let operands ← orDimFail (strchr 44 first.1)
    if trimWhitespaceDim operands.1 ≠ [64] then dimFail
    else do
      let x := (F.strtod (trimWhitespaceDim operands.2)).1
      match trimWhitespaceDim first.2 with
      | 40 :: q => do
          let params ← orDimFail (findMatchingBracket 40 41 1 q)
          match (segments 44 params.1).map trimWhitespaceDim with
          | st :: min :: max :: nlim :: _ =>
              recurSpec F op x (F.strtod st).1 (F.strtod min).1 (F.strtod max).1
                (Int32.ofInt (strtoll nlim))
          | _ => dimFail
      | _ => dimFail

/-- The sequence that is told apart by its first character. -/
def dimSpecOf (F : Doubles) (spec : Bytes) : Except Err DimSpec :=
  match spec with
  | 91 :: _ => tpbArgpParseList F spec
  | b :: _ => if isalpha b then tpbArgpParseDimRecur F spec else dimFail
  | [] => dimFail

/-- `tpb_argp_parse_dim`. The nested syntax with braces is rejected. -/
def tpbArgpParseDim (F : Doubles) (argstr : Bytes) : Except Err DimConfig := do
  let p ← orDimFail (strchr 61 (trimWhitespaceDim (printedIn cliStrMaxLen argstr)))
  if 123 ∈ trimWhitespaceDim p.2 then dimFail
  else do
    let s ← dimSpecOf F (trimWhitespaceDim p.2)
    .ok ⟨printedIn nameStrMaxLen (trimWhitespaceDim p.1), s⟩

/-! ### Values -/

/-- `TPBM_DIM_MAX_VALUES`. -/
def dimMaxValues : ℕ := 4096

/-- The next value of a recursive sequence; a division by zero ends it. -/
def recurNext (F : Doubles) (op : DimOp) (x current : UInt64) : Option UInt64 :=
  match op with
  | .add => some (F.add current x)
  | .sub => some (F.sub current x)
  | .mul => some (F.mul current x)
  | .div => if F.eq x (F.ofI64 0) then none else some (F.div current x)
  | .pow => some (F.pow current x)

/-- The loop that generates a recursive sequence, with the number of values that may still
come and the number of values there are. -/
def recurLoop (F : Doubles) (op : DimOp) (x min max : UInt64) (nlim : Int32) :
    ℕ → ℕ → UInt64 → List UInt64
  | 0, _, _ => []
  | room + 1, n, current =>
      if F.lt current min || F.lt max current then []
      else
        current ::
          if 0 < nlim.toInt ∧ nlim.toInt ≤ n + 1 then []
          else
            match recurNext F op x current with
            | none => []
            | some next => recurLoop F op x min max nlim room (n + 1) next

/-- `tpb_dim_generate_values`. -/
def tpbDimGenerateValues (F : Doubles) (cfg : DimConfig) : DimValues :=
  match cfg.spec with
  | .list strValues values isString =>
      ⟨printedIn nameStrMaxLen cfg.parmName, some strValues, values, isString⟩
  | .recur op x st min max nlim =>
      let cap := if 0 < nlim.toInt then nlim.toInt.toNat else dimMaxValues
      ⟨printedIn nameStrMaxLen cfg.parmName, none, recurLoop F op x min max nlim cap 0 st, false⟩

/-- The number of values. -/
def DimValues.n (v : DimValues) : ℕ := v.values.length

/-- The text of a number: an integer is printed as such. -/
def doubleText (F : Doubles) (val : UInt64) : Except Err Bytes :=
  match F.toI64 val with
  | none => .error .undefined
  | some i => .ok (if F.eq val (F.ofI64 i) then formatInt i else F.printG15 val)

/-- The text with which `apply_dim_value` and `apply_env_dim_value` set the value of an
index. -/
def DimValues.text (F : Doubles) (v : DimValues) (index : ℕ) : Except Err Bytes :=
  match v.values[index]? with
  | none => .error (.code .cliRun .kernArgFail)
  | some val =>
      match v.isString, v.strValues with
      | true, some strs => .ok (strs.getD index [])
      | _, _ => doubleText F val

/-- A specification that was parsed has a value. -/
def DimSpec.Good (F : Doubles) : DimSpec → Prop
  | .list strValues values _ => values ≠ [] ∧ strValues.length = values.length
  | .recur _ _ st min max _ => (F.lt st min || F.lt max st) = false

section Good

variable {F : Doubles}

@[simp] theorem dimFail_ne_ok {α : Type} {a : α} : (dimFail : Except Err α) ≠ .ok a := by
  simp [dimFail]

/-- A successful sequence of two steps. -/
theorem except_bind_eq_ok {α β : Type} {x : Except Err α} {f : α → Except Err β} {b : β} :
    (x >>= f) = .ok b ↔ ∃ a, x = .ok a ∧ f a = .ok b := by
  cases x with
  | error e => simp [bind, Except.bind]
  | ok a => simp [bind, Except.bind]

theorem listSpec_good {strVals : List Bytes} {s : DimSpec} (h : listSpec F strVals = .ok s) :
    s.Good F := by
  unfold listSpec at h
  split at h
  · simp at h
  · rename_i hne
    cases h
    exact ⟨by simpa using hne, by simp⟩

theorem tpbArgpParseList_good {spec : Bytes} {s : DimSpec}
    (h : tpbArgpParseList F spec = .ok s) : s.Good F := by
  unfold tpbArgpParseList at h
  split at h
  · obtain ⟨r, -, h⟩ := except_bind_eq_ok.mp h
    exact listSpec_good h
  · simp at h

theorem recurSpec_good {op : DimOp} {x st min max : UInt64} {nlim : Int32} {s : DimSpec}
    (h : recurSpec F op x st min max nlim = .ok s) : s.Good F := by
  unfold recurSpec at h
  split at h
  · simp at h
  · split at h
    · simp at h
    · rename_i hst
      cases h
      exact Bool.eq_false_iff.mpr hst

theorem tpbArgpParseDimRecur_good {spec : Bytes} {s : DimSpec}
    (h : tpbArgpParseDimRecur F spec = .ok s) : s.Good F := by
  obtain ⟨p, -, h⟩ := except_bind_eq_ok.mp h
  split at h
  · simp at h
  · obtain ⟨op, -, h⟩ := except_bind_eq_ok.mp h
    obtain ⟨first, -, h⟩ := except_bind_eq_ok.mp h
    obtain ⟨operands, -, h⟩ := except_bind_eq_ok.mp h
    split at h
    · simp at h
    · split at h
      · obtain ⟨params, -, h⟩ := except_bind_eq_ok.mp h
        split at h
        · exact recurSpec_good h
        · simp at h
      · simp at h

theorem dimSpecOf_good {spec : Bytes} {s : DimSpec} (h : dimSpecOf F spec = .ok s) :
    s.Good F := by
  unfold dimSpecOf at h
  split at h
  · exact tpbArgpParseList_good h
  · split at h
    · exact tpbArgpParseDimRecur_good h
    · simp at h
  · simp at h

/-- The specification of a dimension that was parsed. -/
theorem tpbArgpParseDim_good {argstr : Bytes} {cfg : DimConfig}
    (h : tpbArgpParseDim F argstr = .ok cfg) : cfg.spec.Good F := by
  obtain ⟨p, -, h⟩ := except_bind_eq_ok.mp h
  split at h
  · simp at h
  · obtain ⟨s, hs, h⟩ := except_bind_eq_ok.mp h
    cases h
    exact dimSpecOf_good hs

/-- **A dimension has a value.** -/
theorem values_ne_nil {argstr : Bytes} {cfg : DimConfig}
    (h : tpbArgpParseDim F argstr = .ok cfg) : (tpbDimGenerateValues F cfg).values ≠ [] := by
  have hgood := tpbArgpParseDim_good h
  unfold tpbDimGenerateValues
  split
  · rename_i heq
    rw [heq] at hgood
    exact hgood.1
  · rename_i op x st min max nlim heq
    rw [heq] at hgood
    have hcap : 0 < if 0 < nlim.toInt then nlim.toInt.toNat else dimMaxValues := by
      split
      · omega
      · decide
    obtain ⟨room, hroom⟩ := Nat.exists_eq_succ_of_ne_zero hcap.ne'
    simp only [hroom, recurLoop]
    rw [if_neg (Bool.eq_false_iff.mp hgood)]
    exact List.cons_ne_nil _ _

end Good

end TPBench
