import TPBench.CFile.Lines
import TPBench.CFile.Scan
import TPBench.Task.Ls
import TPBench.Task.Time

/-!
# Filters of the Task List

`task ls -f` takes a key, an operator and a value in one text (`tpbcli-task.c`). The operator is
searched in the whole text, the operators of two characters first, and what stands in front of
it is the key. The value is copied to a buffer of 256 bytes before it is looked at.

The table of the keys is stated apart from this (`Means`): every key has its operators and a
rule for its value. An operator that stands in the value is found in place of the one behind the
key, a value that does not fit is cut, and the number of an exit code is read by `strtol`, which
takes blanks and a sign.

## Main results

* `filterParsed_iff`: a text is parsed as the table says if and only if it is not one of these.
-/

open CFile

namespace TPBench

/-! ### Filters -/

/-- The text of an operator. -/
def FilterOp.text : FilterOp → Bytes
  | eq => [61]
  | gt => [62]
  | ge => [62, 61]
  | lt => [60]
  | le => [60, 61]

/-- The text of a key. -/
def FilterKey.text : FilterKey → Bytes
  | kernelId => ascii "kernel_id".toList
  | kernelName => ascii "kernel_name".toList
  | tbatchId => ascii "tbatch_id".toList
  | datetime => ascii "datetime".toList
  | exitCode => ascii "exit_code".toList

/-- The operators in the order of the search. -/
def filterOps : List FilterOp := [.ge, .le, .gt, .lt, .eq]

/-- The first operator of the search that stands in a text, with what stands in front of it and
behind it. -/
def splitOperator (text : Bytes) : Option (FilterOp × Bytes × Bytes) :=
  filterOps.findSome? fun op => (strstr op.text text).map fun rest =>
    (op, text.take (text.length - rest.length), rest.drop op.text.length)

/-- The filter of an identifier, `kernel_id` or `tbatch_id`. -/
def idFilter (key : FilterKey) (op : FilterOp) (value : Bytes) : Except Err TaskFilter :=
  if op ≠ .eq then .error (.code .cliMisc .cliFail)
  else if value.length < 4 ∨ 40 < value.length then .error (.code .cliMisc .cliFail)
  else if !value.all isxdigit then .error (.code .cliMisc .cliFail)
  else .ok ⟨key, op, snprintfS 256 value, 0, 0⟩

/-- The filter of an exit code. -/
def exitCodeFilter (op : FilterOp) (value : Bytes) : Except Err TaskFilter :=
  if op ≠ .eq then .error (.code .cliMisc .cliFail)
  else
    let (v, rest) := strtol value
    if rest = value ∨ rest ≠ [] ∨ v < 0 ∨ 4294967295 < v then .error (.code .cliMisc .cliFail)
    else .ok ⟨.exitCode, op, snprintfS 256 value, 0, UInt32.ofNat v.toNat⟩

/-- `_sf_parse_one_filter`. -/
def sfParseOneFilter (L : TimeLib) (text : Bytes) : Except Err TaskFilter :=
  match splitOperator text with
  | none => .error (.code .cliMisc .cliFail)
  | some (op, key, rest) =>
      let value := rest.take 255
      if key = [] ∨ 64 ≤ key.length then .error (.code .cliMisc .cliFail)
      else if value = [] then .error (.code .cliMisc .cliFail)
      else if key = FilterKey.kernelId.text then idFilter .kernelId op value
      else if key = FilterKey.kernelName.text then
        if op ≠ .eq then .error (.code .cliMisc .cliFail)
        else .ok ⟨.kernelName, op, snprintfS 256 value, 0, 0⟩
      else if key = FilterKey.tbatchId.text then idFilter .tbatchId op value
      else if key = FilterKey.datetime.text then
        match tpbcliTaskTimeParseFilter L value with
        | .error e => .error (e.propagated .cliMisc)
        | .ok bits => .ok ⟨.datetime, op, snprintfS 256 value, bits, 0⟩
      else if key = FilterKey.exitCode.text then exitCodeFilter op value
      else .error (.code .cliMisc .cliFail)

/-! ### The table -/

/-- The rule of a key for the operator, the value, and what is read from the value. -/
def FilterKey.Rule (L : TimeLib) (f : TaskFilter) (value : Bytes) : FilterKey → Prop
  | kernelName => f.op = .eq ∧ f.datetimeUtc = 0 ∧ f.exitCode = 0
  | kernelId | tbatchId =>
      f.op = .eq ∧ 4 ≤ value.length ∧ value.length ≤ 40 ∧ value.all isxdigit = true ∧
        f.datetimeUtc = 0 ∧ f.exitCode = 0
  | datetime => tpbcliTaskTimeParseFilter L value = .ok f.datetimeUtc ∧ f.exitCode = 0
  | exitCode =>
      f.op = .eq ∧ (∀ b ∈ value, isdigit b = true) ∧ digitsNat value < 2 ^ 32 ∧
        f.exitCode = UInt32.ofNat (digitsNat value) ∧ f.datetimeUtc = 0

/-- The text means the filter: it is the key, the operator and the value, and the value is not
empty, fits the buffer of the filter, is there, and follows the rule of the key. -/
structure Means (L : TimeLib) (text value : Bytes) (f : TaskFilter) : Prop where
  text : text = f.key.text ++ f.op.text ++ value
  ne_nil : value ≠ []
  fits : value.length < 256
  stored : f.value = snprintfS 256 value
  rule : f.key.Rule L f value

/-- A text is parsed as the table says. -/
def FilterParsed (L : TimeLib) (text : Bytes) : Prop :=
  (∀ value f, Means L text value f → sfParseOneFilter L text = .ok f) ∧
    ((¬∃ value f, Means L text value f) → ∃ e, sfParseOneFilter L text = .error e)

/-- `strtol` takes the whole text for a number below 2³². -/
def TakenForExitCode (value : Bytes) : Prop :=
  (strtol value).2 ≠ value ∧ (strtol value).2 = [] ∧ 0 ≤ (strtol value).1 ∧
    (strtol value).1 ≤ 4294967295

/-- A text that is not parsed as the table says: the name of a kernel with a sign of order in it, a
name that is cut, and a value that is no number of its own, but is taken for an exit code. -/
def Misread (text : Bytes) : Prop :=
  (∃ name, text = FilterKey.kernelName.text ++ 61 :: name ∧ name.length < 256 ∧
      (60 ∈ name ∨ 62 ∈ name)) ∨
    (∃ name, text = FilterKey.kernelName.text ++ 61 :: name ∧ 256 ≤ name.length ∧ 60 ∉ name ∧
      62 ∉ name) ∨
    (∃ value, text = FilterKey.exitCode.text ++ 61 :: value ∧ 60 ∉ value ∧ 62 ∉ value ∧
      TakenForExitCode (value.take 255) ∧
        ¬(value.length < 256 ∧ ∀ b ∈ value, isdigit b = true))

/-! ### Finding the operator -/

section Split

variable {k v text : Bytes} {op : FilterOp}

/-- No operator stands in a key. -/
theorem FilterKey.not_mem_text (key : FilterKey) :
    60 ∉ key.text ∧ 61 ∉ key.text ∧ 62 ∉ key.text := by
  cases key <;> simp [FilterKey.text, ascii]

/-- What is found is an operator between the other two texts. -/
theorem splitOperator_eq_some (h : splitOperator text = some (op, k, v)) :
    text = k ++ op.text ++ v ∧ (op = .eq → 60 ∉ text ∧ 62 ∉ text) := by
  have hsplit : ∀ {op' : FilterOp} {rest : Bytes}, strstr op'.text text = some rest →
      some (op', text.take (text.length - rest.length), rest.drop op'.text.length) =
        some (op, k, v) → text = k ++ op.text ++ v ∧ op' = op := by
    intro op' rest hrest heq
    obtain ⟨rfl, hpair⟩ := Prod.mk.inj (Option.some.inj heq)
    obtain ⟨rfl, rfl⟩ := Prod.mk.inj hpair
    obtain ⟨a, b, htext, rfl⟩ := strstr_eq_some hrest
    refine ⟨?_, rfl⟩
    rw [htext, List.length_append, Nat.add_sub_cancel, List.take_left, List.drop_left,
      List.append_assoc]
  have hno : ∀ {c : UInt8}, strstr [c] text = none → c ∉ text := by
    intro c hnone hmem
    obtain ⟨a, b, rfl⟩ := List.append_of_mem hmem
    have hsome := isSome_strstr_append a [c] b
    rw [List.append_assoc, List.singleton_append, hnone] at hsome
    cases hsome
  rw [splitOperator, filterOps] at h
  simp only [List.findSome?_cons] at h
  rcases hge : strstr FilterOp.ge.text text with _ | rest
  · rcases hle : strstr FilterOp.le.text text with _ | rest
    · rcases hgt : strstr FilterOp.gt.text text with _ | rest
      · rcases hlt : strstr FilterOp.lt.text text with _ | rest
        · rcases heq : strstr FilterOp.eq.text text with _ | rest
          · simp [hge, hle, hgt, hlt, heq] at h
          · simp only [hge, hle, hgt, hlt, heq, Option.map_none, Option.map_some] at h
            obtain ⟨htext, -⟩ := hsplit heq h
            exact ⟨htext, fun _ => ⟨hno hlt, hno hgt⟩⟩
        · simp only [hge, hle, hgt, hlt, Option.map_none, Option.map_some] at h
          obtain ⟨htext, rfl⟩ := hsplit hlt h
          exact ⟨htext, nofun⟩
      · simp only [hge, hle, hgt, Option.map_none, Option.map_some] at h
        obtain ⟨htext, rfl⟩ := hsplit hgt h
        exact ⟨htext, nofun⟩
    · simp only [hge, hle, Option.map_none, Option.map_some] at h
      obtain ⟨htext, rfl⟩ := hsplit hle h
      exact ⟨htext, nofun⟩
  · simp only [hge, Option.map_some] at h
    obtain ⟨htext, rfl⟩ := hsplit hge h
    exact ⟨htext, nofun⟩

/-- The operator behind a key is found, where none stands in the value, and the value does not make
the operator longer. -/
theorem splitOperator_append (key : FilterKey) (hv : 60 ∉ v) (hv' : 62 ∉ v)
    (hop : op ≠ .eq → v.head? ≠ some 61) :
    splitOperator (key.text ++ op.text ++ v) = some (op, key.text, v) := by
  obtain ⟨hk60, hk61, hk62⟩ := key.not_mem_text
  generalize key.text = k at hk60 hk61 hk62
  have hfound : ∀ (c : UInt8) (word : Bytes), c ∉ k → strstr (c :: word) (k ++ (c :: word) ++ v) =
      some (c :: word ++ v) := by
    intro c word hc
    rw [List.append_assoc]
    exact strstr_append_of_not_mem hc v
  have hcut : ∀ word : Bytes, (k ++ word ++ v).take
      ((k ++ word ++ v).length - (word ++ v).length) = k ∧ (word ++ v).drop word.length = v := by
    intro word
    refine ⟨?_, List.drop_left⟩
    rw [List.append_assoc, List.length_append, Nat.add_sub_cancel, List.take_left]
  -- a sign of order without `=` behind it
  have hshort : ∀ c : UInt8, c ∉ k → c ∉ v → v.head? ≠ some 61 →
      strstr [c, 61] (k ++ [c] ++ v) = none := by
    intro c hck hcv hhead
    rw [Option.eq_none_iff_forall_ne_some]
    intro rest h
    obtain ⟨a, b, htext, rfl⟩ := strstr_eq_some h
    rw [List.append_assoc, List.singleton_append, List.cons_append] at htext
    obtain ⟨-, -, rfl⟩ := (List.append_cons_inj_of_notMem hck hcv).mp htext
    exact hhead rfl
  rw [splitOperator, filterOps]
  simp only [List.findSome?_cons]
  cases op with
  | ge =>
      simp only [FilterOp.text, hfound 62 [61] hk62, Option.map_some]
      rw [(hcut [62, 61]).1, (hcut [62, 61]).2]
  | le =>
      have hge : strstr FilterOp.ge.text (k ++ [60, 61] ++ v) = none :=
        strstr_of_not_mem (by simp [hk62, hv'])
      simp only [FilterOp.text] at hge ⊢
      simp only [hge, hfound 60 [61] hk60, Option.map_some, Option.map_none]
      rw [(hcut [60, 61]).1, (hcut [60, 61]).2]
  | gt =>
      have hge := hshort 62 hk62 hv' (hop nofun)
      have hle : strstr [60, 61] (k ++ [62] ++ v) = none :=
        strstr_of_not_mem (by simp [hk60, hv])
      simp only [FilterOp.text, hge, hle, hfound 62 [] hk62, Option.map_some, Option.map_none]
      rw [(hcut [62]).1, (hcut [62]).2]
  | lt =>
      have hge : strstr [62, 61] (k ++ [60] ++ v) = none :=
        strstr_of_not_mem (by simp [hk62, hv'])
      have hle := hshort 60 hk60 hv (hop nofun)
      have hgt : strstr [62] (k ++ [60] ++ v) = none := strstr_of_not_mem (by simp [hk62, hv'])
      simp only [FilterOp.text, hge, hle, hgt, hfound 60 [] hk60, Option.map_some,
        Option.map_none]
      rw [(hcut [60]).1, (hcut [60]).2]
  | eq =>
      have hgt : ∀ word, strstr (62 :: word) (k ++ [61] ++ v) = none := fun word =>
        strstr_of_not_mem (by simp [hk62, hv'])
      have hlt : ∀ word, strstr (60 :: word) (k ++ [61] ++ v) = none := fun word =>
        strstr_of_not_mem (by simp [hk60, hv])
      simp only [FilterOp.text, hgt, hlt, hfound 61 [] hk61, Option.map_some, Option.map_none]
      rw [(hcut [61]).1, (hcut [61]).2]

end Split

/-! ### Keys and their rules -/

/-- What is made of a value under a key. -/
def FilterKey.parsed (L : TimeLib) (op : FilterOp) (value : Bytes) :
    FilterKey → Except Err TaskFilter
  | kernelId => idFilter .kernelId op value
  | kernelName =>
      if op ≠ .eq then .error (.code .cliMisc .cliFail)
      else .ok ⟨.kernelName, op, snprintfS 256 value, 0, 0⟩
  | tbatchId => idFilter .tbatchId op value
  | datetime =>
      match tpbcliTaskTimeParseFilter L value with
      | .error e => .error (e.propagated .cliMisc)
      | .ok bits => .ok ⟨.datetime, op, snprintfS 256 value, bits, 0⟩
  | exitCode => exitCodeFilter op value

section Keys

variable {L : TimeLib} {text v value : Bytes} {op : FilterOp} {key : FilterKey} {f : TaskFilter}

/-- The texts of keys are short, and determine them. -/
theorem FilterKey.text_ne_nil (key : FilterKey) : key.text ≠ [] ∧ key.text.length < 64 := by
  cases key <;> exact ⟨List.cons_ne_nil _ _, by simp [FilterKey.text, ascii]⟩

theorem FilterKey.text_injective : Function.Injective FilterKey.text := by
  intro a b h
  cases a <;> cases b <;> first | rfl | (simp [FilterKey.text, ascii] at h)

/-- A text whose operator stands behind a key is parsed under this key. -/
theorem sfParseOneFilter_eq (h : splitOperator text = some (op, key.text, v)) (hv : v ≠ []) :
    sfParseOneFilter L text = key.parsed L op (v.take 255) := by
  obtain ⟨hnil, hlen⟩ := key.text_ne_nil
  have htake : v.take 255 ≠ [] := by
    rw [Ne, List.take_eq_nil_iff]
    rintro (h | h)
    · cases h
    · exact hv h
  rw [sfParseOneFilter, h]
  simp only [hnil, false_or, if_neg (not_le.mpr hlen), htake, ↓reduceIte,
    FilterKey.text_injective.eq_iff]
  cases key <;> rfl

/-- What is parsed is parsed under a key. -/
theorem exists_key_of_parsed (h : sfParseOneFilter L text = .ok f) :
    ∃ op key v, splitOperator text = some (op, FilterKey.text key, v) ∧ v ≠ [] ∧
      key.parsed L op (v.take 255) = .ok f := by
  have hparse := h
  rw [sfParseOneFilter] at h
  rcases hsplit : splitOperator text with _ | ⟨op, k, v⟩
  · rw [hsplit] at h
    cases h
  · simp only [hsplit] at h
    have hkey : ∃ key : FilterKey, k = key.text ∧ v ≠ [] := by
      have hne : v.take 255 ≠ [] → v ≠ [] := by
        rintro hne rfl
        exact hne rfl
      split_ifs at h with h₁ h₂ h₃ h₄ h₅ h₆ h₇ h₈
      · exact ⟨_, h₃, hne h₂⟩
      · exact ⟨_, h₄, hne h₂⟩
      · exact ⟨_, h₆, hne h₂⟩
      · exact ⟨_, h₇, hne h₂⟩
      · exact ⟨_, h₈, hne h₂⟩
    obtain ⟨key, rfl, hv⟩ := hkey
    exact ⟨op, key, v, rfl, hv, (sfParseOneFilter_eq hsplit hv).symm.trans hparse⟩

/-- What is parsed under a key has the key, the operator and the value, and follows the rule of the
key, up to the digits of an exit code. -/
theorem rule_of_parsed (h : key.parsed L op value = .ok f) :
    f.key = key ∧ f.op = op ∧ f.value = snprintfS 256 value ∧ (key ≠ .datetime → op = .eq) ∧
      (key = .exitCode → TakenForExitCode value) ∧
      ((key = .exitCode → ∀ b ∈ value, isdigit b = true) → key.Rule L f value) := by
  have hid : ∀ {key' : FilterKey}, idFilter key' op value = .ok f → f.key = key' ∧ f.op = op ∧
      f.value = snprintfS 256 value ∧ op = .eq ∧ 4 ≤ value.length ∧ value.length ≤ 40 ∧
        value.all isxdigit = true ∧ f.datetimeUtc = 0 ∧ f.exitCode = 0 := by
    intro key' h
    rw [idFilter] at h
    split_ifs at h with h₁ h₂ h₃
    cases h
    have hlo : 4 ≤ value.length := by omega
    have hhi : value.length ≤ 40 := by omega
    exact ⟨rfl, rfl, rfl, not_not.mp h₁, hlo, hhi, by simpa using h₃, rfl, rfl⟩
  cases key with
  | kernelId | tbatchId =>
      obtain ⟨hk, ho, hval, heq, hrule⟩ := hid h
      exact ⟨hk, ho, hval, fun _ => heq, nofun, fun _ => ⟨ho.trans heq, hrule⟩⟩
  | kernelName =>
      rw [FilterKey.parsed] at h
      split_ifs at h with h₁
      cases h
      exact ⟨rfl, rfl, rfl, fun _ => not_not.mp h₁, nofun, fun _ => ⟨not_not.mp h₁, rfl, rfl⟩⟩
  | datetime =>
      rw [FilterKey.parsed] at h
      rcases hbits : tpbcliTaskTimeParseFilter L value with e | bits
      · rw [hbits] at h
        cases h
      · rw [hbits] at h
        cases h
        exact ⟨rfl, rfl, rfl, fun hne => absurd rfl hne, nofun, fun _ => ⟨hbits, rfl⟩⟩
  | exitCode =>
      rw [FilterKey.parsed, exitCodeFilter] at h
      split_ifs at h with h₁
      dsimp only at h
      split_ifs at h with h₂
      cases h
      simp only [not_or, not_not, not_lt] at h₂
      refine ⟨rfl, rfl, rfl, fun _ => not_not.mp h₁, fun _ => h₂, fun hdigits => ?_⟩
      have hall := hdigits rfl
      have hne : value ≠ [] := by
        rintro rfl
        exact h₂.1 rfl
      rw [strtol_digits hall hne] at h₂ ⊢
      have hsmall : digitsNat value < 2 ^ 32 := by
        have hle := h₂.2.2.2
        simp only at hle
        omega
      refine ⟨not_not.mp h₁, hall, hsmall, ?_, rfl⟩
      have hmin : min 9223372036854775807 (digitsNat value : ℤ) = digitsNat value := by omega
      simp only [hmin, Int.toNat_natCast]

/-- What follows the rule of its key is parsed. -/
theorem parsed_of_rule (hrule : f.key.Rule L f value) (hne : value ≠ [])
    (hstored : f.value = snprintfS 256 value) : f.key.parsed L f.op value = .ok f := by
  obtain ⟨key, op, stored, bits, code⟩ := f
  dsimp only at hstored
  subst hstored
  cases key with
  | kernelId | tbatchId =>
      obtain ⟨rfl, hlo, hhi, hall, rfl, rfl⟩ := hrule
      dsimp only
      rw [FilterKey.parsed, idFilter, if_neg (not_not.mpr rfl), if_neg (by omega),
        if_neg (by simp [hall])]
  | kernelName =>
      obtain ⟨rfl, rfl, rfl⟩ := hrule
      rfl
  | datetime =>
      obtain ⟨hbits, rfl⟩ := hrule
      dsimp only at hbits ⊢
      rw [FilterKey.parsed, hbits]
  | exitCode =>
      obtain ⟨hop, hall, hsmall, hcode, hbits⟩ := hrule
      dsimp only at hop hcode hbits ⊢
      subst hop hcode hbits
      have hmin : min 9223372036854775807 (digitsNat value : ℤ) = digitsNat value := by omega
      rw [FilterKey.parsed, exitCodeFilter, if_neg (not_not.mpr rfl), strtol_digits hall hne]
      simp only [hmin]
      rw [if_neg]
      · rfl
      · rintro (h | h | h | h)
        · exact hne h.symm
        · exact h rfl
        · omega
        · omega

/-- A text is split at the end of its key. -/
theorem split_at_key {key' : FilterKey} {w : Bytes}
    (h : key.text ++ op.text ++ v = key'.text ++ 61 :: w) : key = key' ∧ op = .eq ∧ v = w := by
  have htake : ∀ (k : FilterKey) (c : UInt8) (rest : Bytes), c ∈ ([60, 61, 62] : Bytes) →
      (k.text ++ c :: rest).takeWhile (fun b => !([60, 61, 62] : Bytes).contains b) = k.text := by
    intro k c rest hc
    obtain ⟨h60, h61, h62⟩ := k.not_mem_text
    rw [List.takeWhile_append_of_pos, List.takeWhile_cons_of_neg, List.append_nil]
    · simp only [List.mem_cons, List.not_mem_nil, or_false] at hc
      rcases hc with rfl | rfl | rfl <;> simp
    · intro b hb
      simp only [List.contains_cons, List.contains_nil, Bool.or_false, Bool.not_eq_true',
        Bool.or_eq_false_iff, beq_eq_false_iff_ne]
      exact ⟨fun h => h60 (h ▸ hb), fun h => h61 (h ▸ hb), fun h => h62 (h ▸ hb)⟩
  obtain ⟨c, t, hop, hc, heq⟩ : ∃ c t, op.text = c :: t ∧ c ∈ ([60, 61, 62] : Bytes) ∧
      (c = 61 → op = .eq ∧ t = []) := by
    cases op <;> exact ⟨_, _, rfl, by simp, by simp⟩
  rw [hop, List.append_assoc, List.cons_append] at h
  have hkey : key.text = key'.text := by
    rw [← htake key c (t ++ v) hc, h, htake key' 61 w (by simp)]
  rw [hkey] at h
  obtain ⟨rfl, hrest⟩ := List.cons.inj (List.append_cancel_left h)
  obtain ⟨rfl, rfl⟩ := heq rfl
  exact ⟨FilterKey.text_injective hkey, rfl, hrest⟩

/-- The value of a filter has no sign of order, unless it is the name of a kernel, and an operator
is not longer for it. -/
theorem Means.split (h : Means L text value f)
    (hname : f.key = .kernelName → 60 ∉ value ∧ 62 ∉ value) :
    splitOperator text = some (f.op, f.key.text, value) := by
  have hdigit : ∀ {b : UInt8}, isdigit b = true → b ≠ 60 ∧ b ≠ 61 ∧ b ≠ 62 := by
    rintro b hb
    refine ⟨?_, ?_, ?_⟩ <;>
    · rintro rfl
      cases hb
  have hxdigit : ∀ {b : UInt8}, isxdigit b = true → b ≠ 60 ∧ b ≠ 62 := by
    rintro b hb
    constructor <;>
    · rintro rfl
      cases hb
  have hhex : value.all isxdigit = true → 60 ∉ value ∧ 62 ∉ value := by
    intro hall
    rw [List.all_eq_true] at hall
    exact ⟨fun h => (hxdigit (hall _ h)).1 rfl, fun h => (hxdigit (hall _ h)).2 rfl⟩
  have hvalue : 60 ∉ value ∧ 62 ∉ value ∧ (f.op ≠ .eq → value.head? ≠ some 61) := by
    have hrule := h.rule
    rcases hkey : f.key with _ | _ | _ | _ | _
    · rw [hkey] at hrule
      obtain ⟨hop, -, -, hall, -⟩ := hrule
      exact ⟨(hhex hall).1, (hhex hall).2, fun hne => absurd hop hne⟩
    · rw [hkey] at hrule
      exact ⟨(hname hkey).1, (hname hkey).2, fun hne => absurd hrule.1 hne⟩
    · rw [hkey] at hrule
      obtain ⟨hop, -, -, hall, -⟩ := hrule
      exact ⟨(hhex hall).1, (hhex hall).2, fun hne => absurd hop hne⟩
    · rw [hkey] at hrule
      have hchars := (chars_of_parseFilter hrule.1).2
      have hno : ∀ b ∈ value, b ≠ 60 ∧ b ≠ 61 ∧ b ≠ 62 := by
        intro b hb
        rcases hchars b hb with hd | hs
        · exact hdigit hd
        · simp only [List.mem_cons, List.not_mem_nil, or_false] at hs
          rcases hs with rfl | rfl | rfl | rfl | rfl <;> simp
      refine ⟨fun h => (hno _ h).1 rfl, fun h => (hno _ h).2.2 rfl, fun _ hhead => ?_⟩
      exact (hno 61 (List.mem_of_mem_head? hhead)).2.1 rfl
    · rw [hkey] at hrule
      obtain ⟨hop, hall, -⟩ := hrule
      exact ⟨fun h => (hdigit (hall _ h)).1 rfl, fun h => (hdigit (hall _ h)).2.2 rfl,
        fun hne => absurd hop hne⟩
  rw [h.text]
  exact splitOperator_append f.key hvalue.1 hvalue.2.1 hvalue.2.2

/-- A text with `=` behind its key and no sign of order in its value is split there. -/
theorem splitOperator_eq_sign (key : FilterKey) (h60 : 60 ∉ v) (h62 : 62 ∉ v) :
    splitOperator (key.text ++ 61 :: v) = some (.eq, key.text, v) := by
  have h := @splitOperator_append v .eq key h60 h62 fun h => absurd rfl h
  rwa [List.append_assoc] at h

/-! ### The texts that are misread -/

/-- The name of a kernel with a sign of order in it is not parsed as the table says. -/
theorem not_filterParsed_of_order (hlen : v.length < 256) (horder : 60 ∈ v ∨ 62 ∈ v) :
    ¬FilterParsed L (FilterKey.kernelName.text ++ 61 :: v) := by
  rintro ⟨hmeans, -⟩
  have hne : v ≠ [] := by
    rintro rfl
    simp at horder
  have hparse := hmeans v ⟨.kernelName, .eq, snprintfS 256 v, 0, 0⟩
    ⟨by rw [List.append_assoc]; rfl, hne, hlen, rfl, rfl, rfl, rfl⟩
  obtain ⟨op, key, w, hsplit, -, -⟩ := exists_key_of_parsed hparse
  obtain ⟨htext, hsigns⟩ := splitOperator_eq_some hsplit
  obtain ⟨-, rfl, -⟩ := split_at_key htext.symm
  obtain ⟨h60, h62⟩ := hsigns rfl
  rcases horder with h | h
  · exact h60 (List.mem_append_right _ (List.mem_cons_of_mem _ h))
  · exact h62 (List.mem_append_right _ (List.mem_cons_of_mem _ h))

/-- The name of a kernel that does not fit is cut instead of refused. -/
theorem not_filterParsed_of_long (hlen : 256 ≤ v.length) (h60 : 60 ∉ v) (h62 : 62 ∉ v) :
    ¬FilterParsed L (FilterKey.kernelName.text ++ 61 :: v) := by
  rintro ⟨-, hother⟩
  have hne : v ≠ [] := by
    rintro rfl
    simp at hlen
  obtain ⟨e, he⟩ := hother <| by
    rintro ⟨value, f, hf⟩
    obtain ⟨-, -, rfl⟩ := split_at_key hf.text.symm
    have hfits := hf.fits
    omega
  rw [sfParseOneFilter_eq (splitOperator_eq_sign _ h60 h62) hne] at he
  cases he

/-- A value that is taken for an exit code without being one is not refused. -/
theorem not_filterParsed_of_taken (h60 : 60 ∉ v) (h62 : 62 ∉ v)
    (htaken : TakenForExitCode (v.take 255))
    (hno : ¬(v.length < 256 ∧ ∀ b ∈ v, isdigit b = true)) :
    ¬FilterParsed L (FilterKey.exitCode.text ++ 61 :: v) := by
  rintro ⟨-, hother⟩
  have hne : v ≠ [] := by
    rintro rfl
    exact htaken.1 rfl
  obtain ⟨e, he⟩ := hother <| by
    rintro ⟨value, f, hf⟩
    obtain ⟨hkey, -, rfl⟩ := split_at_key hf.text.symm
    have hrule := hf.rule
    rw [hkey] at hrule
    exact hno ⟨hf.fits, hrule.2.1⟩
  obtain ⟨h₁, h₂, h₃, h₄⟩ := htaken
  rw [sfParseOneFilter_eq (splitOperator_eq_sign _ h60 h62) hne, FilterKey.parsed, exitCodeFilter,
    if_neg (not_not.mpr rfl)] at he
  dsimp only at he
  rw [if_neg (by rintro (h | h | h | h) <;> first | exact h₁ h | exact h h₂ | omega)] at he
  cases he

/-- A text that is not misread is parsed as the filter it means. -/
theorem Means.parsed (h : Means L text value f) (hread : ¬Misread text) :
    sfParseOneFilter L text = .ok f := by
  have hname : f.key = .kernelName → 60 ∉ value ∧ 62 ∉ value := by
    intro hkey
    have hrule := h.rule
    rw [hkey] at hrule
    have htext := h.text
    rw [hkey, hrule.1, List.append_assoc] at htext
    constructor
    · exact fun hmem => hread (.inl ⟨value, htext, h.fits, .inl hmem⟩)
    · exact fun hmem => hread (.inl ⟨value, htext, h.fits, .inr hmem⟩)
  have hfits := h.fits
  rw [sfParseOneFilter_eq (h.split hname) h.ne_nil, List.take_of_length_le (by omega)]
  exact parsed_of_rule h.rule h.ne_nil h.stored

/-- Of the values that are too long only names of kernels follow the rule of their key. -/
theorem kernelName_of_long (hrule : key.Rule L f (v.take 255)) (hexit : key ≠ .exitCode)
    (hlen : 256 ≤ v.length) : key = .kernelName := by
  have hlong : (v.take 255).length = 255 := by
    rw [List.length_take]
    omega
  cases key with
  | kernelId =>
      obtain ⟨-, -, hle, -⟩ := hrule
      omega
  | kernelName => rfl
  | tbatchId =>
      obtain ⟨-, -, hle, -⟩ := hrule
      omega
  | datetime =>
      have hle := (chars_of_parseFilter hrule.1).1
      omega
  | exitCode => exact absurd rfl hexit

/-- A text that is parsed without meaning a filter is misread. -/
theorem misread_of_parsed (hparse : sfParseOneFilter L text = .ok f)
    (hnone : ¬∃ value f, Means L text value f) : Misread text := by
  obtain ⟨op, key, v, hsplit, hne, hkey⟩ := exists_key_of_parsed hparse
  obtain ⟨htext, hsigns⟩ := splitOperator_eq_some hsplit
  obtain ⟨hk, hop, hvalue, heq, htaken, hrule⟩ := rule_of_parsed hkey
  have hvalue_signs : op = .eq → 60 ∉ v ∧ 62 ∉ v := by
    intro hop
    obtain ⟨h60, h62⟩ := hsigns hop
    rw [htext] at h60 h62
    exact ⟨fun h => h60 (List.mem_append_right _ h), fun h => h62 (List.mem_append_right _ h)⟩
  -- a value that fits and follows the rule of its key makes a filter
  have hmeans : v.length < 256 → ¬key.Rule L f (v.take 255) := by
    intro hlen hrule
    rw [List.take_of_length_le (by omega)] at hvalue hrule
    refine hnone ⟨v, f, ?_, hne, hlen, hvalue, ?_⟩
    · rw [hk, hop, htext]
    · rw [hk]
      exact hrule
  by_cases hexit : key = .exitCode
  · -- the value is one that `strtol` takes
    subst hexit
    obtain rfl := heq nofun
    obtain ⟨h60, h62⟩ := hvalue_signs rfl
    rw [List.append_assoc] at htext
    refine .inr (.inr ⟨v, htext, h60, h62, htaken rfl, ?_⟩)
    rintro ⟨hlen, hdigits⟩
    exact hmeans hlen (hrule fun _ b hb => hdigits b (List.mem_of_mem_take hb))
  · have hrule := hrule fun h => absurd h hexit
    have hlen : 256 ≤ v.length := not_lt.mp fun hlt => hmeans hlt hrule
    obtain rfl := kernelName_of_long hrule hexit hlen
    obtain rfl := heq nofun
    obtain ⟨h60, h62⟩ := hvalue_signs rfl
    rw [List.append_assoc] at htext
    exact .inr (.inl ⟨v, htext, hlen, h60, h62⟩)

/-- **Filters**: a text is parsed as the table of the keys says, if and only if it is not the
name of a kernel with a sign of order or one that does not fit, and not a text that is taken for
an exit code without being one. -/
theorem filterParsed_iff (L : TimeLib) (text : Bytes) : FilterParsed L text ↔ ¬Misread text := by
  constructor
  · rintro hparsed (⟨name, rfl, hlen, horder⟩ | ⟨name, rfl, hlen, h60, h62⟩ |
      ⟨value, rfl, h60, h62, htaken, hno⟩)
    · exact not_filterParsed_of_order hlen horder hparsed
    · exact not_filterParsed_of_long hlen h60 h62 hparsed
    · exact not_filterParsed_of_taken h60 h62 htaken hno hparsed
  · intro hread
    refine ⟨fun value f hf => hf.parsed hread, fun hnone => ?_⟩
    rcases hparse : sfParseOneFilter L text with e | f
    · exact ⟨e, rfl⟩
    · exact absurd (misread_of_parsed hparse hnone) hread

end Keys

/-- The name of a kernel with `>` in it is split at this sign, and refused. -/
theorem sign_in_name_refused :
    ∃ L value f, Means L (ascii "kernel_name=a>b".toList) value f ∧
      ¬FilterParsed L (ascii "kernel_name=a>b".toList) := by
  have hmeans : Means utcLib (ascii "kernel_name=a>b".toList) [97, 62, 98]
      ⟨.kernelName, .eq, snprintfS 256 [97, 62, 98], 0, 0⟩ :=
    ⟨rfl, List.cons_ne_nil _ _, by simp, rfl, rfl, rfl, rfl⟩
  refine ⟨utcLib, _, _, hmeans, fun hparsed => ?_⟩
  have hparse := hparsed.1 _ _ hmeans
  have hrefused : sfParseOneFilter utcLib (ascii "kernel_name=a>b".toList) =
      .error (.code .cliMisc .cliFail) := rfl
  rw [hrefused] at hparse
  cases hparse

end TPBench
