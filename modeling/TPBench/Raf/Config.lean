import Mathlib.Data.List.DropRight
import TPBench.CFile.Lines
import TPBench.CFile.Scan

/-!
# The Workspace Configuration

A workspace has a name and the id of its base environment, both in `etc/config.json`
(`rafdb-l1-workspace.c`). The file is not parsed as JSON: it is read line by line with patterns,
and it is written anew whenever the id is set, with the name that was read before.

The name is copied to a buffer of 128 bytes by a pattern with a width of 255, which skips the
blanks in front of the name. `sfReadConfigName` returns what is stored in the buffer, one store
after the other, so that a store that is too long can be spoken about.

## Main results

* `config_spec`: setting the id keeps the name if and only if the name does not start with a
  blank or is all blank, the id that was set last is read back in any case, and a name is stored
  in its buffer if and only if the line it is read from has not more than 127 bytes of it.
-/

open CFile

namespace TPBench.Config

/-! ### Writing -/

/-- The lines of the configuration. -/
def configLines (name : Bytes) (baseId : Int32) : List Bytes :=
  [[123], ascii "    \"name\": \"".toList ++ name ++ ascii "\",".toList,
    ascii "    \"runtime_environment\": \x7b".toList,
    ascii "        \"base_id\": ".toList ++ formatInt baseId.toInt, ascii "    \x7d".toList, [125]]

/-- The configuration that `tpb_raf_config_set_base_id` prints. -/
def configText (name : Bytes) (baseId : Int32) : Bytes :=
  (configLines name baseId).flatMap fun line => line ++ [newline]

/-! ### Reading -/

/-- The pattern of a name, `" \"%*[^\"]\" : \" %255[^\"]\""`. -/
def nameFormat : List Directive :=
  [.blank, .lit 34, .skipTo 34, .lit 34, .blank, .lit 58, .blank, .lit 34, .blank, .takeTo 255 34,
    .lit 34]

/-- The name that the pattern assigns. -/
def scannedName (line : Bytes) : Option Bytes :=
  match sscanf nameFormat line with
  | [.str name] => some name
  | _ => none

/-- The name between the quotes behind the first colon of a line, if it fits the buffer. -/
def quotedName (nameLen : ℕ) (line : Bytes) : Option Bytes :=
  let q₁ := line.dropWhile (· ≠ 58)
  let q₂ := q₁.tail.dropWhile (· ≠ 34)
  let name := q₂.tail.takeWhile (· ≠ 34)
  if q₁ = [] ∨ q₂ = [] ∨ name.length = q₂.tail.length then none
  else if name.length < nameLen then some name else none

/-- The name that a line stores in the buffer. -/
def nameFromLine (nameLen : ℕ) (line : Bytes) : Option Bytes :=
  if (strstr (ascii "\"name\"".toList) (cstr line)).isSome then
    (scannedName (cstr line)).or (quotedName nameLen (cstr line))
  else none

/-- `_sf_read_config_name`: what it returns, and what it stores in the buffer for the name, one
after the other. -/
def sfReadConfigName (nameLen : ℕ) (file : Option Bytes) : ℤ × List Bytes :=
  let defaultName := (ascii "default".toList).take (nameLen - 1) ++ [0]
  if nameLen = 0 then (-1, [])
  else match file with
    | none => (-1, [defaultName])
    | some text =>
        match (fgetsLines 511 text).findSome? (nameFromLine nameLen) with
        | none => (0, [defaultName])
        | some name => (0, [defaultName, name ++ [0]])

/-- The id that a line has. -/
def baseIdFromLine (line : Bytes) : Option ℤ :=
  if (strstr (ascii "base_id".toList) (cstr line)).isSome then
    match sscanf (.blank :: (ascii "\"base_id\"".toList).map .lit ++
        [.blank, .lit 58, .blank, .int])
        (cstr line) with
    | [.int baseId] => some baseId
    | _ =>
        match sscanf (.blank :: (ascii "\"base_id\":".toList).map .lit ++ [.blank, .int])
            (cstr line) with
        | [.int baseId] => some baseId
        | _ => none
  else none

/-- `tpb_raf_config_get_base_id`. -/
def tpbRafConfigGetBaseId (file : Option Bytes) : ℤ :=
  match file with
  | none => 1
  | some text => ((fgetsLines 511 text).findSome? baseIdFromLine).getD 1

/-- `tpb_raf_config_set_base_id`, where the file can be written: the file it leaves. -/
def tpbRafConfigSetBaseId (file : Option Bytes) (baseId : Int32) : Bytes :=
  let r := sfReadConfigName 128 file
  let name := if r.1 ≠ 0 then ascii "default".toList else cstr (r.2.getLastD [])
  configText name baseId

/-- The file after the ids of a list were set. -/
def setBaseIds (file : Bytes) (baseIds : List Int32) : Bytes :=
  baseIds.foldl (fun file baseId => tpbRafConfigSetBaseId (some file) baseId) file

/-! ### Names -/

/-- A name of a configuration. -/
structure ConfigName (name : Bytes) : Prop where
  length_le : name.length ≤ 127
  no_quote : 34 ∉ name
  no_newline : newline ∉ name
  no_zero : 0 ∉ name

/-- The name that is read back: the pattern skips the blanks in front of it, and leaves a name that
is all blank to the second reading. -/
def readBack (name : Bytes) : Bytes :=
  if name.dropWhile isspace = [] then name else name.dropWhile isspace

section Lines

variable {name : Bytes} {baseId : Int32}

theorem range_toInt (v : Int32) : -2 ^ 31 ≤ v.toInt ∧ v.toInt < 2 ^ 31 :=
  ⟨v.le_toInt, v.toInt_lt⟩

/-- A printed integer is short and on one line. -/
theorem formatInt_baseId (v : Int32) : newline ∉ formatInt v.toInt ∧ 0 ∉ formatInt v.toInt ∧
    (formatInt v.toInt).length ≤ 11 := by
  obtain ⟨hlo, hhi⟩ := range_toInt v
  have hdigits (b : UInt8) (hb : isdigit b = false) : b ∉ formatD v.toInt.natAbs := fun h =>
    absurd (isdigit_of_mem_formatD h) (by rw [hb]; exact Bool.false_ne_true)
  have hlen : (formatD v.toInt.natAbs).length ≤ 10 := by
    rw [formatD, ascii, List.length_map]
    exact (Nat.length_toDigits_le_iff (by omega) (by omega)).mpr (by omega)
  rw [formatInt]
  split_ifs
  · refine ⟨?_, ?_, Nat.succ_le_succ hlen⟩
    · exact List.not_mem_cons_of_ne_of_not_mem (by decide) (hdigits newline rfl)
    · exact List.not_mem_cons_of_ne_of_not_mem (by decide) (hdigits 0 rfl)
  · exact ⟨hdigits newline rfl, hdigits 0 rfl, by omega⟩

/-- The configuration is read line by line. -/
theorem fgetsLines_configText (hline : newline ∉ name) (hlen : name.length ≤ 400) :
    fgetsLines 511 (configText name baseId) =
      (configLines name baseId).map fun line => line ++ [newline] := by
  obtain ⟨hnl, -, hint⟩ := formatInt_baseId baseId
  refine fgetsLines_flatMap id _ ?_
  intro line hmem
  rw [configLines] at hmem
  simp only [List.mem_cons, List.not_mem_nil, or_false] at hmem
  rcases hmem with rfl | rfl | rfl | rfl | rfl | rfl
  · simp [newline]
  · simp only [id_eq, List.mem_append, List.length_append, not_or]
    refine ⟨⟨⟨?_, hline⟩, ?_⟩, ?_⟩
    · simp [ascii, newline]
    · simp [ascii, newline]
    · have h₁ : (ascii "    \"name\": \"".toList).length = 13 := rfl
      have h₂ : (ascii "\",".toList).length = 2 := rfl
      omega
  · simp [ascii, newline]
  · simp only [id_eq, List.mem_append, List.length_append, not_or]
    refine ⟨⟨?_, hnl⟩, ?_⟩
    · simp [ascii, newline]
    · have h₁ : (ascii "        \"base_id\": ".toList).length = 19 := rfl
      omega
  · simp [ascii, newline]
  · simp [newline]

/-- The line with the name, in front of its newline. -/
def nameLine (name : Bytes) : Bytes := ascii "    \"name\": \"".toList ++ name ++ [34, 44, newline]

/-- **The pattern reads the name** without the blanks in front of it. -/
theorem scannedName_nameLine (hquote : 34 ∉ name) (hlen : name.length ≤ 255) :
    scannedName (nameLine name) =
      if name.dropWhile isspace = [] then none else some (name.dropWhile isspace) := by
  have hscan : sscanf nameFormat (nameLine name) =
      sscanf [.blank, .takeTo 255 34, .lit 34] (name ++ [34, 44, newline]) := by
    rw [nameLine, List.append_assoc]
    rfl
  have hblank : (name ++ [34, 44, newline]).dropWhile isspace =
      name.dropWhile isspace ++ [34, 44, newline] := by
    rw [List.dropWhile_append]
    split_ifs with hnil
    · rw [List.isEmpty_iff.mp hnil]
      rfl
    · rfl
  have hquote' : ∀ b ∈ name.dropWhile isspace, decide (b ≠ 34) = true := by
    intro b hb
    refine decide_eq_true ?_
    rintro rfl
    exact hquote ((List.dropWhile_sublist _).subset hb)
  have htake : ((name.dropWhile isspace ++ [34, 44, newline]).takeWhile (· ≠ 34)).take 255 =
      name.dropWhile isspace := by
    rw [List.takeWhile_append_of_pos hquote', List.takeWhile_cons_of_neg (by decide),
      List.append_nil]
    exact List.take_of_length_le ((List.dropWhile_sublist _).length_le.trans hlen)
  have hlit (s : Bytes) : sscanf [.lit 34] s = [] := by
    rw [sscanf]
    split_ifs
    · rfl
    · rfl
  rw [scannedName, hscan, sscanf, sscanf, hblank, htake]
  split_ifs
  · rfl
  · rw [hlit]

/-- The second reading takes the name as it is. -/
theorem quotedName_nameLine (hquote : 34 ∉ name) (hlen : name.length < 128) :
    quotedName 128 (nameLine name) = some name := by
  have hcolon : (nameLine name).dropWhile (· ≠ 58) =
      58 :: 32 :: 34 :: (name ++ [34, 44, newline]) := by
    rw [nameLine, List.append_assoc]
    rfl
  have hopen : (32 :: 34 :: (name ++ [34, 44, newline])).dropWhile (· ≠ 34) =
      34 :: (name ++ [34, 44, newline]) := rfl
  have hall : ∀ b ∈ name, decide (b ≠ 34) = true := by
    intro b hb
    refine decide_eq_true ?_
    rintro rfl
    exact hquote hb
  have htake : (name ++ [34, 44, newline]).takeWhile (· ≠ 34) = name := by
    rw [List.takeWhile_append_of_pos hall, List.takeWhile_cons_of_neg (by decide), List.append_nil]
  have hlong : name.length ≠ (name ++ [34, 44, newline]).length := by
    rw [List.length_append]
    exact (Nat.lt_add_of_pos_right (Nat.succ_pos _)).ne
  simp only [quotedName, hcolon, List.tail_cons, hopen, htake]
  rw [if_neg (by simp), if_pos hlen]

/-- **The name that is stored** for a line with a name. -/
theorem nameFromLine_nameLine (hquote : 34 ∉ name) (hzero : 0 ∉ name) (hlen : name.length ≤ 255)
    (hfit : name.length < 128 ∨ name.dropWhile isspace ≠ []) :
    nameFromLine 128 (nameLine name) = some (readBack name) := by
  have hstr : cstr (nameLine name) = nameLine name := by
    refine cstr_of_not_mem ?_
    simp [nameLine, ascii, hzero, newline]
  have hname : (strstr (ascii "\"name\"".toList) (nameLine name)).isSome = true := by
    have h := isSome_strstr_append [32, 32, 32, 32] (ascii "\"name\"".toList)
      (58 :: 32 :: 34 :: (name ++ [34, 44, newline]))
    rw [nameLine, List.append_assoc]
    exact h
  rw [nameFromLine, hstr, if_pos hname, scannedName_nameLine hquote hlen, readBack]
  split_ifs with hnil
  · rw [Option.none_or, quotedName_nameLine hquote (hfit.resolve_right fun h => h hnil)]
  · rfl

theorem configLines_map (name : Bytes) (baseId : Int32) :
    (configLines name baseId).map (fun line => line ++ [newline]) =
      [123, newline] :: nameLine name :: (ascii "    \"runtime_environment\": \x7b\n".toList) ::
        (ascii "        \"base_id\": ".toList ++ (formatInt baseId.toInt ++ [newline])) ::
        [ascii "    \x7d\n".toList, [125, newline]] := by
  simp only [configLines, List.map_cons, List.map_nil, nameLine, List.append_assoc]
  rfl

/-- The name of a configuration is read from its line. -/
theorem findSome_nameFromLine (hquote : 34 ∉ name) (hline : newline ∉ name) (hzero : 0 ∉ name)
    (hlen : name.length ≤ 255) (hfit : name.length < 128 ∨ name.dropWhile isspace ≠ []) :
    (fgetsLines 511 (configText name baseId)).findSome? (nameFromLine 128) =
      some (readBack name) := by
  have hfirst : nameFromLine 128 [123, newline] = none := rfl
  rw [fgetsLines_configText hline (by omega), configLines_map, List.findSome?_cons, hfirst,
    List.findSome?_cons, nameFromLine_nameLine hquote hzero hlen hfit]

/-- **The id is read back.** -/
theorem getBaseId_configText (hname : ConfigName name) :
    tpbRafConfigGetBaseId (some (configText name baseId)) = baseId.toInt := by
  obtain ⟨hlen, hquote, hline, hzero⟩ := hname
  obtain ⟨hlo, hhi⟩ := range_toInt baseId
  have h₁ : baseIdFromLine [123, newline] = none := rfl
  have h₂ : baseIdFromLine (nameLine name) = none := by
    have hstr : cstr (nameLine name) = nameLine name := by
      refine cstr_of_not_mem ?_
      simp [nameLine, ascii, hzero, newline]
    rw [baseIdFromLine, hstr]
    split_ifs
    · rw [nameLine, List.append_assoc]
      rfl
    · rfl
  have h₃ : baseIdFromLine (ascii "    \"runtime_environment\": \x7b\n".toList) = none := rfl
  have h₄ : baseIdFromLine (ascii "        \"base_id\": ".toList ++
      (formatInt baseId.toInt ++ [newline])) = some baseId.toInt := by
    have hstr : cstr (ascii "        \"base_id\": ".toList ++
        (formatInt baseId.toInt ++ [newline])) =
          ascii "        \"base_id\": ".toList ++ (formatInt baseId.toInt ++ [newline]) := by
      refine cstr_of_not_mem ?_
      simp [ascii, (formatInt_baseId baseId).2.1, newline]
    have hid : (strstr (ascii "base_id".toList) (ascii "        \"base_id\": ".toList ++
        (formatInt baseId.toInt ++ [newline]))).isSome = true :=
      isSome_strstr_append (ascii "        \"".toList) (ascii "base_id".toList)
        (34 :: 58 :: 32 :: (formatInt baseId.toInt ++ [newline]))
    have hscan : sscanf (.blank :: (ascii "\"base_id\"".toList).map .lit ++
        [.blank, .lit 58, .blank, .int]) (ascii "        \"base_id\": ".toList ++
          (formatInt baseId.toInt ++ [newline])) =
        sscanf [.int] ((formatInt baseId.toInt ++ [newline]).dropWhile isspace) := rfl
    have hskip (s : Bytes) : sscanf [.int] (s.dropWhile isspace) = sscanf [.int] s := by
      simp only [sscanf, List.dropWhile_idempotent]
    rw [baseIdFromLine, hstr, if_pos hid, hscan, hskip, sscanf_int_formatInt hlo hhi rfl]
  rw [tpbRafConfigGetBaseId, fgetsLines_configText hline (by omega), configLines_map,
    List.findSome?_cons, h₁, List.findSome?_cons, h₂, List.findSome?_cons, h₃,
    List.findSome?_cons, h₄, Option.getD_some]

end Lines

/-! ### Setting ids -/

section Set

variable {name : Bytes} {baseId : Int32}

/-- The name that is read back is a name. -/
theorem ConfigName.readBack (hname : ConfigName name) : ConfigName (readBack name) := by
  obtain ⟨hlen, hquote, hline, hzero⟩ := hname
  have hsub : (Config.readBack name).Sublist name := by
    rw [Config.readBack]
    split_ifs
    · exact List.Sublist.refl _
    · exact List.dropWhile_sublist _
  exact ⟨hsub.length_le.trans hlen, fun h => hquote (hsub.subset h),
    fun h => hline (hsub.subset h), fun h => hzero (hsub.subset h)⟩

/-- Reading back twice changes no more than reading back once. -/
theorem readBack_readBack (name : Bytes) : readBack (readBack name) = readBack name := by
  by_cases hnil : name.dropWhile isspace = []
  · have h : readBack name = name := if_pos hnil
    rw [h, h]
  · have h : readBack name = name.dropWhile isspace := if_neg hnil
    rw [h, readBack, List.dropWhile_idempotent, if_neg hnil]

/-- A name is read back as it is if it is all blank or does not start with a blank. -/
theorem readBack_eq_self_iff (name : Bytes) :
    readBack name = name ↔
      (∀ b, name.head? = some b → isspace b = false) ∨ ∀ b ∈ name, isspace b = true := by
  rw [readBack]
  split_ifs with hnil
  · exact iff_of_true rfl (.inr (List.dropWhile_eq_nil_iff.mp hnil))
  · rw [or_iff_left fun h => hnil (List.dropWhile_eq_nil_iff.mpr h)]
    cases name with
    | nil => exact absurd rfl hnil
    | cons b bs =>
        simp only [List.head?_cons, Option.some.injEq, forall_eq']
        cases hb : isspace b with
        | false => exact iff_of_true (List.dropWhile_cons_of_neg (by simp [hb])) rfl
        | true =>
            rw [List.dropWhile_cons_of_pos hb]
            refine iff_of_false (fun h => ?_) (Bool.noConfusion)
            have hle := (List.dropWhile_sublist (l := bs) isspace).length_le
            rw [h, List.length_cons] at hle
            omega

/-- **Setting an id** leaves the configuration with the name that is read back. -/
theorem setBaseId_configText (hname : ConfigName name) (baseId' : Int32) :
    tpbRafConfigSetBaseId (some (configText name baseId)) baseId' =
      configText (readBack name) baseId' := by
  have hread := @findSome_nameFromLine name baseId hname.no_quote hname.no_newline
    hname.no_zero (hname.length_le.trans (by omega)) (.inl (Nat.lt_succ_of_le hname.length_le))
  have hcstr : cstr (readBack name ++ [0]) = readBack name :=
    cstr_append_zero hname.readBack.no_zero []
  have hstored : sfReadConfigName 128 (some (configText name baseId)) =
      (0, [(ascii "default".toList).take 127 ++ [0], readBack name ++ [0]]) := by
    rw [sfReadConfigName, if_neg (by decide)]
    simp only [hread]
  rw [tpbRafConfigSetBaseId, hstored]
  exact congrArg (fun name => configText name baseId') hcstr

/-- What is left after the ids of a list were set. -/
theorem setBaseIds_configText (hname : ConfigName name) (baseId' : Int32) (baseIds : List Int32) :
    setBaseIds (configText name baseId) (baseId' :: baseIds) =
      configText (readBack name) ((baseId' :: baseIds).getLast (List.cons_ne_nil _ _)) := by
  have hstep : setBaseIds (configText name baseId) (baseId' :: baseIds) =
      setBaseIds (configText (readBack name) baseId') baseIds := by
    rw [setBaseIds, List.foldl_cons, setBaseId_configText hname, ← setBaseIds]
  rw [hstep]
  induction baseIds generalizing baseId' with
  | nil => rfl
  | cons baseId'' baseIds ih =>
      rw [List.getLast_cons (List.cons_ne_nil _ _), setBaseIds, List.foldl_cons,
        setBaseId_configText hname.readBack, readBack_readBack, ← setBaseIds]
      refine ih baseId'' ?_
      rw [setBaseIds, List.foldl_cons, setBaseId_configText hname, ← setBaseIds]

/-- The text of a configuration determines the name. -/
theorem configText_inj {name' : Bytes} (h : configText name baseId = configText name' baseId) :
    name = name' := by
  simp only [configText, configLines, List.flatMap_cons, List.append_assoc] at h
  exact List.append_cancel_right
    (List.append_cancel_left (List.append_cancel_left (List.append_cancel_left h)))

end Set

/-! ### The buffer of a name -/

/-- The line that a name is read from. -/
def nameSource (text : Bytes) : Option Bytes :=
  (fgetsLines 511 text).find? fun line => (nameFromLine 128 line).isSome

/-- A name that the second reading takes fits the buffer. -/
theorem length_quotedName_lt {nameLen : ℕ} {line name : Bytes}
    (h : quotedName nameLen line = some name) : name.length < nameLen := by
  rw [quotedName] at h
  split_ifs at h with hno hfit
  exact Option.some.inj h ▸ hfit

/-- **A name fits its buffer** if and only if the pattern does not read more than 127 bytes of
it. -/
theorem stores_le_iff (text : Bytes) :
    (∀ stored ∈ (sfReadConfigName 128 (some text)).2, stored.length ≤ 128) ↔
      ∀ line name, nameSource text = some line → scannedName (cstr line) = some name →
        name.length ≤ 127 := by
  have hdefault : ((ascii "default".toList).take 127 ++ [0]).length ≤ 128 := by decide
  rw [sfReadConfigName, if_neg (by decide), nameSource]
  induction fgetsLines 511 text with
  | nil =>
      refine iff_of_true (List.forall_mem_singleton.mpr hdefault) ?_
      intro line name h
      exact absurd h (Option.some_ne_none _).symm
  | cons line lines ih =>
      rw [List.findSome?_cons]
      cases hname : nameFromLine 128 line with
      | none =>
          rw [List.find?_cons_of_neg (by rw [hname]; exact Bool.false_ne_true)]
          exact ih
      | some name =>
          rw [List.find?_cons_of_pos (by rw [hname]; rfl)]
          have hline : (∀ line' name', some line = some line' →
              scannedName (cstr line') = some name' → name'.length ≤ 127) ↔
                ∀ name', scannedName (cstr line) = some name' → name'.length ≤ 127 :=
            ⟨fun h name' => h line name' rfl, fun h line' name' hsame =>
              Option.some.inj hsame ▸ h name'⟩
          rw [List.forall_mem_cons, List.forall_mem_singleton, and_iff_right hdefault,
            List.length_append, hline]
          rw [nameFromLine] at hname
          split_ifs at hname
          cases hscan : scannedName (cstr line) with
          | none =>
              rw [hscan, Option.none_or] at hname
              refine iff_of_true (Nat.succ_le_of_lt (length_quotedName_lt hname)) fun name' h => ?_
              exact absurd h (Option.some_ne_none _).symm
          | some name' =>
              rw [hscan, Option.some_or] at hname
              obtain rfl := Option.some.inj hname
              refine ⟨fun h name h' => ?_, fun h => Nat.succ_le_succ (h _ rfl)⟩
              exact Option.some.inj h' ▸ Nat.le_of_succ_le_succ h

/-- **The configuration**: the id that was set last is read back and the name is unchanged if and
only if the name is all blank or does not start with a blank; and a file does not store a name
beyond its buffer if and only if the pattern does not read more than 127 bytes of it. -/
theorem config_spec {name : Bytes} (hname : ConfigName name) (baseId baseId' : Int32)
    (baseIds : List Int32) (text : Bytes) :
    ((tpbRafConfigGetBaseId (some (setBaseIds (configText name baseId) (baseId' :: baseIds))) =
          ((baseId' :: baseIds).getLast (List.cons_ne_nil _ _)).toInt ∧
        setBaseIds (configText name baseId) (baseId' :: baseIds) =
          configText name ((baseId' :: baseIds).getLast (List.cons_ne_nil _ _))) ↔
      (∀ b, name.head? = some b → isspace b = false) ∨ ∀ b ∈ name, isspace b = true) ∧
    ((∀ stored ∈ (sfReadConfigName 128 (some text)).2, stored.length ≤ 128) ↔
      ∀ line name, nameSource text = some line → scannedName (cstr line) = some name →
        name.length ≤ 127) := by
  refine ⟨?_, stores_le_iff text⟩
  rw [setBaseIds_configText hname, getBaseId_configText hname.readBack, eq_self, true_and,
    ← readBack_eq_self_iff]
  constructor
  · exact configText_inj
  · intro h
    rw [h]

/-- A name without blanks in front is kept, and a short one fits. -/
theorem default_kept :
    ((tpbRafConfigGetBaseId (some (setBaseIds (configText [97, 32] 1) [5, -2])) =
          (([5, -2] : List Int32).getLast (List.cons_ne_nil _ _)).toInt ∧
        setBaseIds (configText [97, 32] 1) [5, -2] =
          configText [97, 32] (([5, -2] : List Int32).getLast (List.cons_ne_nil _ _))) ↔
      (∀ b, [97, 32].head? = some b → isspace b = false) ∨ ∀ b ∈ [97, 32], isspace b = true) ∧
    ((∀ stored ∈ (sfReadConfigName 128 (some [])).2, stored.length ≤ 128) ↔
      ∀ line name, nameSource [] = some line → scannedName (cstr line) = some name →
        name.length ≤ 127) :=
  config_spec ⟨by decide, by decide, by decide, by decide⟩ 1 5 [-2] []

/-- The blank in front of a name is lost, and a name of 200 bytes is stored in the buffer of 128. -/
theorem blank_lost_and_name_overflows :
    setBaseIds (configText [32, 97] 1) [2] ≠ configText [32, 97] 2 ∧
      ∃ stored ∈ (sfReadConfigName 128 (some (configText (List.replicate 200 97) 1))).2,
        128 < stored.length := by
  constructor
  · have hname : ConfigName [32, 97] := ⟨by decide, by decide, by decide, by decide⟩
    intro h
    rw [setBaseIds_configText hname] at h
    exact absurd (configText_inj h) (by decide)
  · have hmem (b : UInt8) (hb : b ≠ 97) : b ∉ List.replicate 200 97 := fun h =>
      hb (List.eq_of_mem_replicate h)
    have hfront : (List.replicate 200 (97 : UInt8)).dropWhile isspace = List.replicate 200 97 := by
      rw [List.replicate_succ]
      exact List.dropWhile_cons_of_neg (by decide)
    have hread := @findSome_nameFromLine _ 1 (hmem 34 (by decide)) (hmem newline (by decide))
      (hmem 0 (by decide)) (by rw [List.length_replicate]; omega)
      (.inr (by rw [hfront]; exact List.cons_ne_nil _ _))
    refine ⟨List.replicate 200 97 ++ [0], ?_,
      by rw [List.length_append, List.length_replicate]; decide⟩
    rw [sfReadConfigName, if_neg (by decide)]
    simp only [hread, readBack, hfront, ite_self]
    exact List.mem_cons_of_mem _ List.mem_cons_self

end TPBench.Config
