import TPBench.Rtenv.TemplateText

/-!
# A Template is Read Back

Which settings survive being written as a template and read again. The strings of the settings
are without newlines, quotes and blanks at their ends, and the fields between colons without
colons (`Templatable`). They are lost in these ways:

* Fields that are empty are dropped. An application without a version gets its note in place of
  the version, and of a value that is a search path the empty directories are missing.
* The reader has room for 64 fields, three of which are in front of the value.
* A line is read through a buffer of 4096 bytes, and what does not fit is read as another line.
* Of a line, carriage returns at its end are cut.
* The text of an environment to inherit from is not written when nothing is inherited.

`roundTrips_iff` says that there are no others.
-/

open CFile

namespace TPBench

/-! ### Reading back -/

/-- The strings of an application. -/
def RtenvApp.strings (a : RtenvApp) : Bytes × Bytes × Bytes :=
  (cstr a.name.toList, cstr a.version.toList, cstr a.note.toList)

/-- The same texts, applications and variables. -/
structure SameSettings (s t : RtenvSettings) : Prop where
  inheritFromText : cstr t.inheritFromText.toList = cstr s.inheritFromText.toList
  envName : cstr t.envName.toList = cstr s.envName.toList
  note : cstr t.note.toList = cstr s.note.toList
  apps : t.apps.map RtenvApp.strings = s.apps.map RtenvApp.strings
  vars : t.vars.map RtenvVar.envVar = s.vars.map RtenvVar.envVar

/-- The settings are written, and read into zeroed settings they are the same. -/
def RoundTrips (s : RtenvSettings) : Prop :=
  ∃ text t, tpbcliRtenvWriteTemplate s = some text ∧
    tpbcliRtenvParseTemplateFile (some text) .zero = .ok t ∧ SameSettings s t

/-! ### The settings that survive -/

/-- An application without a version has no note. -/
structure AppSurvives (a : RtenvApp) : Prop where
  version : cstr a.version.toList = [] → cstr a.note.toList = []
  note : EndsPlain (cstr a.note.toList)

/-- The segments of the value. -/
def RtenvVar.segs (v : RtenvVar) : List Bytes := segments fieldSep (cstr v.value.toList)

/-- The length of the line of a variable, without the newline. A field with a blank is quoted. -/
def lineLength (v : RtenvVar) : ℕ :=
  6 + (sfOnGetName v.onGet).length + (sfOnSetName v.onSet).length +
    (cstr v.key.toList).length +
    (v.segs.map fun p => p.length + if (32 : UInt8) ∈ p then 3 else 1).sum

/-- What stands at the end of the line without quotes. -/
def lineEnd (v : RtenvVar) : Bytes :=
  match v.segs.getLast? with
  | none => cstr v.key.toList
  | some p => if (32 : UInt8) ∈ p then [] else p

/-- The value has no empty segments and at most 61, and the line fits the buffer and does not end
in a carriage return. -/
structure VarSurvives (v : RtenvVar) : Prop where
  joined : joinSep fieldSep v.segs = cstr v.value.toList
  few : v.segs.length ≤ 61
  short : lineLength v ≤ 4095
  ends : EndsPlain (lineEnd v)

/-- Settings that survive. -/
structure Survives (s : RtenvSettings) : Prop where
  inheritFromText : if s.hasInherit then EndsPlain (cstr s.inheritFromText.toList)
    else cstr s.inheritFromText.toList = []
  envName : EndsPlain (cstr s.envName.toList)
  note : EndsPlain (cstr s.note.toList)
  apps : ∀ a ∈ s.apps, AppSurvives a
  vars : ∀ v ∈ s.vars, VarSurvives v

/-! ### Applications -/

/-- The fields that an application is read from. -/
def RtenvApp.reread (a : RtenvApp) : Bytes × Bytes × Bytes :=
  let note := sfRtrim (cstr a.note.toList)
  if cstr a.version.toList = [] then (cstr a.name.toList, note, [])
  else (cstr a.name.toList, cstr a.version.toList, note)

section Apps

variable {s : RtenvSettings} {a : RtenvApp}

/-- **An application is read back** when it has a version or no note, and its note does not end in
a carriage return. -/
theorem reread_eq_strings_iff (h : a.Templatable) : a.reread = a.strings ↔ AppSurvives a := by
  have htrim := sfRtrim_eq_self_iff h.note.text.line h.note.text.back
  rw [RtenvApp.reread, RtenvApp.strings]
  constructor
  · intro heq
    split_ifs at heq with hversion
    · rw [Prod.mk.injEq, Prod.mk.injEq] at heq
      obtain ⟨-, -, hnote⟩ := heq
      refine ⟨fun _ => hnote.symm, ?_⟩
      rw [← hnote]
      simp [EndsPlain]
    · rw [Prod.mk.injEq, Prod.mk.injEq] at heq
      exact ⟨fun hnil => absurd hnil hversion, htrim.mp heq.2.2⟩
  · rintro ⟨hversion, hends⟩
    split_ifs with hnil
    · rw [hversion hnil, hnil]
      rfl
    · rw [htrim.mpr hends]

/-- A character that is not in the fields. -/
theorem not_mem_fields {q : UInt8} {name version note : Bytes} (hq : q ≠ fieldSep)
    (hname : q ∉ name) (hversion : q ∉ version) (hnote : q ∉ note) :
    q ∉ name ++ fieldSep :: (version ++ fieldSep :: note) := by
  simp only [List.mem_append, List.mem_cons, not_or]
  exact ⟨hname, hq, hversion, hq, hnote⟩

/-- The fields of the line of an application. -/
theorem split_appLine (h : a.Templatable) :
    splitColonQuoted maxParts (sfRtrim (cstr a.name.toList ++ fieldSep ::
      (cstr a.version.toList ++ fieldSep :: cstr a.note.toList))) =
      cstr a.name.toList ::
        ((if cstr a.version.toList = [] then [] else [cstr a.version.toList]) ++
          if sfRtrim (cstr a.note.toList) = [] then [] else [sfRtrim (cstr a.note.toList)]) := by
  have hnote := (sfRtrim_isPrefix (cstr a.note.toList)).subset
  rw [sfRtrim_append_sep, sfRtrim_append_sep,
    splitColonQuoted_of_no_quotes
      (not_mem_fields (by decide) h.name.text.single h.version.text.single
        fun hmem => h.note.text.single (hnote hmem))
      (not_mem_fields (by decide) h.name.text.double h.version.text.double
        fun hmem => h.note.text.double (hnote hmem)),
    segments_append h.sep_name, if_neg h.name_ne_nil, segments_append h.sep_version,
    segments_of_not_mem fun hmem => h.sep_note (hnote hmem)]
  refine List.take_of_length_le ?_
  split_ifs
  all_goals simp [maxParts]

theorem readApplication_cons (hroom : s.apps.length < 32) (name : Bytes) (rest : List Bytes) :
    ∃ hle : (s.apps ++ [RtenvApp.of name (rest.getD 0 []) (rest.getD 1 [])]).length ≤ 32,
      readApplication (name :: rest) s =
        some { s with
          apps := s.apps ++ [RtenvApp.of name (rest.getD 0 []) (rest.getD 1 [])]
          napp_le := hle } := by
  refine ⟨by rw [List.length_append, List.length_singleton]; omega, ?_⟩
  rw [readApplication, RtenvSettings.addApp, dif_pos hroom]

/-- The line of an application is read as an application. -/
theorem exists_readText_app (h : a.Templatable) (hroom : s.apps.length < 32) :
    ∃ a' : RtenvApp, ∃ hle : (s.apps ++ [a']).length ≤ 32, a'.strings = a.reread ∧
      ∀ rest, readText (appLine a ++ rest) s =
        readText rest { s with apps := s.apps ++ [a'], napp_le := hle } := by
  have hword : SettingWord (ascii "application".toList) := .of_all (by decide)
  have hnamelen := h.name.length_lt
  have hversionlen := h.version.length_lt
  have hnotelen := h.note.length_lt
  -- the line is read in one piece
  have hread : ∀ rest, readText (appLine a ++ rest) s =
      (readApplication (splitColonQuoted maxParts (sfRtrim (cstr a.name.toList ++ fieldSep ::
        (cstr a.version.toList ++ fieldSep :: cstr a.note.toList)))) s).bind (readText rest) := by
    intro rest
    have hline := readText_setting hword
      (not_mem_fields (by decide) (not_zero_mem_cstr _) (not_zero_mem_cstr _)
        (not_zero_mem_cstr _))
      (not_mem_fields (by decide) h.name.text.line h.version.text.line h.note.text.line)
      (by
        simp only [List.length_append, List.length_cons,
          show (ascii "application".toList).length = 11 from rfl]
        omega) rest s
    have hsplit : appLine a ++ rest = ascii "application".toList ++ 61 ::
        (cstr a.name.toList ++ fieldSep ::
          (cstr a.version.toList ++ fieldSep :: cstr a.note.toList)) ++ newline :: rest := by
      rw [appLine, show ascii "application=".toList = ascii "application".toList ++ [61] from rfl]
      simp
    rw [hsplit, hline]
    rfl
  rw [split_appLine h] at hread
  obtain ⟨hle, happ⟩ := readApplication_cons hroom (cstr a.name.toList)
    ((if cstr a.version.toList = [] then [] else [cstr a.version.toList]) ++
      if sfRtrim (cstr a.note.toList) = [] then [] else [sfRtrim (cstr a.note.toList)])
  refine ⟨_, hle, ?_, fun rest => ?_⟩
  · have hname := h.name.cstr_snprintfS List.prefix_rfl
    have hversion := h.version.cstr_snprintfS List.prefix_rfl
    have hnote := h.note.cstr_snprintfS_sfRtrim
    have hnil : cstr (snprintfS 64 []).toList = [] := rfl
    rw [RtenvApp.strings, RtenvApp.of, RtenvApp.reread]
    split_ifs with hv hn
    all_goals simp_all
  · rw [hread, happ]
    rfl

/-- **The lines of the applications** are read as applications, and as nothing else. -/
theorem exists_readText_apps {as : List RtenvApp} (h : ∀ a ∈ as, a.Templatable)
    (hroom : s.apps.length + as.length ≤ 32) :
    ∃ new : List RtenvApp, ∃ hle : (s.apps ++ new).length ≤ 32,
      new.map RtenvApp.strings = as.map RtenvApp.reread ∧
      ∀ rest, readText (as.flatMap appLine ++ rest) s =
        readText rest { s with apps := s.apps ++ new, napp_le := hle } := by
  induction as generalizing s with
  | nil =>
      refine ⟨[], by simpa using hroom, rfl, fun rest => ?_⟩
      simp
  | cons a as ih =>
      rw [List.length_cons] at hroom
      obtain ⟨a', hle, hstrings, hread⟩ :=
        exists_readText_app (s := s) (h a (by simp)) (by omega)
      obtain ⟨new, hnew, hmap, hrest⟩ :=
        ih (s := { s with apps := s.apps ++ [a'], napp_le := hle })
          (fun x hx => h x (by simp [hx]))
          (by rw [List.length_append, List.length_singleton]; omega)
      have hsplit : s.apps ++ [a'] ++ new = s.apps ++ a' :: new := by simp
      refine ⟨a' :: new, by rw [← hsplit]; exact hnew, ?_, fun rest => ?_⟩
      · rw [List.map_cons, List.map_cons, hstrings, hmap]
      · rw [List.flatMap_cons, List.append_assoc, hread, hrest]
        simp only [hsplit]

end Apps

/-! ### Lines of variables -/

/-- What stands in front of the value. -/
def varHead (v : RtenvVar) : Bytes :=
  sfOnGetName v.onGet ++ fieldSep ::
    (sfOnSetName v.onSet ++ fieldSep :: cstr v.key.toList)

/-- The line of a variable, as it is written. -/
def templateVar (v : RtenvVar) : Bytes :=
  ascii "var".toList ++ 61 :: (varHead v ++ valueText (cstr v.value.toList)) ++ [newline]

section VarLines

variable {s t : RtenvSettings} {v : RtenvVar} {w : Bytes}

theorem SettingWord.not_mem (hw : SettingWord w) {b : UInt8} (hb : b.toNat < 95) : b ∉ w := by
  intro hmem
  have hletter := hw.letter b hmem
  omega

theorem SettingWord.field (hw : SettingWord w) : Field w :=
  ⟨hw.ne_nil, hw.not_mem (by decide), hw.not_mem (by decide), hw.not_mem (by decide)⟩

/-- The name of a mode is a word, and is read as the mode. -/
theorem sfOnGetName_word {onGet : UInt32} (h : IsOnGet onGet) :
    SettingWord (sfOnGetName onGet) ∧ (sfOnGetName onGet).length ≤ 9 ∧
      sfParseOnGet (sfOnGetName onGet) = some onGet := by
  rcases h with rfl | rfl | rfl | rfl
  all_goals exact ⟨.of_all (by decide), by decide, by decide⟩

theorem sfOnSetName_word {onSet : UInt32} (h : IsOnSet onSet) :
    SettingWord (sfOnSetName onSet) ∧ (sfOnSetName onSet).length ≤ 9 ∧
      sfParseOnSet (sfOnSetName onSet) = some onSet := by
  rcases h with rfl | rfl | rfl | rfl
  all_goals exact ⟨.of_all (by decide), by decide, by decide⟩

theorem length_varHead_le (h : v.Templatable) : (varHead v).length ≤ 275 := by
  have hget := (sfOnGetName_word h.onGet).2.1
  have hset := (sfOnSetName_word h.onSet).2.1
  have hkey := h.key.length_lt
  simp only [varHead, List.length_append, List.length_cons]
  omega

/-- Joined fields of a value fit where the value was. -/
theorem joinSep_valueParts_lt (h : PlainArr v.value) :
    (joinSep fieldSep (valueParts (cstr v.value.toList))).length < 4096 := by
  have hlen := h.length_lt
  by_cases hnil : valueParts (cstr v.value.toList) = []
  · rw [hnil]
    decide
  · have hsum : (joinSep fieldSep (valueParts (cstr v.value.toList))).length + 1 ≤
        (cstr v.value.toList).length + 1 :=
      calc (joinSep fieldSep (valueParts (cstr v.value.toList))).length + 1
          = ((valueParts (cstr v.value.toList)).map fun e => e.length + 1).sum :=
            length_joinSep fieldSep hnil
        _ ≤ ((segments fieldSep (cstr v.value.toList)).map fun e => e.length + 1).sum :=
            ((List.take_sublist _ _).map _).sum_le_sum fun _ _ => Nat.zero_le _
        _ ≤ (cstr v.value.toList).length + 1 := sum_length_segments_le _
    omega

/-- The line of a variable. -/
theorem varLine_eq (h : v.Templatable) :
    varLine v = some (templateVar v) := by
  have hsingle := h.value.text.single
  have hdouble := h.value.text.double
  have hparts : splitColonQuoted maxParts (cstr v.value.toList) =
      valueParts (cstr v.value.toList) := splitColonQuoted_of_no_quotes hsingle hdouble maxParts
  have hmem : ∀ q, q ≠ fieldSep → q ∉ cstr v.value.toList →
      q ∉ joinSep fieldSep (valueParts (cstr v.value.toList)) := by
    intro q hq hvalue hjoin
    rcases mem_joinSep hjoin with hsep | ⟨p, hp, hqp⟩
    · exact hq hsep
    · exact hvalue (mem_of_mem_segments (List.mem_of_mem_take hp) hqp)
  have hsegs : Segs fieldSep (valueParts (cstr v.value.toList)) := fun p hp =>
    segs_segments _ p (List.mem_of_mem_take hp)
  have hagain : splitColonQuoted maxParts
      (joinSep fieldSep (valueParts (cstr v.value.toList))) =
        valueParts (cstr v.value.toList) := by
    rw [splitColonQuoted_of_no_quotes (hmem 39 (by decide) hsingle)
      (hmem 34 (by decide) hdouble), segments_joinSep hsegs]
    exact List.take_of_length_le (List.length_take_le _ _)
  have hword : ascii "var=".toList = ascii "var".toList ++ [61] := rfl
  rw [varLine]
  simp only [hparts, hword]
  by_cases hnil : valueParts (cstr v.value.toList) = []
  · rw [if_pos hnil]
    simp [templateVar, varHead, valueText, hnil]
  · rw [if_neg hnil, sfJoinColonParts_eq (by decide), if_pos (joinSep_valueParts_lt h.value)]
    simp only [Option.bind_eq_bind, Option.bind_some, hagain]
    simp [templateVar, varHead, valueText]

/-- The characters of the text of a value. -/
theorem not_mem_valueText {q : UInt8} {value : Bytes} (hsep : q ≠ fieldSep) (hquote : q ≠ 39)
    (hvalue : q ∉ value) : q ∉ valueText value := by
  intro hmem
  obtain ⟨p, hp, hqp⟩ := List.mem_flatMap.mp hmem
  have hfield : q ∈ p := by
    rw [valueField] at hqp
    split_ifs at hqp
    · simpa [hsep, hquote] using hqp
    · simpa [hsep] using hqp
  exact hvalue (mem_of_mem_segments (List.mem_of_mem_take hp) hfield)

/-- The room in the buffer behind the key. -/
def valueRoom (v : RtenvVar) : ℕ := 4091 - (varHead v).length

/-- A line that fits the buffer is read in one piece. Of another one the front is read, and what
is read `next` is not the rest of the template. -/
theorem exists_readText_var (h : v.Templatable) (rest : Bytes) (s : RtenvSettings) :
    ∃ next, readText (templateVar v ++ rest) s =
          (readVar (splitColonQuoted maxParts (sfRtrim (varHead v ++
            (valueText (cstr v.value.toList)).take (valueRoom v)))) s).bind (readText next) ∧
      ((valueText (cstr v.value.toList)).length ≤ valueRoom v → next = rest) := by
  have hword : SettingWord (ascii "var".toList) := .of_all (by decide)
  have hvarlen : (ascii "var".toList).length = 3 := rfl
  have hhead := length_varHead_le h
  have hchar : ∀ q, q.toNat < 95 → q ≠ fieldSep → q ≠ 39 → q ∉ cstr v.key.toList →
      q ∉ cstr v.value.toList → q ∉ varHead v ++ valueText (cstr v.value.toList) := by
    intro q hq hsep hquote hkey hvalue
    rw [List.mem_append, not_or]
    exact ⟨not_mem_fields hsep ((sfOnGetName_word h.onGet).1.not_mem hq)
      ((sfOnSetName_word h.onSet).1.not_mem hq) hkey, not_mem_valueText hsep hquote hvalue⟩
  have hzero := hchar 0 (by decide) (by decide) (by decide) (not_zero_mem_cstr _)
    (not_zero_mem_cstr _)
  have hline := hchar newline (by decide) (by decide) (by decide) h.key.text.line
    h.value.text.line
  have hcut : varHead v ++ (valueText (cstr v.value.toList)).take (valueRoom v) <+:
      varHead v ++ valueText (cstr v.value.toList) :=
    (List.prefix_append_right_inj _).mpr (List.take_prefix _ _)
  by_cases hshort : (valueText (cstr v.value.toList)).length < valueRoom v
  · have hread := readText_setting hword hzero hline
      (by rw [hvarlen, List.length_append]; rw [valueRoom] at hshort; omega) rest s
    refine ⟨rest, ?_, fun _ => rfl⟩
    rw [templateVar, List.append_assoc, List.singleton_append, hread,
      List.take_of_length_le (Nat.le_of_lt hshort)]
    rfl
  · rw [not_lt] at hshort
    have hlen : (ascii "var".toList ++ 61 ::
        (varHead v ++ (valueText (cstr v.value.toList)).take (valueRoom v))).length = 4095 := by
      simp only [List.length_append, List.length_cons, List.length_take, hvarlen,
        Nat.min_eq_left hshort]
      rw [valueRoom]
      omega
    have hnewline : newline ∉ ascii "var".toList ++ 61 ::
        (varHead v ++ (valueText (cstr v.value.toList)).take (valueRoom v)) := by
      rw [List.mem_append, List.mem_cons, not_or, not_or]
      exact ⟨hword.not_mem (by decide), by decide, fun hmem => hline (hcut.subset hmem)⟩
    have hread : ∀ rest, readText (ascii "var".toList ++ 61 ::
        (varHead v ++ (valueText (cstr v.value.toList)).take (valueRoom v)) ++ rest) s =
          (readVar (splitColonQuoted maxParts (sfRtrim (varHead v ++
            (valueText (cstr v.value.toList)).take (valueRoom v)))) s).bind (readText rest) := by
      intro rest
      rw [readText_full hnewline hlen,
        readTemplateLine_setting hword fun hmem => hzero (hcut.subset hmem)]
      rfl
    have hsplit : templateVar v ++ rest =
        ascii "var".toList ++ 61 ::
          (varHead v ++ (valueText (cstr v.value.toList)).take (valueRoom v)) ++
            ((valueText (cstr v.value.toList)).drop (valueRoom v) ++ newline :: rest) := by
      have htext := List.take_append_drop (valueRoom v) (valueText (cstr v.value.toList))
      conv_lhs => rw [templateVar, ← htext]
      simp only [List.append_assoc, List.cons_append, List.nil_append]
    rw [hsplit, hread]
    by_cases hfull : (valueText (cstr v.value.toList)).length ≤ valueRoom v
    · refine ⟨rest, ?_, fun _ => rfl⟩
      rw [List.drop_of_length_le hfull, List.nil_append, funext (readText_newline rest)]
    · exact ⟨_, rfl, fun hle => absurd hle hfull⟩

end VarLines

/-! ### Variables -/

/-- What is read of the text of the value. -/
def varText (v : RtenvVar) : Bytes :=
  sfRtrim ((valueText (cstr v.value.toList)).take (valueRoom v))

/-- What is read of the key. It is at the end of the line when there is no value. -/
def readKey (v : RtenvVar) : Bytes :=
  if valueText (cstr v.value.toList) = [] then sfRtrim (cstr v.key.toList)
  else cstr v.key.toList

/-- What is read of the value. -/
def readValue (v : RtenvVar) : Bytes := joinSep fieldSep (splitColonQuoted 61 (varText v))

section Vars

variable {s t : RtenvSettings} {v : RtenvVar}

/-- The fields of a value start with a colon. -/
theorem valueText_eq (value : Bytes) :
    valueText value = [] ∨ ∃ text, valueText value = fieldSep :: text := by
  have hsep := @atSep_valueFields [] (valueParts value) (.inl rfl)
  rwa [List.append_nil] at hsep

theorem varText_isPrefix (v : RtenvVar) : varText v <+: valueText (cstr v.value.toList) :=
  (sfRtrim_isPrefix _).trans (List.take_prefix _ _)

theorem readKey_isPrefix (v : RtenvVar) : readKey v <+: cstr v.key.toList := by
  rw [readKey]
  split_ifs
  · exact sfRtrim_isPrefix _
  · exact List.prefix_rfl

/-- The line of a variable without its end. -/
theorem sfRtrim_varHead (h : v.Templatable) :
    sfRtrim (varHead v ++ (valueText (cstr v.value.toList)).take (valueRoom v)) =
      sfOnGetName v.onGet ++ fieldSep :: (sfOnSetName v.onSet ++ fieldSep ::
        (readKey v ++ varText v)) ∧
      AtSep (varText v) := by
  have hhead := length_varHead_le h
  obtain ⟨k, hk⟩ : ∃ k, valueRoom v = k + 1 := ⟨valueRoom v - 1, by rw [valueRoom]; omega⟩
  rcases valueText_eq (cstr v.value.toList) with hnil | ⟨text, htext⟩
  · have hvar : varText v = [] := by
      rw [varText, hnil, List.take_nil]
      rfl
    refine ⟨?_, .inl hvar⟩
    rw [hvar, readKey, if_pos hnil, hnil, List.take_nil, List.append_nil, List.append_nil, varHead,
      sfRtrim_append_sep, sfRtrim_append_sep]
  · have hvar : varText v = fieldSep :: sfRtrim (text.take k) := by
      rw [varText, htext, hk, List.take_succ_cons]
      exact sfRtrim_append_sep [] _
    refine ⟨?_, .inr ⟨_, hvar⟩⟩
    rw [hvar, readKey, if_neg (by rw [htext]; exact List.cons_ne_nil _ _), htext, hk,
      List.take_succ_cons, sfRtrim_append_sep, varHead]
    simp only [List.append_assoc, List.cons_append]

/-- The fields of the line of a variable. -/
theorem split_varLine (h : v.Templatable) :
    splitColonQuoted maxParts
        (sfRtrim (varHead v ++ (valueText (cstr v.value.toList)).take (valueRoom v))) =
      sfOnGetName v.onGet :: sfOnSetName v.onSet ::
        if readKey v = [] then [] else readKey v :: splitColonQuoted 61 (varText v) := by
  obtain ⟨htrim, hsep⟩ := sfRtrim_varHead h
  have hget := (sfOnGetName_word h.onGet).1.field
  have hset := (sfOnSetName_word h.onSet).1.field
  rw [htrim, maxParts, splitColonQuoted_plain hget (.inr ⟨_, rfl⟩), splitColonQuoted_sep,
    splitColonQuoted_plain hset (.inr ⟨_, rfl⟩), splitColonQuoted_sep]
  split_ifs with hkey
  · have hvar : varText v = [] := by
      have hnil : valueText (cstr v.value.toList) = [] := by
        by_contra hne
        rw [readKey, if_neg hne] at hkey
        exact h.key_ne_nil hkey
      rw [varText, hnil, List.take_nil]
      rfl
    rw [hkey, hvar]
    rfl
  · have hsub := (readKey_isPrefix v).subset
    have hfield : Field (readKey v) :=
      ⟨hkey, fun hmem => h.sep_key (hsub hmem), fun hmem => h.key.text.single (hsub hmem),
        fun hmem => h.key.text.double (hsub hmem)⟩
    rw [splitColonQuoted_plain hfield hsep]

theorem readVar_varLine (h : v.Templatable) (hkey : readKey v ≠ []) (s : RtenvSettings) :
    readVar (splitColonQuoted maxParts
        (sfRtrim (varHead v ++ (valueText (cstr v.value.toList)).take (valueRoom v)))) s =
      if (readValue v).length < 4096 then
        s.addVar (.of (readKey v) (readValue v) v.onSet v.onGet) else none := by
  rw [split_varLine h, if_neg hkey, readVar]
  rw [(sfOnGetName_word h.onGet).2.2, (sfOnSetName_word h.onSet).2.2,
    sfJoinColonParts_eq (by decide)]
  rw [readValue]
  split_ifs
  · rfl
  · rfl

/-- There are no terminators in what is read. -/
theorem not_zero_mem_readValue (v : RtenvVar) : 0 ∉ readValue v := by
  intro hmem
  have hsub := (flatten_splitColonQuoted_sublist 61 (varText v)).subset
  rcases mem_joinSep hmem with hsep | ⟨p, hp, hzero⟩
  · exact absurd hsep (by decide)
  · exact not_mem_valueText (by decide) (by decide) (not_zero_mem_cstr _)
      ((varText_isPrefix v).subset (hsub (List.mem_flatten.mpr ⟨p, hp, hzero⟩)))

/-- What is stored of a variable. -/
theorem envVar_of (h : v.Templatable) (hlen : (readValue v).length < 4096) :
    (RtenvVar.of (readKey v) (readValue v) v.onSet v.onGet).envVar = v.envVar ↔
      readKey v = cstr v.key.toList ∧ readValue v = cstr v.value.toList := by
  rw [RtenvVar.envVar, RtenvVar.of, RtenvVar.envVar, h.key.cstr_snprintfS (readKey_isPrefix v),
    cstr_snprintfS (not_zero_mem_readValue v) hlen]
  simp

/-- The fields of a line with at most as many segments as there is room for. -/
theorem lineLength_eq (h : PlainArr v.value) (hfew : v.segs.length ≤ 64) :
    lineLength v = 4 + (varHead v).length + (valueText (cstr v.value.toList)).length := by
  have hparts : valueParts (cstr v.value.toList) = v.segs := List.take_of_length_le hfew
  have hfields : ∀ p ∈ v.segs, fieldSep ∉ p := fun p hp =>
    (field_of_mem_segments h.text.single h.text.double p hp).sep
  have htext : (valueText (cstr v.value.toList)).length =
      (v.segs.map fun p => p.length + if (32 : UInt8) ∈ p then 3 else 1).sum := by
    rw [valueText, hparts, List.length_flatMap]
    refine congrArg List.sum (List.map_congr_left fun p hp => ?_)
    rw [valueField]
    have hsep := hfields p hp
    by_cases hblank : (32 : UInt8) ∈ p
    · rw [if_pos (.inr hblank), if_pos hblank]
      simp
    · rw [if_neg (by tauto), if_neg hblank]
      simp
  rw [lineLength, htext, varHead]
  simp only [List.length_append, List.length_cons]
  omega

/-- Without a carriage return the end of the line stays. -/
theorem sfRtrim_valueText_iff (h : PlainArr v.value)
    (hjoin : joinSep fieldSep v.segs = cstr v.value.toList) (hfew : v.segs.length ≤ 64)
    (hsegs : v.segs ≠ []) :
    sfRtrim (valueText (cstr v.value.toList)) = valueText (cstr v.value.toList) ↔
      EndsPlain (lineEnd v) := by
  have hparts : valueParts (cstr v.value.toList) = v.segs := List.take_of_length_le hfew
  obtain ⟨init, p, hsplit⟩ := (List.eq_nil_or_concat' v.segs).resolve_left hsegs
  have hp : p ∈ v.segs := by rw [hsplit]; simp
  have hfield := field_of_mem_segments h.text.single h.text.double p hp
  rw [valueText, hparts, lineEnd, hsplit, List.flatMap_append, List.flatMap_singleton,
    List.getLast?_concat, valueField]
  by_cases hblank : (32 : UInt8) ∈ p
  · -- the line ends in a quote
    rw [if_pos (.inr hblank)]
    refine iff_of_true ?_ ?_
    · have hconcat : init.flatMap valueField ++ (fieldSep :: 39 :: p ++ [39]) =
          init.flatMap valueField ++ fieldSep :: 39 :: p ++ [39] := by simp
      rw [hconcat]
      exact List.rdropWhile_concat_neg _ _ _ (by decide)
    · simp [hblank, EndsPlain]
  · rw [if_neg (by simp [hfield.sep, hblank]), sfRtrim_append_sep]
    simp only [if_neg hblank]
    rw [List.append_cancel_left_eq, List.cons.injEq, and_iff_right rfl]
    refine sfRtrim_eq_self_iff (fun hmem => h.text.line (mem_of_mem_segments hp hmem)) ?_
    have hlast : (cstr v.value.toList).getLast? = p.getLast? := by
      have hsegs' : Segs fieldSep (init ++ [p]) := by
        rw [← hsplit]
        exact segs_segments _
      have hinit : Segs fieldSep init := fun e he => hsegs' e (by simp [he])
      rw [← hjoin, hsplit, joinSep_concat hinit]
      split_ifs
      · exact List.getLast?_append_of_ne_nil _ hfield.ne_nil
      · exact List.getLast?_append_of_ne_nil _ hfield.ne_nil
    rw [← hlast]
    exact h.text.back

/-- **A variable is read back** exactly when it survives. -/
theorem varSurvives_iff (h : v.Templatable) :
    VarSurvives v ↔ readKey v = cstr v.key.toList ∧ readValue v = cstr v.value.toList := by
  have hvalue := join_split_eq_iff h.value.text.single h.value.text.double (varText_isPrefix v)
  have hhead := length_varHead_le h
  rw [readValue, hvalue]
  by_cases hsegs : v.segs = []
  · have htext : valueText (cstr v.value.toList) = [] := by
      rw [valueText, valueParts]
      change (v.segs.take maxParts).flatMap valueField = []
      rw [hsegs]
      rfl
    have hvar : varText v = [] := List.prefix_nil.mp (htext ▸ varText_isPrefix v)
    have htrim := sfRtrim_eq_self_iff h.key.text.line h.key.text.back
    have hend : lineEnd v = cstr v.key.toList := by
      rw [lineEnd, hsegs]
      rfl
    have hlen := lineLength_eq h.value (by rw [hsegs]; decide)
    rw [htext, List.length_nil] at hlen
    rw [readKey, if_pos htext, htrim, hvar, htext]
    constructor
    · rintro ⟨hjoin, hfew, -, hends⟩
      rw [hend] at hends
      exact ⟨hends, rfl, hjoin, hfew⟩
    · rintro ⟨hends, -, hjoin, hfew⟩
      rw [← hend] at hends
      exact ⟨hjoin, hfew, by omega, hends⟩
  · have htext : valueText (cstr v.value.toList) ≠ [] := by
      obtain ⟨p, ps, hsplit⟩ := List.exists_cons_of_ne_nil hsegs
      have hparts : valueParts (cstr v.value.toList) = p :: ps.take 63 := by
        change v.segs.take 64 = _
        rw [hsplit, List.take_succ_cons]
      rw [valueText, hparts, List.flatMap_cons, valueField]
      split_ifs
      · exact List.cons_ne_nil _ _
      · exact List.cons_ne_nil _ _
    have hkey : readKey v = cstr v.key.toList := if_neg htext
    rw [and_iff_right hkey]
    constructor
    · rintro ⟨hjoin, hfew, hshort, hends⟩
      have hlen := lineLength_eq h.value (by omega)
      refine ⟨?_, hjoin, hfew⟩
      rw [varText, List.take_of_length_le (by rw [valueRoom]; omega)]
      exact (sfRtrim_valueText_iff h.value hjoin (by omega) hsegs).mpr hends
    · rintro ⟨hvar, hjoin, hfew⟩
      have hfew' : v.segs.length ≤ 61 := hfew
      have hlen := lineLength_eq h.value (by omega)
      have hroom : (valueText (cstr v.value.toList)).length ≤ valueRoom v := by
        have hle := (sfRtrim_isPrefix
          ((valueText (cstr v.value.toList)).take (valueRoom v))).length_le
        rw [← varText, hvar, List.length_take] at hle
        omega
      refine ⟨hjoin, hfew, by rw [valueRoom] at hroom; omega, ?_⟩
      rw [varText, List.take_of_length_le hroom] at hvar
      exact (sfRtrim_valueText_iff h.value hjoin (by omega) hsegs).mp hvar

/-- A variable that survives is read back, and the line as nothing else. -/
theorem exists_readText_templateVar (h : v.Templatable) (hv : VarSurvives v)
    (hroom : s.vars.length < 128) :
    ∃ v' : RtenvVar, ∃ hle : (s.vars ++ [v']).length ≤ 128, v'.envVar = v.envVar ∧
      ∀ rest, readText (templateVar v ++ rest) s =
        readText rest { s with vars := s.vars ++ [v'], nenv_le := hle } := by
  obtain ⟨hkey, hvalue⟩ := (varSurvives_iff h).mp hv
  have hhead := length_varHead_le h
  have hlen : (readValue v).length < 4096 := by
    rw [hvalue]
    exact h.value.length_lt
  refine ⟨_, by rw [List.length_append, List.length_singleton]; omega,
    (envVar_of h hlen).mpr ⟨hkey, hvalue⟩, fun rest => ?_⟩
  obtain ⟨next, hread, hnext⟩ := exists_readText_var h rest s
  have hline := lineLength_eq h.value (by have := hv.few; omega)
  have hshort := hv.short
  rw [hread, hnext (by rw [valueRoom]; omega),
    readVar_varLine h (by rw [hkey]; exact h.key_ne_nil), if_pos hlen, RtenvSettings.addVar,
    dif_pos hroom]
  rfl

theorem vars_of_readApplication {parts : List Bytes} (hread : readApplication parts s = some t) :
    t.vars = s.vars := by
  rcases parts with - | ⟨name, rest⟩
  · cases hread
  · rw [readApplication, RtenvSettings.addApp] at hread
    split_ifs at hread with hroom
    obtain rfl := Option.some.inj hread
    rfl

theorem vars_prefix_of_readVar {parts : List Bytes} (hread : readVar parts s = some t) :
    s.vars <+: t.vars := by
  rw [readVar.eq_def] at hread
  split at hread
  · obtain ⟨onGet, -, hread⟩ := Option.bind_eq_some_iff.mp hread
    obtain ⟨onSet, -, hread⟩ := Option.bind_eq_some_iff.mp hread
    obtain ⟨value, -, hread⟩ := Option.bind_eq_some_iff.mp hread
    rw [RtenvSettings.addVar] at hread
    split_ifs at hread with hroom
    obtain rfl := Option.some.inj hread
    exact List.prefix_append _ _
  · cases hread

/-- Lines only add variables. -/
theorem vars_prefix_of_readTemplateLine {line : Bytes} (hread : readTemplateLine line s = some t) :
    s.vars <+: t.vars := by
  simp only [readTemplateLine] at hread
  split at hread
  · obtain rfl := Option.some.inj hread
    exact List.prefix_rfl
  · split at hread
    · cases hread
    · rw [readSetting] at hread
      split_ifs at hread with _ _ _ hrhs
      · obtain rfl := Option.some.inj hread
        exact List.prefix_rfl
      · obtain rfl := Option.some.inj hread
        exact List.prefix_rfl
      · obtain rfl := Option.some.inj hread
        exact List.prefix_rfl
      · obtain rfl := Option.some.inj hread
        exact List.prefix_rfl
      · rw [vars_of_readApplication hread]
      · exact vars_prefix_of_readVar hread

theorem vars_prefix_of_readText {text : Bytes} (hread : readText text s = some t) :
    s.vars <+: t.vars := by
  rw [readText] at hread
  generalize fgetsLines 4095 text = lines at hread
  induction lines generalizing s with
  | nil =>
      obtain rfl := Option.some.inj hread
      exact List.prefix_rfl
  | cons line lines ih =>
      rw [List.foldlM_cons] at hread
      obtain ⟨s', hline, hlines⟩ := Option.bind_eq_some_iff.mp hread
      exact (vars_prefix_of_readTemplateLine hline).trans (ih hlines)

/-- A variable that does not survive leaves another one in its place. -/
theorem exists_of_readText_templateVar (h : v.Templatable) {rest : Bytes}
    (hread : readText (templateVar v ++ rest) s = some t) :
    ∃ v' : RtenvVar, s.vars ++ [v'] <+: t.vars ∧ (v'.envVar = v.envVar → VarSurvives v) := by
  obtain ⟨next, hnext, -⟩ := exists_readText_var h rest s
  rw [hnext] at hread
  obtain ⟨s', hvar, hrest⟩ := Option.bind_eq_some_iff.mp hread
  have hprefix := vars_prefix_of_readText hrest
  by_cases hkey : readKey v = []
  · rw [split_varLine h, if_pos hkey] at hvar
    cases hvar
  · rw [readVar_varLine h hkey] at hvar
    split_ifs at hvar with hlen
    rw [RtenvSettings.addVar] at hvar
    split_ifs at hvar with hroom
    obtain rfl := Option.some.inj hvar
    exact ⟨_, hprefix, fun heq => (varSurvives_iff h).mpr ((envVar_of h hlen).mp heq)⟩

end Vars

/-! ### The lines of the variables -/

section AllVars

variable {s t : RtenvSettings} {vs : List RtenvVar}

theorem varLines_eq (h : ∀ v ∈ vs, v.Templatable) :
    varLines vs = some (vs.flatMap templateVar) := by
  induction vs with
  | nil => rfl
  | cons v vs ih =>
      rw [varLines, varLine_eq (h v (by simp)), ih fun x hx => h x (by simp [hx])]
      rfl

/-- **Variables that survive** are read back, and their lines as nothing else. -/
theorem exists_readText_vars (h : ∀ v ∈ vs, v.Templatable) (hvs : ∀ v ∈ vs, VarSurvives v)
    (hroom : s.vars.length + vs.length ≤ 128) :
    ∃ new : List RtenvVar, ∃ hle : (s.vars ++ new).length ≤ 128,
      new.map RtenvVar.envVar = vs.map RtenvVar.envVar ∧
      readText (vs.flatMap templateVar) s =
        some { s with vars := s.vars ++ new, nenv_le := hle } := by
  induction vs generalizing s with
  | nil =>
      refine ⟨[], by simpa using hroom, rfl, ?_⟩
      simp [readText, fgetsLines, fgetsFrom]
  | cons v vs ih =>
      rw [List.length_cons] at hroom
      obtain ⟨v', hle, hvar, hread⟩ :=
        exists_readText_templateVar (s := s) (h v (by simp)) (hvs v (by simp)) (by omega)
      obtain ⟨new, hnew, hmap, hrest⟩ :=
        ih (s := { s with vars := s.vars ++ [v'], nenv_le := hle })
          (fun x hx => h x (by simp [hx])) (fun x hx => hvs x (by simp [hx]))
          (by rw [List.length_append, List.length_singleton]; omega)
      have hsplit : s.vars ++ [v'] ++ new = s.vars ++ v' :: new := by simp
      refine ⟨v' :: new, by rw [← hsplit]; exact hnew, ?_, ?_⟩
      · rw [List.map_cons, List.map_cons, hvar, hmap]
      · rw [List.flatMap_cons, hread, hrest]
        simp only [hsplit]

/-- **Variables that are read back** survive. -/
theorem varSurvives_of_readText (h : ∀ v ∈ vs, v.Templatable)
    (hread : readText (vs.flatMap templateVar) s = some t)
    (heq : t.vars.map RtenvVar.envVar = s.vars.map RtenvVar.envVar ++ vs.map RtenvVar.envVar) :
    ∀ v ∈ vs, VarSurvives v := by
  induction vs generalizing s with
  | nil => simp
  | cons v vs ih =>
      rw [List.flatMap_cons] at hread
      obtain ⟨v', ⟨more, hmore⟩, hsame⟩ := exists_of_readText_templateVar (h v (by simp)) hread
      rw [← hmore, List.map_append, List.map_append, List.append_assoc, List.append_cancel_left_eq,
        List.map_cons, List.map_nil, List.singleton_append, List.map_cons, List.cons.injEq] at heq
      obtain ⟨hvar, hrest⟩ := heq
      have hv := hsame hvar
      have hroom : s.vars.length < 128 := by
        have hle := t.nenv_le
        rw [← hmore, List.length_append, List.length_append, List.length_singleton] at hle
        omega
      obtain ⟨v'', hle, hvar'', hline⟩ :=
        exists_readText_templateVar (s := s) (h v (by simp)) hv hroom
      rw [hline] at hread
      intro x hx
      rcases List.mem_cons.mp hx with rfl | hx
      · exact hv
      · refine ih (fun y hy => h y (by simp [hy])) hread ?_ x hx
        rw [← hmore, List.map_append, List.map_append, List.map_append, hrest, List.map_singleton,
          List.map_singleton, hvar, hvar'']

end AllVars

/-! ### The template -/

section Trip

variable {s : RtenvSettings}

/-- The text of a template. -/
theorem tpbcliRtenvWriteTemplate_eq (h : s.Templatable) :
    tpbcliRtenvWriteTemplate s = some (templateTop s ++ (s.apps.flatMap appLine ++
      (ascii "# Set environment variables and modes".toList ++ [newline] ++
        s.vars.flatMap templateVar))) := by
  rw [tpbcliRtenvWriteTemplate, varLines_eq h.vars, templateTop]
  simp only [Option.pure_def, Option.bind_eq_bind, Option.bind_some, List.append_assoc]

/-- A template is read up to its variables. -/
theorem exists_readText_template (h : s.Templatable) :
    ∃ t : RtenvSettings, (∀ text, tpbcliRtenvWriteTemplate s = some text →
        readText text .zero = readText (s.vars.flatMap templateVar) t) ∧
      t.vars = [] ∧ t.apps.map RtenvApp.strings = s.apps.map RtenvApp.reread ∧
      cstr t.inheritFromText.toList =
        (if s.hasInherit then sfRtrim (cstr s.inheritFromText.toList) else []) ∧
      cstr t.envName.toList = sfRtrim (cstr s.envName.toList) ∧
      cstr t.note.toList = sfRtrim (cstr s.note.toList) := by
  obtain ⟨t, htop, happs, hvars, htext, hname, hnote⟩ := exists_readText_top h
  obtain ⟨new, hle, hmap, hread⟩ :=
    exists_readText_apps (s := t) h.apps (by rw [happs]; simpa using s.napp_le)
  refine ⟨{ t with apps := t.apps ++ new, napp_le := hle }, ?_, hvars, ?_, htext, hname, hnote⟩
  · intro text hwrite
    rw [tpbcliRtenvWriteTemplate_eq h] at hwrite
    obtain rfl := Option.some.inj hwrite
    rw [htop, hread]
    rw [String.toList_ofList]
    exact readText_comment (by decide) (by decide) (by decide) _ _
  · change (t.apps ++ new).map RtenvApp.strings = _
    rw [happs, List.nil_append, hmap]

/-- The texts are read back when there is nothing to cut. -/
theorem inherit_eq_iff (h : s.Templatable) :
    (if s.hasInherit then sfRtrim (cstr s.inheritFromText.toList) else []) =
        cstr s.inheritFromText.toList ↔
      if s.hasInherit then EndsPlain (cstr s.inheritFromText.toList)
      else cstr s.inheritFromText.toList = [] := by
  by_cases hinherit : s.hasInherit = true
  · rw [if_pos hinherit, if_pos hinherit]
    exact sfRtrim_eq_self_iff h.inheritFromText.text.line h.inheritFromText.text.back
  · rw [if_neg hinherit, if_neg hinherit]
    exact eq_comm

/-- The applications are read back when each of them is. -/
theorem reread_apps_iff (h : s.Templatable) :
    s.apps.map RtenvApp.reread = s.apps.map RtenvApp.strings ↔
      ∀ a ∈ s.apps, AppSurvives a := by
  rw [List.map_inj_left]
  exact forall₂_congr fun a ha => reread_eq_strings_iff (h.apps a ha)

/-- Settings that are read back survive. -/
theorem RoundTrips.survives (h : s.Templatable) (htrip : RoundTrips s) : Survives s := by
  obtain ⟨t, htext, hvars, happs, hinherit, hname, hnote⟩ := exists_readText_template h
  obtain ⟨text, u, hwrite, hparse, hsame⟩ := htrip
  rw [tpbcliRtenvParseTemplateFile_eq_ok, htext text hwrite] at hparse
  have hvarsurvive := varSurvives_of_readText h.vars hparse (by rw [hsame.vars, hvars]; rfl)
  obtain ⟨new, hle, hmap, hread⟩ :=
    exists_readText_vars (s := t) h.vars hvarsurvive (by rw [hvars]; simpa using s.nenv_le)
  obtain rfl := Option.some.inj (hread.symm.trans hparse)
  refine ⟨(inherit_eq_iff h).mp (hinherit.symm.trans hsame.inheritFromText), ?_, ?_,
    (reread_apps_iff h).mp (happs.symm.trans hsame.apps), hvarsurvive⟩
  · exact (sfRtrim_eq_self_iff h.envName.text.line h.envName.text.back).mp
      (hname.symm.trans hsame.envName)
  · exact (sfRtrim_eq_self_iff h.note.text.line h.note.text.back).mp
      (hnote.symm.trans hsame.note)

/-- Settings that survive are read back. -/
theorem Survives.roundTrips (h : s.Templatable) (hs : Survives s) : RoundTrips s := by
  obtain ⟨t, htext, hvars, happs, hinherit, hname, hnote⟩ := exists_readText_template h
  have hwrite := tpbcliRtenvWriteTemplate_eq h
  obtain ⟨new, hle, hmap, hread⟩ :=
    exists_readText_vars (s := t) h.vars hs.vars (by rw [hvars]; simpa using s.nenv_le)
  have hparse := (tpbcliRtenvParseTemplateFile_eq_ok _).mpr ((htext _ hwrite).trans hread)
  refine ⟨_, _, hwrite, hparse, hinherit.trans ((inherit_eq_iff h).mpr hs.inheritFromText), ?_, ?_,
    happs.trans ((reread_apps_iff h).mpr hs.apps), ?_⟩
  · exact hname.trans ((sfRtrim_eq_self_iff h.envName.text.line h.envName.text.back).mpr hs.envName)
  · exact hnote.trans ((sfRtrim_eq_self_iff h.note.text.line h.note.text.back).mpr hs.note)
  · change (t.vars ++ new).map RtenvVar.envVar = _
    rw [hvars, List.nil_append, hmap]

end Trip

/-! ### Two templates -/

theorem plainArr_snprintfS {n : ℕ} {x : Bytes} (hzero : 0 ∉ x) (hlen : x.length < n)
    (h : PlainText x) : PlainArr (snprintfS n x) := by
  refine ⟨?_, ?_⟩
  · rw [toList_snprintfS hzero hlen]
    simp
  · rwa [cstr_snprintfS hzero hlen]

/-- A variable with two directories, one with a blank. -/
def pathVar : RtenvVar :=
  .of (ascii "PATH".toList) (ascii "/my tools:/bin".toList) tpbRtenvOnSetPrepend
    tpbRtenvOnGetWarn

/-- Settings with a compiler of a version, which has a note. -/
def compilerSettings (version : Bytes) : RtenvSettings where
  apps := [.of (ascii "gcc".toList) version (ascii "stable".toList)]
  vars := [pathVar]
  napp_le := by simp
  nenv_le := by simp
  envName := zeroArr 256
  note := zeroArr 256
  inheritFrom := 0
  hasInherit := false
  inheritFromText := zeroArr 256

theorem pathVar_value : cstr pathVar.value.toList = ascii "/my tools:/bin".toList :=
  cstr_snprintfS (by decide) (by decide)

theorem templatable_pathVar : pathVar.Templatable := by
  have hkey : cstr pathVar.key.toList = ascii "PATH".toList :=
    cstr_snprintfS (by decide) (by decide)
  refine ⟨plainArr_snprintfS (by decide) (by decide) (by decide),
    plainArr_snprintfS (by decide) (by decide) (by decide), ?_, ?_, .inr (.inr (.inl rfl)),
    .inr (.inl rfl)⟩
  · rw [hkey]
    decide
  · rw [hkey]
    decide

theorem varSurvives_pathVar : VarSurvives pathVar := by
  have hsegs : pathVar.segs = [ascii "/my tools".toList, ascii "/bin".toList] := by
    rw [RtenvVar.segs, pathVar_value]
    decide
  have hend : lineEnd pathVar = ascii "/bin".toList := by
    rw [lineEnd, hsegs]
    rfl
  refine ⟨?_, ?_, ?_, ?_⟩
  · rw [hsegs, pathVar_value]
    decide
  · rw [hsegs]
    decide
  · rw [lineLength, hsegs]
    decide
  · rw [hend]
    decide

theorem templatable_compilerSettings {version : Bytes} (hzero : 0 ∉ version)
    (hlen : version.length < 64) (hplain : PlainText version) (hsep : fieldSep ∉ version) :
    (compilerSettings version).Templatable := by
  have hnone : PlainArr (zeroArr 256) := ⟨by decide, by rw [cstr_zeroArr]; decide⟩
  have hname : cstr (snprintfS 64 (ascii "gcc".toList)).toList = ascii "gcc".toList :=
    cstr_snprintfS (by decide) (by decide)
  have hnote : cstr (snprintfS 64 (ascii "stable".toList)).toList = ascii "stable".toList :=
    cstr_snprintfS (by decide) (by decide)
  refine ⟨hnone, hnone, hnone, ?_, ?_⟩
  · intro a ha
    obtain rfl := List.mem_singleton.mp ha
    refine ⟨plainArr_snprintfS (by decide) (by decide) (by decide),
      plainArr_snprintfS hzero hlen hplain,
      plainArr_snprintfS (by decide) (by decide) (by decide), ?_, ?_, ?_, ?_⟩
    · rw [RtenvApp.of, hname]
      decide
    · rw [RtenvApp.of, hname]
      decide
    · rwa [RtenvApp.of, cstr_snprintfS hzero hlen]
    · rw [RtenvApp.of, hnote]
      decide
  · intro v hv
    obtain rfl := List.mem_singleton.mp hv
    exact templatable_pathVar

theorem survives_compilerSettings : Survives (compilerSettings (ascii "13".toList)) := by
  have hnone : cstr (zeroArr 256).toList = [] := cstr_zeroArr 256
  refine ⟨hnone, ?_, ?_, ?_, ?_⟩
  · rw [compilerSettings, hnone]
    decide
  · rw [compilerSettings, hnone]
    decide
  · intro a ha
    obtain rfl := List.mem_singleton.mp ha
    exact ⟨by decide, by decide⟩
  · intro v hv
    obtain rfl := List.mem_singleton.mp hv
    exact varSurvives_pathVar

end TPBench
