import TPBench.Rtenv.TemplateFields

/-!
# Lines of a Template

How a template is read line by line. A line with a setting does what its word says, with the
text behind the sign of equality (`readText_setting`), and of that text what `_sf_rtrim_inplace`
leaves: of a text without blanks at its ends only carriage returns are cut
(`sfRtrim_eq_self_iff`). The lines in front of the applications are read as the texts they were
written from (`exists_readText_top`).
-/

open CFile

namespace TPBench

/-! ### The settings that can be written -/

/-- A string without newlines, quotes and blanks at its ends. -/
structure PlainText (s : Bytes) : Prop where
  line : newline ∉ s
  single : 39 ∉ s
  double : 34 ∉ s
  front : ∀ b ∈ s.head?, isBlank b = false
  back : ∀ b ∈ s.getLast?, isBlank b = false

instance (s : Bytes) : Decidable (PlainText s) :=
  decidable_of_iff (newline ∉ s ∧ 39 ∉ s ∧ 34 ∉ s ∧ (s.head?.all fun b => !isBlank b) = true ∧
      (s.getLast?.all fun b => !isBlank b) = true)
    ⟨fun ⟨hline, hsingle, hdouble, hfront, hback⟩ =>
      ⟨hline, hsingle, hdouble, by simpa [Option.all_eq_true] using hfront,
        by simpa [Option.all_eq_true] using hback⟩,
    fun h => ⟨h.line, h.single, h.double, by simpa [Option.all_eq_true] using h.front,
      by simpa [Option.all_eq_true] using h.back⟩⟩

/-- An array with such a string, and with its terminator. -/
structure PlainArr {n : ℕ} (a : CArr n) : Prop where
  ends : 0 ∈ a.toList
  text : PlainText (cstr a.toList)

/-- An application with a name, and without colons. -/
structure RtenvApp.Templatable (a : RtenvApp) : Prop where
  name : PlainArr a.name
  version : PlainArr a.version
  note : PlainArr a.note
  name_ne_nil : cstr a.name.toList ≠ []
  sep_name : fieldSep ∉ cstr a.name.toList
  sep_version : fieldSep ∉ cstr a.version.toList
  sep_note : fieldSep ∉ cstr a.note.toList

/-- A variable with a key without colons, and with modes. -/
structure RtenvVar.Templatable (v : RtenvVar) : Prop where
  key : PlainArr v.key
  value : PlainArr v.value
  key_ne_nil : cstr v.key.toList ≠ []
  sep_key : fieldSep ∉ cstr v.key.toList
  onSet : IsOnSet v.onSet
  onGet : IsOnGet v.onGet

/-- Settings as the template is for. -/
structure RtenvSettings.Templatable (s : RtenvSettings) : Prop where
  inheritFromText : PlainArr s.inheritFromText
  envName : PlainArr s.envName
  note : PlainArr s.note
  apps : ∀ a ∈ s.apps, a.Templatable
  vars : ∀ v ∈ s.vars, v.Templatable

/-! ### Trimming -/

/-- There is no carriage return at the end. -/
def EndsPlain (s : Bytes) : Prop := s.getLast? ≠ some 13

instance (s : Bytes) : Decidable (EndsPlain s) := inferInstanceAs (Decidable (_ ≠ _))

section Trim

variable {s a b : Bytes}

theorem sfRtrim_newline (s : Bytes) : sfRtrim (s ++ [newline]) = sfRtrim s :=
  List.rdropWhile_concat_pos _ _ _ (by decide)

theorem sfRtrim_isPrefix (s : Bytes) : sfRtrim s <+: s := List.rdropWhile_prefix _ _

/-- Nothing in front of a colon is trimmed. -/
theorem sfRtrim_append_sep (a b : Bytes) :
    sfRtrim (a ++ fieldSep :: b) = a ++ fieldSep :: sfRtrim b := by
  induction b using List.reverseRecOn with
  | nil => exact List.rdropWhile_concat_neg _ _ _ (by decide)
  | append_singleton b d ih =>
      simp only [sfRtrim] at ih ⊢
      rw [show a ++ fieldSep :: (b ++ [d]) = (a ++ fieldSep :: b) ++ [d] by simp,
        List.rdropWhile_concat, ih, List.rdropWhile_concat]
      split_ifs
      · rfl
      · simp

/-- Of a text that does not end in a blank only carriage returns are trimmed. -/
theorem sfRtrim_eq_self_iff (hline : newline ∉ s) (hback : ∀ b ∈ s.getLast?, isBlank b = false) :
    sfRtrim s = s ↔ EndsPlain s := by
  rcases List.eq_nil_or_concat' s with rfl | ⟨t, d, rfl⟩
  · exact iff_of_true rfl (by simp [EndsPlain])
  · have hnewline : d ≠ newline := fun hd => hline (by simp [hd])
    have hblank : isBlank d = false := hback d (by simp)
    obtain ⟨hspace, htab⟩ : d ≠ 32 ∧ d ≠ 9 := by simpa [isBlank] using hblank
    rw [sfRtrim, List.rdropWhile_eq_self_iff, EndsPlain, List.getLast?_concat]
    simp [hnewline, hspace, htab]

end Trim

/-! ### Lines -/

/-- The lines of a text read one after the other. -/
def readText (text : Bytes) (s : RtenvSettings) : Option RtenvSettings :=
  (fgetsLines 4095 text).foldlM (fun s line => readTemplateLine line s) s

/-- The word in front of the sign of equality. -/
structure SettingWord (w : Bytes) : Prop where
  ne_nil : w ≠ []
  letter : ∀ b ∈ w, 95 ≤ b.toNat

/-- A literal word is one by a computation. -/
theorem SettingWord.of_all {w : Bytes}
    (h : (!w.isEmpty && w.all fun b => decide (95 ≤ b.toNat)) = true) : SettingWord w := by
  obtain ⟨hne, hall⟩ := Bool.and_eq_true_iff.mp h
  constructor
  · rintro rfl
    cases hne
  · intro b hb
    exact of_decide_eq_true (List.all_eq_true.mp hall b hb)

section Lines

variable {s t : RtenvSettings} {content w rhs rest : Bytes}

theorem readTemplateLines_eq_ok {lines : List Bytes} (ln : ℕ) :
    readTemplateLines ln lines s = .ok t ↔
      lines.foldlM (fun s line => readTemplateLine line s) s = some t := by
  induction lines generalizing s ln with
  | nil => simp [readTemplateLines]
  | cons line lines ih =>
      rw [readTemplateLines, List.foldlM_cons]
      cases hline : readTemplateLine line s with
      | none => simp
      | some s' => exact ih (ln + 1)

/-- A template is read when its lines are. -/
theorem tpbcliRtenvParseTemplateFile_eq_ok (text : Bytes) :
    tpbcliRtenvParseTemplateFile (some text) s = .ok t ↔ readText text s = some t :=
  readTemplateLines_eq_ok 0

theorem readText_line (hline : newline ∉ content) (hlen : content.length < 4095) (rest : Bytes)
    (s : RtenvSettings) :
    readText (content ++ newline :: rest) s =
      (readTemplateLine (content ++ [newline]) s).bind (readText rest) := by
  have hread := fgetsFrom_line hline [] rest (by simpa using hlen)
  rw [readText, fgetsLines, hread, List.foldlM_cons]
  rfl

/-- A line is cut where the buffer ends. -/
theorem readText_full (hline : newline ∉ content) (hlen : content.length = 4095) (rest : Bytes)
    (s : RtenvSettings) :
    readText (content ++ rest) s = (readTemplateLine content s).bind (readText rest) := by
  have hne : content ≠ [] := by
    rintro rfl
    simp at hlen
  have hread := fgetsFrom_full hline hne [] rest (by simpa using hlen)
  rw [readText, fgetsLines, hread, List.foldlM_cons]
  rfl

theorem readText_newline (rest : Bytes) (s : RtenvSettings) :
    readText (newline :: rest) s = readText rest s := by
  have hline := @readText_line [] List.not_mem_nil (by simp) rest s
  exact hline

/-- Comments are skipped. -/
theorem readText_comment (hhead : content.head? = some 35) (hline : newline ∉ content)
    (hlen : content.length < 4095) (rest : Bytes) (s : RtenvSettings) :
    readText (content ++ [newline] ++ rest) s = readText rest s := by
  obtain ⟨q, rfl⟩ := List.head?_eq_some_iff.mp hhead
  rw [List.append_assoc, List.singleton_append, readText_line hline hlen]
  rfl

/-- A line with a setting. -/
theorem readTemplateLine_setting (hw : SettingWord w) (hrhs : 0 ∉ rhs) (s : RtenvSettings) :
    readTemplateLine (w ++ 61 :: rhs) s = readSetting w (sfRtrim rhs) s := by
  have hchar : ∀ b ∈ w, b ≠ 0 ∧ b ≠ 61 ∧ b ≠ 32 ∧ b ≠ 9 ∧ b ≠ newline ∧ b ≠ 13 ∧ b ≠ 35 := by
    intro b hb
    have hletter := hw.letter b hb
    refine ⟨?_, ?_, ?_, ?_, ?_, ?_, ?_⟩
    all_goals
      rintro rfl
      exact absurd hletter (by decide)
  obtain ⟨c, q, rfl⟩ := List.exists_cons_of_ne_nil hw.ne_nil
  obtain ⟨-, -, hspace, htab, hnewline, -, hcomment⟩ := hchar c (by simp)
  have hcstr : cstr (c :: q ++ 61 :: rhs) = c :: q ++ 61 :: rhs := by
    refine cstr_of_not_mem ?_
    rw [List.mem_append, List.mem_cons (a := 0) (b := 61), not_or, not_or]
    exact ⟨fun h => (hchar 0 h).1 rfl, by decide, hrhs⟩
  have hall : ∀ b ∈ c :: q, decide (b ≠ 61) = true := fun b hb =>
    decide_eq_true (hchar b hb).2.1
  have htake : (c :: q ++ 61 :: rhs).takeWhile (· ≠ 61) = c :: q := by
    rw [List.takeWhile_append_of_pos hall]
    simp
  have hdrop : (c :: q ++ 61 :: rhs).dropWhile (· ≠ 61) = 61 :: rhs := by
    rw [List.dropWhile_append_of_pos hall]
    simp
  have htrim : sfRtrim (c :: q) = c :: q := by
    rw [sfRtrim, List.rdropWhile_eq_self_iff]
    intro hne
    obtain ⟨-, -, hspace, htab, hnewline, hreturn, -⟩ := hchar _ (List.getLast_mem hne)
    simp [hspace, htab, hnewline, hreturn]
  have hblank : (c :: q ++ 61 :: rhs).dropWhile isBlank = c :: q ++ 61 :: rhs :=
    List.dropWhile_cons_of_neg (by simp [isBlank, hspace, htab])
  rw [readTemplateLine, hcstr]
  simp only [hblank, htake, hdrop, htrim]
  rw [if_neg]
  simp [hcomment, hnewline]

/-- A line with a setting that fits the buffer. -/
theorem readText_setting (hw : SettingWord w) (hzero : 0 ∉ rhs) (hline : newline ∉ rhs)
    (hlen : w.length + 1 + rhs.length < 4095) (rest : Bytes) (s : RtenvSettings) :
    readText (w ++ 61 :: rhs ++ newline :: rest) s =
      (readSetting w (sfRtrim rhs) s).bind (readText rest) := by
  have hnewline : newline ∉ w ++ 61 :: rhs := by
    rw [List.mem_append, List.mem_cons, not_or, not_or]
    exact ⟨fun h => absurd (hw.letter _ h) (by decide), by decide, hline⟩
  rw [readText_line hnewline (by rw [List.length_append, List.length_cons]; omega),
    List.append_assoc, List.cons_append, readTemplateLine_setting hw, sfRtrim_newline]
  rw [List.mem_append, List.mem_singleton, not_or]
  exact ⟨hzero, by decide⟩

end Lines

/-! ### Texts of settings -/

section Texts

variable {n : ℕ} {a : CArr n} {p : Bytes}

theorem PlainArr.length_lt (h : PlainArr a) : (cstr a.toList).length < n := by
  obtain ⟨front, rest, hsplit⟩ := List.append_of_mem h.ends
  have hlen : (front ++ 0 :: rest).length = n := by rw [← hsplit, List.Vector.toList_length]
  rw [List.length_append, List.length_cons] at hlen
  have hfront : (cstr (front ++ 0 :: rest)).length ≤ front.length := by
    rw [cstr, List.takeWhile_append]
    split_ifs
    · rw [List.takeWhile_cons_of_neg (by simp), List.append_nil]
    · exact (List.takeWhile_sublist _).length_le
  rw [hsplit]
  omega

/-- A text of which the end was trimmed fits where the text was. -/
theorem PlainArr.cstr_snprintfS (h : PlainArr a) (hp : p <+: cstr a.toList) :
    cstr (snprintfS n p).toList = p := by
  have hlen := h.length_lt
  have hle := hp.length_le
  exact CFile.cstr_snprintfS (fun hz => not_zero_mem_cstr _ (hp.subset hz)) (by omega)

theorem PlainArr.cstr_snprintfS_sfRtrim (h : PlainArr a) :
    cstr (snprintfS n (sfRtrim (cstr a.toList))).toList = sfRtrim (cstr a.toList) :=
  h.cstr_snprintfS (sfRtrim_isPrefix _)

end Texts

/-! ### The head of a template -/

/-- The lines in front of the applications. -/
def templateTop (s : RtenvSettings) : Bytes :=
  templateHead ++
    (ascii "inherit_from=".toList ++
      (if s.hasInherit then cstr s.inheritFromText.toList else []) ++ [newline]) ++
    (if cstr s.envName.toList = [] then []
      else ascii "name=".toList ++ cstr s.envName.toList ++ [newline]) ++
    (if cstr s.note.toList = [] then []
      else ascii "note=".toList ++ cstr s.note.toList ++ [newline]) ++
    (ascii "# Set applications used in the run-time environment.".toList ++ [newline])

section Head

variable {s t u : RtenvSettings} {w : Bytes} {a : CArr 256}

/-- A line with a text. -/
theorem readText_arr (hw : SettingWord w) (hshort : w.length ≤ 16) (h : PlainArr a)
    (hset : readSetting w (sfRtrim (cstr a.toList)) t = some u) (rest : Bytes) :
    readText (w ++ [61] ++ cstr a.toList ++ [newline] ++ rest) t = readText rest u := by
  have hlen := h.length_lt
  have hread := readText_setting hw (not_zero_mem_cstr _) h.text.line (by omega) rest t
  have hsplit : w ++ [61] ++ cstr a.toList ++ [newline] ++ rest =
      w ++ 61 :: cstr a.toList ++ newline :: rest := by simp
  rw [hsplit, hread, hset]
  rfl

theorem cstr_zeroArr (n : ℕ) : cstr (zeroArr n).toList = [] := by
  cases n with
  | zero => rfl
  | succ n => rfl

/-- What the inherited environment is read as. -/
theorem exists_readText_inherit (h : PlainArr s.inheritFromText) :
    ∃ t, (∀ rest, readText (ascii "inherit_from=".toList ++
        (if s.hasInherit then cstr s.inheritFromText.toList else []) ++ [newline] ++ rest) .zero =
          readText rest t) ∧
      t.apps = [] ∧ t.vars = [] ∧ t.envName = zeroArr 256 ∧ t.note = zeroArr 256 ∧
      cstr t.inheritFromText.toList =
        if s.hasInherit then sfRtrim (cstr s.inheritFromText.toList) else [] := by
  have hword : SettingWord (ascii "inherit_from".toList) := .of_all (by decide)
  have hzero : PlainArr (zeroArr 256) := by
    refine ⟨by decide, ?_⟩
    rw [cstr_zeroArr]
    decide
  by_cases hinherit : s.hasInherit = true
  · rw [if_pos hinherit, if_pos hinherit]
    by_cases hnil : sfRtrim (cstr s.inheritFromText.toList) = []
    · refine ⟨.zero, fun rest => readText_arr hword (by decide) h ?_ rest, rfl, rfl, rfl, rfl, ?_⟩
      · rw [hnil]
        rfl
      · rw [hnil]
        exact cstr_zeroArr 256
    · refine ⟨RtenvSettings.zero.inherit (sfRtrim (cstr s.inheritFromText.toList)),
        fun rest => readText_arr hword (by decide) h ?_ rest, rfl, rfl, rfl, rfl,
        h.cstr_snprintfS_sfRtrim⟩
      change some (if _ then _ else _) = _
      rw [if_neg hnil]
  · rw [if_neg hinherit, if_neg hinherit]
    refine ⟨.zero, fun rest => ?_, rfl, rfl, rfl, rfl, cstr_zeroArr 256⟩
    have hread := readText_arr (t := .zero) (u := .zero) hword (by decide) hzero
      (by rw [cstr_zeroArr]; rfl) rest
    rw [cstr_zeroArr] at hread
    exact hread

/-- What a name is read as. -/
theorem exists_readText_name (h : PlainArr s.envName) (ht : t.envName = zeroArr 256) :
    ∃ name : CArr 256, cstr name.toList = sfRtrim (cstr s.envName.toList) ∧
      ∀ rest, readText ((if cstr s.envName.toList = [] then []
        else ascii "name=".toList ++ cstr s.envName.toList ++ [newline]) ++ rest) t =
          readText rest { t with envName := name } := by
  have hword : SettingWord (ascii "name".toList) := .of_all (by decide)
  by_cases hnil : cstr s.envName.toList = []
  · refine ⟨zeroArr 256, ?_, fun rest => ?_⟩
    · rw [hnil, cstr_zeroArr]
      rfl
    · rw [if_pos hnil, List.nil_append, ← ht]
  · refine ⟨_, h.cstr_snprintfS_sfRtrim, fun rest => ?_⟩
    rw [if_neg hnil]
    exact readText_arr hword (by decide) h rfl rest

/-- What a note is read as. -/
theorem exists_readText_note (h : PlainArr s.note) (ht : t.note = zeroArr 256) :
    ∃ note : CArr 256, cstr note.toList = sfRtrim (cstr s.note.toList) ∧
      ∀ rest, readText ((if cstr s.note.toList = [] then []
        else ascii "note=".toList ++ cstr s.note.toList ++ [newline]) ++ rest) t =
          readText rest { t with note := note } := by
  have hword : SettingWord (ascii "note".toList) := .of_all (by decide)
  by_cases hnil : cstr s.note.toList = []
  · refine ⟨zeroArr 256, ?_, fun rest => ?_⟩
    · rw [hnil, cstr_zeroArr]
      rfl
    · rw [if_pos hnil, List.nil_append, ← ht]
  · refine ⟨_, h.cstr_snprintfS_sfRtrim, fun rest => ?_⟩
    rw [if_neg hnil]
    exact readText_arr hword (by decide) h rfl rest

/-- The first line of a template is a comment. -/
theorem readText_templateHead (rest : Bytes) (s : RtenvSettings) :
    readText (templateHead ++ rest) s = readText rest s := by
  rw [templateHead, String.toList_append, String.toList_ofList, String.toList_ofList]
  exact readText_comment (by decide) (by decide) (by simp [ascii]) rest s

/-- The texts of a template are read without their ends. -/
theorem exists_readText_top (h : s.Templatable) :
    ∃ t, (∀ rest, readText (templateTop s ++ rest) .zero = readText rest t) ∧
      t.apps = [] ∧ t.vars = [] ∧
      cstr t.inheritFromText.toList =
        (if s.hasInherit then sfRtrim (cstr s.inheritFromText.toList) else []) ∧
      cstr t.envName.toList = sfRtrim (cstr s.envName.toList) ∧
      cstr t.note.toList = sfRtrim (cstr s.note.toList) := by
  obtain ⟨t, hinherit, happs, hvars, hname, hnote, htext⟩ :=
    exists_readText_inherit h.inheritFromText
  obtain ⟨name, hnametext, hreadname⟩ := exists_readText_name h.envName hname
  obtain ⟨note, hnotetext, hreadnote⟩ :=
    exists_readText_note (t := { t with envName := name }) h.note hnote
  refine ⟨{ t with envName := name, note := note }, fun rest => ?_, happs, hvars, htext,
    hnametext, hnotetext⟩
  have hhead := readText_templateHead
  have happ : ∀ rest s, readText
      (ascii "# Set applications used in the run-time environment.".toList ++ [newline] ++ rest) s =
        readText rest s := by
    rw [String.toList_ofList]
    exact readText_comment (by decide) (by decide) (by decide)
  simp only [templateTop, List.append_assoc] at hinherit hreadname hreadnote happ ⊢
  rw [hhead, hinherit, hreadname, hreadnote, happ]

end Head

end TPBench
