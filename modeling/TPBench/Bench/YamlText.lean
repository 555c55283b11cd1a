import TPBench.Bench.Yaml

/-!
# Benchmark Files and What They Say

A benchmark file in the layout of the ones that come with the program has the name and the note of
the benchmark, a list of batches and a list of scores. `Document` is such a file without its
layout: properties in any order, values that are plain or quoted, and lists of outputs and of
references. `Document.lines` writes it, `Document.bench` is what it says: the last value of every
property, and all elements of the lists.

The lines of a document are of three kinds: a key with a value, a key alone, and an item of a list.
What the loader makes of them is said once for each (`parseLine_keyText`, `parseLine_bareKey`,
`parseLine_dashText`).
-/

open CFile

namespace TPBench.Yaml

/-! ### Values -/

/-- A value as it is written: plain, or between quotes. -/
inductive Scalar
  | plain (value : Bytes)
  | quoted (quote : UInt8) (value : Bytes)
  deriving DecidableEq, Repr

/-- The text of a value. -/
def Scalar.text : Scalar → Bytes
  | plain value => value
  | quoted quote value => quote :: value ++ [quote]

/-- What a text stands for. -/
def Scalar.value : Scalar → Bytes
  | plain value => value
  | quoted _ value => value

/-- The byte is one of the two quotes. -/
def IsQuote (quote : UInt8) : Prop := quote = 34 ∨ quote = 39

instance (quote : UInt8) : Decidable (IsQuote quote) := inferInstanceAs (Decidable (_ ∨ _))

/-- A value that can be written like this: a plain one is not empty, does not start with a blank or
a quote, and does not end with a blank. -/
def Scalar.Readable : Scalar → Prop
  | plain value => (∃ b, value.head? = some b ∧ isspace b = false ∧ ¬IsQuote b) ∧
      ∃ b, value.getLast? = some b ∧ isspace b = false
  | quoted quote _ => IsQuote quote

/-! ### Documents -/

/-- An output of a batch, with the quote and the blanks it is written with. -/
structure Output where
  quote : UInt8
  gap : Bytes
  name : Bytes
  reducer : Bytes
  deriving DecidableEq, Repr

/-- What an output says. -/
def Output.spec (o : Output) : VSpec := ⟨o.name, o.reducer⟩

/-- The text of an output, a pair. -/
def Output.text (o : Output) : Bytes := pairText o.quote o.gap (o.name, o.reducer)

/-- An output that can be written like this. -/
structure Output.Readable (o : Output) : Prop where
  quote : IsQuote o.quote
  gap : ∀ b ∈ o.gap, isspace b
  name : o.quote ∉ o.name ∧ o.name.length ≤ 255
  reducer : o.quote ∉ o.reducer ∧ o.reducer.length ≤ 31

/-- A property of a batch. -/
inductive BatchField
  | text (f : BatchText) (value : Scalar)
  | kargs (quote : UInt8) (gap : Bytes) (kvs : List (Bytes × Bytes))
  | v (outputs : List Output)

/-- A property of a score. -/
inductive ScoreField
  | text (f : ScoreText) (value : Scalar)
  | display (n : ℕ)
  | args (quote : UInt8) (refs : List Bytes)

/-- The texts of a benchmark. -/
inductive BenchText
  | name
  | note
  deriving DecidableEq, Repr

/-- The key of a text of a benchmark. -/
def BenchText.key : BenchText → Bytes
  | name => ascii "name".toList
  | note => ascii "note".toList

/-- The bytes of its array, without the one of the terminator. -/
def BenchText.room : BenchText → ℕ
  | name => 255
  | note => 1023

/-- A batch: its id and its other properties. -/
structure BatchItem where
  id : Scalar
  fields : List BatchField

/-- A score: its id and its other properties. -/
structure ScoreItem where
  id : Scalar
  fields : List ScoreField

/-- A benchmark file without its layout. -/
structure Document where
  header : List (BenchText × Scalar)
  batches : List BatchItem
  scores : List ScoreItem

/-! ### What a document says -/

/-- What the last element of a list with a value says. -/
def lastOf {α β : Type} (f : α → Option β) (l : List α) : Option β := (l.filterMap f).getLast?

/-- The value of a text, if this is the one. -/
def BatchField.value (f : BatchText) : BatchField → Option Bytes
  | text g value => if g = f then some value.value else none
  | _ => none

/-- The arguments of the kernel, if these are. -/
def BatchField.pairs : BatchField → Option (List (Bytes × Bytes))
  | kargs _ _ kvs => some kvs
  | _ => none

/-- The outputs that are listed. -/
def BatchField.outputs : BatchField → List VSpec
  | v outputs => outputs.map Output.spec
  | _ => []

/-- The value of a text, if this is the one. -/
def ScoreField.value (f : ScoreText) : ScoreField → Option Bytes
  | text g value => if g = f then some value.value else none
  | _ => none

/-- The display, if this is. -/
def ScoreField.shown : ScoreField → Option ℤ
  | display n => some n
  | _ => none

/-- The references that are listed. -/
def ScoreField.refs : ScoreField → List Bytes
  | args _ refs => refs
  | _ => []

/-- The last arguments of a list of properties. -/
def pairsOf (fields : List BatchField) : List (Bytes × Bytes) :=
  (lastOf BatchField.pairs fields).getD []

/-- What the properties of a batch say. -/
def batchOf (fields : List BatchField) : Batch where
  id := (lastOf (BatchField.value .id) fields).getD []
  note := (lastOf (BatchField.value .note) fields).getD []
  kernel := (lastOf (BatchField.value .kernel) fields).getD []
  kargs := joinSep 58 ((pairsOf fields).map kargEntry)
  kenvs := (lastOf (BatchField.value .kenvs) fields).getD []
  wrapper := (lastOf (BatchField.value .wrapper) fields).getD []
  wrapperArgs := (lastOf (BatchField.value .wrapperArgs) fields).getD []
  vspecs := fields.flatMap BatchField.outputs

/-- What the properties of a score say. -/
def scoreOf (fields : List ScoreField) : Score where
  id := (lastOf (ScoreField.value .id) fields).getD []
  name := (lastOf (ScoreField.value .name) fields).getD []
  display := (lastOf ScoreField.shown fields).getD 1
  modifier := (lastOf (ScoreField.value .modifier) fields).getD []
  args := fields.flatMap ScoreField.refs

/-- The properties of a batch, with its id as the first one. -/
def BatchItem.all (b : BatchItem) : List BatchField := .text .id b.id :: b.fields

/-- The properties of a score, with its id as the first one. -/
def ScoreItem.all (c : ScoreItem) : List ScoreField := .text .id c.id :: c.fields

/-- The last value of a text of a benchmark. -/
def headerText (f : BenchText) (header : List (BenchText × Scalar)) : Bytes :=
  (lastOf (fun p => if p.1 = f then some p.2.value else none) header).getD []

/-- What a document says. -/
def Document.bench (d : Document) : Bench where
  name := headerText .name d.header
  note := headerText .note d.header
  batches := d.batches.map fun b => batchOf b.all
  scores := d.scores.map fun c => scoreOf c.all

/-! ### The lines of a document -/

/-- The indentations of the keys, of the items and of the elements of their lists. An element is
not taken for an item. -/
structure Layout where
  key : ℕ
  item : ℕ
  element : ℕ
  item_lt : item + 2 < element

/-- A text behind so many blanks. -/
def indented (w : ℕ) (text : Bytes) : Bytes := List.replicate w 32 ++ text

/-- A key with a value. -/
def keyText (key : Bytes) (value : Scalar) : Bytes := key ++ 58 :: 32 :: value.text

/-- A key with nothing behind it. -/
def bareKey (key : Bytes) : Bytes := key ++ [58]

/-- An item of a list. -/
def dashText (item : Bytes) : Bytes := 45 :: 32 :: item

section Lines

variable (layout : Layout)

/-- The lines of a property of a batch. -/
def BatchField.lines : BatchField → List Bytes
  | text f value => [indented (layout.item + 2) (keyText f.key value)]
  | kargs quote gap kvs =>
      [indented (layout.item + 2) (keyText (ascii "kargs".toList)
        (.plain (arrayText quote gap kvs)))]
  | v outputs => indented (layout.item + 2) (bareKey (ascii ['v'])) ::
      outputs.map fun o => indented layout.element (dashText o.text)

/-- The lines of a property of a score. -/
def ScoreField.lines : ScoreField → List Bytes
  | text f value => [indented (layout.item + 2) (keyText f.key value)]
  | display n =>
      [indented (layout.item + 2)
        (keyText (ascii "display".toList) (.plain (formatD n)))]
  | args quote refs => indented (layout.item + 2) (bareKey (ascii "args".toList)) ::
      refs.map fun ref => indented layout.element (dashText (Scalar.quoted quote ref).text)

/-- The line that opens an item. -/
def idLine (id : Scalar) : Bytes := indented layout.item (dashText (keyText (ascii ['i', 'd']) id))

/-- The lines of a batch. -/
def BatchItem.lines (b : BatchItem) : List Bytes :=
  idLine layout b.id :: b.fields.flatMap (BatchField.lines layout)

/-- The lines of a score. -/
def ScoreItem.lines (c : ScoreItem) : List Bytes :=
  idLine layout c.id :: c.fields.flatMap (ScoreField.lines layout)

/-- The lines of a document. -/
def Document.lines (d : Document) : List Bytes :=
  bareKey (ascii "benchmark".toList) ::
    (d.header.map fun p => indented layout.key (keyText p.1.key p.2)) ++
    indented layout.key (bareKey (ascii "batch".toList)) ::
      d.batches.flatMap (BatchItem.lines layout) ++
    indented layout.key (bareKey (ascii "score".toList)) ::
      d.scores.flatMap (ScoreItem.lines layout)

end Lines

/-! ### Documents that fit -/

/-- A property that can be written, and fits the arrays of a batch. -/
def BatchField.Readable : BatchField → Prop
  | text f value => value.Readable ∧ value.value.length ≤ f.room
  | kargs quote gap kvs => IsQuote quote ∧ (∀ b ∈ gap, isspace b) ∧
      (∀ kv ∈ kvs, Quotable quote kv) ∧ (arrayText quote gap kvs).length ≤ 2047 ∧
      ∀ kv ∈ kvs.tail, kv.1.length + kv.2.length < 510
  | v outputs => ∀ o ∈ outputs, o.Readable

/-- A property that can be written, and fits the arrays of a score. -/
def ScoreField.Readable : ScoreField → Prop
  | text f value => value.Readable ∧ value.value.length ≤ f.room
  | display n => n < 2 ^ 31
  | args quote refs => IsQuote quote ∧ ∀ ref ∈ refs, quote ∉ ref ∧ ref.length ≤ 255

/-- A document that can be written, and fits the arrays of a benchmark. -/
structure Document.Readable (d : Document) : Prop where
  header : ∀ p ∈ d.header, p.2.Readable ∧ p.2.value.length ≤ p.1.room
  batches : d.batches.length ≤ maxBatches
  batchField : ∀ b ∈ d.batches, ∀ f ∈ b.all, f.Readable
  outputs : ∀ b ∈ d.batches, (b.fields.flatMap BatchField.outputs).length ≤ maxVspecs
  scores : d.scores.length ≤ maxScores
  scoreField : ∀ c ∈ d.scores, ∀ f ∈ c.all, f.Readable
  refs : ∀ c ∈ d.scores, (c.fields.flatMap ScoreField.refs).length ≤ maxArgs

/-! ### Lines -/

/-- A text that stands on a line: it starts with neither a blank nor the sign of a comment, and
does not end with a blank. -/
structure LineText (content : Bytes) : Prop where
  head : ∃ b, content.head? = some b ∧ isspace b = false ∧ b ≠ 35
  last : ∃ b, content.getLast? = some b ∧ isspace b = false
  zero : 0 ∉ content

section LineTexts

variable {content : Bytes} {n w : ℕ} {s : Scan}

theorem rdropWhile_of_getLast? {f : UInt8 → Bool} {l : Bytes} {b : UInt8}
    (h : l.getLast? = some b) (hb : f b = false) : l.rdropWhile f = l := by
  rw [List.rdropWhile_eq_self_iff]
  intro hne
  rw [List.getLast?_eq_some_getLast hne] at h
  rw [Option.some.inj h, hb]
  exact Bool.false_ne_true

theorem dropWhile_of_head? {f : UInt8 → Bool} {l : Bytes} {b : UInt8} (h : l.head? = some b)
    (hb : f b = false) : l.dropWhile f = l := by
  obtain ⟨l', rfl⟩ := List.head?_eq_some_iff.mp h
  exact List.dropWhile_cons_of_neg (by rw [hb]; exact Bool.false_ne_true)

/-- Trimming leaves a text that has no blank at its ends. -/
theorem trimWhitespace_eq_self {l : Bytes} (hhead : ∃ b, l.head? = some b ∧ isspace b = false)
    (hlast : ∃ b, l.getLast? = some b ∧ isspace b = false) : trimWhitespace l = l := by
  obtain ⟨b, hb, hspace⟩ := hhead
  obtain ⟨c, hc, hspace'⟩ := hlast
  rw [trimWhitespace, dropWhile_of_head? hb hspace, rdropWhile_of_getLast? hc hspace']

/-- The newline does not matter. -/
theorem parseLine_newline {line : Bytes} (hzero : 0 ∉ line) :
    parseLine n s (line ++ [newline]) = parseLine n s line := by
  have hcstr : cstr (line ++ [newline]) = line ++ [newline] := by
    refine cstr_of_not_mem ?_
    rw [List.mem_append, not_or, List.mem_singleton]
    exact ⟨hzero, by decide⟩
  have hcontent : lineContent (line ++ [newline]) = lineContent line := by
    rw [lineContent, lineContent, hcstr, cstr_of_not_mem hzero, trimWhitespace, trimWhitespace,
      List.dropWhile_append]
    split_ifs with hnil
    · rw [List.isEmpty_iff] at hnil
      rw [hnil]
      rfl
    · exact List.rdropWhile_concat_pos _ _ _ rfl
  have hindent : (line ++ [newline]).takeWhile (· = 32) = line.takeWhile (· = 32) := by
    rw [List.takeWhile_append]
    split_ifs with hall
    · rw [List.takeWhile_cons_of_neg (by decide), List.append_nil,
        (List.takeWhile_sublist _).eq_of_length hall]
    · rfl
  rw [parseLine, parseLine, significant, significant, hcontent, hcstr, hindent,
    cstr_of_not_mem hzero]

/-- Blank lines and comments are skipped. -/
theorem parseLine_of_not_significant {line : Bytes} (h : significant line = false) :
    parseLine n s line = some s := by
  rw [parseLine, if_pos (by rw [h]; exact Bool.false_ne_true)]

/-- What is skipped can be left out. -/
theorem foldlM_filter_significant (lines : List Bytes) (s : Scan) :
    lines.foldlM (parseLine n) s = (lines.filter significant).foldlM (parseLine n) s := by
  induction lines generalizing s with
  | nil => rfl
  | cons line lines ih =>
      cases h : significant line with
      | false =>
          rw [List.filter_cons_of_neg (by rw [h]; exact Bool.false_ne_true), List.foldlM_cons,
            parseLine_of_not_significant h, ← ih]
          rfl
      | true =>
          rw [List.filter_cons_of_pos h, List.foldlM_cons, List.foldlM_cons]
          exact congrArg _ (funext ih)

/-- The text behind the indentation is the text of the line. -/
theorem lineContent_indented (h : LineText content) :
    lineContent (indented w content) = content := by
  obtain ⟨⟨b, hb, hspace, -⟩, ⟨c, hc, hspace'⟩, hzero⟩ := h
  have hfront : 0 ∉ List.replicate w (32 : UInt8) := fun h =>
    absurd (List.eq_of_mem_replicate h) (by decide)
  have hline : 0 ∉ indented w content := by
    rw [indented, List.mem_append, not_or]
    exact ⟨hfront, hzero⟩
  rw [lineContent, cstr_of_not_mem hline, trimWhitespace, indented,
    List.dropWhile_append_of_pos fun x hx => by rw [List.eq_of_mem_replicate hx]; rfl,
    dropWhile_of_head? hb hspace, rdropWhile_of_getLast? hc hspace']

/-- **A line with a text** is read behind its indentation. -/
theorem parseLine_indented (h : LineText content) :
    parseLine n s (indented w content) =
      if (ascii "benchmark:".toList).isPrefixOf content then
        some { s with state := .benchmark }
      else if s.state = .root then some s
      else if content.head? = some 45 then some (listItem s w (listItemContent content))
      else (parseKeyValue content).elim (some s) fun kv => keyValue n s w kv.1 kv.2 := by
  have hcontent := lineContent_indented (w := w) h
  obtain ⟨⟨b, hb, hspace, hcomment⟩, -, hzero⟩ := h
  have hne : content ≠ [] := by
    rintro rfl
    cases hb
  have hsig : significant (indented w content) = true := by
    rw [significant, hcontent, hb]
    simp [hne, hcomment]
  have hindent : ((cstr (indented w content)).takeWhile (· = 32)).length = w := by
    have hline : 0 ∉ indented w content := by
      rw [indented, List.mem_append, not_or]
      exact ⟨fun h => absurd (List.eq_of_mem_replicate h) (by decide), hzero⟩
    have hstop : content.takeWhile (· = 32) = [] := by
      obtain ⟨l, rfl⟩ := List.head?_eq_some_iff.mp hb
      refine List.takeWhile_cons_of_neg ?_
      rw [decide_eq_true_eq]
      rintro rfl
      exact absurd hspace (by decide)
    rw [cstr_of_not_mem hline, indented, List.takeWhile_append_of_pos fun x hx => by
        rw [List.eq_of_mem_replicate hx]; rfl, hstop, List.append_nil, List.length_replicate]
  rw [parseLine, if_neg (by rw [hsig]; exact fun h => h rfl), hcontent, hindent]
  cases parseKeyValue content with
  | none => rfl
  | some kv => rfl

/-! ### Keys and values -/

/-- A key of a line: letters, and not that of the benchmark itself. -/
def PlainKey (key : Bytes) : Prop :=
  key ≠ [] ∧ (∀ b ∈ key, isalpha b ∨ b = 95) ∧ key.length ≤ 255 ∧
    key ≠ ascii "benchmark".toList

instance (key : Bytes) : Decidable (PlainKey key) :=
  decidable_of_iff (key ≠ [] ∧ (key.all fun b => isalpha b ∨ b = 95) ∧ key.length ≤ 255 ∧
    key ≠ ascii "benchmark".toList) (by simp [PlainKey])

/-- What a byte of a key is not. -/
theorem keyByte {b : UInt8} (h : isalpha b ∨ b = 95) :
    isspace b = false ∧ b ≠ 35 ∧ b ≠ 45 ∧ b ≠ 58 ∧ b ≠ 0 := by
  simp only [isalpha, isspace, decide_eq_true_eq, decide_eq_false_iff_not,
    ← UInt8.toNat_inj, UInt8.le_iff_toNat_le, UInt8.reduceToNat, ne_eq] at h ⊢
  omega

variable {key : Bytes}

/-- The key stands in front of the colon. -/
theorem parseKeyValue_key (hkey : PlainKey key) (rest : Bytes) :
    parseKeyValue (key ++ 58 :: rest) =
      some (key, stripQuotes (trimWhitespace ((rest.dropWhile (· = 32)).take 2047))) := by
  obtain ⟨hne, hbytes, hlen, -⟩ := hkey
  have hall : ∀ b ∈ key, decide (b ≠ 58) = true := fun b hb =>
    decide_eq_true (keyByte (hbytes b hb)).2.2.2.1
  have hfront : (key ++ 58 :: rest).takeWhile (· ≠ 58) = key := by
    rw [List.takeWhile_append_of_pos hall, List.takeWhile_cons_of_neg (by decide), List.append_nil]
  have hback : (key ++ 58 :: rest).dropWhile (· ≠ 58) = 58 :: rest := by
    rw [List.dropWhile_append_of_pos hall, List.dropWhile_cons_of_neg (by decide)]
  have htrim : trimWhitespace key = key := by
    refine trimWhitespace_eq_self ⟨_, List.head?_eq_some_head hne, ?_⟩
      ⟨_, List.getLast?_eq_some_getLast hne, ?_⟩
    · exact (keyByte (hbytes _ (List.head_mem hne))).1
    · exact (keyByte (hbytes _ (List.getLast_mem hne))).1
  simp only [parseKeyValue, if_pos (show 58 ∈ key ++ 58 :: rest by simp), hfront, hback,
    List.take_of_length_le hlen, htrim, List.drop_one, List.tail_cons]

/-- **A line with a key.** -/
theorem parseLine_key (hkey : PlainKey key) {rest : Bytes} (hroot : s.state ≠ .root)
    (hlast : ∃ b, (58 :: rest).getLast? = some b ∧ isspace b = false) (hzero : 0 ∉ rest) :
    parseLine n s (indented w (key ++ 58 :: rest)) =
      keyValue n s w key (stripQuotes (trimWhitespace ((rest.dropWhile (· = 32)).take 2047))) := by
  obtain ⟨hne, hbytes, -, hbench⟩ := id hkey
  have hhead := keyByte (hbytes _ (List.head_mem hne))
  have hfirst : (key ++ 58 :: rest).head? = some (key.head hne) := by
    rw [List.head?_append, List.head?_eq_some_head hne]
    rfl
  have hline : LineText (key ++ 58 :: rest) := by
    refine ⟨⟨_, hfirst, hhead.1, hhead.2.1⟩, ?_, ?_⟩
    · rwa [List.getLast?_append_of_ne_nil _ (List.cons_ne_nil _ _)]
    · rw [List.mem_append, List.mem_cons, not_or, not_or]
      exact ⟨fun h => (keyByte (hbytes 0 h)).2.2.2.2 rfl, by decide, hzero⟩
  have hprefix : ¬(ascii "benchmark:".toList).isPrefixOf
      (key ++ 58 :: rest) = true := by
    rw [List.isPrefixOf_iff_prefix]
    rintro ⟨t, ht⟩
    have hfront := congrArg (List.takeWhile (· ≠ 58)) ht
    rw [List.takeWhile_append_of_pos fun b hb =>
      decide_eq_true (keyByte (hbytes b hb)).2.2.2.1, List.takeWhile_cons_of_neg (by decide),
      List.append_nil] at hfront
    exact hbench hfront.symm
  rw [parseLine_indented hline, if_neg hprefix, if_neg hroot, hfirst,
    if_neg fun h => hhead.2.2.1 (Option.some.inj h), parseKeyValue_key hkey, Option.elim_some]

/-- A value is read as what it stands for. -/
theorem value_text {value : Scalar} (h : value.Readable) (hlen : value.text.length ≤ 2047) :
    stripQuotes (trimWhitespace (((32 :: value.text).dropWhile (· = 32)).take 2047)) =
      value.value := by
  cases value with
  | plain v =>
      obtain ⟨⟨b, hb, hspace, hquote⟩, hlast⟩ := h
      have hb' : decide (b = 32) = false := decide_eq_false fun h => by
        rw [h] at hspace
        exact absurd hspace (by decide)
      rw [Scalar.text] at hlen
      rw [List.dropWhile_cons_of_pos (by decide), Scalar.text, Scalar.value,
        dropWhile_of_head? hb hb', List.take_of_length_le hlen,
        trimWhitespace_eq_self ⟨b, hb, hspace⟩ hlast, stripQuotes, if_neg ?_]
      rintro ⟨-, ⟨h, -⟩ | ⟨h, -⟩⟩
      · exact hquote (.inl (Option.some.inj (hb.symm.trans h)))
      · exact hquote (.inr (Option.some.inj (hb.symm.trans h)))
  | quoted quote v =>
      have hspace : isspace quote = false := by
        rcases h with rfl | rfl
        · rfl
        · rfl
      have hb' : decide (quote = 32) = false := decide_eq_false fun h => by
        rw [h] at hspace
        exact absurd hspace (by decide)
      have hhead : (quote :: v ++ [quote]).head? = some quote := rfl
      have hlast : (quote :: v ++ [quote]).getLast? = some quote := List.getLast?_concat
      rw [Scalar.text] at hlen
      rw [List.dropWhile_cons_of_pos (by decide), Scalar.text, Scalar.value,
        dropWhile_of_head? hhead hb', List.take_of_length_le hlen,
        trimWhitespace_eq_self ⟨quote, hhead, hspace⟩ ⟨quote, hlast, hspace⟩, stripQuotes,
        hhead, hlast, if_pos ?_]
      · rw [List.cons_append, List.tail_cons, List.dropLast_concat]
      · refine ⟨by simp, ?_⟩
        rcases h with rfl | rfl
        · exact .inl ⟨rfl, rfl⟩
        · exact .inr ⟨rfl, rfl⟩

/-- The text of a value ends with no blank. -/
theorem getLast?_text {value : Scalar} (h : value.Readable) :
    ∃ b, value.text.getLast? = some b ∧ isspace b = false := by
  cases value with
  | plain v => exact h.2
  | quoted quote v =>
      refine ⟨quote, List.getLast?_concat, ?_⟩
      rcases h with rfl | rfl
      · rfl
      · rfl

/-- **A line with a key and a value.** -/
theorem parseLine_keyText (hkey : PlainKey key) {value : Scalar} (hvalue : value.Readable)
    (hlen : value.text.length ≤ 2047) (hzero : 0 ∉ value.text) (hroot : s.state ≠ .root) :
    parseLine n s (indented w (keyText key value)) = keyValue n s w key value.value := by
  obtain ⟨b, hb, hspace⟩ := getLast?_text hvalue
  have hne : value.text ≠ [] := by
    intro h
    rw [h] at hb
    cases hb
  rw [keyText, parseLine_key hkey hroot ⟨b, ?_, hspace⟩ ?_, value_text hvalue hlen]
  · rw [List.getLast?_cons_of_ne_nil (List.cons_ne_nil _ _), List.getLast?_cons_of_ne_nil hne, hb]
  · rw [List.mem_cons, not_or]
    exact ⟨by decide, hzero⟩

/-- **A line with a key alone.** -/
theorem parseLine_bareKey (hkey : PlainKey key) (hroot : s.state ≠ .root) :
    parseLine n s (indented w (bareKey key)) = keyValue n s w key [] := by
  rw [bareKey, parseLine_key hkey hroot ⟨58, rfl, rfl⟩ List.not_mem_nil]
  rfl

/-- **A line with an item.** -/
theorem parseLine_dashText {item : Bytes} (hhead : ∃ b, item.head? = some b ∧ b ≠ 32)
    (hlast : ∃ b, item.getLast? = some b ∧ isspace b = false) (hzero : 0 ∉ item)
    (hroot : s.state ≠ .root) :
    parseLine n s (indented w (dashText item)) = some (listItem s w item) := by
  obtain ⟨b, hb, hspace⟩ := hhead
  obtain ⟨c, hc, hspace'⟩ := hlast
  have hne : item ≠ [] := by
    rintro rfl
    cases hb
  have hline : LineText (dashText item) := by
    refine ⟨⟨45, rfl, rfl, by decide⟩, ⟨c, ?_, hspace'⟩, ?_⟩
    · rw [dashText, List.getLast?_cons_of_ne_nil (List.cons_ne_nil _ _),
        List.getLast?_cons_of_ne_nil hne, hc]
    · rw [dashText, List.mem_cons, List.mem_cons, not_or, not_or]
      exact ⟨by decide, by decide, hzero⟩
  have hprefix : ¬(ascii "benchmark:".toList).isPrefixOf
      (dashText item) = true := by
    rw [List.isPrefixOf_iff_prefix]
    rintro ⟨t, ht⟩
    exact absurd (List.cons.inj ht).1 (by decide)
  have hitem : listItemContent (dashText item) = item := by
    rw [listItemContent, dashText, List.drop_one, List.tail_cons,
      List.dropWhile_cons_of_pos (by decide), dropWhile_of_head? hb (decide_eq_false hspace)]
  have hdash : (dashText item).head? = some 45 := rfl
  rw [parseLine_indented hline, if_neg hprefix, if_neg hroot, if_pos hdash, hitem]

end LineTexts

end TPBench.Yaml
