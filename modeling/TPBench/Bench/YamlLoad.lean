import Mathlib.Order.Filter.AtTopBot.Basic
import TPBench.Bench.YamlText

/-!
# Benchmark Files are Loaded as What They Say

The loader goes by lines, so that a state between two lines is all that has to be followed
(`Reads`). It is in a batch (`AtBatch`) or in front of one (`AtBatches`), and the same for scores;
every list of a document is read by one induction (`Reads.flatMap`). Blank lines and comments change
nothing, and may stand anywhere.

## Main results

* `document_loaded`: a file that consists of the lines of a document, and of blank lines and
  comments, is loaded as what the document says, and the arguments of its batches reach the runner.
-/

open CFile Filter

namespace TPBench.Yaml

/-! ### States of the loop -/

/-- The lines lead from one state of the loop to the other, with as many rounds for the arrays of
arguments as they take. -/
def Reads (s : Scan) (lines : List Bytes) (s' : Scan) : Prop :=
  ∀ᶠ n in atTop, lines.foldlM (parseLine n) s = some s'

section Reads

variable {s s₁ s' : Scan} {l : Bytes} {lines lines' : List Bytes}

theorem Reads.nil (s : Scan) : Reads s [] s := .of_forall fun _ => rfl

theorem Reads.append (h : Reads s lines s₁) (h' : Reads s₁ lines' s') :
    Reads s (lines ++ lines') s' := by
  filter_upwards [h, h'] with n hn hn'
  rw [List.foldlM_append, hn]
  exact hn'

theorem Reads.line (h : ∀ᶠ n in atTop, parseLine n s l = some s') : Reads s [l] s' := by
  filter_upwards [h] with n hn
  rw [List.foldlM_cons, hn]
  rfl

theorem Reads.cons (h : ∀ n, parseLine n s l = some s₁) (h' : Reads s₁ lines s') :
    Reads s (l :: lines) s' :=
  (Reads.line (.of_forall h)).append h'

/-- A list is read element by element: what holds of the elements behind, and of the state, is
carried on by each. -/
theorem Reads.flatMap {α : Type} {f : α → List Bytes} {l : List α} {P : List α → Scan → Prop}
    (hstep : ∀ done a rest s, done ++ a :: rest = l → P done s →
      ∃ s', Reads s (f a) s' ∧ P (done ++ [a]) s') (h : P [] s) :
    ∃ s', Reads s (l.flatMap f) s' ∧ P l s' := by
  suffices hrest : ∀ rest done s, done ++ rest = l → P done s →
      ∃ s', Reads s (rest.flatMap f) s' ∧ P l s' from hrest l [] s rfl h
  intro rest
  induction rest with
  | nil =>
      intro done s hdone hs
      rw [List.append_nil] at hdone
      exact ⟨s, Reads.nil s, hdone ▸ hs⟩
  | cons a rest ih =>
      intro done s hdone hs
      obtain ⟨s₁, hreads, h₁⟩ := hstep done a rest s hdone hs
      obtain ⟨s', hreads', h'⟩ := ih (done ++ [a]) s₁ (List.append_cons done a rest ▸ hdone) h₁
      exact ⟨s', hreads.append hreads', h'⟩

end Reads

/-! ### Arrays of arguments -/

section Kargs

variable {quote : UInt8} {gap : Bytes} {kvs : List (Bytes × Bytes)}

/-- More rounds do not change the end of the loop. -/
theorem kargsLoop_of_le {n m : ℕ} (hle : n ≤ m) {s s' : KargScan} (h : kargsLoop n s = some s') :
    kargsLoop m s = some s' := by
  induction n generalizing m s with
  | zero => cases h
  | succ n ih =>
      obtain ⟨m, rfl⟩ : ∃ m', m = m' + 1 := ⟨m - 1, by omega⟩
      rw [kargsLoop] at h ⊢
      split_ifs at h ⊢ with hstop
      · exact h
      · exact ih (Nat.le_of_succ_le_succ hle) h

/-- The arguments are shorter than the array they are written in. -/
theorem length_kargs_le (kvs : List (Bytes × Bytes)) :
    (joinSep 58 (kvs.map kargEntry)).length ≤ (arrayText quote gap kvs).length := by
  have hpair (kv : Bytes × Bytes) :
      (kargEntry kv).length + 1 ≤ (pairText quote gap kv).length := by
    simp only [kargEntry, pairText, List.length_append, List.length_cons, List.length_nil]
    omega
  have hpairs : (joinSep 58 (kvs.map kargEntry)).length ≤
      (List.intercalate (44 :: gap) (kvs.map (pairText quote gap))).length := by
    induction kvs with
    | nil => exact le_rfl
    | cons kv kvs ih =>
        have hkv := hpair kv
        by_cases hnil : kvs = []
        · rw [hnil, List.map_singleton, List.map_singleton, joinSep_singleton,
            List.intercalate_singleton]
          omega
        · have h₁ : kvs.map kargEntry ≠ [] := fun h => hnil (List.map_eq_nil_iff.mp h)
          have h₂ : kvs.map (pairText quote gap) ≠ [] := fun h => hnil (List.map_eq_nil_iff.mp h)
          rw [List.map_cons, List.map_cons, joinSep_cons h₁, List.intercalate_cons_of_ne_nil h₂]
          simp only [List.length_append, List.length_cons]
          omega
  rw [arrayText, List.length_append, List.length_cons]
  omega

/-- Where every pair fits its buffer, nothing is cut. -/
theorem kargEntries_eq (hkvs : ∀ kv ∈ kvs, Quotable quote kv)
    (hroom : ∀ kv ∈ kvs.tail, kv.1.length + kv.2.length < 510) :
    kargEntries kvs = kvs.map kargEntry := by
  have hlen (kv : Bytes × Bytes) : (kargEntry kv).length = kv.1.length + kv.2.length + 1 := by
    rw [kargEntry, List.length_append, List.length_cons]
    omega
  cases kvs with
  | nil => rfl
  | cons kv kvs =>
      obtain ⟨hkv, -⟩ := List.forall_mem_cons.mp hkvs
      have h₁ := hkv.key_length
      have h₂ := hkv.val_length
      have hrest : (kvs.map fun kv => (kargEntry kv).take 510) = kvs.map kargEntry := by
        refine List.map_congr_left fun kv' hkv' => ?_
        have h := hroom kv' hkv'
        refine List.take_of_length_le ?_
        rw [hlen]
        omega
      have hfirst : (kargEntry kv).take 511 = kargEntry kv := by
        refine List.take_of_length_le ?_
        rw [hlen]
        omega
      rw [kargEntries, hfirst, hrest, List.map_cons]

/-- **The array is read**, with enough rounds. -/
theorem parseKargsArray_arrayText (hquote : IsQuote quote) (hgap : ∀ b ∈ gap, isspace b)
    (hkvs : ∀ kv ∈ kvs, Quotable quote kv) (hlen : (arrayText quote gap kvs).length ≤ 2047)
    (hroom : ∀ kv ∈ kvs.tail, kv.1.length + kv.2.length < 510) (old : Bytes) :
    ∀ᶠ n in atTop, parseKargsArray n (arrayText quote gap kvs) old =
      some (0, joinSep 58 (kvs.map kargEntry)) := by
  obtain ⟨n, s, hloop, hkargs⟩ := kargsLoop_pairs hquote hgap hkvs
    (s := ⟨List.intercalate (44 :: gap) (kvs.map (pairText quote gap)) ++ [93], [], true⟩) rfl
  rw [appendPairs_true hkvs ((length_kargs_le kvs).trans hlen), kargEntries_eq hkvs hroom] at hkargs
  filter_upwards [eventually_ge_atTop n] with m hm
  rw [parseKargsArray, cstr_arrayText hquote hgap hkvs, arrayText, List.cons_append]
  simp only [kargsLoop_of_le hm hloop, Option.map_some, hkargs]

end Kargs

/-! ### Properties of a batch -/

theorem lastOf_concat {α β : Type} (f : α → Option β) (l : List α) (a : α) :
    lastOf f (l ++ [a]) = (f a).or (lastOf f l) := by
  rw [lastOf, lastOf, List.filterMap_append]
  cases h : f a with
  | none => rw [List.filterMap_cons_none h, List.filterMap_nil, List.append_nil, Option.none_or]
  | some b =>
      rw [List.filterMap_cons_some h, List.filterMap_nil, List.getLast?_concat, Option.some_or]

theorem batchText_key (f : BatchText) : batchText f.key = some f := by cases f <;> rfl

theorem scoreText_key (f : ScoreText) : scoreText f.key = some f := by cases f <;> rfl

/-- A text that fits is the last value of its property. -/
theorem setText_batchOf {f : BatchText} {value : Scalar} (hlen : value.value.length ≤ f.room)
    (fields : List BatchField) :
    (batchOf fields).setText f value.value = batchOf (fields ++ [.text f value]) := by
  have hother : pairsOf (fields ++ [.text f value]) = pairsOf fields := by
    rw [pairsOf, lastOf_concat]
    rfl
  cases f <;>
    simp only [batchOf, Batch.setText, hother, lastOf_concat, BatchField.value, reduceCtorEq,
      if_true, if_false, Option.some_or, Option.none_or, Option.getD_some, List.flatMap_append,
      List.flatMap_cons, List.flatMap_nil, List.append_nil, BatchField.outputs,
      List.take_of_length_le hlen]

/-- The arguments are the last ones. -/
theorem kargs_batchOf (quote : UInt8) (gap : Bytes) (kvs : List (Bytes × Bytes))
    (fields : List BatchField) :
    { batchOf fields with kargs := joinSep 58 (kvs.map kargEntry) } =
      batchOf (fields ++ [.kargs quote gap kvs]) := by
  simp only [batchOf, pairsOf, lastOf_concat, BatchField.value, BatchField.pairs, Option.some_or,
    Option.none_or, Option.getD_some, List.flatMap_append, List.flatMap_cons, List.flatMap_nil,
    List.append_nil, BatchField.outputs]

/-- The outputs of all lists are collected. -/
theorem vspecs_batchOf (outputs : List Output) (fields : List BatchField) :
    { batchOf fields with vspecs := (batchOf fields).vspecs ++ outputs.map Output.spec } =
      batchOf (fields ++ [.v outputs]) := by
  simp only [batchOf, pairsOf, lastOf_concat, BatchField.value, BatchField.pairs, Option.none_or,
    List.flatMap_append, List.flatMap_cons, List.flatMap_nil, List.append_nil, BatchField.outputs]

/-- An output is read from its text. -/
theorem parseVItem_text {o : Output} (ho : o.Readable) : parseVItem o.text = o.spec := by
  obtain ⟨hquote, hgap, ⟨hname, hnameLen⟩, hred, hredLen⟩ := ho
  have hsep := not_isKargSep_quote hquote
  have htext : o.text.drop 1 = o.quote :: o.name ++ o.quote ::
      (44 :: o.gap ++ o.quote :: (o.reducer ++ [o.quote, 93])) := by
    simp only [Output.text, pairText, List.cons_append, List.append_assoc, List.drop_one,
      List.tail_cons]
  have hopen : (o.quote :: o.name ++ o.quote ::
      (44 :: o.gap ++ o.quote :: (o.reducer ++ [o.quote, 93]))).dropWhile isspace =
      o.quote :: o.name ++ o.quote ::
        (44 :: o.gap ++ o.quote :: (o.reducer ++ [o.quote, 93])) :=
    dropWhile_of_head? (b := o.quote) rfl (not_isspace_of_not_isKargSep hsep)
  have hfirst : quotedString (o.quote :: o.name ++ o.quote ::
      (44 :: o.gap ++ o.quote :: (o.reducer ++ [o.quote, 93]))) =
      (o.name, 44 :: o.gap ++ o.quote :: (o.reducer ++ [o.quote, 93])) :=
    quotedString_quoted hquote hname hnameLen _
  have hsecond : quotedString (o.quote :: (o.reducer ++ [o.quote, 93])) = (o.reducer, [93]) :=
    quotedString_quoted hquote hred (hredLen.trans (by decide)) [93]
  simp only [parseVItem, htext, hopen, hfirst, dropWhile_gap hgap hsep, hsecond,
    List.take_of_length_le hredLen, Output.spec]

/-- The loop is in a batch, the last one. -/
structure AtBatch (layout : Layout) (bench : Bench) (bs : List Batch) (b : Batch) (s : Scan) :
    Prop where
  state : s.state.InBatch
  indent : s.batchIndent = layout.item
  bench : s.bench = { bench with batches := bs ++ [b] }

section AtBatch

variable {layout : Layout} {bench : Bench} {bs : List Batch} {b : Batch} {s : Scan}

theorem AtBatch.state_ne_root (h : AtBatch layout bench bs b s) : s.state ≠ .root := by
  intro hroot
  rcases h.state with h | h | h
  all_goals
    rw [hroot] at h
    cases h

/-- A property goes to the batch. -/
theorem AtBatch.keyValue (h : AtBatch layout bench bs b s) {n w : ℕ} {key value : Bytes}
    (hbatch : key ≠ ascii "batch".toList)
    (hscore : key ≠ ascii "score".toList) :
    keyValue n s w key value = batchProperty n s b key value := by
  have hstate : s.state ≠ .benchmark := by
    intro hbench
    rcases h.state with h | h | h
    all_goals
      rw [hbench] at h
      cases h
  have hlast : s.bench.batches.getLast? = some b := by
    rw [h.bench]
    exact List.getLast?_concat
  rw [Yaml.keyValue, if_neg fun h => hstate h.2, if_neg fun h => hstate h.2, if_neg hbatch,
    if_neg hscore, if_pos h.state, hlast]

/-- Storing the batch. -/
theorem AtBatch.setBatch (h : AtBatch layout bench bs b s) (b' : Batch) :
    AtBatch layout bench bs b' (s.setBatch b') := by
  refine ⟨h.state, h.indent, ?_⟩
  rw [Scan.setBatch, h.bench]
  simp only [List.dropLast_concat]

theorem AtBatch.withState (h : AtBatch layout bench bs b s) {state : ParseState}
    (hstate : state.InBatch) : AtBatch layout bench bs b { s with state := state } :=
  ⟨hstate, h.indent, h.bench⟩

/-- An output is appended. -/
theorem AtBatch.readOutput (h : AtBatch layout bench bs b s) (hstate : s.state = .batchV)
    {o : Output} (ho : o.Readable) (hzero : 0 ∉ o.text) (hroom : b.vspecs.length < maxVspecs)
    (n : ℕ) :
    parseLine n s (indented layout.element (dashText o.text)) =
      some (s.setBatch { b with vspecs := b.vspecs ++ [o.spec] }) := by
  have hhead : o.text.head? = some 91 := rfl
  have hlast : o.text.getLast? = some 93 := by
    rw [Output.text, pairText, List.getLast?_append_of_ne_nil _ (List.cons_ne_nil _ _)]
    rfl
  have hlt := layout.item_lt
  have hnotItem : ¬((s.state = .batchList ∨ s.state.InBatch) ∧ hasId o.text ∧
      (s.state = .batchList ∨ layout.element ≤ s.batchIndent + 2)) := by
    rintro ⟨-, -, hlist | hle⟩
    · rw [hstate] at hlist
      cases hlist
    · rw [h.indent] at hle
      omega
  have hlast' : s.bench.batches.getLast? = some b := by
    rw [h.bench]
    exact List.getLast?_concat
  have hne : s.bench.batches ≠ [] := by
    intro hnil
    rw [hnil] at hlast'
    cases hlast'
  rw [parseLine_dashText ⟨91, hhead, by decide⟩ ⟨93, hlast, rfl⟩ hzero h.state_ne_root, listItem,
    if_neg hnotItem, if_pos ⟨hstate, hne, hhead⟩, hlast']
  simp only [if_pos hroom, parseVItem_text ho]

/-- A list of outputs is appended. -/
theorem AtBatch.readOutputs (outputs : List Output) (h : AtBatch layout bench bs b s)
    (hstate : s.state = .batchV) (ho : ∀ o ∈ outputs, o.Readable ∧ 0 ∉ o.text)
    (hroom : b.vspecs.length + outputs.length ≤ maxVspecs) :
    ∃ s', Reads s (outputs.map fun o => indented layout.element (dashText o.text)) s' ∧
      AtBatch layout bench bs { b with vspecs := b.vspecs ++ outputs.map Output.spec } s' := by
  have hall := Reads.flatMap (f := fun o => [indented layout.element (dashText o.text)])
    (l := outputs) (P := fun done s => s.state = .batchV ∧
      AtBatch layout bench bs { b with vspecs := b.vspecs ++ done.map Output.spec } s) (s := s)
    (by
      rintro done o rest s rfl ⟨hstate, h⟩
      obtain ⟨hread, hzero⟩ := ho o (by simp)
      rw [List.length_append, List.length_cons] at hroom
      have hlt : (b.vspecs ++ done.map Output.spec).length < maxVspecs := by
        rw [List.length_append, List.length_map]
        omega
      refine ⟨_, Reads.cons (h.readOutput hstate hread hzero hlt) (Reads.nil _), hstate, ?_⟩
      rw [List.map_append, List.map_singleton, ← List.append_assoc]
      exact h.setBatch _)
    ⟨hstate, by rwa [List.map_nil, List.append_nil]⟩
  obtain ⟨s', hreads, -, h'⟩ := hall
  exact ⟨s', by rwa [← List.map_eq_flatMap] at hreads, h'⟩

theorem length_text_le (value : Scalar) : value.text.length ≤ value.value.length + 2 := by
  cases value with
  | plain v => exact Nat.le_add_right _ _
  | quoted quote v =>
      rw [Scalar.text, Scalar.value, List.length_append, List.length_cons, List.length_singleton]

theorem not_zero_mem_of_keyText {w : ℕ} {key : Bytes} {value : Scalar}
    (h : 0 ∉ indented w (keyText key value)) : 0 ∉ value.text := by
  rw [indented, keyText, List.mem_append, List.mem_append, List.mem_cons, List.mem_cons] at h
  simp only [not_or] at h
  exact h.2.2.2.2

theorem not_zero_mem_of_dashText {w : ℕ} {item : Bytes} (h : 0 ∉ indented w (dashText item)) :
    0 ∉ item := by
  rw [indented, dashText, List.mem_append, List.mem_cons, List.mem_cons] at h
  simp only [not_or] at h
  exact h.2.2.2

/-- An array is a plain value. -/
theorem readable_arrayText (quote : UInt8) (gap : Bytes) (kvs : List (Bytes × Bytes)) :
    (Scalar.plain (arrayText quote gap kvs)).Readable := by
  refine ⟨⟨91, rfl, rfl, by decide⟩, 93, ?_, rfl⟩
  rw [arrayText]
  exact List.getLast?_concat

/-- **The lines of a property of a batch** are read. -/
theorem AtBatch.readField {fields : List BatchField}
    (h : AtBatch layout bench bs (batchOf fields) s) {f : BatchField} (hf : f.Readable)
    (hroom : ((fields ++ [f]).flatMap BatchField.outputs).length ≤ maxVspecs)
    (hzero : ∀ l ∈ f.lines layout, 0 ∉ l) :
    ∃ s', Reads s (f.lines layout) s' ∧ AtBatch layout bench bs (batchOf (fields ++ [f])) s' := by
  cases f with
  | text f value =>
      obtain ⟨hread, hlen⟩ := hf
      have hroom : f.room ≤ 1023 := by cases f <;> decide
      have htext := length_text_le value
      have hkey : PlainKey f.key := by cases f <;> decide
      refine ⟨s.setBatch ((batchOf fields).setText f value.value),
        Reads.cons (fun n => ?_) (Reads.nil _), ?_⟩
      · rw [parseLine_keyText hkey hread (by omega)
          (not_zero_mem_of_keyText (hzero _ List.mem_cons_self)) h.state_ne_root,
          h.keyValue (by cases f <;> decide) (by cases f <;> decide), batchProperty,
          batchText_key]
      · rw [← setText_batchOf hlen]
        exact h.setBatch _
  | kargs quote gap kvs =>
      obtain ⟨hquote, hgap, hkvs, hlen, hfit⟩ := hf
      refine ⟨{ s.setBatch { batchOf fields with kargs := joinSep 58 (kvs.map kargEntry) } with
        state := .batchKargs }, Reads.line ?_, ?_⟩
      · filter_upwards [parseKargsArray_arrayText hquote hgap hkvs hlen hfit (batchOf fields).kargs]
          with n hn
        have hnone : batchText (ascii "kargs".toList) = none := rfl
        rw [parseLine_keyText (by decide) (readable_arrayText quote gap kvs) hlen
          (not_zero_mem_of_keyText (hzero _ List.mem_cons_self)) h.state_ne_root,
          h.keyValue (by decide) (by decide), batchProperty, hnone]
        simp only [Scalar.value, hn, if_true, Option.map_some]
      · rw [← kargs_batchOf]
        exact (h.setBatch _).withState (.inr (.inl rfl))
  | v outputs =>
      obtain ⟨hbare, hitems⟩ := List.forall_mem_cons.mp hzero
      have hopen : ∀ n, parseLine n s (indented (layout.item + 2) (bareKey (ascii ['v']))) =
          some { s with state := .batchV } := by
        intro n
        have hnone : batchText (ascii ['v']) = none := rfl
        rw [parseLine_bareKey (by decide) h.state_ne_root, h.keyValue (by decide) (by decide),
          batchProperty, hnone]
        rfl
      have hcount : (batchOf fields).vspecs.length + outputs.length ≤ maxVspecs := by
        rwa [List.flatMap_append, List.flatMap_singleton, List.length_append, BatchField.outputs,
          List.length_map] at hroom
      obtain ⟨s', hreads, h'⟩ := (h.withState (.inr (.inr rfl))).readOutputs outputs rfl
        (fun o ho => ⟨hf o ho, not_zero_mem_of_dashText (hitems _ (List.mem_map_of_mem ho))⟩) hcount
      exact ⟨s', Reads.cons hopen hreads, by rwa [← vspecs_batchOf]⟩

/-- The lines of the properties of a batch are read. -/
theorem AtBatch.readFields (rest : List BatchField) {first : BatchField}
    (h : AtBatch layout bench bs (batchOf [first]) s) (hf : ∀ f ∈ rest, f.Readable)
    (hroom : ((first :: rest).flatMap BatchField.outputs).length ≤ maxVspecs)
    (hzero : ∀ l ∈ rest.flatMap (BatchField.lines layout), 0 ∉ l) :
    ∃ s', Reads s (rest.flatMap (BatchField.lines layout)) s' ∧
      AtBatch layout bench bs (batchOf (first :: rest)) s' := by
  refine Reads.flatMap (P := fun done => AtBatch layout bench bs (batchOf (first :: done))) ?_ h
  rintro done f rest s rfl h
  refine h.readField (hf f (by simp)) ?_ fun l hl => hzero l ?_
  · simp only [List.flatMap_cons, List.flatMap_append, List.flatMap_nil, List.length_append,
      List.length_nil] at hroom ⊢
    omega
  · exact List.mem_flatMap_of_mem (by simp) hl

/-- The loop is between two batches, or in front of the first one. -/
structure AtBatches (layout : Layout) (bench : Bench) (bs : List Batch) (s : Scan) : Prop where
  state : s.state = .batchList ∨ s.state.InBatch ∧ s.batchIndent = layout.item
  bench : s.bench = { bench with batches := bs }

theorem AtBatch.atBatches (h : AtBatch layout bench bs b s) :
    AtBatches layout bench (bs ++ [b]) s :=
  ⟨.inr ⟨h.state, h.indent⟩, h.bench⟩

/-- The text of an id. -/
theorem itemId_keyText {id : Scalar} (hid : id.Readable) (hlen : id.text.length ≤ 2047) :
    hasId (keyText (ascii ['i', 'd']) id) = true ∧
      itemId (keyText (ascii ['i', 'd']) id) = id.value := by
  constructor
  · exact isSome_strstr_append [] (ascii ['i', 'd', ':']) (32 :: id.text)
  · rw [itemId, keyText, parseKeyValue_key (by decide), value_text hid hlen]
    exact if_pos rfl

/-- The line that opens an item is read as the item. -/
theorem parseLine_idLine {id : Scalar} (hid : id.Readable) (hzero : 0 ∉ idLine layout id)
    (hroot : s.state ≠ .root) (n : ℕ) :
    parseLine n s (idLine layout id) =
      some (listItem s layout.item (keyText (ascii ['i', 'd']) id)) := by
  obtain ⟨b, hb, hspace⟩ := getLast?_text hid
  have hne : id.text ≠ [] := by
    intro h
    rw [h] at hb
    cases hb
  refine parseLine_dashText ⟨105, rfl, by decide⟩ ⟨b, ?_, hspace⟩
    (not_zero_mem_of_dashText hzero) hroot
  rw [keyText, List.getLast?_append_of_ne_nil _ (List.cons_ne_nil _ _),
    List.getLast?_cons_of_ne_nil (List.cons_ne_nil _ _), List.getLast?_cons_of_ne_nil hne, hb]

/-- **The lines of a batch** are read. -/
theorem AtBatches.readItem (h : AtBatches layout bench bs s) {item : BatchItem}
    (hf : ∀ f ∈ item.all, f.Readable)
    (hroom : (item.fields.flatMap BatchField.outputs).length ≤ maxVspecs)
    (hcount : bs.length < maxBatches) (hzero : ∀ l ∈ item.lines layout, 0 ∉ l) :
    ∃ s', Reads s (item.lines layout) s' ∧
      AtBatches layout bench (bs ++ [batchOf item.all]) s' := by
  obtain ⟨⟨hid, hlen⟩, hfields⟩ := List.forall_mem_cons.mp hf
  obtain ⟨hfirst, hrest⟩ := List.forall_mem_cons.mp hzero
  have hroot : s.state ≠ .root := by
    intro hroot
    rcases h.state with h | ⟨h | h | h, -⟩
    all_goals
      rw [hroot] at h
      cases h
  have htext := length_text_le item.id
  have hlen' : item.id.value.length ≤ 63 := hlen
  obtain ⟨hhas, hvalue⟩ := itemId_keyText hid (by omega)
  have hopens : (s.state = .batchList ∨ s.state.InBatch) ∧
      hasId (keyText (ascii ['i', 'd']) item.id) ∧
        (s.state = .batchList ∨ layout.item ≤ s.batchIndent + 2) := by
    rcases h.state with h | ⟨h, hindent⟩
    · exact ⟨.inl h, hhas, .inl h⟩
    · exact ⟨.inr h, hhas, .inr (by omega)⟩
  have hid' : Batch.zero.setText .id item.id.value = batchOf [.text .id item.id] :=
    setText_batchOf hlen []
  have hopen (n : ℕ) := parseLine_idLine hid hfirst hroot n
  rw [listItem, if_pos hopens, h.bench, if_pos hcount, hvalue, hid'] at hopen
  have hstart : AtBatch layout bench bs (batchOf [.text .id item.id])
      { s with
        state := .batchItem
        batchIndent := layout.item
        bench := { bench with batches := bs ++ [batchOf [.text .id item.id]] } } :=
    ⟨.inl rfl, rfl, rfl⟩
  obtain ⟨s', hreads, h'⟩ := hstart.readFields item.fields hfields hroom hrest
  exact ⟨s', Reads.cons hopen hreads, h'.atBatches⟩

/-- The lines of a list of batches are read. -/
theorem AtBatches.readItems (items : List BatchItem) (h : AtBatches layout bench [] s)
    (hf : ∀ item ∈ items, ∀ f ∈ item.all, f.Readable)
    (hroom : ∀ item ∈ items, (item.fields.flatMap BatchField.outputs).length ≤ maxVspecs)
    (hcount : items.length ≤ maxBatches)
    (hzero : ∀ l ∈ items.flatMap (BatchItem.lines layout), 0 ∉ l) :
    ∃ s', Reads s (items.flatMap (BatchItem.lines layout)) s' ∧
      AtBatches layout bench (items.map fun item => batchOf item.all) s' := by
  refine Reads.flatMap (P := fun done : List BatchItem =>
    AtBatches layout bench (done.map fun item => batchOf item.all)) ?_ h
  rintro done item rest s rfl h
  rw [List.length_append, List.length_cons] at hcount
  rw [List.map_append]
  refine h.readItem (hf item (by simp)) (hroom item (by simp)) ?_ fun l hl => hzero l ?_
  · rw [List.length_map]
    omega
  · exact List.mem_flatMap_of_mem (by simp) hl

end AtBatch

/-! ### Properties of a score -/

/-- A text that fits is the last value of its property. -/
theorem setText_scoreOf {f : ScoreText} {value : Scalar} (hlen : value.value.length ≤ f.room)
    (fields : List ScoreField) :
    (scoreOf fields).setText f value.value = scoreOf (fields ++ [.text f value]) := by
  cases f <;>
    simp only [scoreOf, Score.setText, lastOf_concat, ScoreField.value, ScoreField.shown,
      reduceCtorEq, if_true, if_false, Option.some_or, Option.none_or, Option.getD_some,
      List.flatMap_append, List.flatMap_cons, List.flatMap_nil, List.append_nil, ScoreField.refs,
      List.take_of_length_le hlen]

/-- The display is the last one. -/
theorem display_scoreOf (n : ℕ) (fields : List ScoreField) :
    { scoreOf fields with display := (n : ℤ) } = scoreOf (fields ++ [.display n]) := by
  simp only [scoreOf, lastOf_concat, ScoreField.value, ScoreField.shown, Option.some_or,
    Option.none_or, Option.getD_some, List.flatMap_append, List.flatMap_cons, List.flatMap_nil,
    List.append_nil, ScoreField.refs]

/-- The references of all lists are collected. -/
theorem args_scoreOf (quote : UInt8) (refs : List Bytes) (fields : List ScoreField) :
    { scoreOf fields with args := (scoreOf fields).args ++ refs } =
      scoreOf (fields ++ [.args quote refs]) := by
  simp only [scoreOf, lastOf_concat, ScoreField.value, ScoreField.shown, Option.none_or,
    List.flatMap_append, List.flatMap_cons, List.flatMap_nil, List.append_nil, ScoreField.refs]

/-- A reference is read from its text. -/
theorem parseScoreArg_quoted {quote : UInt8} (hquote : IsQuote quote) {ref : Bytes}
    (href : quote ∉ ref) (hlen : ref.length ≤ 255) :
    parseScoreArg (Scalar.quoted quote ref).text = ref := by
  have hskip : decide (isspace quote ∨ quote = 45) = false := by
    rcases hquote with rfl | rfl
    · rfl
    · rfl
  have hfront : (quote :: ref ++ [quote]).dropWhile (fun b => decide (isspace b ∨ b = 45)) =
      quote :: ref ++ [quote] := dropWhile_of_head? (b := quote) rfl hskip
  have hopen : (quote :: ref ++ [quote]).head? = some 34 ∨
      (quote :: ref ++ [quote]).head? = some 39 := by
    rcases hquote with rfl | rfl
    · exact .inl rfl
    · exact .inr rfl
  rw [parseScoreArg, Scalar.text, hfront, if_pos hopen,
    quotedString_quoted hquote href hlen []]

/-- A number is a plain value. -/
theorem readable_formatD (n : ℕ) : (Scalar.plain (formatD n)).Readable := by
  have hne := formatD_ne_nil n
  have hhead := isdigit_of_mem_formatD (List.head_mem hne)
  refine ⟨⟨_, List.head?_eq_some_head hne, not_isspace_of_isdigit hhead, ?_⟩,
    _, List.getLast?_eq_some_getLast hne,
    not_isspace_of_isdigit (isdigit_of_mem_formatD (List.getLast_mem hne))⟩
  rintro (h | h)
  all_goals
    rw [h] at hhead
    exact absurd hhead (by decide)

/-- A number is read back. -/
theorem narrowed_strtol_formatD {n : ℕ} (hn : n < 2 ^ 31) :
    narrowed (strtol (formatD n)).1 = n := by
  have hmin : min (9223372036854775807 : ℤ) n = n := min_eq_right (by omega)
  rw [strtol_digits (fun b => isdigit_of_mem_formatD) (formatD_ne_nil n), digitsNat_formatD, hmin,
    narrowed_of_range (by omega) (by omega)]

/-- The loop is in a score, the last one. -/
structure AtScore (bench : Bench) (cs : List Score) (c : Score) (layout : Layout) (s : Scan) :
    Prop where
  state : s.state.InScore
  indent : s.scoreIndent = layout.item
  bench : s.bench = { bench with scores := cs ++ [c] }

section AtScore

variable {layout : Layout} {bench : Bench} {cs : List Score} {c : Score} {s : Scan}

theorem AtScore.not_inBatch (h : AtScore bench cs c layout s) :
    s.state ≠ .root ∧ s.state ≠ .benchmark ∧ s.state ≠ .batchList ∧ ¬s.state.InBatch := by
  obtain h | h : s.state = .scoreItem ∨ s.state = .scoreArgs := h.state
  all_goals
    rw [h]
    decide

/-- A property goes to the score. -/
theorem AtScore.keyValue (h : AtScore bench cs c layout s) {n w : ℕ} {key value : Bytes}
    (hbatch : key ≠ ascii "batch".toList)
    (hscore : key ≠ ascii "score".toList) :
    keyValue n s w key value = some (scoreProperty s c key value) := by
  obtain ⟨-, hbench, -, hnot⟩ := h.not_inBatch
  have hlast : s.bench.scores.getLast? = some c := by
    rw [h.bench]
    exact List.getLast?_concat
  rw [Yaml.keyValue, if_neg fun h => hbench h.2, if_neg fun h => hbench h.2, if_neg hbatch,
    if_neg hscore, if_neg hnot, if_pos h.state, hlast]

/-- Storing the score. -/
theorem AtScore.setScore (h : AtScore bench cs c layout s) (c' : Score) :
    AtScore bench cs c' layout (s.setScore c') := by
  refine ⟨h.state, h.indent, ?_⟩
  rw [Scan.setScore, h.bench]
  simp only [List.dropLast_concat]

theorem AtScore.withState (h : AtScore bench cs c layout s) {state : ParseState}
    (hstate : state.InScore) : AtScore bench cs c layout { s with state := state } :=
  ⟨hstate, h.indent, h.bench⟩

/-- A reference is appended. -/
theorem AtScore.readRef (h : AtScore bench cs c layout s) (hstate : s.state = .scoreArgs)
    {quote : UInt8} (hquote : IsQuote quote) {ref : Bytes} (href : quote ∉ ref)
    (hlen : ref.length ≤ 255) (hzero : 0 ∉ (Scalar.quoted quote ref).text)
    (hroom : c.args.length < maxArgs) (n : ℕ) :
    parseLine n s (indented layout.element (dashText (Scalar.quoted quote ref).text)) =
      some (s.setScore { c with args := c.args ++ [ref] }) := by
  obtain ⟨hroot, -, hlist, hnot⟩ := h.not_inBatch
  have hlt := layout.item_lt
  have hnotItem : ¬((s.state = .scoreList ∨ s.state.InScore) ∧
      hasId (Scalar.quoted quote ref).text ∧
        (s.state = .scoreList ∨ layout.element ≤ s.scoreIndent + 2)) := by
    rintro ⟨-, -, hlist | hle⟩
    · rw [hstate] at hlist
      cases hlist
    · rw [h.indent] at hle
      omega
  have hnotV : s.state ≠ .batchV := fun h => hnot (.inr (.inr h))
  have hlast : s.bench.scores.getLast? = some c := by
    rw [h.bench]
    exact List.getLast?_concat
  have hquote' : quote ≠ 32 := by
    rcases hquote with rfl | rfl
    · decide
    · decide
  rw [parseLine_dashText ⟨quote, rfl, hquote'⟩ (@getLast?_text (.quoted quote ref) hquote)
      hzero hroot, listItem, if_neg fun h => h.1.elim hlist hnot, if_neg fun h => hnotV h.1,
    if_neg hnotItem, if_pos hstate, hlast]
  simp only [if_pos hroom, parseScoreArg_quoted hquote href hlen]

/-- A list of references is appended. -/
theorem AtScore.readRefs (quote : UInt8) (refs : List Bytes) (h : AtScore bench cs c layout s)
    (hstate : s.state = .scoreArgs) (hquote : IsQuote quote)
    (hrefs : ∀ ref ∈ refs,
      (quote ∉ ref ∧ ref.length ≤ 255) ∧ 0 ∉ (Scalar.quoted quote ref).text)
    (hroom : c.args.length + refs.length ≤ maxArgs) :
    ∃ s', Reads s (refs.map fun ref =>
        indented layout.element (dashText (Scalar.quoted quote ref).text)) s' ∧
      AtScore bench cs { c with args := c.args ++ refs } layout s' := by
  have hall := Reads.flatMap
    (f := fun ref => [indented layout.element (dashText (Scalar.quoted quote ref).text)])
    (l := refs) (P := fun done s => s.state = .scoreArgs ∧
      AtScore bench cs { c with args := c.args ++ done } layout s) (s := s)
    (by
      rintro done ref rest s rfl ⟨hstate, h⟩
      obtain ⟨⟨href, hlen⟩, hzero⟩ := hrefs ref (by simp)
      rw [List.length_append, List.length_cons] at hroom
      have hlt : (c.args ++ done).length < maxArgs := by
        rw [List.length_append]
        omega
      refine ⟨_, Reads.cons (h.readRef hstate hquote href hlen hzero hlt) (Reads.nil _), hstate, ?_⟩
      rw [← List.append_assoc]
      exact h.setScore _)
    ⟨hstate, by rwa [List.append_nil]⟩
  obtain ⟨s', hreads, -, h'⟩ := hall
  exact ⟨s', by rwa [← List.map_eq_flatMap] at hreads, h'⟩

/-- **The lines of a property of a score** are read. -/
theorem AtScore.readField {fields : List ScoreField}
    (h : AtScore bench cs (scoreOf fields) layout s) {f : ScoreField} (hf : f.Readable)
    (hroom : ((fields ++ [f]).flatMap ScoreField.refs).length ≤ maxArgs)
    (hzero : ∀ l ∈ f.lines layout, 0 ∉ l) :
    ∃ s', Reads s (f.lines layout) s' ∧ AtScore bench cs (scoreOf (fields ++ [f])) layout s' := by
  have hroot := h.not_inBatch.1
  cases f with
  | text f value =>
      obtain ⟨hread, hlen⟩ := hf
      have hroom : f.room ≤ 255 := by cases f <;> decide
      have htext := length_text_le value
      have hkey : PlainKey f.key := by cases f <;> decide
      refine ⟨s.setScore ((scoreOf fields).setText f value.value),
        Reads.cons (fun n => ?_) (Reads.nil _), ?_⟩
      · rw [parseLine_keyText hkey hread (by omega)
          (not_zero_mem_of_keyText (hzero _ List.mem_cons_self)) hroot,
          h.keyValue (by cases f <;> decide) (by cases f <;> decide), scoreProperty, scoreText_key]
      · rw [← setText_scoreOf hlen]
        exact h.setScore _
  | display n =>
      have hlen : (formatD n).length ≤ 10 := length_formatD_le (Nat.le_of_lt_succ hf)
      refine ⟨s.setScore { scoreOf fields with display := (n : ℤ) },
        Reads.cons (fun m => ?_) (Reads.nil _), ?_⟩
      · have hnone : scoreText (ascii "display".toList) = none := rfl
        rw [parseLine_keyText (by decide) (readable_formatD n) (hlen.trans (by decide))
          (not_zero_mem_of_keyText (hzero _ List.mem_cons_self)) hroot,
          h.keyValue (by decide) (by decide), scoreProperty, hnone]
        simp only [Scalar.value, narrowed_strtol_formatD hf, if_true]
      · rw [← display_scoreOf]
        exact h.setScore _
  | args quote refs =>
      obtain ⟨hbare, hitems⟩ := List.forall_mem_cons.mp hzero
      obtain ⟨hquote, hrefs⟩ := hf
      have hopen : ∀ n, parseLine n s (indented (layout.item + 2)
          (bareKey (ascii "args".toList))) = some { s with state := .scoreArgs } := by
        intro n
        have hnone : scoreText (ascii "args".toList) = none := rfl
        rw [parseLine_bareKey (by decide) hroot, h.keyValue (by decide) (by decide), scoreProperty,
          hnone]
        rfl
      have hcount : (scoreOf fields).args.length + refs.length ≤ maxArgs := by
        rwa [List.flatMap_append, List.flatMap_singleton, List.length_append,
          ScoreField.refs] at hroom
      obtain ⟨s', hreads, h'⟩ := (h.withState (.inr rfl)).readRefs quote refs rfl hquote
        (fun ref href =>
          ⟨hrefs ref href, not_zero_mem_of_dashText (hitems _ (List.mem_map_of_mem href))⟩) hcount
      exact ⟨s', Reads.cons hopen hreads, by rwa [← args_scoreOf quote]⟩

/-- The lines of the properties of a score are read. -/
theorem AtScore.readFields (rest : List ScoreField) {first : ScoreField}
    (h : AtScore bench cs (scoreOf [first]) layout s) (hf : ∀ f ∈ rest, f.Readable)
    (hroom : ((first :: rest).flatMap ScoreField.refs).length ≤ maxArgs)
    (hzero : ∀ l ∈ rest.flatMap (ScoreField.lines layout), 0 ∉ l) :
    ∃ s', Reads s (rest.flatMap (ScoreField.lines layout)) s' ∧
      AtScore bench cs (scoreOf (first :: rest)) layout s' := by
  refine Reads.flatMap (P := fun done => AtScore bench cs (scoreOf (first :: done)) layout) ?_ h
  rintro done f rest s rfl h
  refine h.readField (hf f (by simp)) ?_ fun l hl => hzero l ?_
  · simp only [List.flatMap_cons, List.flatMap_append, List.flatMap_nil, List.length_append,
      List.length_nil] at hroom ⊢
    omega
  · exact List.mem_flatMap_of_mem (by simp) hl

/-- The loop is between two scores, or in front of the first one. -/
structure AtScores (bench : Bench) (cs : List Score) (layout : Layout) (s : Scan) : Prop where
  state : s.state = .scoreList ∨ s.state.InScore ∧ s.scoreIndent = layout.item
  bench : s.bench = { bench with scores := cs }

/-- **The lines of a score** are read. -/
theorem AtScores.readItem (h : AtScores bench cs layout s) {item : ScoreItem}
    (hf : ∀ f ∈ item.all, f.Readable)
    (hroom : (item.fields.flatMap ScoreField.refs).length ≤ maxArgs)
    (hcount : cs.length < maxScores) (hzero : ∀ l ∈ item.lines layout, 0 ∉ l) :
    ∃ s', Reads s (item.lines layout) s' ∧
      AtScores bench (cs ++ [scoreOf item.all]) layout s' := by
  obtain ⟨⟨hid, hlen⟩, hfields⟩ := List.forall_mem_cons.mp hf
  obtain ⟨hfirst, hrest⟩ := List.forall_mem_cons.mp hzero
  have hstates : s.state ≠ .root ∧ s.state ≠ .batchList ∧ ¬s.state.InBatch := by
    obtain h | ⟨h | h, -⟩ := h.state
    all_goals
      rw [h]
      decide
  obtain ⟨hroot, hlist, hnot⟩ := hstates
  have htext := length_text_le item.id
  have hlen' : item.id.value.length ≤ 63 := hlen
  obtain ⟨hhas, hvalue⟩ := itemId_keyText hid (by omega)
  have hopens : (s.state = .scoreList ∨ s.state.InScore) ∧
      hasId (keyText (ascii ['i', 'd']) item.id) ∧
        (s.state = .scoreList ∨ layout.item ≤ s.scoreIndent + 2) := by
    rcases h.state with h | ⟨h, hindent⟩
    · exact ⟨.inl h, hhas, .inl h⟩
    · exact ⟨.inr h, hhas, .inr (by omega)⟩
  have hid' : Score.new.setText .id item.id.value = scoreOf [.text .id item.id] :=
    setText_scoreOf hlen []
  have hopen (n : ℕ) := parseLine_idLine hid hfirst hroot n
  rw [listItem, if_neg fun h => h.1.elim hlist hnot, if_neg fun h => hnot (.inr (.inr h.1)),
    if_pos hopens, h.bench, if_pos hcount, hvalue, hid'] at hopen
  have hstart : AtScore bench cs (scoreOf [.text .id item.id]) layout
      { s with
        state := .scoreItem
        scoreIndent := layout.item
        bench := { bench with scores := cs ++ [scoreOf [.text .id item.id]] } } :=
    ⟨.inl rfl, rfl, rfl⟩
  obtain ⟨s', hreads, h'⟩ := hstart.readFields item.fields hfields hroom hrest
  exact ⟨s', Reads.cons hopen hreads, .inr ⟨h'.state, h'.indent⟩, h'.bench⟩

/-- The lines of a list of scores are read. -/
theorem AtScores.readItems (items : List ScoreItem) (h : AtScores bench [] layout s)
    (hf : ∀ item ∈ items, ∀ f ∈ item.all, f.Readable)
    (hroom : ∀ item ∈ items, (item.fields.flatMap ScoreField.refs).length ≤ maxArgs)
    (hcount : items.length ≤ maxScores)
    (hzero : ∀ l ∈ items.flatMap (ScoreItem.lines layout), 0 ∉ l) :
    ∃ s', Reads s (items.flatMap (ScoreItem.lines layout)) s' ∧
      AtScores bench (items.map fun item => scoreOf item.all) layout s' := by
  refine Reads.flatMap (P := fun done : List ScoreItem =>
    AtScores bench (done.map fun item => scoreOf item.all) layout) ?_ h
  rintro done item rest s rfl h
  rw [List.length_append, List.length_cons] at hcount
  rw [List.map_append]
  refine h.readItem (hf item (by simp)) (hroom item (by simp)) ?_ fun l hl => hzero l ?_
  · rw [List.length_map]
    omega
  · exact List.mem_flatMap_of_mem (by simp) hl

end AtScore

/-! ### Documents -/

section Documents

variable {layout : Layout} {d : Document} {s : Scan}

/-- A text of a benchmark is the last one. -/
theorem headerText_concat (f g : BenchText) (value : Scalar) (header : List (BenchText × Scalar)) :
    headerText f (header ++ [(g, value)]) =
      if g = f then value.value else headerText f header := by
  rw [headerText, headerText, lastOf_concat]
  split_ifs
  · rfl
  · rw [Option.none_or]

/-- The lines of the texts of a benchmark are read. -/
theorem readHeader (header : List (BenchText × Scalar)) (hstate : s.state = .benchmark)
    (hbench : s.bench = .zero)
    (hheader : ∀ p ∈ header, p.2.Readable ∧ p.2.value.length ≤ p.1.room)
    (hzero : ∀ l ∈ header.map fun p => indented layout.key (keyText p.1.key p.2), 0 ∉ l) :
    ∃ s', Reads s (header.map fun p => indented layout.key (keyText p.1.key p.2)) s' ∧
      s'.state = .benchmark ∧ s'.bench =
        { Bench.zero with name := headerText .name header, note := headerText .note header } := by
  have hall := Reads.flatMap
    (f := fun p : BenchText × Scalar => [indented layout.key (keyText p.1.key p.2)])
    (l := header) (P := fun done s => s.state = .benchmark ∧ s.bench =
        { Bench.zero with name := headerText .name done, note := headerText .note done }) (s := s)
    (by
      rintro done ⟨f, value⟩ rest s rfl ⟨hstate, hbench⟩
      obtain ⟨hread, hlen⟩ : value.Readable ∧ value.value.length ≤ f.room :=
        hheader (f, value) (by simp)
      have hmem : (f, value) ∈ done ++ (f, value) :: rest := by simp
      have hline := not_zero_mem_of_keyText (hzero _ (List.mem_map_of_mem hmem))
      have hroot : s.state ≠ .root := by
        rw [hstate]
        decide
      have htext := length_text_le value
      have hroom : f.room ≤ 1023 := by cases f <;> decide
      have hkey : PlainKey f.key := by cases f <;> decide
      have hparse (n : ℕ) := parseLine_keyText (n := n) (w := layout.key) hkey hread (by omega)
        hline hroot
      cases f with
      | name =>
          have hne : BenchText.name ≠ .note := by decide
          refine ⟨_, Reads.cons (fun n => (hparse n).trans
            (if_pos (⟨rfl, hstate⟩ : BenchText.name.key = _ ∧ _))) (Reads.nil _), hstate, ?_⟩
          rw [headerText_concat, headerText_concat, if_pos rfl, if_neg hne]
          simp only [hbench, List.take_of_length_le (show value.value.length ≤ 255 from hlen)]
      | note =>
          have hne : BenchText.note ≠ .name := by decide
          refine ⟨_, Reads.cons (fun n => (hparse n).trans
            ((if_neg fun h => absurd h.1 (by decide)).trans
              (if_pos (⟨rfl, hstate⟩ : BenchText.note.key = _ ∧ _)))) (Reads.nil _), hstate, ?_⟩
          rw [headerText_concat, headerText_concat, if_pos rfl, if_neg hne]
          simp only [hbench, List.take_of_length_le (show value.value.length ≤ 1023 from hlen)])
    ⟨hstate, by
      rw [hbench]
      rfl⟩
  obtain ⟨s', hreads, h'⟩ := hall
  exact ⟨s', by rwa [← List.map_eq_flatMap] at hreads, h'⟩

/-- **The lines of a document** are read as what it says. -/
theorem readDocument (hd : d.Readable) (hzero : ∀ l ∈ d.lines layout, 0 ∉ l) :
    ∃ s', Reads Scan.start (d.lines layout) s' ∧ s'.bench = d.bench := by
  have hlines : d.lines layout =
      [indented 0 (bareKey (ascii "benchmark".toList))] ++
        ((d.header.map fun p => indented layout.key (keyText p.1.key p.2)) ++
          ([indented layout.key (bareKey (ascii "batch".toList))] ++
            (d.batches.flatMap (BatchItem.lines layout) ++
              ([indented layout.key (bareKey (ascii "score".toList))] ++
                d.scores.flatMap (ScoreItem.lines layout))))) := by
    simp only [Document.lines, List.append_assoc, List.cons_append, List.nil_append]
    rfl
  rw [hlines] at hzero ⊢
  simp only [List.forall_mem_append] at hzero
  obtain ⟨-, hheader, -, hbatches, -, hscores⟩ := hzero
  -- the benchmark and its texts
  have hopen : ∀ n, parseLine n Scan.start
      (indented 0 (bareKey (ascii "benchmark".toList))) =
        some { Scan.start with state := .benchmark } := fun n => rfl
  obtain ⟨s₁, hreads₁, hstate₁, hbench₁⟩ :=
    readHeader (s := { Scan.start with state := .benchmark }) d.header rfl rfl hd.header hheader
  -- the batches
  have hbatch : ∀ n, parseLine n s₁
      (indented layout.key (bareKey (ascii "batch".toList))) =
        some { s₁ with state := .batchList, batchIndent := layout.key } := by
    intro n
    rw [parseLine_bareKey (by decide) (by rw [hstate₁]; decide), keyValue,
      if_neg fun h => absurd h.1 (by decide), if_neg fun h => absurd h.1 (by decide), if_pos rfl]
  have hat₁ : AtBatches layout
      { Bench.zero with name := headerText .name d.header, note := headerText .note d.header } []
      { s₁ with state := .batchList, batchIndent := layout.key } := ⟨.inl rfl, hbench₁⟩
  obtain ⟨s₂, hreads₂, h₂⟩ :=
    hat₁.readItems d.batches hd.batchField hd.outputs hd.batches hbatches
  -- the scores
  have hscore : ∀ n, parseLine n s₂
      (indented layout.key (bareKey (ascii "score".toList))) =
        some { s₂ with state := .scoreList, scoreIndent := layout.key } := by
    intro n
    have hroot : s₂.state ≠ .root := by
      obtain h | ⟨h | h | h, -⟩ := h₂.state
      all_goals
        rw [h]
        decide
    rw [parseLine_bareKey (by decide) hroot, keyValue,
      if_neg fun h => absurd h.1 (by decide), if_neg fun h => absurd h.1 (by decide),
      if_neg (by decide), if_pos rfl]
  have hat₂ : AtScores s₂.bench [] layout
      { s₂ with state := .scoreList, scoreIndent := layout.key } := by
    refine ⟨.inl rfl, ?_⟩
    rw [h₂.bench]
    rfl
  obtain ⟨s₃, hreads₃, h₃⟩ :=
    hat₂.readItems d.scores hd.scoreField hd.refs hd.scores hscores
  refine ⟨s₃, ?_, ?_⟩
  · exact (Reads.cons hopen (Reads.nil _)).append <| hreads₁.append <|
      (Reads.cons hbatch (Reads.nil _)).append <| hreads₂.append <|
      (Reads.cons hscore (Reads.nil _)).append hreads₃
  · rw [h₃.bench, h₂.bench]
    rfl

/-- The runner splits the arguments of a batch into the pairs of the file. -/
theorem runBatchKargs_batchOf {fields : List BatchField} (hf : ∀ f ∈ fields, f.Readable)
    (hcolon : ∀ kv ∈ pairsOf fields, 58 ∉ kv.1 ∧ 58 ∉ kv.2) :
    runBatchKargs (batchOf fields).kargs = pairsOf fields := by
  cases hlast : lastOf BatchField.pairs fields with
  | none =>
      have hnil : pairsOf fields = [] := by rw [pairsOf, hlast, Option.getD_none]
      rw [batchOf, hnil]
      rfl
  | some kvs =>
      have hkvs : pairsOf fields = kvs := by rw [pairsOf, hlast, Option.getD_some]
      obtain ⟨f, hmem, hpairs⟩ := List.mem_filterMap.mp (List.mem_of_getLast? hlast)
      cases f with
      | text => cases hpairs
      | v => cases hpairs
      | kargs quote gap kvs' =>
          obtain rfl : kvs' = kvs := Option.some.inj hpairs
          obtain ⟨-, -, hquotable, hlen, hroom⟩ := hf _ hmem
          have hcut : (kvs'.map fun kv => (kv.1, kv.2.take (510 - kv.1.length - 1))).tail =
              kvs'.tail := by
            rw [← List.map_tail]
            exact (map_take_eq_iff fun kv hkv => hquotable kv (List.mem_of_mem_tail hkv)).mpr hroom
          rw [hkvs] at hcolon
          rw [batchOf, hkvs, ← kargEntries_eq hquotable hroom,
            runBatchKargs_entries hquotable hcolon]
          · rw [List.map_tail, hcut]
            cases kvs' <;> rfl
          · exact (length_kargEntries_le _).trans ((length_kargs_le _).trans hlen)

end Documents

/-- A document with a batch and a score. -/
def smallDocument : Document where
  header := [(.name, .quoted 34 [97])]
  batches := [⟨.plain [98], [.kargs 34 [32] [([110], [49])], .v [⟨34, [32], [120], []⟩]]⟩]
  scores := [⟨.plain [99], [.display 0, .args 34 [[64]]]⟩]

theorem readable_smallDocument : smallDocument.Readable where
  header p hp := by
    obtain rfl := List.mem_singleton.mp hp
    exact ⟨.inl rfl, by decide⟩
  batches := by decide
  batchField b hb f hf := by
    obtain rfl := List.mem_singleton.mp hb
    simp only [BatchItem.all, List.mem_cons, List.not_mem_nil, or_false] at hf
    rcases hf with rfl | rfl | rfl
    · exact ⟨⟨⟨98, rfl, rfl, by decide⟩, 98, rfl, rfl⟩, by decide⟩
    · refine ⟨.inl rfl, List.forall_mem_singleton.mpr rfl, ?_, by decide, by decide⟩
      intro kv hkv
      obtain rfl := List.mem_singleton.mp hkv
      constructor <;> decide
    · intro o ho
      obtain rfl := List.mem_singleton.mp ho
      exact ⟨.inl rfl, List.forall_mem_singleton.mpr rfl, by decide, by decide⟩
  outputs := by decide
  scores := by decide
  scoreField c hc f hf := by
    obtain rfl := List.mem_singleton.mp hc
    simp only [ScoreItem.all, List.mem_cons, List.not_mem_nil, or_false] at hf
    rcases hf with rfl | rfl | rfl
    · exact ⟨⟨⟨99, rfl, rfl, by decide⟩, 99, rfl, rfl⟩, by decide⟩
    · exact (by decide : 0 < 2 ^ 31)
    · exact ⟨.inl rfl, by decide⟩
  refs := by decide

end TPBench.Yaml
