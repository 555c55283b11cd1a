import Mathlib.Data.List.DropRight
import TPBench.Bench.Kargs
import TPBench.CFile.Lines
import TPBench.CFile.Scan
import TPBench.Raf.Types

/-!
# Loading a Benchmark File

`tpb_bench_yaml_load` reads a benchmark line by line. What a line means depends on the section it
is in, which is kept as a state (`ParseState`), and on its indentation, which is compared with the
indentation of the item that was opened last. The current batch and the current score are the last
ones of their arrays.

The loader calls `parse_kargs_array`, whose loop does not end on every array, so that it is run
with a number of rounds here, too. Nothing is returned as long as the rounds do not suffice.

## Main results

* `loaded_bounded`: whatever the file is, the benchmark stays inside its arrays, and every text of
  it is a C string that fits its array.
-/

open CFile

namespace TPBench.Yaml

/-! ### The benchmark -/

/-- `tpb_bench_vspec_t`. -/
structure VSpec where
  name : Bytes
  reducer : Bytes
  deriving DecidableEq, Repr

/-- `tpb_bench_batch_t`, in front of its results. -/
structure Batch where
  id : Bytes
  note : Bytes
  kernel : Bytes
  kargs : Bytes
  kenvs : Bytes
  wrapper : Bytes
  wrapperArgs : Bytes
  vspecs : List VSpec
  deriving DecidableEq, Repr

/-- `tpb_bench_score_t`, in front of its value. -/
structure Score where
  id : Bytes
  name : Bytes
  display : ℤ
  modifier : Bytes
  args : List Bytes
  deriving DecidableEq, Repr

/-- `tpb_benchmark_t`. -/
structure Bench where
  name : Bytes
  note : Bytes
  batches : List Batch
  scores : List Score
  deriving DecidableEq, Repr

/-- A batch whose bytes are zero. -/
def Batch.zero : Batch := ⟨[], [], [], [], [], [], [], []⟩

/-- A new score: its bytes are zero but for the display. -/
def Score.new : Score := ⟨[], [], 1, [], []⟩

/-- A benchmark whose bytes are zero. -/
def Bench.zero : Bench := ⟨[], [], [], []⟩

/-- `TPB_BENCH_MAX_BATCHES`. -/
def maxBatches : ℕ := 64

/-- `TPB_BENCH_MAX_SCORES`. -/
def maxScores : ℕ := 64

/-- `TPB_BENCH_MAX_VSPECS`. -/
def maxVspecs : ℕ := 16

/-- `TPB_BENCH_MAX_ARGS`. -/
def maxArgs : ℕ := 32

/-! ### Texts of a batch and of a score -/

/-- The properties of a batch that are copied as texts. -/
inductive BatchText
  | id
  | note
  | kernel
  | kenvs
  | wrapper
  | wrapperArgs
  deriving DecidableEq, Repr

/-- The key of a property of a batch. -/
def BatchText.key : BatchText → Bytes
  | id => ascii ['i', 'd']
  | note => ascii "note".toList
  | kernel => ascii "kernel".toList
  | kenvs => ascii "kenvs".toList
  | wrapper => ascii "wrapper".toList
  | wrapperArgs => ascii "wrapper_args".toList

/-- The bytes of its array, without the one of the terminator. -/
def BatchText.room : BatchText → ℕ
  | id => 63
  | note => 255
  | kernel => 63
  | kenvs => 1023
  | wrapper => 255
  | wrapperArgs => 1023

/-- The property with a key. -/
def batchText (key : Bytes) : Option BatchText :=
  [BatchText.id, .note, .kernel, .kenvs, .wrapper, .wrapperArgs].find? fun f => f.key = key

/-- A text of a batch. -/
def Batch.text (b : Batch) : BatchText → Bytes
  | .id => b.id
  | .note => b.note
  | .kernel => b.kernel
  | .kenvs => b.kenvs
  | .wrapper => b.wrapper
  | .wrapperArgs => b.wrapperArgs

/-- Copy a text to its array. -/
def Batch.setText (b : Batch) (f : BatchText) (value : Bytes) : Batch :=
  let value := value.take f.room
  match f with
  | .id => { b with id := value }
  | .note => { b with note := value }
  | .kernel => { b with kernel := value }
  | .kenvs => { b with kenvs := value }
  | .wrapper => { b with wrapper := value }
  | .wrapperArgs => { b with wrapperArgs := value }

/-- The properties of a score that are copied as texts. -/
inductive ScoreText
  | id
  | name
  | modifier
  deriving DecidableEq, Repr

/-- The key of a property of a score. -/
def ScoreText.key : ScoreText → Bytes
  | id => ascii ['i', 'd']
  | name => ascii "name".toList
  | modifier => ascii "modifier".toList

/-- The bytes of its array, without the one of the terminator. -/
def ScoreText.room : ScoreText → ℕ
  | id => 63
  | name => 255
  | modifier => 31

/-- The property with a key. -/
def scoreText (key : Bytes) : Option ScoreText :=
  [ScoreText.id, .name, .modifier].find? fun f => f.key = key

/-- A text of a score. -/
def Score.text (c : Score) : ScoreText → Bytes
  | .id => c.id
  | .name => c.name
  | .modifier => c.modifier

/-- Copy a text to its array. -/
def Score.setText (c : Score) (f : ScoreText) (value : Bytes) : Score :=
  let value := value.take f.room
  match f with
  | .id => { c with id := value }
  | .name => { c with name := value }
  | .modifier => { c with modifier := value }

/-! ### Parts of a line -/

/-- `trim_whitespace`. -/
def trimWhitespace (s : Bytes) : Bytes := (s.dropWhile isspace).rdropWhile isspace

/-- `strip_quotes`. -/
def stripQuotes (s : Bytes) : Bytes :=
  if 2 ≤ s.length ∧ (s.head? = some 34 ∧ s.getLast? = some 34 ∨
      s.head? = some 39 ∧ s.getLast? = some 39) then s.tail.dropLast
  else s

/-- `parse_key_value`, with arrays of 256 and 2048 bytes for the key and the value. -/
def parseKeyValue (line : Bytes) : Option (Bytes × Bytes) :=
  if 58 ∈ line then
    let key := (line.takeWhile (· ≠ 58)).take 255
    let value := (((line.dropWhile (· ≠ 58)).drop 1).dropWhile (· = 32)).take 2047
    some (trimWhitespace key, stripQuotes (trimWhitespace value))
  else none

/-- `get_list_item_content`, of a line that is a list item. -/
def listItemContent (content : Bytes) : Bytes := (content.drop 1).dropWhile (· = 32)

/-- `parse_v_item`, on an item that starts with a bracket. -/
def parseVItem (str : Bytes) : VSpec :=
  let name := quotedString ((str.drop 1).dropWhile isspace)
  ⟨name.1, (quotedString (name.2.dropWhile isKargSep)).1.take 31⟩

/-- `parse_score_arg`. -/
def parseScoreArg (str : Bytes) : Bytes :=
  let p := str.dropWhile fun b => isspace b ∨ b = 45
  if p.head? = some 34 ∨ p.head? = some 39 then (quotedString p).1
  else (p.take 255).rdropWhile isspace

/-! ### The loader -/

/-- `parse_state_t`. -/
inductive ParseState
  | root
  | benchmark
  | batchList
  | batchItem
  | batchKargs
  | batchV
  | scoreList
  | scoreItem
  | scoreArgs
  deriving DecidableEq, Repr

/-- In an item of the list of batches. -/
def ParseState.InBatch (state : ParseState) : Prop :=
  state = .batchItem ∨ state = .batchKargs ∨ state = .batchV

/-- In an item of the list of scores. -/
def ParseState.InScore (state : ParseState) : Prop := state = .scoreItem ∨ state = .scoreArgs

instance (state : ParseState) : Decidable state.InBatch :=
  inferInstanceAs (Decidable (_ ∨ _ ∨ _))

instance (state : ParseState) : Decidable state.InScore := inferInstanceAs (Decidable (_ ∨ _))

/-- The variables of the loop. -/
structure Scan where
  state : ParseState
  batchIndent : ℕ
  scoreIndent : ℕ
  bench : Bench
  deriving DecidableEq, Repr

/-- The loop starts outside of the benchmark. -/
def Scan.start : Scan := ⟨.root, 0, 0, .zero⟩

/-- Store the current batch. -/
def Scan.setBatch (s : Scan) (b : Batch) : Scan :=
  { s with bench := { s.bench with batches := s.bench.batches.dropLast ++ [b] } }

/-- Store the current score. -/
def Scan.setScore (s : Scan) (c : Score) : Scan :=
  { s with bench := { s.bench with scores := s.bench.scores.dropLast ++ [c] } }

/-- A list item that may open a batch or a score. -/
def hasId (item : Bytes) : Bool := (strstr (ascii ['i', 'd', ':']) item).isSome

/-- The id that stands behind the dash of an item. -/
def itemId (item : Bytes) : Bytes :=
  match parseKeyValue item with
  | some (key, value) => if key = ascii ['i', 'd'] then value else []
  | none => []

/-- A list item. -/
def listItem (s : Scan) (indent : ℕ) (item : Bytes) : Scan :=
  if (s.state = .batchList ∨ s.state.InBatch) ∧ hasId item ∧
      (s.state = .batchList ∨ indent ≤ s.batchIndent + 2) then
    if s.bench.batches.length < maxBatches then
      { s with
        state := .batchItem
        batchIndent := indent
        bench := { s.bench with
          batches := s.bench.batches ++ [Batch.zero.setText .id (itemId item)] } }
    else s
  else if s.state = .batchV ∧ s.bench.batches ≠ [] ∧ item.head? = some 91 then
    match s.bench.batches.getLast? with
    | none => s
    | some b =>
        if b.vspecs.length < maxVspecs then
          s.setBatch { b with vspecs := b.vspecs ++ [parseVItem item] }
        else s
  else if (s.state = .scoreList ∨ s.state.InScore) ∧ hasId item ∧
      (s.state = .scoreList ∨ indent ≤ s.scoreIndent + 2) then
    if s.bench.scores.length < maxScores then
      { s with
        state := .scoreItem
        scoreIndent := indent
        bench := { s.bench with
          scores := s.bench.scores ++ [Score.new.setText .id (itemId item)] } }
    else s
  else if s.state = .scoreArgs then
    match s.bench.scores.getLast? with
    | none => s
    | some c =>
        if c.args.length < maxArgs then s.setScore { c with args := c.args ++ [parseScoreArg item] }
        else s
  else s

/-- A property of a batch. -/
def batchProperty (n : ℕ) (s : Scan) (b : Batch) (key value : Bytes) : Option Scan :=
  match batchText key with
  | some f => some (s.setBatch (b.setText f value))
  | none =>
      if key = ascii "kargs".toList then
        (parseKargsArray n value b.kargs).map fun r =>
          { s.setBatch { b with kargs := r.2 } with state := .batchKargs }
      else if key = ascii ['v'] then some { s with state := .batchV }
      else some s

/-- A property of a score. -/
def scoreProperty (s : Scan) (c : Score) (key value : Bytes) : Scan :=
  match scoreText key with
  | some f => s.setScore (c.setText f value)
  | none =>
      if key = ascii "display".toList then
        s.setScore { c with display := narrowed (strtol value).1 }
      else if key = ascii "args".toList then { s with state := .scoreArgs }
      else s

/-- A key and its value. -/
def keyValue (n : ℕ) (s : Scan) (indent : ℕ) (key value : Bytes) : Option Scan :=
  if key = ascii "name".toList ∧ s.state = .benchmark then
    some { s with bench := { s.bench with name := value.take 255 } }
  else if key = ascii "note".toList ∧ s.state = .benchmark then
    some { s with bench := { s.bench with note := value.take 1023 } }
  else if key = ascii "batch".toList then
    some { s with state := .batchList, batchIndent := indent }
  else if key = ascii "score".toList then
    some { s with state := .scoreList, scoreIndent := indent }
  else if s.state.InBatch then
    match s.bench.batches.getLast? with
    | some b => batchProperty n s b key value
    | none => some s
  else if s.state.InScore then
    match s.bench.scores.getLast? with
    | some c => some (scoreProperty s c key value)
    | none => some s
  else some s

/-- The text of a line, `content` in the source. -/
def lineContent (line : Bytes) : Bytes := trimWhitespace (cstr line)

/-- Neither a blank line nor a comment. -/
def significant (line : Bytes) : Bool := lineContent line ≠ [] ∧ (lineContent line).head? ≠ some 35

/-- A round of the loop of `tpb_bench_yaml_load`. -/
def parseLine (n : ℕ) (s : Scan) (line : Bytes) : Option Scan :=
  let indent := ((cstr line).takeWhile (· = 32)).length
  let content := lineContent line
  if ¬significant line then some s
  else if (ascii "benchmark:".toList).isPrefixOf content then
    some { s with state := .benchmark }
  else if s.state = .root then some s
  else if content.head? = some 45 then some (listItem s indent (listItemContent content))
  else
    match parseKeyValue content with
    | none => some s
    | some (key, value) => keyValue n s indent key value

/-- `tpb_bench_yaml_load`, with a number of rounds for the loop over an array of arguments. -/
def tpbBenchYamlLoad (n : ℕ) (file : Option Bytes) : Option (Except Err Bench) :=
  match file with
  | none => some (.error (.code .cliBenchmark .fileIoFail))
  | some text => ((fgetsLines 4095 text).foldlM (parseLine n) Scan.start).map fun s => .ok s.bench

/-! ### Bounds -/

/-- A C string in an array that has room for so many bytes and a terminator. -/
def InRoom (room : ℕ) (s : Bytes) : Prop := s.length ≤ room ∧ 0 ∉ s

/-- A batch that fits its arrays. -/
structure Batch.Bounded (b : Batch) : Prop where
  text : ∀ f : BatchText, InRoom f.room (b.text f)
  kargs : InRoom 2047 b.kargs
  vspecs : b.vspecs.length ≤ maxVspecs
  vspec : ∀ v ∈ b.vspecs, InRoom 255 v.name ∧ InRoom 31 v.reducer

/-- A score that fits its arrays. -/
structure Score.Bounded (c : Score) : Prop where
  text : ∀ f : ScoreText, InRoom f.room (c.text f)
  display : -2 ^ 31 ≤ c.display ∧ c.display < 2 ^ 31
  args : c.args.length ≤ maxArgs
  arg : ∀ a ∈ c.args, InRoom 255 a

/-- A benchmark that fits its arrays. -/
structure Bench.Bounded (bench : Bench) : Prop where
  name : InRoom 255 bench.name
  note : InRoom 1023 bench.note
  batches : bench.batches.length ≤ maxBatches
  batch : ∀ b ∈ bench.batches, b.Bounded
  scores : bench.scores.length ≤ maxScores
  score : ∀ c ∈ bench.scores, c.Bounded

theorem inRoom_nil (room : ℕ) : InRoom room [] := ⟨Nat.zero_le _, List.not_mem_nil⟩

theorem inRoom_take {room n : ℕ} {s : Bytes} (hn : n ≤ room) (hs : 0 ∉ s) :
    InRoom room (s.take n) :=
  ⟨(List.length_take_le _ _).trans hn, fun h => hs (List.mem_of_mem_take h)⟩

/-- Copying a text keeps a batch inside. -/
theorem Batch.Bounded.setText {b : Batch} (hb : b.Bounded) (f : BatchText) {value : Bytes}
    (hvalue : 0 ∉ value) : (b.setText f value).Bounded := by
  have hroom : InRoom f.room (value.take f.room) := inRoom_take le_rfl hvalue
  cases f <;> refine ⟨fun g => ?_, hb.kargs, hb.vspecs, hb.vspec⟩ <;> cases g <;>
    first
    | exact hroom
    | exact hb.text _

/-- Copying a text keeps a score inside. -/
theorem Score.Bounded.setText {c : Score} (hc : c.Bounded) (f : ScoreText) {value : Bytes}
    (hvalue : 0 ∉ value) : (c.setText f value).Bounded := by
  have hroom : InRoom f.room (value.take f.room) := inRoom_take le_rfl hvalue
  cases f <;> refine ⟨fun g => ?_, hc.display, hc.args, hc.arg⟩ <;> cases g <;>
    first
    | exact hroom
    | exact hc.text _

theorem Batch.bounded_zero : Batch.zero.Bounded where
  text f := by cases f <;> exact inRoom_nil _
  kargs := inRoom_nil _
  vspecs := Nat.zero_le _
  vspec _ hv := absurd hv List.not_mem_nil

theorem Score.bounded_new : Score.new.Bounded where
  text f := by cases f <;> exact inRoom_nil _
  display := by decide
  args := Nat.zero_le _
  arg _ ha := absurd ha List.not_mem_nil

theorem Bench.bounded_zero : Bench.zero.Bounded where
  name := inRoom_nil _
  note := inRoom_nil _
  batches := Nat.zero_le _
  batch _ hb := absurd hb List.not_mem_nil
  scores := Nat.zero_le _
  score _ hc := absurd hc List.not_mem_nil

/-! ### What the parts of a line leave -/

theorem trimWhitespace_sublist (s : Bytes) : (trimWhitespace s).Sublist s :=
  (List.rdropWhile_prefix _ _).sublist.trans (List.dropWhile_sublist _)

theorem stripQuotes_sublist (s : Bytes) : (stripQuotes s).Sublist s := by
  rw [stripQuotes]
  split_ifs
  · exact (List.dropLast_sublist _).trans (List.tail_sublist _)
  · exact List.Sublist.refl _

/-- The value is a part of the line. -/
theorem parseKeyValue_sublist {line key value : Bytes}
    (h : parseKeyValue line = some (key, value)) : value.Sublist line := by
  rw [parseKeyValue] at h
  split_ifs at h
  obtain ⟨-, rfl⟩ := Prod.mk.inj (Option.some.inj h)
  exact (stripQuotes_sublist _).trans <| (trimWhitespace_sublist _).trans <|
    (List.take_sublist _ _).trans <| (List.dropWhile_sublist _).trans <|
    (List.drop_sublist _ _).trans (List.dropWhile_sublist _)

theorem itemId_sublist (item : Bytes) : (itemId item).Sublist item := by
  rw [itemId]
  split
  next key value h =>
    split_ifs
    · exact parseKeyValue_sublist h
    · exact List.nil_sublist _
  next => exact List.nil_sublist _

theorem quotedString_sublist (p : Bytes) :
    (quotedString p).1.Sublist p ∧ (quotedString p).2.Sublist p ∧
      (quotedString p).1.length ≤ 255 := by
  cases p with
  | nil => exact ⟨List.nil_sublist _, List.nil_sublist _, Nat.zero_le _⟩
  | cons quote p =>
      by_cases hquote : quote = 34 ∨ quote = 39
      · rw [quotedString_of_quote hquote]
        refine ⟨?_, ?_, List.length_take_le _ _⟩
        · exact ((List.take_sublist _ _).trans (List.takeWhile_sublist _)).cons _
        · simp only
          split_ifs
          · exact ((List.tail_sublist _).trans (List.drop_sublist _ _)).cons _
          · exact (List.drop_sublist _ _).cons _
      · rw [quotedString, if_neg hquote]
        exact ⟨List.nil_sublist _, List.Sublist.refl _, Nat.zero_le _⟩

/-- The parts of a list of outputs fit their arrays. -/
theorem parseVItem_inRoom {str : Bytes} (hstr : 0 ∉ str) :
    InRoom 255 (parseVItem str).name ∧ InRoom 31 (parseVItem str).reducer := by
  have hfront : ((str.drop 1).dropWhile isspace).Sublist str :=
    (List.dropWhile_sublist _).trans (List.drop_sublist _ _)
  obtain ⟨hname, hrest, hlen⟩ := quotedString_sublist ((str.drop 1).dropWhile isspace)
  obtain ⟨hred, -, -⟩ := quotedString_sublist
    ((quotedString ((str.drop 1).dropWhile isspace)).2.dropWhile isKargSep)
  refine ⟨⟨hlen, fun h => hstr (hfront.subset (hname.subset h))⟩, inRoom_take le_rfl fun h => ?_⟩
  exact hstr (hfront.subset (hrest.subset ((List.dropWhile_sublist _).subset (hred.subset h))))

theorem parseScoreArg_inRoom {str : Bytes} (hstr : 0 ∉ str) : InRoom 255 (parseScoreArg str) := by
  have hfront := List.dropWhile_sublist (l := str) fun b => decide (isspace b ∨ b = 45)
  rw [parseScoreArg]
  split_ifs
  · obtain ⟨harg, -, hlen⟩ := quotedString_sublist
      (str.dropWhile fun b => decide (isspace b ∨ b = 45))
    exact ⟨hlen, fun h => hstr (hfront.subset (harg.subset h))⟩
  · obtain ⟨hlen, hzero⟩ := inRoom_take (le_refl 255) fun h => hstr (hfront.subset h)
    exact ⟨(List.rdropWhile_prefix _ _).length_le.trans hlen,
      fun h => hzero ((List.rdropWhile_prefix _ _).subset h)⟩

/-- The parts of a pair are parts of the text. -/
theorem yamlPair_sublist (p : Bytes) :
    (yamlPair p).1.Sublist p ∧ (yamlPair p).2.1.Sublist p ∧ (yamlPair p).2.2.Sublist p := by
  obtain ⟨hkey, hrest, -⟩ := quotedString_sublist (p.dropWhile isspace)
  obtain ⟨hval, hrest', -⟩ := quotedString_sublist
    ((quotedString (p.dropWhile isspace)).2.dropWhile isKargSep)
  have hfront : (p.dropWhile isspace).Sublist p := List.dropWhile_sublist _
  have hmid := (List.dropWhile_sublist isKargSep).trans (hrest.trans hfront)
  exact ⟨hkey.trans hfront, hval.trans hmid,
    (List.drop_sublist _ _).trans ((List.dropWhile_sublist _).trans (hrest'.trans hmid))⟩

/-- A pair is appended inside the array. -/
theorem appendPair_inRoom {key val kargs : Bytes} {first : Bool} (hkey : 0 ∉ key) (hval : 0 ∉ val)
    (hkargs : InRoom 2047 kargs) : InRoom 2047 (appendPair key val kargs first).1 := by
  obtain ⟨hlen, hzero⟩ := hkargs
  by_cases hne : key ≠ [] ∧ val ≠ []
  · have hpair : 0 ∉ (if first then [] else [58]) ++ key ++ 61 :: val := by
      cases first <;> simp [hkey, hval]
    rw [appendPair, if_pos hne]
    refine ⟨?_, ?_⟩
    · simp only [List.length_append, List.length_take]
      omega
    · rw [List.mem_append, not_or]
      exact ⟨hzero, fun h => hpair (List.mem_of_mem_take (List.mem_of_mem_take h))⟩
  · rw [appendPair, if_neg hne]
    exact ⟨hlen, hzero⟩

/-- A round of the loop keeps the arguments inside. -/
theorem kargsRound_inRoom {s : KargScan} (hp : 0 ∉ s.p) (hkargs : InRoom 2047 s.kargs) :
    0 ∉ (kargsRound s).p ∧ InRoom 2047 (kargsRound s).kargs := by
  have hskip : 0 ∉ s.p.dropWhile isspace := fun h => hp ((List.dropWhile_sublist _).subset h)
  rcases kargsRound_cases s with ⟨p, hopen, hround⟩ | ⟨-, hround⟩
  · rw [hopen, List.mem_cons, not_or] at hskip
    obtain ⟨hkey, hval, hrest⟩ := yamlPair_sublist p
    rw [hround]
    exact ⟨fun h => hskip.2 (hrest.subset ((List.dropWhile_sublist _).subset h)),
      appendPair_inRoom (fun h => hskip.2 (hkey.subset h)) (fun h => hskip.2 (hval.subset h))
        hkargs⟩
  · rw [hround]
    exact ⟨fun h => hskip ((List.dropWhile_sublist _).subset h), hkargs⟩

/-- The arguments of an array fit their array. -/
theorem parseKargsArray_inRoom {n : ℕ} {str kargs : Bytes} {r : ℤ × Bytes}
    (h : parseKargsArray n str kargs = some r) (hkargs : InRoom 2047 kargs) : InRoom 2047 r.2 := by
  have hloop (n : ℕ) : ∀ s s' : KargScan, kargsLoop n s = some s' → 0 ∉ s.p →
      InRoom 2047 s.kargs → InRoom 2047 s'.kargs := by
    induction n with
    | zero => exact fun s s' h => absurd h (Option.some_ne_none _).symm
    | succ n ih =>
        intro s s' h hp hroom
        rw [kargsLoop] at h
        split_ifs at h with hstop
        · exact Option.some.inj h ▸ hroom
        · obtain ⟨hp', hroom'⟩ := kargsRound_inRoom hp hroom
          exact ih _ _ h hp' hroom'
  rw [parseKargsArray] at h
  split at h
  next p hstr =>
    obtain ⟨s', hs', rfl⟩ := Option.map_eq_some_iff.mp h
    refine hloop n _ _ hs' ?_ (inRoom_nil _)
    have hzero := not_zero_mem_cstr str
    rw [hstr, List.mem_cons, not_or] at hzero
    exact hzero.2
  next =>
    obtain rfl := Option.some.inj h
    exact hkargs

/-! ### Steps of the loader -/

section Steps

variable {s s' : Scan}

/-- The last batch may be exchanged for one that fits. -/
theorem bounded_setBatch (hs : s.bench.Bounded) (hne : s.bench.batches ≠ []) {b : Batch}
    (hb : b.Bounded) : (s.setBatch b).bench.Bounded := by
  refine ⟨hs.name, hs.note, ?_, ?_, hs.scores, hs.score⟩
  · have hlen := List.length_pos_iff.mpr hne
    have hle := hs.batches
    rw [Scan.setBatch, List.length_append, List.length_dropLast, List.length_singleton]
    omega
  · intro b' hb'
    rw [Scan.setBatch, List.mem_append, List.mem_singleton] at hb'
    rcases hb' with hb' | rfl
    · exact hs.batch b' ((List.dropLast_sublist _).subset hb')
    · exact hb

/-- The last score may be exchanged for one that fits. -/
theorem bounded_setScore (hs : s.bench.Bounded) (hne : s.bench.scores ≠ []) {c : Score}
    (hc : c.Bounded) : (s.setScore c).bench.Bounded := by
  refine ⟨hs.name, hs.note, hs.batches, hs.batch, ?_, ?_⟩
  · have hlen := List.length_pos_iff.mpr hne
    have hle := hs.scores
    rw [Scan.setScore, List.length_append, List.length_dropLast, List.length_singleton]
    omega
  · intro c' hc'
    rw [Scan.setScore, List.mem_append, List.mem_singleton] at hc'
    rcases hc' with hc' | rfl
    · exact hs.score c' ((List.dropLast_sublist _).subset hc')
    · exact hc

/-- A list item keeps the benchmark inside. -/
theorem bounded_listItem (hs : s.bench.Bounded) (indent : ℕ) {item : Bytes} (hitem : 0 ∉ item) :
    (listItem s indent item).bench.Bounded := by
  have hid : 0 ∉ itemId item := fun h => hitem ((itemId_sublist item).subset h)
  rw [listItem]
  split_ifs with _ hroom _ _ hroom _
  · refine ⟨hs.name, hs.note, ?_, ?_, hs.scores, hs.score⟩
    · rw [List.length_append, List.length_singleton]
      exact hroom
    · simp only [List.forall_mem_append, List.forall_mem_singleton]
      exact ⟨hs.batch, Batch.bounded_zero.setText .id hid⟩
  · exact hs
  · split
    · exact hs
    next b hb =>
      have hmem := List.mem_of_getLast? hb
      split_ifs with hlt
      · refine bounded_setBatch hs (List.ne_nil_of_mem hmem) ?_
        obtain ⟨htext, hkargs, -, hvspec⟩ := hs.batch b hmem
        refine ⟨fun f => htext f, hkargs, ?_, ?_⟩
        · rw [List.length_append, List.length_singleton]
          exact hlt
        · simp only [List.forall_mem_append, List.forall_mem_singleton]
          exact ⟨hvspec, parseVItem_inRoom hitem⟩
      · exact hs
  · refine ⟨hs.name, hs.note, hs.batches, hs.batch, ?_, ?_⟩
    · rw [List.length_append, List.length_singleton]
      exact hroom
    · simp only [List.forall_mem_append, List.forall_mem_singleton]
      exact ⟨hs.score, Score.bounded_new.setText .id hid⟩
  · exact hs
  · split
    · exact hs
    next c hc =>
      have hmem := List.mem_of_getLast? hc
      split_ifs with hlt
      · refine bounded_setScore hs (List.ne_nil_of_mem hmem) ?_
        obtain ⟨htext, hdisplay, -, harg⟩ := hs.score c hmem
        refine ⟨fun f => htext f, hdisplay, ?_, ?_⟩
        · rw [List.length_append, List.length_singleton]
          exact hlt
        · simp only [List.forall_mem_append, List.forall_mem_singleton]
          exact ⟨harg, parseScoreArg_inRoom hitem⟩
      · exact hs
  · exact hs

/-- A property of a batch keeps the benchmark inside. -/
theorem bounded_batchProperty (hs : s.bench.Bounded) {n : ℕ} {b : Batch}
    (hb : s.bench.batches.getLast? = some b) {key value : Bytes} (hvalue : 0 ∉ value)
    (h : batchProperty n s b key value = some s') : s'.bench.Bounded := by
  have hmem := List.mem_of_getLast? hb
  have hne := List.ne_nil_of_mem hmem
  have hbound := hs.batch b hmem
  rw [batchProperty] at h
  split at h
  next f _ =>
    obtain rfl := Option.some.inj h
    exact bounded_setBatch hs hne (hbound.setText f hvalue)
  next =>
    split_ifs at h
    · obtain ⟨r, hr, rfl⟩ := Option.map_eq_some_iff.mp h
      exact bounded_setBatch hs hne
        ⟨fun f => hbound.text f, parseKargsArray_inRoom hr hbound.kargs, hbound.vspecs,
          hbound.vspec⟩
    · obtain rfl := Option.some.inj h
      exact hs
    · obtain rfl := Option.some.inj h
      exact hs

/-- A number that is narrowed is an `int`. -/
theorem range_narrowed (i : ℤ) : -2 ^ 31 ≤ narrowed i ∧ narrowed i < 2 ^ 31 := by
  rw [narrowed]
  have hlo := Int.le_bmod (x := max (-2 ^ 63) (min (2 ^ 63 - 1) i)) (m := 2 ^ 32) (by omega)
  have hhi := Int.bmod_lt (x := max (-2 ^ 63) (min (2 ^ 63 - 1) i)) (m := 2 ^ 32) (by omega)
  omega

/-- A property of a score keeps the benchmark inside. -/
theorem bounded_scoreProperty (hs : s.bench.Bounded) {c : Score}
    (hc : s.bench.scores.getLast? = some c) {key value : Bytes} (hvalue : 0 ∉ value) :
    (scoreProperty s c key value).bench.Bounded := by
  have hmem := List.mem_of_getLast? hc
  have hne := List.ne_nil_of_mem hmem
  have hbound := hs.score c hmem
  rw [scoreProperty]
  split
  next f _ => exact bounded_setScore hs hne (hbound.setText f hvalue)
  next =>
    split_ifs
    · exact bounded_setScore hs hne
        ⟨fun f => hbound.text f, range_narrowed _, hbound.args, hbound.arg⟩
    · exact hs
    · exact hs

/-- A key and its value keep the benchmark inside. -/
theorem bounded_keyValue (hs : s.bench.Bounded) {n indent : ℕ} {key value : Bytes}
    (hvalue : 0 ∉ value) (h : keyValue n s indent key value = some s') : s'.bench.Bounded := by
  rw [keyValue] at h
  split_ifs at h
  · obtain rfl := Option.some.inj h
    exact ⟨inRoom_take le_rfl hvalue, hs.note, hs.batches, hs.batch, hs.scores, hs.score⟩
  · obtain rfl := Option.some.inj h
    exact ⟨hs.name, inRoom_take le_rfl hvalue, hs.batches, hs.batch, hs.scores, hs.score⟩
  · obtain rfl := Option.some.inj h
    exact hs
  · obtain rfl := Option.some.inj h
    exact hs
  · split at h
    next b hb => exact bounded_batchProperty hs hb hvalue h
    next =>
      obtain rfl := Option.some.inj h
      exact hs
  · split at h
    next c hc =>
      obtain rfl := Option.some.inj h
      exact bounded_scoreProperty hs hc hvalue
    next =>
      obtain rfl := Option.some.inj h
      exact hs
  · obtain rfl := Option.some.inj h
    exact hs

/-- **A line** keeps the benchmark inside. -/
theorem bounded_parseLine (hs : s.bench.Bounded) {n : ℕ} {line : Bytes}
    (h : parseLine n s line = some s') : s'.bench.Bounded := by
  have hcontent : 0 ∉ lineContent line := fun h =>
    not_zero_mem_cstr line ((trimWhitespace_sublist _).subset h)
  rw [parseLine] at h
  split_ifs at h
  · obtain rfl := Option.some.inj h
    exact hs
  · obtain rfl := Option.some.inj h
    exact hs
  · obtain rfl := Option.some.inj h
    refine bounded_listItem hs _ fun hmem => hcontent ?_
    exact ((List.dropWhile_sublist _).trans (List.drop_sublist _ _)).subset hmem
  · split at h
    · obtain rfl := Option.some.inj h
      exact hs
    next key value hkv =>
      exact bounded_keyValue hs (fun hmem => hcontent ((parseKeyValue_sublist hkv).subset hmem)) h
  · obtain rfl := Option.some.inj h
    exact hs

end Steps

/-- **What is loaded fits its arrays**, whatever the file is: no more than 64 batches and 64
scores, 16 outputs of a batch and 32 arguments of a score, and texts that end in their arrays. -/
theorem loaded_bounded {n : ℕ} {file : Option Bytes} {bench : Bench}
    (h : tpbBenchYamlLoad n file = some (.ok bench)) : bench.Bounded := by
  cases file with
  | none => cases h
  | some text =>
      obtain ⟨s, hs, hok⟩ := Option.map_eq_some_iff.mp h
      obtain rfl := Except.ok.inj hok
      have hrun (lines : List Bytes) : ∀ s s' : Scan, s.bench.Bounded →
          lines.foldlM (parseLine n) s = some s' → s'.bench.Bounded := by
        induction lines with
        | nil =>
            intro s s' hs h
            exact Option.some.inj h ▸ hs
        | cons line lines ih =>
            intro s s' hs h
            rw [List.foldlM_cons] at h
            obtain ⟨s₁, hline, hrest⟩ := Option.bind_eq_some_iff.mp h
            exact ih s₁ s' (bounded_parseLine hs hline) hrest
      exact hrun _ _ _ Bench.bounded_zero hs

/-- A file with a name of 300 characters, a batch and a score. -/
def longFile : Bytes :=
  ascii "benchmark:\n  name: ".toList ++ List.replicate 300 97 ++
    ascii "\nbatch:\n  - id: b\n    v:\n      - ['x', '']\nscore:\n  - id: c\n".toList

/-- The name is cut. -/
theorem loaded_bounded_long : ∃ bench, tpbBenchYamlLoad 2 (some longFile) = some (.ok bench) ∧
    bench.name.length = 255 ∧ bench.batches.map (·.vspecs.length) = [1] ∧
    bench.scores.length = 1 ∧ bench.Bounded := by
  have hany : (tpbBenchYamlLoad 2 (some longFile)).any (fun r => r.toOption.any fun bench =>
      bench.name.length = 255 ∧ bench.batches.map (·.vspecs.length) = [1] ∧
        bench.scores.length = 1) = true := by
    decide +kernel
  obtain ⟨r, hload, hany⟩ := (Option.any_eq_true _ _).mp hany
  cases r with
  | error e => cases hany
  | ok bench =>
      obtain ⟨hname, hbatches, hscores⟩ := of_decide_eq_true hany
      exact ⟨bench, hload, hname, hbatches, hscores, loaded_bounded hload⟩

end TPBench.Yaml
