import TPBench.CFile.Segments
import TPBench.CFile.Text

/-!
# Kernel Arguments of a Benchmark

A batch of a benchmark file lists its kernel arguments as an array of quoted pairs,
`[["key", "val"], ["key", "val"]]`. The reader of the file (`tpb-bench-yaml.c`) keeps them as one
string, `key=val:key=val`, which the runner (`tpbcli-benchmark.c`) splits again.

The reader is a loop over the text. A round of it skips blanks, reads a pair where one starts, and
skips commas and blanks; nothing else moves it on. The model runs the loop with a number of rounds
(`kargsLoop`), and the loop of the source ends when some number of rounds is enough.

## Main results

* `parseKargsArray_ends_iff`: the reader returns if and only if nothing but commas and blanks stands
  outside the pairs, in front of the closing bracket.
* `runBatchKargs_eq_iff`: the runner gets the pairs of the array if and only if no key and no value
  has a colon and no pair but the first fills the buffers of both its key and its value.
-/

open CFile

namespace TPBench

/-! ### The reader -/

/-- What the reader skips between the parts of an array. -/
def isKargSep (b : UInt8) : Bool := b = 44 ∨ isspace b

/-- A quoted string at the front of the text, at most 255 bytes of it, and the text behind it. -/
def quotedString : Bytes → Bytes × Bytes
  | [] => ([], [])
  | quote :: p =>
      if quote = 34 ∨ quote = 39 then
        let key := (p.takeWhile (· ≠ quote)).take 255
        let p := p.drop key.length
        (key, if p.head? = some quote then p.tail else p)
      else ([], quote :: p)

/-- A pair, read behind its opening bracket: the key, the value and the text behind the pair. -/
def yamlPair (p : Bytes) : Bytes × Bytes × Bytes :=
  let key := quotedString (p.dropWhile isspace)
  let val := quotedString (key.2.dropWhile isKargSep)
  (key.1, val.1, (val.2.dropWhile (· ≠ 93)).drop 1)

/-- The variables of the loop: the text that is left, the arguments so far, and whether a pair is
still the first. -/
structure KargScan where
  p : Bytes
  kargs : Bytes
  first : Bool
  deriving DecidableEq, Repr

/-- A pair is appended to the arguments: it is printed to a buffer of 512 bytes and appended to one
of 2048. -/
def appendPair (key val kargs : Bytes) (first : Bool) : Bytes × Bool :=
  if key ≠ [] ∧ val ≠ [] then
    let pair := ((if first then [] else [58]) ++ key ++ 61 :: val).take 511
    (kargs ++ pair.take (2047 - kargs.length), false)
  else (kargs, first)

/-- A round of the loop of `parse_kargs_array`. -/
def kargsRound (s : KargScan) : KargScan :=
  let p := s.p.dropWhile isspace
  let s : KargScan := match p with
    | 91 :: p =>
        let pair := yamlPair p
        let out := appendPair pair.1 pair.2.1 s.kargs s.first
        ⟨pair.2.2, out.1, out.2⟩
    | p => { s with p := p }
  { s with p := s.p.dropWhile isKargSep }

/-- The loop of `parse_kargs_array`, with a number of rounds. -/
def kargsLoop : ℕ → KargScan → Option KargScan
  | 0, _ => none
  | n + 1, s => if s.p = [] ∨ s.p.head? = some 93 then some s else kargsLoop n (kargsRound s)

/-- `parse_kargs_array`, with a number of rounds for its loop: what it returns, and the arguments of
the batch. -/
def parseKargsArray (n : ℕ) (str kargs : Bytes) : Option (ℤ × Bytes) :=
  match cstr str with
  | 91 :: p => (kargsLoop n ⟨p, [], true⟩).map fun s => (0, s.kargs)
  | _ => some (-1, kargs)

/-- The pairs that `run_batch` passes to `tpb_driver_set_hdl_karg`, in their order. -/
def runBatchKargs (kargs : Bytes) : List (Bytes × Bytes) :=
  (segments 58 ((cstr kargs).take 2047)).filterMap fun token =>
    if 61 ∈ token then some (token.takeWhile (· ≠ 61), (token.dropWhile (· ≠ 61)).drop 1) else none

/-! ### Rounds -/

section Rounds

/-- What is read behind a quote. -/
theorem quotedString_of_quote {quote : UInt8} (hquote : quote = 34 ∨ quote = 39) (p : Bytes) :
    quotedString (quote :: p) = ((p.takeWhile (· ≠ quote)).take 255,
      if (p.drop ((p.takeWhile (· ≠ quote)).take 255).length).head? = some quote then
        (p.drop ((p.takeWhile (· ≠ quote)).take 255).length).tail
      else p.drop ((p.takeWhile (· ≠ quote)).take 255).length) := by
  rw [quotedString, if_pos hquote]

theorem length_quotedString_le (p : Bytes) : (quotedString p).2.length ≤ p.length := by
  cases p with
  | nil => exact le_rfl
  | cons quote p =>
      by_cases hquote : quote = 34 ∨ quote = 39
      · rw [quotedString_of_quote hquote, List.length_cons]
        split_ifs
        · rw [List.length_tail, List.length_drop]
          omega
        · rw [List.length_drop]
          omega
      · rw [quotedString, if_neg hquote]

/-- The text behind a pair is no longer than the one the pair starts. -/
theorem length_yamlPair_le (p : Bytes) : (yamlPair p).2.2.length ≤ p.length := by
  have hdrop (f : UInt8 → Bool) (l : Bytes) : (l.dropWhile f).length ≤ l.length :=
    (List.dropWhile_sublist f).length_le
  rw [yamlPair, List.length_drop]
  have hkey := length_quotedString_le (p.dropWhile isspace)
  have hval := length_quotedString_le ((quotedString (p.dropWhile isspace)).2.dropWhile isKargSep)
  have h₁ := hdrop isspace p
  have h₂ := hdrop isKargSep (quotedString (p.dropWhile isspace)).2
  have h₃ := hdrop (· ≠ 93)
    (quotedString ((quotedString (p.dropWhile isspace)).2.dropWhile isKargSep)).2
  omega

/-- The bytes outside the pairs, in front of the closing bracket. -/
def outsidePairs : Bytes → Bytes
  | [] => []
  | b :: p =>
      if b = 93 then []
      else if b = 91 then outsidePairs (yamlPair p).2.2
      else b :: outsidePairs p
termination_by p => p.length
decreasing_by
  · exact Nat.lt_succ_of_le (length_yamlPair_le p)
  · exact Nat.lt_succ_self _

/-- Nothing but commas and blanks stands outside the pairs. -/
def OnlyPairs (p : Bytes) : Prop := ∀ b ∈ outsidePairs p, isKargSep b

theorem isKargSep_of_isspace {b : UInt8} (hb : isspace b = true) : isKargSep b = true := by
  rw [isKargSep, decide_eq_true_eq]
  exact .inr hb

/-- No bracket is skipped. -/
theorem not_isKargSep : isKargSep 91 = false ∧ isKargSep 93 = false :=
  ⟨rfl, rfl⟩

theorem onlyPairs_cons {b : UInt8} (hb : isKargSep b = true) (p : Bytes) :
    OnlyPairs (b :: p) ↔ OnlyPairs p := by
  have h₁ : b ≠ 93 := by
    rintro rfl
    exact absurd hb (by rw [not_isKargSep.2]; exact Bool.false_ne_true)
  have h₂ : b ≠ 91 := by
    rintro rfl
    exact absurd hb (by rw [not_isKargSep.1]; exact Bool.false_ne_true)
  rw [OnlyPairs, outsidePairs, if_neg h₁, if_neg h₂, List.forall_mem_cons]
  exact and_iff_right hb

theorem onlyPairs_pair (p : Bytes) : OnlyPairs (91 :: p) ↔ OnlyPairs (yamlPair p).2.2 := by
  rw [OnlyPairs, outsidePairs, if_neg (by decide), if_pos rfl]
  rfl

/-- Skipping leaves the bytes that matter. -/
theorem onlyPairs_dropWhile {f : UInt8 → Bool} (hf : ∀ b, f b = true → isKargSep b = true)
    (p : Bytes) : OnlyPairs (p.dropWhile f) ↔ OnlyPairs p := by
  induction p with
  | nil => exact Iff.rfl
  | cons b p ih =>
      cases hb : f b with
      | true => rw [List.dropWhile_cons_of_pos hb, ih, onlyPairs_cons (hf b hb)]
      | false => rw [List.dropWhile_cons_of_neg (by simp [hb])]

/-- **A round**: it reads a pair, or it only skips. -/
theorem kargsRound_cases (s : KargScan) :
    (∃ p, s.p.dropWhile isspace = 91 :: p ∧
      kargsRound s = ⟨(yamlPair p).2.2.dropWhile isKargSep,
        (appendPair (yamlPair p).1 (yamlPair p).2.1 s.kargs s.first).1,
        (appendPair (yamlPair p).1 (yamlPair p).2.1 s.kargs s.first).2⟩) ∨
    (∀ p, s.p.dropWhile isspace ≠ 91 :: p) ∧
      kargsRound s = { s with p := (s.p.dropWhile isspace).dropWhile isKargSep } := by
  rw [kargsRound]
  simp only
  split
  next p hp => exact .inl ⟨p, hp, rfl⟩
  next hno => exact .inr ⟨hno, rfl⟩

/-- A round leaves the bytes that matter. -/
theorem onlyPairs_kargsRound (s : KargScan) : OnlyPairs (kargsRound s).p ↔ OnlyPairs s.p := by
  have hsp : OnlyPairs (s.p.dropWhile isspace) ↔ OnlyPairs s.p :=
    onlyPairs_dropWhile (fun b => isKargSep_of_isspace) _
  rcases kargsRound_cases s with ⟨p, hp, hround⟩ | ⟨-, hround⟩
  · rw [hround, onlyPairs_dropWhile (fun b => id), ← onlyPairs_pair, ← hp, hsp]
  · rw [hround, onlyPairs_dropWhile (fun b => id), hsp]

/-- A round moves on, where nothing but pairs is left. -/
theorem length_kargsRound_lt {s : KargScan} (h : OnlyPairs s.p) (hne : s.p ≠ [])
    (hhead : s.p.head? ≠ some 93) : (kargsRound s).p.length < s.p.length := by
  have hdrop (f : UInt8 → Bool) (l : Bytes) : (l.dropWhile f).length ≤ l.length :=
    (List.dropWhile_sublist f).length_le
  obtain ⟨b, p, hbp⟩ := List.exists_cons_of_ne_nil hne
  rcases kargsRound_cases s with ⟨q, hq, hround⟩ | ⟨hno, hround⟩
  · have h₁ := hdrop isspace s.p
    have h₂ := hdrop isKargSep (yamlPair q).2.2
    have h₃ := length_yamlPair_le q
    rw [hq, List.length_cons] at h₁
    rw [hround]
    simp only
    omega
  · rw [hround]
    simp only [hbp] at h hhead hno ⊢
    have hb : b ≠ 93 := fun hb => hhead (by rw [hb]; rfl)
    have hb' : b ≠ 91 := by
      rintro rfl
      exact hno p (List.dropWhile_cons_of_neg (by decide))
    have hsep : isKargSep b = true := by
      rw [OnlyPairs, outsidePairs, if_neg hb, if_neg hb', List.forall_mem_cons] at h
      exact h.1
    rw [List.length_cons, Nat.lt_succ_iff]
    cases hsp : isspace b with
    | true =>
        rw [List.dropWhile_cons_of_pos hsp]
        exact (hdrop _ _).trans (hdrop _ _)
    | false =>
        rw [List.dropWhile_cons_of_neg (by simp [hsp]), List.dropWhile_cons_of_pos hsep]
        exact hdrop _ _

end Rounds

/-! ### The end of the loop -/

/-- A loop that ends has nothing but pairs before it. -/
theorem onlyPairs_of_kargsLoop {n : ℕ} {s : KargScan} (h : (kargsLoop n s).isSome) :
    OnlyPairs s.p := by
  induction n generalizing s with
  | zero => exact absurd h Bool.false_ne_true
  | succ n ih =>
      rw [kargsLoop] at h
      split_ifs at h with hstop
      · rcases hstop with hnil | hclose
        · rw [OnlyPairs, hnil, outsidePairs]
          exact fun b hb => absurd hb List.not_mem_nil
        · obtain ⟨p, hp⟩ := List.head?_eq_some_iff.mp hclose
          rw [OnlyPairs, hp, outsidePairs, if_pos rfl]
          exact fun b hb => absurd hb List.not_mem_nil
      · exact (onlyPairs_kargsRound s).mp (ih h)

/-- A loop that has nothing but pairs before it ends: every round shortens the text. -/
theorem exists_kargsLoop {s : KargScan} (h : OnlyPairs s.p) : ∃ n, (kargsLoop n s).isSome := by
  induction hlen : s.p.length using Nat.strong_induction_on generalizing s with
  | _ len ih =>
      by_cases hstop : s.p = [] ∨ s.p.head? = some 93
      · exact ⟨1, by rw [kargsLoop, if_pos hstop]; rfl⟩
      · obtain ⟨hne, hhead⟩ := not_or.mp hstop
        obtain ⟨n, hn⟩ := ih _ (hlen ▸ length_kargsRound_lt h hne hhead)
          ((onlyPairs_kargsRound s).mpr h) rfl
        exact ⟨n + 1, by rw [kargsLoop, if_neg hstop]; exact hn⟩

/-- **The reader returns** if and only if nothing but commas and blanks stands outside the pairs. -/
theorem parseKargsArray_ends_iff (rest kargs : Bytes) :
    (∃ n, (parseKargsArray n (91 :: rest) kargs).isSome) ↔ OnlyPairs (cstr rest) := by
  have hstr : cstr (91 :: rest) = 91 :: cstr rest := List.takeWhile_cons_of_pos (by decide)
  have hmap (n : ℕ) : (parseKargsArray n (91 :: rest) kargs).isSome =
      (kargsLoop n ⟨cstr rest, [], true⟩).isSome := by
    rw [parseKargsArray, hstr]
    exact Option.isSome_map
  constructor
  · rintro ⟨n, hn⟩
    exact onlyPairs_of_kargsLoop (s := ⟨cstr rest, [], true⟩) (hmap n ▸ hn)
  · intro h
    obtain ⟨n, hn⟩ := exists_kargsLoop (s := ⟨cstr rest, [], true⟩) h
    exact ⟨n, (hmap n).trans hn⟩

/-- An array of plain text, `[a]`, is read for ever. -/
theorem plain_array_never_ends :
    ¬∃ n, (parseKargsArray n (ascii ['[', 'a', ']']) []).isSome := by
  rintro ⟨n, hn⟩
  have hloop : (kargsLoop n ⟨[97, 93], [], true⟩).isSome := by
    rw [← Option.isSome_map (f := fun s : KargScan => ((0 : ℤ), s.kargs))]
    exact hn
  have honly : OnlyPairs [97, 93] := onlyPairs_of_kargsLoop hloop
  rw [OnlyPairs, outsidePairs, if_neg (by decide), if_neg (by decide),
    List.forall_mem_cons] at honly
  exact absurd honly.1 (by decide)

/-! ### Arrays of pairs -/

/-- A pair that an array can quote: the key and the value are C strings of 1 to 255 bytes
without the quote, and the key has no `=`. -/
structure Quotable (quote : UInt8) (kv : Bytes × Bytes) : Prop where
  key_ne : kv.1 ≠ []
  val_ne : kv.2 ≠ []
  key_length : kv.1.length ≤ 255
  val_length : kv.2.length ≤ 255
  key_quote : quote ∉ kv.1
  val_quote : quote ∉ kv.2
  key_zero : 0 ∉ kv.1
  val_zero : 0 ∉ kv.2
  key_eq : 61 ∉ kv.1

/-- The text of a pair, with blanks behind its comma. -/
def pairText (quote : UInt8) (gap : Bytes) (kv : Bytes × Bytes) : Bytes :=
  91 :: quote :: kv.1 ++ quote :: 44 :: gap ++ quote :: kv.2 ++ [quote, 93]

/-- The text of an array, with blanks behind the commas. -/
def arrayText (quote : UInt8) (gap : Bytes) (kvs : List (Bytes × Bytes)) : Bytes :=
  91 :: List.intercalate (44 :: gap) (kvs.map (pairText quote gap)) ++ [93]

/-- A pair as the arguments have it. -/
def kargEntry (kv : Bytes × Bytes) : Bytes := kv.1 ++ 61 :: kv.2

section Arrays

variable {quote : UInt8} {gap : Bytes}

/-- A string between quotes is read. -/
theorem quotedString_quoted (hquote : quote = 34 ∨ quote = 39) {s : Bytes} (hs : quote ∉ s)
    (hlen : s.length ≤ 255) (rest : Bytes) :
    quotedString (quote :: s ++ quote :: rest) = (s, rest) := by
  have htake : (s ++ quote :: rest).takeWhile (· ≠ quote) = s := by
    rw [List.takeWhile_append_of_pos]
    · rw [List.takeWhile_cons_of_neg (by simp), List.append_nil]
    · intro b hb
      have hne : b ≠ quote := by
        rintro rfl
        exact hs hb
      simpa using hne
  rw [List.cons_append, quotedString_of_quote hquote, htake, List.take_of_length_le hlen,
    List.drop_left, List.head?_cons, if_pos rfl, List.tail_cons]

/-- A quote is not skipped. -/
theorem not_isKargSep_quote (hquote : quote = 34 ∨ quote = 39) : isKargSep quote = false := by
  rcases hquote with rfl | rfl
  · rfl
  · rfl

theorem not_isspace_of_not_isKargSep {b : UInt8} (hb : isKargSep b = false) :
    isspace b = false := by
  cases hsp : isspace b with
  | true => exact absurd (isKargSep_of_isspace hsp) (by rw [hb]; exact Bool.false_ne_true)
  | false => rfl

/-- A comma and blanks are skipped. -/
theorem dropWhile_gap (hgap : ∀ b ∈ gap, isspace b) {b : UInt8} (hb : isKargSep b = false)
    (rest : Bytes) : (44 :: gap ++ b :: rest).dropWhile isKargSep = b :: rest := by
  rw [List.cons_append, List.dropWhile_cons_of_pos (by decide), List.dropWhile_append_of_pos
    fun x hx => isKargSep_of_isspace (hgap x hx), List.dropWhile_cons_of_neg (by simp [hb])]

/-- A pair of the array is read. -/
theorem yamlPair_pairText (hquote : quote = 34 ∨ quote = 39) (hgap : ∀ b ∈ gap, isspace b)
    {kv : Bytes × Bytes} (hkv : Quotable quote kv) (rest : Bytes) :
    ∃ p, pairText quote gap kv ++ rest = 91 :: p ∧ yamlPair p = (kv.1, kv.2, rest) := by
  have hsep := not_isKargSep_quote hquote
  refine ⟨quote :: kv.1 ++ quote :: (44 :: gap ++ quote :: (kv.2 ++ quote :: 93 :: rest)), ?_, ?_⟩
  · rw [pairText]
    simp only [List.cons_append, List.append_assoc, List.nil_append]
  · have hfront : (quote :: kv.1 ++
        quote :: (44 :: gap ++ quote :: (kv.2 ++ quote :: 93 :: rest))).dropWhile isspace =
        quote :: kv.1 ++ quote :: (44 :: gap ++ quote :: (kv.2 ++ quote :: 93 :: rest)) := by
      rw [List.cons_append, List.dropWhile_cons_of_neg]
      rw [not_isspace_of_not_isKargSep hsep]
      exact Bool.false_ne_true
    rw [yamlPair, hfront, quotedString_quoted hquote hkv.key_quote hkv.key_length]
    simp only
    rw [dropWhile_gap hgap hsep, ← List.cons_append,
      quotedString_quoted hquote hkv.val_quote hkv.val_length]
    rfl

/-- Pairs start with a bracket. -/
theorem exists_pairs_open (kv : Bytes × Bytes) (kvs : List (Bytes × Bytes)) :
    ∃ p, List.intercalate (44 :: gap) ((kv :: kvs).map (pairText quote gap)) ++ [93] = 91 :: p := by
  cases kvs with
  | nil => exact ⟨_, by rw [List.map_singleton, List.intercalate_singleton]; rfl⟩
  | cons kv' kvs =>
      have hne : (kv' :: kvs).map (pairText quote gap) ≠ [] := List.cons_ne_nil _ _
      exact ⟨_, by rw [List.map_cons, List.intercalate_cons_of_ne_nil hne]; rfl⟩

/-- Behind a pair stands the closing bracket, or a comma with blanks and the other pairs. -/
theorem exists_rest_pairs (hgap : ∀ b ∈ gap, isspace b) (kv : Bytes × Bytes)
    (kvs : List (Bytes × Bytes)) :
    ∃ rest, List.intercalate (44 :: gap) ((kv :: kvs).map (pairText quote gap)) ++ [93] =
        pairText quote gap kv ++ rest ∧
      rest.dropWhile isKargSep =
        List.intercalate (44 :: gap) (kvs.map (pairText quote gap)) ++ [93] := by
  cases kvs with
  | nil => exact ⟨[93], by rw [List.map_singleton, List.intercalate_singleton], rfl⟩
  | cons kv' kvs =>
      have hne : (kv' :: kvs).map (pairText quote gap) ≠ [] := List.cons_ne_nil _ _
      obtain ⟨p, hp⟩ : ∃ p, List.intercalate (44 :: gap)
          ((kv' :: kvs).map (pairText quote gap)) ++ [93] = 91 :: p := exists_pairs_open kv' kvs
      refine ⟨44 :: gap ++ (List.intercalate (44 :: gap)
        ((kv' :: kvs).map (pairText quote gap)) ++ [93]), ?_, ?_⟩
      · rw [List.map_cons, List.intercalate_cons_of_ne_nil hne, List.append_assoc,
          List.append_assoc]
      · rw [hp, dropWhile_gap hgap not_isKargSep.1]

/-- The arguments after the pairs of a list. -/
def appendPairs (kvs : List (Bytes × Bytes)) (out : Bytes × Bool) : Bytes × Bool :=
  kvs.foldl (fun out kv => appendPair kv.1 kv.2 out.1 out.2) out

/-- **The loop over an array** appends its pairs, one in a round. -/
theorem kargsLoop_pairs (hquote : quote = 34 ∨ quote = 39) (hgap : ∀ b ∈ gap, isspace b)
    {kvs : List (Bytes × Bytes)} (hkvs : ∀ kv ∈ kvs, Quotable quote kv) {s : KargScan}
    (hs : s.p = List.intercalate (44 :: gap) (kvs.map (pairText quote gap)) ++ [93]) :
    ∃ n s', kargsLoop n s = some s' ∧ s'.kargs = (appendPairs kvs (s.kargs, s.first)).1 := by
  induction kvs generalizing s with
  | nil =>
      refine ⟨1, s, ?_, rfl⟩
      rw [kargsLoop, if_pos (.inr (by rw [hs]; rfl))]
  | cons kv kvs ih =>
      obtain ⟨hkv, hrest⟩ := List.forall_mem_cons.mp hkvs
      obtain ⟨rest, hp, hskip⟩ :=
          (exists_rest_pairs hgap kv kvs : ∃ rest, _ = pairText quote gap kv ++ rest ∧ _)
      obtain ⟨p, hpair, hread⟩ := yamlPair_pairText hquote hgap hkv rest
      rw [← hs, hpair] at hp
      have hopen : s.p.dropWhile isspace = 91 :: p := by
        rw [hp]
        exact List.dropWhile_cons_of_neg (by decide)
      have hround : kargsRound s = ⟨rest.dropWhile isKargSep,
          (appendPair kv.1 kv.2 s.kargs s.first).1, (appendPair kv.1 kv.2 s.kargs s.first).2⟩ := by
        rcases kargsRound_cases s with ⟨q, hq, hround⟩ | ⟨hno, -⟩
        · obtain rfl : p = q := List.tail_eq_of_cons_eq (hopen.symm.trans hq)
          rw [hround, hread]
        · exact absurd hopen (hno p)
      obtain ⟨n, s', hloop, hkargs⟩ := ih hrest (s := kargsRound s) (by rw [hround]; exact hskip)
      refine ⟨n + 1, s', ?_, ?_⟩
      · rw [kargsLoop, if_neg (by rw [hp]; simp), hloop]
      · rw [hkargs, hround]
        rfl

/-- The arguments of the pairs behind the first: a pair that fills its buffer loses its end. -/
theorem appendPairs_false {kvs : List (Bytes × Bytes)} (hkvs : ∀ kv ∈ kvs, Quotable quote kv)
    {kargs : Bytes}
    (hlen : kargs.length + (kvs.flatMap fun kv => 58 :: kargEntry kv).length ≤ 2047) :
    (appendPairs kvs (kargs, false)).1 =
      kargs ++ kvs.flatMap fun kv => 58 :: (kargEntry kv).take 510 := by
  induction kvs generalizing kargs with
  | nil => rw [appendPairs, List.foldl_nil, List.flatMap_nil, List.append_nil]
  | cons kv kvs ih =>
      obtain ⟨hkv, hrest⟩ := List.forall_mem_cons.mp hkvs
      rw [List.flatMap_cons, List.length_append, List.length_cons] at hlen
      have hcut : ((kargEntry kv).take 510).length ≤ (kargEntry kv).length :=
        List.length_take_le' _ _
      have hstep : appendPair kv.1 kv.2 kargs false =
          (kargs ++ 58 :: (kargEntry kv).take 510, false) := by
        have hpair : (58 :: (kargEntry kv).take 510).take (2047 - kargs.length) =
            58 :: (kargEntry kv).take 510 := by
          refine List.take_of_length_le ?_
          rw [List.length_cons]
          omega
        rw [appendPair, if_pos ⟨hkv.key_ne, hkv.val_ne⟩]
        exact congrArg (fun pair => (kargs ++ pair, false)) hpair
      have hlen' : (kargs ++ 58 :: (kargEntry kv).take 510).length +
          (kvs.flatMap fun kv => 58 :: kargEntry kv).length ≤ 2047 := by
        rw [List.length_append, List.length_cons]
        omega
      have hfold : appendPairs (kv :: kvs) (kargs, false) =
          appendPairs kvs (kargs ++ 58 :: (kargEntry kv).take 510, false) := by
        rw [appendPairs, List.foldl_cons, hstep, ← appendPairs]
      rw [hfold, ih hrest hlen', List.append_assoc, List.flatMap_cons]

/-- The entries of the arguments: what the buffer of a pair holds of it. -/
def kargEntries : List (Bytes × Bytes) → List Bytes
  | [] => []
  | kv :: kvs => (kargEntry kv).take 511 :: kvs.map fun kv => (kargEntry kv).take 510

/-- **The arguments of an array** are its entries, joined by colons. -/
theorem appendPairs_true {kvs : List (Bytes × Bytes)} (hkvs : ∀ kv ∈ kvs, Quotable quote kv)
    (hlen : (joinSep 58 (kvs.map kargEntry)).length ≤ 2047) :
    (appendPairs kvs ([], true)).1 = joinSep 58 (kargEntries kvs) := by
  cases kvs with
  | nil => rfl
  | cons kv kvs =>
      obtain ⟨hkv, hrest⟩ := List.forall_mem_cons.mp hkvs
      rw [List.map_cons, joinSep_cons_eq_flatMap, List.length_append, List.flatMap_map] at hlen
      have hentry : (kargEntry kv).length ≤ 511 := by
        have h₁ := hkv.key_length
        have h₂ := hkv.val_length
        rw [kargEntry, List.length_append, List.length_cons]
        omega
      have hstep : appendPair kv.1 kv.2 [] true = (kargEntry kv, false) := by
        have hpair : (([] ++ kv.1 ++ 61 :: kv.2).take 511).take (2047 - 0) = kargEntry kv := by
          rw [List.nil_append, ← kargEntry, List.take_of_length_le hentry,
            List.take_of_length_le (by omega)]
        rw [appendPair, if_pos ⟨hkv.key_ne, hkv.val_ne⟩]
        exact congrArg (fun pair => (pair, false)) hpair
      have hfold : appendPairs (kv :: kvs) ([], true) = appendPairs kvs (kargEntry kv, false) := by
        rw [appendPairs, List.foldl_cons, hstep, ← appendPairs]
      rw [hfold, appendPairs_false hrest hlen, kargEntries, joinSep_cons_eq_flatMap,
        List.flatMap_map, List.take_of_length_le hentry]

/-- No colon is passed: the runner splits at every one. -/
theorem not_mem_of_mem_runBatchKargs {kargs : Bytes} {kv : Bytes × Bytes}
    (h : kv ∈ runBatchKargs kargs) : 58 ∉ kv.1 ∧ 58 ∉ kv.2 := by
  rw [runBatchKargs, List.mem_filterMap] at h
  obtain ⟨token, htoken, hkv⟩ := h
  obtain ⟨-, hcolon⟩ := segs_segments _ token htoken
  split_ifs at hkv
  obtain rfl := Option.some.inj hkv
  exact ⟨fun hmem => hcolon ((List.takeWhile_sublist _).subset hmem),
    fun hmem => hcolon ((List.dropWhile_sublist _).subset (List.mem_of_mem_drop hmem))⟩

/-- A pair of the arguments is passed, with what is left of its value. -/
theorem split_take_kargEntry {kv : Bytes × Bytes} (hkv : Quotable quote kv) {n : ℕ} (hn : 256 ≤ n) :
    61 ∈ (kargEntry kv).take n ∧ ((kargEntry kv).take n).takeWhile (· ≠ 61) = kv.1 ∧
      (((kargEntry kv).take n).dropWhile (· ≠ 61)).drop 1 = kv.2.take (n - kv.1.length - 1) := by
  have hkey := hkv.key_length
  obtain ⟨m, hm⟩ : ∃ m, n - kv.1.length = m + 1 := ⟨n - kv.1.length - 1, by omega⟩
  have htake : (kargEntry kv).take n = kv.1 ++ 61 :: kv.2.take m := by
    rw [kargEntry, List.take_append, List.take_of_length_le (by omega), hm, List.take_succ_cons]
  have hall : ∀ b ∈ kv.1, decide (b ≠ 61) = true := by
    intro b hb
    refine decide_eq_true ?_
    rintro rfl
    exact hkv.key_eq hb
  rw [htake, hm, Nat.add_sub_cancel]
  refine ⟨by simp, ?_, ?_⟩
  · rw [List.takeWhile_append_of_pos hall, List.takeWhile_cons_of_neg (by decide), List.append_nil]
  · rw [List.dropWhile_append_of_pos hall, List.dropWhile_cons_of_neg (by decide)]
    rfl

theorem not_mem_take_kargEntry {kv : Bytes × Bytes} {b : UInt8} (hb : b ≠ 61) (hkey : b ∉ kv.1)
    (hval : b ∉ kv.2) (n : ℕ) : b ∉ (kargEntry kv).take n := by
  intro h
  have hmem := List.mem_of_mem_take h
  rw [kargEntry, List.mem_append, List.mem_cons] at hmem
  rcases hmem with hmem | hmem | hmem
  · exact hkey hmem
  · exact hb hmem
  · exact hval hmem

/-- What holds of the cut pairs holds of the entries. -/
theorem forall_mem_kargEntries {kvs : List (Bytes × Bytes)} {P : Bytes → Prop}
    (h : ∀ kv ∈ kvs, ∀ n, 256 ≤ n → P ((kargEntry kv).take n)) : ∀ e ∈ kargEntries kvs, P e := by
  cases kvs with
  | nil => exact fun e he => absurd he List.not_mem_nil
  | cons kv kvs =>
      intro e he
      rw [kargEntries, List.mem_cons, List.mem_map] at he
      rcases he with rfl | ⟨kv', hkv', rfl⟩
      · exact h kv List.mem_cons_self 511 (by omega)
      · exact h kv' (List.mem_cons_of_mem _ hkv') 510 (by omega)

theorem not_zero_mem_kargEntries {kvs : List (Bytes × Bytes)}
    (hkvs : ∀ kv ∈ kvs, Quotable quote kv) : 0 ∉ joinSep 58 (kargEntries kvs) := by
  have hentry : ∀ e ∈ kargEntries kvs, 0 ∉ e := forall_mem_kargEntries fun kv hkv n _ =>
    not_mem_take_kargEntry (by decide) (hkvs kv hkv).key_zero (hkvs kv hkv).val_zero n
  intro h
  rcases mem_joinSep h with h | ⟨e, he, h⟩
  · exact absurd h (by decide)
  · exact hentry e he h

/-- The entries are passed one by one, where no pair has a colon. -/
theorem runBatchKargs_entries {kvs : List (Bytes × Bytes)} (hkvs : ∀ kv ∈ kvs, Quotable quote kv)
    (hcolon : ∀ kv ∈ kvs, 58 ∉ kv.1 ∧ 58 ∉ kv.2)
    (hlen : (joinSep 58 (kargEntries kvs)).length ≤ 2047) :
    runBatchKargs (joinSep 58 (kargEntries kvs)) =
      kvs.head?.toList ++ kvs.tail.map fun kv => (kv.1, kv.2.take (510 - kv.1.length - 1)) := by
  have hsplit (n : ℕ) (hn : 256 ≤ n) : ∀ kv ∈ kvs,
      (if 61 ∈ (kargEntry kv).take n then
          some (((kargEntry kv).take n).takeWhile (· ≠ 61),
            (((kargEntry kv).take n).dropWhile (· ≠ 61)).drop 1)
        else none) = some (kv.1, kv.2.take (n - kv.1.length - 1)) := by
    intro kv hkv
    obtain ⟨hmem, hkey, hval⟩ := split_take_kargEntry (hkvs kv hkv) hn
    rw [if_pos hmem, hkey, hval]
  have hsegs : Segs 58 (kargEntries kvs) := forall_mem_kargEntries fun kv hkv n hn =>
    ⟨List.ne_nil_of_mem (split_take_kargEntry (hkvs kv hkv) hn).1,
      not_mem_take_kargEntry (by decide) (hcolon kv hkv).1 (hcolon kv hkv).2 n⟩
  rw [runBatchKargs, cstr_of_not_mem (not_zero_mem_kargEntries hkvs), List.take_of_length_le hlen,
    segments_joinSep hsegs]
  cases kvs with
  | nil => rfl
  | cons kv kvs =>
      have hkv := hkvs kv List.mem_cons_self
      have hwhole : kv.2.take (511 - kv.1.length - 1) = kv.2 := by
        have h₁ := hkv.key_length
        have h₂ := hkv.val_length
        exact List.take_of_length_le (by omega)
      have htail : (kvs.map fun kv => (kargEntry kv).take 510).filterMap
          (fun token => if 61 ∈ token then
            some (token.takeWhile (· ≠ 61), (token.dropWhile (· ≠ 61)).drop 1) else none) =
          kvs.map fun kv => (kv.1, kv.2.take (510 - kv.1.length - 1)) := by
        rw [List.filterMap_map, ← List.filterMap_eq_map]
        exact List.filterMap_congr fun kv' hkv' =>
          hsplit 510 (by omega) kv' (List.mem_cons_of_mem _ hkv')
      rw [kargEntries, List.filterMap_cons, hsplit 511 (by omega) kv List.mem_cons_self, hwhole,
        htail]
      rfl

/-- The cut entries are no longer than the whole ones. -/
theorem length_kargEntries_le (kvs : List (Bytes × Bytes)) :
    (joinSep 58 (kargEntries kvs)).length ≤ (joinSep 58 (kvs.map kargEntry)).length := by
  cases kvs with
  | nil => exact le_rfl
  | cons kv kvs =>
      rw [kargEntries, List.map_cons, joinSep_cons_eq_flatMap, joinSep_cons_eq_flatMap,
        List.length_append, List.length_append, List.length_flatMap, List.length_flatMap,
        List.map_map, List.map_map]
      refine Nat.add_le_add (List.length_take_le' _ _) (List.sum_le_sum fun kv _ => ?_)
      exact Nat.succ_le_succ (List.length_take_le' _ _)

/-- The entries are passed whole where every pair but the first leaves room in its buffer. -/
theorem map_take_eq_iff {kvs : List (Bytes × Bytes)} (hkvs : ∀ kv ∈ kvs, Quotable quote kv) :
    (kvs.map fun kv => (kv.1, kv.2.take (510 - kv.1.length - 1))) = kvs ↔
      ∀ kv ∈ kvs, kv.1.length + kv.2.length < 510 := by
  have hone : ∀ kv ∈ kvs, (kv.1, kv.2.take (510 - kv.1.length - 1)) = kv ↔
      kv.1.length + kv.2.length < 510 := by
    intro kv hkv
    have h := (hkvs kv hkv).key_length
    rw [Prod.ext_iff, List.take_eq_self_iff]
    simp only [true_and]
    omega
  conv_lhs => rhs; rw [← List.map_id' kvs]
  rw [List.map_inj_left]
  exact forall₂_congr hone

theorem cstr_arrayText (hquote : quote = 34 ∨ quote = 39) (hgap : ∀ b ∈ gap, isspace b)
    {kvs : List (Bytes × Bytes)} (hkvs : ∀ kv ∈ kvs, Quotable quote kv) :
    cstr (arrayText quote gap kvs) = arrayText quote gap kvs := by
  have hquote' : quote ≠ 0 := by
    rcases hquote with rfl | rfl
    · decide
    · decide
  have hgap' : 0 ∉ gap := fun h => absurd (hgap 0 h) (by decide)
  have hpair : ∀ kv ∈ kvs, 0 ∉ pairText quote gap kv := by
    intro kv hkv
    simp [pairText, hquote'.symm, hgap', (hkvs kv hkv).key_zero, (hkvs kv hkv).val_zero]
  have hall : 0 ∉ List.intercalate (44 :: gap) (kvs.map (pairText quote gap)) := by
    induction kvs with
    | nil => exact List.not_mem_nil
    | cons kv kvs ih =>
        obtain ⟨hkv, hrest⟩ := List.forall_mem_cons.mp hkvs
        obtain ⟨hfirst, hpairs⟩ := List.forall_mem_cons.mp hpair
        by_cases hne : kvs.map (pairText quote gap) = []
        · rw [List.map_cons, hne, List.intercalate_singleton]
          exact hfirst
        · rw [List.map_cons, List.intercalate_cons_of_ne_nil hne]
          simp [hfirst, hgap', ih hrest hpairs]
  refine cstr_of_not_mem ?_
  rw [arrayText]
  simp [hall]

/-- **The runner gets the pairs of an array** that fits the arguments if and only if no pair has a
colon and every pair but the first leaves room in the buffer it is printed to. -/
theorem runBatchKargs_eq_iff (hquote : quote = 34 ∨ quote = 39) (hgap : ∀ b ∈ gap, isspace b)
    {kvs : List (Bytes × Bytes)} (hkvs : ∀ kv ∈ kvs, Quotable quote kv)
    (hlen : (joinSep 58 (kvs.map kargEntry)).length ≤ 2047) (old : Bytes) :
    ∃ n kargs, parseKargsArray n (arrayText quote gap kvs) old = some (0, kargs) ∧
      (runBatchKargs kargs = kvs ↔
        (∀ kv ∈ kvs, 58 ∉ kv.1 ∧ 58 ∉ kv.2) ∧
          ∀ kv ∈ kvs.tail, kv.1.length + kv.2.length < 510) := by
  obtain ⟨n, s, hloop, hkargs⟩ := kargsLoop_pairs hquote hgap hkvs
    (s := ⟨List.intercalate (44 :: gap) (kvs.map (pairText quote gap)) ++ [93], [], true⟩) rfl
  rw [appendPairs_true hkvs hlen] at hkargs
  have hparse : parseKargsArray n (arrayText quote gap kvs) old =
      some (0, joinSep 58 (kargEntries kvs)) := by
    rw [parseKargsArray, cstr_arrayText hquote hgap hkvs, arrayText, List.cons_append]
    simp only [hloop, Option.map_some, hkargs]
  have hlen' := (length_kargEntries_le kvs).trans hlen
  refine ⟨n, _, hparse, ?_⟩
  constructor
  · intro hpass
    have hcolon : ∀ kv ∈ kvs, 58 ∉ kv.1 ∧ 58 ∉ kv.2 := by
      intro kv hkv
      rw [← hpass] at hkv
      exact not_mem_of_mem_runBatchKargs hkv
    refine ⟨hcolon, ?_⟩
    rw [runBatchKargs_entries hkvs hcolon hlen'] at hpass
    cases kvs with
    | nil => exact fun kv hkv => absurd hkv List.not_mem_nil
    | cons kv kvs =>
        exact (map_take_eq_iff (List.forall_mem_cons.mp hkvs).2).mp (List.cons.inj hpass).2
  · rintro ⟨hcolon, hroom⟩
    rw [runBatchKargs_entries hkvs hcolon hlen']
    cases kvs with
    | nil => rfl
    | cons kv kvs =>
        exact congrArg (kv :: ·) ((map_take_eq_iff (List.forall_mem_cons.mp hkvs).2).mpr hroom)

/-- Two pairs with room and without colons are passed. -/
theorem two_pairs_passed :
    ∃ n kargs, parseKargsArray n (arrayText 34 [32]
        [([110], [49, 48]), ([109], [50])]) [] = some (0, kargs) ∧
      (runBatchKargs kargs = [([110], [49, 48]), ([109], [50])] ↔
        (∀ kv ∈ [(([110] : Bytes), ([49, 48] : Bytes)), ([109], [50])], 58 ∉ kv.1 ∧ 58 ∉ kv.2) ∧
          ∀ kv ∈ [(([109] : Bytes), ([50] : Bytes))], kv.1.length + kv.2.length < 510) := by
  refine runBatchKargs_eq_iff (.inl rfl) ?_ ?_ ?_ []
  · intro b hb
    rw [List.mem_singleton.mp hb]
    rfl
  · intro kv hkv
    rw [List.mem_cons, List.mem_singleton] at hkv
    rcases hkv with rfl | rfl
    · constructor <;> simp
    · constructor <;> simp
  · exact Nat.le_of_ble_eq_true rfl

/-- A value with a colon, `/mnt:ro`, loses what stands behind it. -/
theorem colon_value_cut :
    Quotable 34 (ascii ['d', 'i', 'r'], ascii "/mnt:ro".toList) ∧
      ∃ kargs, parseKargsArray 2 (arrayText 34 []
          [(ascii ['d', 'i', 'r'], ascii "/mnt:ro".toList)]) [] =
            some (0, kargs) ∧
        runBatchKargs kargs = [(ascii ['d', 'i', 'r'], ascii "/mnt".toList)] ∧
        runBatchKargs kargs ≠
          [(ascii ['d', 'i', 'r'], ascii "/mnt:ro".toList)] := by
  refine ⟨?_, _, rfl, rfl, ?_⟩
  · constructor
    all_goals simp [ascii]
  · rw [ne_eq,
      show runBatchKargs _ = [(ascii ['d', 'i', 'r'], ascii "/mnt".toList)] from rfl]
    simp [ascii]

end Arrays

end TPBench
