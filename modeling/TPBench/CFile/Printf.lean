import Mathlib.Algebra.Order.BigOperators.Group.List
import Mathlib.Data.List.Induction
import TPBench.CFile.Text

/-!
# Texts Printed One After the Other

A command line or a message is built in a buffer by calls of `snprintf`, each of which
prints at the position behind the text before. The position is advanced by what `snprintf`
returns, which is the length of the whole text also where the text was cut, and the room
that is left is a difference of unsigned numbers. A position behind the end of the buffer
gives the next call a size that wrapped around, and that call writes behind the buffer.

## Main definitions

* `PrintBuf.add`: one call of `snprintf` at the running position.
* `Inside`: the position never leaves the buffer.
* `printedSum`: what the calls return together.

## Main results

`inside_iff` is exact for all texts, and `Climbs.inside_cons_iff` says the same with the sum of
all of them, for texts that do not take the position back for good.
-/

namespace CFile

/-- The number of values of `size_t`. -/
def sizeRange : ℕ := 18446744073709551616

/-- What `snprintf` returns: the length of the text, or `-1` when it is no `int`. -/
def printedLen (frag : Bytes) : ℤ := if frag.length ≤ 2147483647 then frag.length else -1

/-- A buffer: the string that is in it, and the position at which the next text goes. -/
structure PrintBuf where
  text : Bytes
  pos : ℕ

/-- The buffer before the first call. -/
def PrintBuf.empty : PrintBuf := ⟨[], 0⟩

/-- `pos += snprintf(buf + pos, cap - pos, ...)`, which is undefined when a byte is written
behind the buffer. -/
def PrintBuf.add (cap : ℕ) (b : PrintBuf) (frag : Bytes) : Option PrintBuf :=
  let size := (cap + sizeRange - b.pos) % sizeRange
  if cap < b.pos + min size (frag.length + 1) then none
  else
    some
      { text := if size = 0 then b.text else b.text.take b.pos ++ frag.take (size - 1)
        pos := ((b.pos + printedLen frag) % sizeRange).toNat }

/-- What the calls for some texts return together. -/
def printedSum (frags : List Bytes) : ℤ := (frags.map printedLen).sum

/-- After every call the position is in the buffer or at its end. -/
def Inside (cap : ℕ) (frags : List Bytes) : Prop :=
  ∀ done, done <+: frags →
    ∃ b, done.foldlM (PrintBuf.add cap) PrintBuf.empty = some b ∧ b.pos ≤ cap

/-- Texts that never take the position back for good: a part of them does not return more than
all of them, and takes back one at the most. -/
def Climbs (frags : List Bytes) : Prop :=
  ∀ done, done <+: frags → -1 ≤ printedSum done ∧ printedSum done ≤ printedSum frags

section Printf

variable {cap : ℕ} {b b' : PrintBuf} {frag : Bytes} {frags frags' : List Bytes}

@[simp] theorem printedSum_nil : printedSum [] = 0 := rfl

@[simp] theorem printedSum_cons : printedSum (frag :: frags) = printedLen frag + printedSum frags :=
  List.sum_cons

@[simp] theorem printedSum_append :
    printedSum (frags ++ frags') = printedSum frags + printedSum frags' := by
  rw [printedSum, List.map_append, List.sum_append]
  rfl

theorem printedSum_singleton : printedSum [frag] = printedLen frag := by simp

theorem printedSum_flatten (frss : List (List Bytes)) :
    printedSum frss.flatten = (frss.map printedSum).sum := by
  induction frss with
  | nil => rfl
  | cons frs frss ih => rw [List.flatten_cons, printedSum_append, ih, List.map_cons, List.sum_cons]

theorem neg_one_le_printedLen (frag : Bytes) : -1 ≤ printedLen frag := by
  unfold printedLen
  split_ifs
  · omega
  · exact le_rfl

theorem printedLen_le (frag : Bytes) : printedLen frag ≤ 2147483647 := by
  unfold printedLen
  split_ifs
  · omega
  · decide

theorem printedLen_of_le (h : frag.length ≤ 2147483647) : printedLen frag = frag.length :=
  if_pos h

theorem lt_sizeRange (hcap : cap ≤ 9223372036854775807) : cap < sizeRange := by
  rw [sizeRange]
  omega

/-! ### One call -/

/-- A call at a position in the buffer, or at its end, writes into the buffer only. -/
theorem exists_add (hpos : b.pos ≤ cap) (hcap : cap < sizeRange) (frag : Bytes) :
    ∃ b', b.add cap frag = some b' := by
  rw [sizeRange] at hcap
  have hroom : ¬ cap < b.pos +
      min ((cap + sizeRange - b.pos) % sizeRange) (frag.length + 1) := by
    rw [sizeRange]
    omega
  exact ⟨_, if_neg hroom⟩

/-- A call at a position behind the end writes behind the buffer. -/
theorem add_eq_none (hpos : cap < b.pos) (frag : Bytes) : b.add cap frag = none := by
  have hroom : cap < b.pos +
      min ((cap + sizeRange - b.pos) % sizeRange) (frag.length + 1) := by
    rw [sizeRange]
    omega
  exact if_pos hroom

/-- The position after a call. -/
theorem pos_add (h : b.add cap frag = some b') :
    b'.pos = ((b.pos + printedLen frag) % sizeRange).toNat := by
  simp only [PrintBuf.add] at h
  split at h
  · cases h
  · cases h
    rfl

/-- The position after a call, where it does not leave the range of `size_t`. -/
theorem pos_add_of_nonneg (hcap : cap ≤ 9223372036854775807) (hpos : b.pos ≤ cap)
    (hnonneg : 0 ≤ b.pos + printedLen frag) (h : b.add cap frag = some b') :
    (b'.pos : ℤ) = b.pos + printedLen frag := by
  have hle := printedLen_le frag
  rw [pos_add h, sizeRange]
  omega

/-! ### All calls -/

theorem foldlM_concat {σ : Type} (f : σ → Bytes → Option σ) (s : σ) (frags : List Bytes)
    (frag : Bytes) : (frags ++ [frag]).foldlM f s = (frags.foldlM f s).bind fun t => f t frag := by
  rw [List.foldlM_append]
  exact congrArg (Option.bind _) (funext fun t => by simp)

/-- A run that stays in the buffer is at the sum of what was returned. -/
theorem exists_run (hcap : cap ≤ 9223372036854775807)
    (h : ∀ done, done <+: frags → 0 ≤ printedSum done ∧ printedSum done ≤ cap) :
    ∃ b, frags.foldlM (PrintBuf.add cap) PrintBuf.empty = some b ∧
      (b.pos : ℤ) = printedSum frags := by
  induction frags using List.reverseRecOn with
  | nil => exact ⟨PrintBuf.empty, rfl, rfl⟩
  | append_singleton frags frag ih =>
      obtain ⟨b, hrun, hpos⟩ := ih fun done hdone => h done (hdone.trans (List.prefix_append _ _))
      obtain ⟨-, hbefore⟩ := h frags (List.prefix_append _ _)
      obtain ⟨hnonneg, -⟩ := h _ (List.prefix_refl _)
      rw [printedSum_append, printedSum_singleton] at hnonneg
      have hle : b.pos ≤ cap := by omega
      obtain ⟨b', hb'⟩ := exists_add hle (lt_sizeRange hcap) frag
      refine ⟨b', ?_, ?_⟩
      · rw [foldlM_concat, hrun, Option.bind_some, hb']
      · rw [pos_add_of_nonneg hcap hle (by omega) hb', hpos, printedSum_append,
          printedSum_singleton]

/-- The position behind a part of a run that stays in the buffer. -/
theorem Inside.pos_eq (hcap : cap ≤ 9223372036854775807) (h : Inside cap frags)
    {done : List Bytes} (hdone : done <+: frags) :
    ∃ b, done.foldlM (PrintBuf.add cap) PrintBuf.empty = some b ∧ b.pos ≤ cap ∧
      (b.pos : ℤ) = printedSum done := by
  induction done using List.reverseRecOn with
  | nil => exact ⟨PrintBuf.empty, rfl, Nat.zero_le _, rfl⟩
  | append_singleton done frag ih =>
      obtain ⟨b, hrun, hle, hpos⟩ := ih ((List.prefix_append _ _).trans hdone)
      obtain ⟨b', hrun', hle'⟩ := h _ hdone
      refine ⟨b', hrun', hle', ?_⟩
      have hadd : b.add cap frag = some b' := by
        rwa [foldlM_concat, hrun, Option.bind_some] at hrun'
      -- a position below zero would be one far behind the buffer
      have hnonneg : 0 ≤ b.pos + printedLen frag := by
        by_contra hneg
        have hlen := neg_one_le_printedLen frag
        have hback : b.pos + printedLen frag = -1 := by omega
        have hmod := pos_add hadd
        rw [hback, sizeRange] at hmod
        omega
      rw [pos_add_of_nonneg hcap hle hnonneg hadd, hpos, printedSum_append, printedSum_singleton]

/-- **The position stays in the buffer** exactly when no number of calls returns more than the
buffer holds, or less than nothing. -/
theorem inside_iff (hcap : cap ≤ 9223372036854775807) :
    Inside cap frags ↔
      ∀ done, done <+: frags → 0 ≤ printedSum done ∧ printedSum done ≤ cap := by
  constructor
  · intro h done hdone
    obtain ⟨b, -, hle, hpos⟩ := h.pos_eq hcap hdone
    omega
  · intro h done hdone
    obtain ⟨b, hrun, hpos⟩ := exists_run hcap fun ds hds => h ds (hds.trans hdone)
    obtain ⟨-, hle⟩ := h done hdone
    exact ⟨b, hrun, by omega⟩

/-! ### Calls that are all made -/

/-- The lengths of texts that are no longer than an `int` counts. -/
theorem printedSum_of_le (h : ∀ frag ∈ frags, frag.length ≤ 2147483647) :
    printedSum frags = (frags.map List.length).sum := by
  induction frags with
  | nil => rfl
  | cons frag frags ih =>
      obtain ⟨hfrag, hfrags⟩ := List.forall_mem_cons.mp h
      rw [printedSum_cons, printedLen_of_le hfrag, ih hfrags, List.map_cons, List.sum_cons,
        Nat.cast_add]

/-- A run ends in the buffer exactly when its texts fit the buffer together. -/
theorem exists_run_le_iff (h : ∀ frag ∈ frags, frag.length ≤ 2147483647)
    (hcap : cap ≤ 9223372036854775807) :
    (∃ b, frags.foldlM (PrintBuf.add cap) PrintBuf.empty = some b ∧ b.pos ≤ cap) ↔
      (frags.map List.length).sum ≤ cap := by
  constructor
  · induction frags using List.reverseRecOn with
    | nil => exact fun _ => Nat.zero_le _
    | append_singleton frags frag ih =>
        rintro ⟨b', hrun, hle⟩
        obtain ⟨b, hb, hadd⟩ := Option.bind_eq_some_iff.mp ((foldlM_concat _ _ _ _).symm.trans hrun)
        have hbefore : b.pos ≤ cap := by
          by_contra hlt
          rw [add_eq_none (Nat.lt_of_not_le hlt)] at hadd
          exact absurd hadd (Option.some_ne_none _).symm
        have hfrags : ∀ frag ∈ frags, frag.length ≤ 2147483647 := fun f hf =>
          h f (List.mem_append_left _ hf)
        have hsum := ih hfrags ⟨b, hb, hbefore⟩
        obtain ⟨b₁, hb₁, hpos⟩ := exists_run hcap fun done hdone => by
          rw [printedSum_of_le fun f hf => hfrags f (hdone.subset hf)]
          have hle' := (hdone.sublist.map List.length).sum_le_sum fun _ _ => Nat.zero_le _
          omega
        obtain rfl := Option.some.inj (hb₁.symm.trans hb)
        rw [printedSum_of_le hfrags] at hpos
        have hlen := h frag (List.mem_append_right _ List.mem_cons_self)
        have hpos' := pos_add_of_nonneg hcap hbefore (by rw [printedLen_of_le hlen]; omega) hadd
        rw [printedLen_of_le hlen] at hpos'
        rw [List.map_append, List.sum_append, List.map_singleton, List.sum_singleton]
        omega
  · intro hsum
    obtain ⟨b, hb, hpos⟩ := exists_run hcap fun done hdone => by
      rw [printedSum_of_le fun f hf => h f (hdone.subset hf)]
      have hle' := (hdone.sublist.map List.length).sum_le_sum fun _ _ => Nat.zero_le _
      omega
    rw [printedSum_of_le h] at hpos
    exact ⟨b, hb, by omega⟩

/-- **All calls are made** without a write behind the buffer exactly when the texts in front of the
last one fit the buffer together. -/
theorem isSome_run_iff (h : ∀ frag ∈ frags, frag.length ≤ 2147483647)
    (hcap : cap ≤ 9223372036854775807) :
    (frags.foldlM (PrintBuf.add cap) PrintBuf.empty).isSome ↔
      (frags.dropLast.map List.length).sum ≤ cap := by
  cases frags using List.reverseRecOn with
  | nil => exact iff_of_true rfl (Nat.zero_le _)
  | append_singleton frags frag =>
      rw [List.dropLast_concat,
        ← exists_run_le_iff (fun f hf => h f (List.mem_append_left _ hf)) hcap, foldlM_concat,
        Option.isSome_iff_exists]
      constructor
      · rintro ⟨b', hb'⟩
        obtain ⟨b, hb, hadd⟩ := Option.bind_eq_some_iff.mp hb'
        refine ⟨b, hb, ?_⟩
        by_contra hlt
        rw [add_eq_none (Nat.lt_of_not_le hlt)] at hadd
        exact absurd hadd (Option.some_ne_none _).symm
      · rintro ⟨b, hb, hle⟩
        obtain ⟨b', hb'⟩ := exists_add hle (lt_sizeRange hcap) frag
        exact ⟨b', by rw [hb, Option.bind_some, hb']⟩

/-- **Texts that fit**, with the zero byte behind them, stand in the buffer one after the other. -/
theorem run_of_fits (h : frags.flatten.length < cap) (hcap : cap ≤ 2147483647) :
    frags.foldlM (PrintBuf.add cap) PrintBuf.empty =
      some ⟨frags.flatten, frags.flatten.length⟩ := by
  induction frags using List.reverseRecOn with
  | nil => rfl
  | append_singleton frags frag ih =>
      rw [List.flatten_append, List.flatten_singleton, List.length_append] at h
      rw [foldlM_concat, ih (by omega), Option.bind_some, List.flatten_append,
        List.flatten_singleton, List.length_append, PrintBuf.add, printedLen_of_le (by omega)]
      have hsize : (cap + sizeRange - frags.flatten.length) % sizeRange =
          cap - frags.flatten.length := by
        rw [sizeRange]
        omega
      have hpos : (((frags.flatten.length : ℕ) + (frag.length : ℤ)) % sizeRange).toNat =
          frags.flatten.length + frag.length := by
        rw [sizeRange]
        omega
      simp only [hsize, hpos]
      rw [if_neg (by omega), if_neg (by omega), List.take_of_length_le le_rfl,
        List.take_of_length_le (by omega)]

/-! ### Texts that climb -/

theorem Climbs.nonneg (h : Climbs frags) : 0 ≤ printedSum frags := (h [] List.nil_prefix).2

theorem climbs_nil : Climbs [] := by
  intro done hdone
  rw [List.prefix_nil.mp hdone]
  exact ⟨by decide, le_rfl⟩

/-- A text that is no longer than an `int` counts. -/
theorem climbs_singleton (h : frag.length ≤ 2147483647) : Climbs [frag] := by
  intro done hdone
  rw [printedSum_singleton, printedLen_of_le h]
  rcases List.prefix_cons_iff.mp hdone with rfl | ⟨rest, rfl, hrest⟩
  · exact ⟨by decide, Int.natCast_nonneg _⟩
  · rw [List.prefix_nil.mp hrest, printedSum_singleton, printedLen_of_le h]
    exact ⟨by omega, le_rfl⟩

/-- A part of two lists ends in the first one, or in the second one. -/
theorem prefix_append_cases {done : List Bytes} (h : done <+: frags ++ frags') :
    done <+: frags ∨ ∃ rest, done = frags ++ rest ∧ rest <+: frags' := by
  obtain ⟨left, heq⟩ := h
  rcases List.append_eq_append_iff.mp heq with ⟨mid, rfl, rfl⟩ | ⟨mid, rfl, rfl⟩
  · exact .inl (List.prefix_append _ _)
  · exact .inr ⟨mid, rfl, List.prefix_append _ _⟩

theorem Climbs.append (h : Climbs frags) (h' : Climbs frags') : Climbs (frags ++ frags') := by
  intro done hdone
  rw [printedSum_append]
  have hnonneg := h'.nonneg
  rcases prefix_append_cases hdone with hdone | ⟨rest, rfl, hrest⟩
  · obtain ⟨hlow, hhigh⟩ := h done hdone
    exact ⟨hlow, by omega⟩
  · obtain ⟨hlow, hhigh⟩ := h' rest hrest
    have hfront := h.nonneg
    rw [printedSum_append]
    exact ⟨by omega, by omega⟩

theorem climbs_flatten {frss : List (List Bytes)} (h : ∀ frs ∈ frss, Climbs frs) :
    Climbs frss.flatten := by
  induction frss with
  | nil => exact climbs_nil
  | cons frs frss ih =>
      rw [List.flatten_cons]
      exact (h frs (by simp)).append (ih fun g hg => h g (by simp [hg]))

/-- **Texts that climb stay in the buffer**, behind a text that is not empty, exactly when they
fit into it together. -/
theorem Climbs.inside_cons_iff (h : Climbs frags) (hfrag : 1 ≤ printedLen frag)
    (hcap : cap ≤ 9223372036854775807) :
    Inside cap (frag :: frags) ↔ printedSum (frag :: frags) ≤ cap := by
  rw [inside_iff hcap]
  constructor
  · exact fun hall => (hall _ (List.prefix_refl _)).2
  · intro hle done hdone
    rcases List.prefix_cons_iff.mp hdone with rfl | ⟨rest, rfl, hrest⟩
    · exact ⟨le_rfl, Int.natCast_nonneg cap⟩
    · obtain ⟨hlow, hhigh⟩ := h rest hrest
      rw [printedSum_cons] at hle ⊢
      exact ⟨by omega, by omega⟩

end Printf

end CFile
