import TPBench.Rtenv.Load

/-!
# The Buffer of a Quoted Text

`_sf_shell_quote` writes a text in single quotes into a buffer. Its loop stops where three bytes
are not left, and does not begin the four bytes of a quote where they would not leave one
(`quoteLoop`). The first rule keeps room for the closing quote and the terminator, the second
one for one byte of the two: behind a quote of the text the buffer may be full up to its last
byte (`length_quoteLoop_iff`). The closing quote takes this byte, and the terminator is written
behind the buffer.

## Main results

* `quotedInside_iff`: the buffer holds the text in quotes, or a part of it from the front, if
  and only if no quote of the text ends in the last byte but one of the buffer.
-/

open CFile

namespace TPBench

/-! ### What a buffer should hold -/

/-- What is written stays inside a buffer of `outlen` bytes and is a text with its terminator,
between single quotes, which the shell reads as a part of the input from its front, and as the
whole input when it fits. -/
structure QuotedInside (input : Bytes) (outlen : ℕ) (text : Bytes) : Prop where
  written : sfShellQuote input outlen = .ok text
  inside : (text ++ [0]).length ≤ outlen
  terminated : cstr (text ++ [0]) = text
  between : ∃ mid, text = 39 :: (mid ++ [39])
  read : ∃ p, p <+: input ∧ Sh.Reads text (Sh.quotedLits p) ∧ (QuoteFits input outlen → p = input)

/-- A quote of the text comes to stand so that its four bytes end in the last byte but one of the
buffer. -/
def EndsBeforeLast (input : Bytes) (outlen : ℕ) : Prop :=
  ∃ p : Bytes, p ++ [39] <+: input ∧ (p ++ [39]).length + 3 * (p ++ [39]).count 39 + 2 = outlen

/-! ### The loop -/

/-- The escaped text of a part is no longer than that of the whole. -/
theorem length_escapeQuotes_concat (p : Bytes) :
    (Sh.escapeQuotes (p ++ [39])).length = (Sh.escapeQuotes p).length + 4 := by
  rw [Sh.escapeQuotes_append, List.length_append]
  rfl

/-- What a part that ends behind a quote takes, seen from behind the first character. -/
theorem front_cons_iff {outlen : ℕ} {out bs e : Bytes} {b : UInt8} (he : Sh.escapeQuotes [b] = e) :
    (∃ p, p ++ [39] <+: bs ∧
        (out ++ e).length + (Sh.escapeQuotes (p ++ [39])).length + 1 = outlen) ↔
      ∃ p, b :: p ++ [39] <+: b :: bs ∧
        out.length + (Sh.escapeQuotes (b :: p ++ [39])).length + 1 = outlen := by
  subst he
  have hlen : ∀ p, (Sh.escapeQuotes (b :: p ++ [39])).length =
      (Sh.escapeQuotes [b]).length + (Sh.escapeQuotes (p ++ [39])).length := by
    intro p
    rw [← List.length_append, ← Sh.escapeQuotes_append]
    rfl
  constructor
  · rintro ⟨p, hp, hsum⟩
    rw [List.length_append] at hsum
    exact ⟨p, by simpa using hp, by rw [hlen]; omega⟩
  · rintro ⟨p, hp, hsum⟩
    rw [hlen] at hsum
    exact ⟨p, by simpa using hp, by rw [List.length_append]; omega⟩

/-- The loop stops where there is no room. -/
theorem quoteLoop_full {outlen : ℕ} {out : Bytes} (bs : Bytes) (hout : outlen ≤ out.length + 1) :
    quoteLoop outlen bs out = out := by
  cases bs with
  | nil => rfl
  | cons c bs => rw [quoteLoop, if_neg (by omega)]

/-- **The loop fills the buffer up to its last byte** exactly when it ends behind a quote whose four
bytes end there. -/
theorem length_quoteLoop_iff {outlen : ℕ} {out : Bytes} (bs : Bytes)
    (hout : out.length + 1 < outlen) :
    (quoteLoop outlen bs out).length + 1 = outlen ↔
      ∃ p, p ++ [39] <+: bs ∧ out.length + (Sh.escapeQuotes (p ++ [39])).length + 1 = outlen := by
  induction bs generalizing out with
  | nil =>
      rw [quoteLoop]
      constructor
      · intro h
        omega
      · rintro ⟨p, hp, -⟩
        rw [List.prefix_nil] at hp
        simp at hp
  | cons b bs ih =>
      rw [quoteLoop]
      split_ifs with hroom hquote hfull
      · -- a quote that has no room is not begun
        constructor
        · intro h
          omega
        · rintro ⟨p, -, hsum⟩
          rw [length_escapeQuotes_concat] at hsum
          omega
      · -- a quote
        subst hquote
        by_cases hlast : (out ++ [39, 92, 39, 39]).length + 1 < outlen
        · rw [ih hlast, front_cons_iff (show Sh.escapeQuotes [39] = [39, 92, 39, 39] from rfl)]
          constructor
          · rintro ⟨p, hp⟩
            exact ⟨39 :: p, hp⟩
          · rintro ⟨p, hp, hsum⟩
            cases p with
            | nil =>
                rw [length_escapeQuotes_concat] at hsum
                simp only [List.length_append, List.length_cons, List.length_nil,
                  Sh.escapeQuotes_nil] at hlast hsum
                omega
            | cons c p =>
                obtain ⟨rfl, -⟩ := List.cons_prefix_cons.mp hp
                exact ⟨p, hp, hsum⟩
        · have hlen : (out ++ [39, 92, 39, 39]).length + 1 = outlen := by
            simp only [List.length_append, List.length_cons, List.length_nil] at hlast ⊢
            omega
          rw [quoteLoop_full bs (by omega)]
          refine ⟨fun _ => ⟨[], by simp, ?_⟩, fun _ => hlen⟩
          rw [List.length_append] at hlen
          exact hlen
      · -- another character
        have hlast : (out ++ [b]).length + 1 < outlen := by
          rw [List.length_append, List.length_singleton]
          omega
        rw [ih hlast, front_cons_iff (show Sh.escapeQuotes [b] = [b] by simp [hquote])]
        constructor
        · rintro ⟨p, hp⟩
          exact ⟨b :: p, hp⟩
        · rintro ⟨p, hp, hsum⟩
          cases p with
          | nil =>
              obtain ⟨rfl, -⟩ := List.cons_prefix_cons.mp hp
              exact absurd rfl hquote
          | cons c p =>
              obtain ⟨rfl, -⟩ := List.cons_prefix_cons.mp hp
              exact ⟨p, hp, hsum⟩
      · constructor
        · intro h
          omega
        · rintro ⟨p, -, hsum⟩
          rw [length_escapeQuotes_concat] at hsum
          omega

/-- The buffer is filled up to its last byte behind a quote of the text. -/
theorem endsBeforeLast_iff (input : Bytes) {outlen : ℕ} (hlen : 4 ≤ outlen) :
    EndsBeforeLast input outlen ↔ (quoteLoop outlen input [39]).length + 1 = outlen := by
  rw [length_quoteLoop_iff input (by simp only [List.length_singleton]; omega), EndsBeforeLast]
  simp only [List.length_singleton, Sh.length_escapeQuotes]
  constructor
  · rintro ⟨p, hp, hsum⟩
    exact ⟨p, hp, by omega⟩
  · rintro ⟨p, hp, hsum⟩
    exact ⟨p, hp, by omega⟩

/-! ### The text in the buffer -/

/-- A text in quotes has no terminator in it when the input has none. -/
theorem not_mem_quote {p : Bytes} (hp : 0 ∉ p) : 0 ∉ Sh.quote p := by
  rw [Sh.quote, List.mem_cons, List.mem_append, Sh.escapeQuotes, List.mem_flatMap]
  rintro (h | ⟨b, hb, h⟩ | h)
  · cases h
  · by_cases hquote : b = 39
    · rw [if_pos hquote] at h
      simp at h
    · rw [if_neg hquote, List.mem_singleton] at h
      exact hp (h ▸ hb)
  · simp at h

/-- **A quoted text stays inside its buffer** and is read by the shell as the front of the
input, the whole of it when it fits, if and only if no quote of the input ends in the last byte
but one of the buffer. -/
theorem quotedInside_iff {input : Bytes} {outlen : ℕ} (hinput : 0 ∉ input) (hlen : 4 ≤ outlen) :
    (∃ text, QuotedInside input outlen text) ↔ ¬EndsBeforeLast input outlen := by
  rw [endsBeforeLast_iff input hlen]
  obtain ⟨p, r, hs, hloop, hlt⟩ := @quoteLoop_of_lt outlen input [39]
    (by simp only [List.length_singleton]; omega)
  constructor
  · rintro ⟨text, htext⟩ hlast
    have hundef : sfShellQuote input outlen = .error .undefined := by
      rw [sfShellQuote, if_neg (by omega), quoteEnd, if_pos (by omega), if_neg (by omega)]
    rw [htext.written] at hundef
    cases hundef
  · intro hlast
    have hquote : sfShellQuote input outlen = .ok (Sh.quote p) := by
      rw [hloop] at hlast
      rw [sfShellQuote, if_neg (by omega), hloop, quoteEnd, if_pos hlt, if_pos (by omega)]
      rfl
    have hp : 0 ∉ p := by
      rw [hs, List.mem_append, not_or] at hinput
      exact hinput.1
    refine ⟨Sh.quote p, hquote, ?_, cstr_append_zero (not_mem_quote hp) [], ⟨_, rfl⟩, p,
      ?_, Sh.reads_quote p, ?_⟩
    · rw [hloop] at hlast
      have hsize : (Sh.quote p).length = ([39] ++ Sh.escapeQuotes p).length + 1 := by
        simp [Sh.quote]
      rw [List.length_append, List.length_singleton, hsize]
      omega
    · rw [hs]
      exact List.prefix_append p r
    · intro hfits
      have hwhole := sfShellQuote_of_fits hfits
      rw [hquote] at hwhole
      have hsize := congrArg List.length (Except.ok.inj hwhole)
      simp only [Sh.quote, List.length_cons, List.length_append, Sh.length_escapeQuotes] at hsize
      have hfront : p <+: input := ⟨r, hs.symm⟩
      have hlength := hfront.length_le
      have hcount := hfront.sublist.count_le 39
      exact hfront.eq_of_length (by omega)

/-- A quote behind a letter, in a buffer in which it fits. -/
theorem quotedInside_letter :
    (∃ text, QuotedInside [97, 39] 8 text) ↔ ¬EndsBeforeLast [97, 39] 8 :=
  quotedInside_iff (by simp) (by omega)

/-- A single quote in a buffer of six bytes: the terminator is the seventh byte. -/
theorem quote_fills_buffer :
    sfShellQuote [39] 6 = .error .undefined ∧ ¬∃ text, QuotedInside [39] 6 text := by
  have hundef : sfShellQuote [39] 6 = .error .undefined := rfl
  refine ⟨hundef, ?_⟩
  rintro ⟨text, htext⟩
  rw [htext.written] at hundef
  cases hundef

end TPBench
