import TPBench.CFile.Stream

/-!
# Readers of a Fixed Size

Most of what a decoder calls reads a number of bytes that does not depend on the file, and fails
when the file ends before them. `Ends c m p k Q` says this of the program `m` at the position `p`
of the file `c`: it passes over `k` bytes and returns a value with `Q`, or ends at its error exit.

The rules compose it along `bind` (`Ends.bind`) and along a counted loop (`ends_readN`), so that
the fields that matter can be named while the others are passed over. `Defined m` says less, that
`m` makes no access outside an object, and holds of every program without such a store.
-/

namespace CFile

variable {α β : Type} {c : Bytes} {p k l : ℕ} {m : FileM α} {f : α → FileM β} {Q : α → Prop}
  {R : β → Prop}

/-- At position `p` of the file `c`, the program passes over `k` bytes and returns a value with
`Q`, or the file is too short, and it ends at its error exit. -/
structure Ends (c : Bytes) (m : FileM α) (p k : ℕ) (Q : α → Prop) : Prop where
  ok : p + k ≤ c.length → ∃ a, m ⟨c, p⟩ = .ok a ⟨c, p + k⟩ ∧ Q a
  short : p ≤ c.length → c.length < p + k → ∃ s, m ⟨c, p⟩ = .error .fail s

/-- Nothing is read. -/
theorem ends_pure {a : α} (h : Q a) : Ends c (pure a) p 0 Q := by
  constructor
  · intro _
    exact ⟨a, rfl, h⟩
  · intro hp hlt
    exact absurd hlt (Nat.not_lt.mpr hp)

/-- One reader after another. -/
theorem Ends.bind (hm : Ends c m p k Q) (hf : ∀ a, Q a → Ends c (f a) (p + k) l R) :
    Ends c (m >>= f) p (k + l) R := by
  constructor
  · intro hle
    obtain ⟨a, ha, hQ⟩ := hm.ok (by omega)
    obtain ⟨b, hb, hR⟩ := (hf a hQ).ok (by omega)
    exact ⟨b, by rw [bind_ok ha, hb, Nat.add_assoc], hR⟩
  · intro hp hlt
    by_cases hle : p + k ≤ c.length
    · obtain ⟨a, ha, hQ⟩ := hm.ok hle
      obtain ⟨s, hs⟩ := (hf a hQ).short hle (by omega)
      exact ⟨s, by rw [bind_ok ha, hs]⟩
    · obtain ⟨s, hs⟩ := hm.short hp (Nat.lt_of_not_le hle)
      exact ⟨s, bind_error hs⟩

/-- The last call of a reader. -/
theorem Ends.map {g : α → β} (hm : Ends c m p k Q) (h : ∀ a, Q a → R (g a)) :
    Ends c (do return g (← m)) p k R :=
  hm.bind (l := 0) fun a ha => ends_pure (h a ha)

/-- A block is read. -/
theorem ends_fread (c : Bytes) (p k : ℕ) : Ends c (fread k) p k (· = pread c p k) := by
  constructor
  · intro hle
    have hlen : (pread c p k).length = k := by
      rw [pread, List.length_take, List.length_drop]
      omega
    exact ⟨pread c p k, fread_run rfl hlen, rfl⟩
  · intro hp hlt
    exact ⟨_, fread_short hlt (by omega)⟩

/-- A number of four bytes is read. -/
theorem ends_readU32 (c : Bytes) (p : ℕ) : Ends c readU32 p 4 (· = getU32 (pread c p 4)) :=
  (ends_fread c p 4).map fun _ h => congrArg getU32 h

/-- A number of eight bytes is read. -/
theorem ends_readU64 (c : Bytes) (p : ℕ) : Ends c readU64 p 8 fun _ => True :=
  (ends_fread c p 8).map fun _ _ => trivial

/-- A signed number is read. -/
theorem ends_readI32 (c : Bytes) (p : ℕ) : Ends c readI32 p 4 fun _ => True :=
  (ends_fread c p 4).map fun _ _ => trivial

/-- An array is read. -/
theorem ends_readArr (c : Bytes) (p n : ℕ) : Ends c (readArr n) p n fun _ => True :=
  (ends_fread c p n).map fun _ _ => trivial

/-- A counted loop over readers of one size. -/
theorem ends_readN (hm : ∀ q, Ends c m q k fun _ => True) (n : ℕ) :
    Ends c (readN n m) p (n * k) fun _ => True := by
  induction n generalizing p with
  | zero =>
      rw [Nat.zero_mul]
      exact ends_pure trivial
  | succ n ih =>
      have hsize : (n + 1) * k = k + n * k := by
        rw [Nat.succ_mul, Nat.add_comm]
      rw [hsize]
      refine (hm p).bind fun a _ => ?_
      exact ih.map fun _ _ => trivial

/-! ### Programs without stores outside an object -/

/-- No access outside an object is made. -/
def Defined (m : FileM α) : Prop := ∀ s s', m s ≠ .error .undefined s'

/-- One after the other. -/
theorem Defined.bind (hm : Defined m) (hf : ∀ a, Defined (f a)) : Defined (m >>= f) := by
  intro s s' h
  rcases hrun : m s with ⟨a, s₁⟩ | ⟨e, s₁⟩
  · rw [bind_ok hrun] at h
    exact hf a s₁ s' h
  · rw [bind_error hrun] at h
    cases h
    exact hm s _ hrun

theorem defined_pure (a : α) : Defined (pure a) := by
  intro s s' h
  cases h

/-- A block is read. -/
theorem defined_fread (k : ℕ) : Defined (fread k) := by
  intro s s' h
  unfold fread freadTry at h
  split_ifs at h
  cases h

/-- A check is made. -/
theorem defined_check {q : Prop} [Decidable q] : Defined (check q) := by
  intro s s' h
  unfold check at h
  split_ifs at h
  cases h

/-- The position is moved. -/
theorem defined_fseek (off : ℤ) : Defined (fseek off) := by
  intro s s' h
  unfold fseek at h
  split_ifs at h
  cases h

end CFile
