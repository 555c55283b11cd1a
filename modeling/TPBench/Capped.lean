import TPBench.CFile.Stream

/-!
# Computations with a Smaller Capacity

Two versions of one algorithm fill a structure and differ in the capacity of the structure.
Both stop with an error when the structure is full. `Within μ k e n x x'` compares the two,
where `μ` is the size of the structure, `k` the smaller capacity and `n` the size at the
start: if `n` fits into `k`, then `x` succeeds exactly when `x'` does and its result fits,
with the same result. When the result of `x'` does not fit, `x` stops with the error `e`.

The size never shrinks under `x'`, so a result that fits is only reached through structures
that fit, and the comparison carries over to sequences and loops (`Within.bind`,
`Within.foldlM`). `Within.slot` is the step the versions differ in.
-/

open CFile

namespace Capped

variable {ε σ α β : Type} {μ : α → ℕ} {k k' n : ℕ} {e : ε} {x x' y y' : EStateM ε σ α}

/-- From a structure of size `n`, `x` is `x'` with the capacity `k`. -/
structure Within (μ : α → ℕ) (k : ℕ) (e : ε) (n : ℕ) (x x' : EStateM ε σ α) : Prop where
  ok_iff : n ≤ k → ∀ s b s', x s = .ok b s' ↔ x' s = .ok b s' ∧ μ b ≤ k
  full : n ≤ k → ∀ s b s', x' s = .ok b s' → k < μ b → ∃ s'', x s = .error e s''
  grows : ∀ s b s', x' s = .ok b s' → n ≤ μ b

namespace Within

/-- What keeps the size needs no capacity. -/
theorem refl (h : ∀ s b s', x s = .ok b s' → μ b = n) : Within μ k e n x x where
  ok_iff := by
    intro hn s b s'
    refine ⟨fun hx => ⟨hx, ?_⟩, And.left⟩
    rw [h s b s' hx]
    exact hn
  full := by
    intro hn s b s' hx hfull
    rw [h s b s' hx] at hfull
    omega
  grows := by
    intro s b s' hx
    exact (h s b s' hx).ge

theorem pure (a : α) : Within μ k e (μ a) (pure a : EStateM ε σ α) (pure a) :=
  refl fun _ _ _ h => by
    cases h
    rfl

/-- A new element takes a slot, if there is one left. -/
theorem slot (hk : k ≤ k') {fail : EStateM ε σ α} (hfail : ∀ s, fail s = .error e s)
    (hx : ∀ s b s', x s = .ok b s' → μ b = n + 1) :
    Within μ k e n (if k ≤ n then fail else x) (if k' ≤ n then fail else x) where
  ok_iff := by
    intro hn s b s'
    by_cases hfull : k ≤ n
    · rw [if_pos hfull, hfail]
      refine ⟨fun h => (by cases h), ?_⟩
      rintro ⟨h, hfits⟩
      split at h
      · rw [hfail] at h
        cases h
      · have hsize := hx s b s' h
        omega
    · rw [if_neg hfull, if_neg (by omega)]
      refine ⟨fun h => ⟨h, ?_⟩, And.left⟩
      rw [hx s b s' h]
      omega
  full := by
    intro hn s b s' h hfull
    split at h
    · rw [hfail] at h
      cases h
    · have hsize := hx s b s' h
      rw [if_pos (by omega)]
      exact ⟨s, hfail s⟩
  grows := by
    intro s b s' h
    split at h
    · rw [hfail] at h
      cases h
    · rw [hx s b s' h]
      omega

/-- Two steps in sequence. -/
theorem bind {g g' : α → EStateM ε σ α} (hx : Within μ k e n x x')
    (hg : ∀ b, Within μ k e (μ b) (g b) (g' b)) : Within μ k e n (x >>= g) (x' >>= g') where
  ok_iff := by
    intro hn s c s''
    constructor
    · intro h
      obtain ⟨b, s', hb, hc⟩ := bind_eq_ok.mp h
      obtain ⟨hb', hfits⟩ := (hx.ok_iff hn s b s').mp hb
      obtain ⟨hc', hfits'⟩ := ((hg b).ok_iff hfits s' c s'').mp hc
      exact ⟨bind_eq_ok.mpr ⟨b, s', hb', hc'⟩, hfits'⟩
    · rintro ⟨h, hfits⟩
      obtain ⟨b, s', hb, hc⟩ := bind_eq_ok.mp h
      have hfits' : μ b ≤ k := ((hg b).grows s' c s'' hc).trans hfits
      exact bind_eq_ok.mpr ⟨b, s', (hx.ok_iff hn s b s').mpr ⟨hb, hfits'⟩,
        ((hg b).ok_iff hfits' s' c s'').mpr ⟨hc, hfits⟩⟩
  full := by
    intro hn s c s'' h hfull
    obtain ⟨b, s', hb, hc⟩ := bind_eq_ok.mp h
    by_cases hfits : μ b ≤ k
    · obtain ⟨s₁, herror⟩ := (hg b).full hfits s' c s'' hc hfull
      exact ⟨s₁, bind_then ((hx.ok_iff hn s b s').mpr ⟨hb, hfits⟩) herror⟩
    · obtain ⟨s₁, herror⟩ := hx.full hn s b s' hb (by omega)
      exact ⟨s₁, bind_error herror⟩
  grows := by
    intro s c s'' h
    obtain ⟨b, s', hb, hc⟩ := bind_eq_ok.mp h
    exact (hx.grows s b s' hb).trans ((hg b).grows s' c s'' hc)

/-- A step behind something that both versions read. -/
theorem after {r r' : EStateM ε σ β} {f f' : β → EStateM ε σ α}
    (hr : ∀ s b s', r s = .ok b s' ↔ r' s = .ok b s')
    (h : ∀ b, Within μ k e n (f b) (f' b)) : Within μ k e n (r >>= f) (r' >>= f') where
  ok_iff := by
    intro hn s c s''
    constructor
    · intro hok
      obtain ⟨b, s', hb, hc⟩ := bind_eq_ok.mp hok
      obtain ⟨hc', hfits⟩ := ((h b).ok_iff hn s' c s'').mp hc
      exact ⟨bind_eq_ok.mpr ⟨b, s', (hr s b s').mp hb, hc'⟩, hfits⟩
    · rintro ⟨hok, hfits⟩
      obtain ⟨b, s', hb, hc⟩ := bind_eq_ok.mp hok
      exact bind_eq_ok.mpr
        ⟨b, s', (hr s b s').mpr hb, ((h b).ok_iff hn s' c s'').mpr ⟨hc, hfits⟩⟩
  full := by
    intro hn s c s'' hok hfull
    obtain ⟨b, s', hb, hc⟩ := bind_eq_ok.mp hok
    obtain ⟨s₁, herror⟩ := (h b).full hn s' c s'' hc hfull
    exact ⟨s₁, bind_then ((hr s b s').mpr hb) herror⟩
  grows := by
    intro s c s'' hok
    obtain ⟨b, s', hb, hc⟩ := bind_eq_ok.mp hok
    exact (h b).grows s' c s'' hc

/-- Only the results of the larger version matter, not its errors. -/
theorem of_ok_iff (h : Within μ k e n x x') (hy : ∀ s b s', y s = .ok b s' ↔ x' s = .ok b s') :
    Within μ k e n x y where
  ok_iff := by
    intro hn s b s'
    rw [hy]
    exact h.ok_iff hn s b s'
  full := by
    intro hn s b s' hok
    exact h.full hn s b s' ((hy s b s').mp hok)
  grows := by
    intro s b s' hok
    exact h.grows s b s' ((hy s b s').mp hok)

/-- A test that both versions make. -/
theorem ite {c : Prop} [Decidable c] (hx : Within μ k e n x x') (hy : Within μ k e n y y') :
    Within μ k e n (if c then x else y) (if c then x' else y') := by
  split
  · exact hx
  · exact hy

/-- A loop. -/
theorem foldlM {f f' : α → β → EStateM ε σ α}
    (h : ∀ a b, Within μ k e (μ a) (f a b) (f' a b)) (bs : List β) (a : α) :
    Within μ k e (μ a) (bs.foldlM f a) (bs.foldlM f' a) := by
  induction bs generalizing a with
  | nil => exact pure a
  | cons b bs ih =>
      rw [List.foldlM_cons, List.foldlM_cons]
      exact (h a b).bind ih

end Within

end Capped
