import TPBench.CFile.Sized

/-!
# Files that Are Cut

A writer that stops in the middle leaves a beginning of what it wanted to write. What does a
reader make of it? A reader that goes through a file from its front to its back, and does not ask
for its size, cannot tell where the file was cut until it comes there. `Stable m` says this:
what `m` has read from a file, and where it is then, stays the same when more bytes follow, and so
does an access outside an object.

Hence a stable reader that goes through the whole of a file to its last byte fails on every cut of
it, and makes no access outside an object there (`Reads.cut`).
-/

namespace CFile

variable {α β : Type} {m : FileM α} {f : α → FileM β}

/-- What the program does in a file it does in every longer one. -/
structure Stable (m : FileM α) : Prop where
  ok : ∀ {c d : Bytes} {p : ℕ} {a : α} {s : Stream}, p ≤ c.length → m ⟨c, p⟩ = .ok a s →
    s.content = c ∧ s.pos ≤ c.length ∧ m ⟨c ++ d, p⟩ = .ok a ⟨c ++ d, s.pos⟩
  undefined : ∀ {c d : Bytes} {p : ℕ} {s : Stream}, p ≤ c.length →
    m ⟨c, p⟩ = .error .undefined s → ∃ s', m ⟨c ++ d, p⟩ = .error .undefined s'

/-- Nothing is read. -/
theorem stable_pure (a : α) : Stable (pure a) where
  ok := by
    intro c d p b s hp h
    cases h
    exact ⟨rfl, hp, rfl⟩
  undefined := by
    intro c d p s _ h
    cases h

/-- One program after the other. -/
theorem Stable.bind (hm : Stable m) (hf : ∀ a, Stable (f a)) : Stable (m >>= f) where
  ok := by
    intro c d p b s hp h
    obtain ⟨a, ⟨c₁, p₁⟩, ha, hb⟩ := bind_eq_ok.mp h
    obtain ⟨rfl, hp₁, hlong⟩ := hm.ok (d := d) hp ha
    obtain ⟨hc, hpos, hrest⟩ := (hf a).ok (d := d) hp₁ hb
    exact ⟨hc, hpos, by rw [bind_ok hlong, hrest]⟩
  undefined := by
    intro c d p s hp h
    rcases ha : m ⟨c, p⟩ with ⟨a, ⟨c₁, p₁⟩⟩ | ⟨e, s₁⟩
    · obtain ⟨rfl, hp₁, hlong⟩ := hm.ok (d := d) hp ha
      rw [bind_ok ha] at h
      obtain ⟨s', hs'⟩ := (hf a).undefined (d := d) hp₁ h
      exact ⟨s', by rw [bind_ok hlong, hs']⟩
    · rw [bind_error ha] at h
      cases h
      obtain ⟨s', hs'⟩ := hm.undefined (d := d) hp ha
      exact ⟨s', bind_error hs'⟩

/-- The last call of a reader. -/
theorem Stable.map (hm : Stable m) (g : α → β) : Stable (do return g (← m)) :=
  hm.bind fun a => stable_pure (g a)

/-- A check is made. -/
theorem stable_check (q : Prop) [Decidable q] : Stable (check q) where
  ok := by
    intro c d p a s hp h
    unfold check at h ⊢
    split at h
    · rename_i hq
      cases h
      exact ⟨rfl, hp, if_pos hq⟩
    · cases h
  undefined := by
    intro c d p s _ h
    unfold check at h
    split at h
    · cases h
    · cases h

/-- A block is read. -/
theorem stable_fread (k : ℕ) : Stable (fread k) where
  ok := by
    intro c d p bs s hp h
    by_cases hk : c.length < p + k
    · rw [fread_short hk (by omega)] at h
      cases h
    · have hlen : (pread c p k).length = k := by
        rw [pread, List.length_take, List.length_drop]
        omega
      rw [fread_run rfl hlen] at h
      cases h
      have hlong : pread (c ++ d) p k = pread c p k := by
        rw [pread, pread, List.drop_append_of_le_length hp, List.take_append_of_le_length]
        rw [List.length_drop]
        omega
      exact ⟨rfl, Nat.le_of_not_lt hk, fread_run hlong hlen⟩
  undefined := by
    intro c d p s _ h
    exact absurd h (defined_fread k _ _)

theorem stable_readU32 : Stable readU32 := (stable_fread 4).map _

theorem stable_readU64 : Stable readU64 := (stable_fread 8).map _

theorem stable_readArr (n : ℕ) : Stable (readArr n) := (stable_fread n).map _

/-- A counted loop. -/
theorem stable_readN (hm : Stable m) (n : ℕ) : Stable (readN n m) := by
  induction n with
  | zero => exact stable_pure []
  | succ n ih => exact hm.bind fun a => ih.map _

/-- An access outside an object. -/
theorem stable_storeOutside : Stable (storeOutside : FileM α) where
  ok := by
    intro c d p a s _ h
    unfold storeOutside at h
    split at h
    · cases h
    · cases h
  undefined := by
    intro c d p s _ h
    unfold storeOutside at h ⊢
    split at h
    · rename_i hlt
      have hlong : p < (c ++ d).length := by
        rw [List.length_append]
        exact Nat.lt_add_right _ hlt
      exact ⟨_, if_pos hlong⟩
    · cases h

/-- A loop that stores into an array. -/
theorem stable_readInto (hm : Stable m) (cap n : ℕ) : Stable (readInto m cap n) := by
  induction n generalizing cap with
  | zero =>
      cases cap with
      | zero => exact stable_pure []
      | succ cap => exact stable_pure []
  | succ n ih =>
      cases cap with
      | zero => exact stable_storeOutside
      | succ cap => exact hm.bind fun a => (ih cap).map _

/-- **A cut file**: a reader that goes through the whole file fails on every beginning of it, and
makes no access outside an object there. -/
theorem Reads.cut {bs : Bytes} {a : α} (h : Reads m bs a) (hm : Stable m) {n : ℕ}
    (hn : n < bs.length) :
    ∃ e s, m ⟨bs.take n, 0⟩ = .error e s ∧ e ≠ .undefined := by
  have hrun := h.run
  rw [← List.take_append_drop n bs] at hrun
  rcases hcut : m ⟨bs.take n, 0⟩ with ⟨b, s⟩ | ⟨e, s⟩
  · obtain ⟨-, hpos, hlong⟩ := hm.ok (d := bs.drop n) (Nat.zero_le _) hcut
    rw [hrun] at hlong
    injection hlong with _ hs
    injection hs with _ hend
    rw [List.take_append_drop] at hend
    rw [List.length_take] at hpos
    omega
  · refine ⟨e, s, rfl, ?_⟩
    rintro rfl
    obtain ⟨s', hlong⟩ := hm.undefined (d := bs.drop n) (Nat.zero_le _) hcut
    rw [hrun] at hlong
    cases hlong

/-- A block that is overwritten in front of the cut. -/
theorem pwrite_take {f bs : Bytes} {off n : ℕ} (h : off + bs.length ≤ n) (hn : n ≤ f.length) :
    pwrite (f.take n) off bs = (pwrite f off bs).take n := by
  have hlen : (f.take n).length = n := by
    rw [List.length_take]
    omega
  have hsplit : pwrite f off bs = pwrite (f.take n) off bs ++ f.drop n := by
    conv_lhs => rw [← List.take_append_drop n f]
    exact pwrite_append_left (by omega)
  have hcut : (pwrite (f.take n) off bs).length = n := by
    rw [length_pwrite (by omega), hlen]
  rw [hsplit, List.take_append_of_le_length hcut.ge, List.take_of_length_le hcut.le]

end CFile
