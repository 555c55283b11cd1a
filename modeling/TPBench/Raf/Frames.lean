import TPBench.Conc.Progs
import TPBench.Raf.Entry

/-!
# What a Call Leaves Alone

A call of the store names the files it writes, and leaves the others as they were, whether it
succeeds or fails half way. `Frames P m` says so for the files in `P`, and the rules follow the
structure of a program: a sequence of calls, the propagation of an error, and the ways to open a
file. `ReadsOnly m` says that a program leaves all of the workspace as it is; where it stands in
front of other calls, these start from the same workspace.
-/

open CFile Conc

namespace TPBench

section After

variable {α : Type} (mod : Module)

/-- Propagation changes the error only. -/
theorem after_propagate (m : WsM α) (ws : Workspace) :
    after (propagate mod m ws) = after (m ws) := by
  rw [propagate]
  rcases m ws with ⟨a, ws'⟩ | ⟨⟨mod', c⟩ | -, ws'⟩
  · rfl
  · cases c <;> rfl
  · rfl

/-- Another error leaves the same workspace. -/
theorem after_orFail (cause : Cause) (m : WsM α) (ws : Workspace) :
    after (orFail mod cause m ws) = after (m ws) := by
  rw [orFail]
  rcases m ws with ⟨a, ws'⟩ | ⟨⟨mod', c⟩ | -, ws'⟩
  · rfl
  · rfl
  · rfl

/-- An update of one file leaves the others as they were. -/
theorem after_fopenUpdate {p q : Path} (m : FileM α) (ws : Workspace) (h : q ≠ p) :
    (after (fopenUpdate mod p m ws)).files q = ws.files q := by
  simp only [fopenUpdate]
  split
  · rfl
  · split
    · exact Workspace.set_files_of_ne _ _ h
    · exact Workspace.set_files_of_ne _ _ h

/-- A listing reads only. -/
theorem after_entryListRows {ρ : Type} (R : RowFormat ρ) (ws : Workspace) :
    after (entryListRows R ws) = ws := by
  rcases hlist : entryListRows R ws with ⟨es, ws'⟩ | ⟨e, ws'⟩
  · exact (entryListRows_bound hlist).1
  · exact entryListRows_error hlist

end After

/-- A program that leaves the files in `P` alone, whether it fails or not. -/
def Frames {α : Type} (P : Path → Prop) (m : WsM α) : Prop :=
  ∀ ws p, P p → (after (m ws)).files p = ws.files p

section Frames

variable {α β : Type} {P : Path → Prop}

/-- One after the other. -/
theorem Frames.bind {m : WsM α} {f : α → WsM β} (hm : Frames P m) (hf : ∀ a, Frames P (f a)) :
    Frames P (m >>= f) := by
  intro ws p hp
  have hm' := hm ws p hp
  rcases hrun : m ws with ⟨a, ws₁⟩ | ⟨e, ws₁⟩
  · rw [hrun] at hm'
    rw [bind_ok hrun, hf a ws₁ p hp]
    exact hm'
  · rw [hrun] at hm'
    rw [bind_error hrun]
    exact hm'

/-- An error is passed on. -/
theorem Frames.propagate {m : WsM α} (mod : Module) (hm : Frames P m) :
    Frames P (propagate mod m) := by
  intro ws p hp
  rw [after_propagate]
  exact hm ws p hp

/-- A failure changes no file. -/
theorem frames_tpbFail (mod : Module) (cause : Cause) : Frames P (tpbFail mod cause : WsM α) :=
  fun _ _ _ => rfl

/-- A file that is not among them is updated. -/
theorem frames_fopenUpdate {mod : Module} {p : Path} {m : FileM α} (hp : ¬ P p) :
    Frames P (fopenUpdate mod p m) :=
  fun ws _ hq => after_fopenUpdate mod m ws fun h => hp (h ▸ hq)

/-- A table is listed. -/
theorem frames_entryListRows {ρ : Type} (R : RowFormat ρ) : Frames P (entryListRows R) := by
  intro ws p _
  rw [after_entryListRows]

/-- An append of a row leaves the files alone that are not the table. -/
theorem frames_entryAppendRow {ρ : Type} (R : RowFormat ρ) (row : ρ)
    (hp : ¬ P (.entry R.domain)) : Frames P (entryAppendRow R row) := by
  refine Frames.propagate _ ?_
  intro ws q hq
  have hne : q ≠ .entry R.domain := fun h => hp (h ▸ hq)
  rw [tpbRafL1EntryAppend, fopenCreate]
  split
  · exact ws.set_files_of_ne _ hne
  · exact ws.set_files_of_ne _ hne

end Frames

/-! ### Programs that only read -/

/-- A program that leaves the workspace as it is, whether it fails or not. -/
def ReadsOnly {α : Type} (m : WsM α) : Prop := ∀ ws, after (m ws) = ws

section ReadsOnly

variable {α β : Type} {ws ws' : Workspace}

/-- A success leaves the workspace. -/
theorem ReadsOnly.of_ok {m : WsM α} (hm : ReadsOnly m) {a : α} (h : m ws = .ok a ws') :
    ws' = ws := by
  have hafter := hm ws
  rwa [h] at hafter

/-- So does an error. -/
theorem ReadsOnly.of_error {m : WsM α} (hm : ReadsOnly m) {e : Err} (h : m ws = .error e ws') :
    ws' = ws := by
  have hafter := hm ws
  rwa [h] at hafter

/-- A program fails when its first call does, or when the rest does. -/
theorem bind_eq_error {m : WsM α} {f : α → WsM β} {e : Err} (h : (m >>= f) ws = .error e ws') :
    m ws = .error e ws' ∨ ∃ a ws₁, m ws = .ok a ws₁ ∧ f a ws₁ = .error e ws' := by
  rcases hm : m ws with ⟨a, ws₁⟩ | ⟨e₁, ws₁⟩
  · exact .inr ⟨a, ws₁, rfl, by rwa [bind_ok hm] at h⟩
  · rw [bind_error hm] at h
    cases h
    exact .inl rfl

/-- A program that reads first fails in its first call, or behind it from the same
workspace. -/
theorem ReadsOnly.bind_eq_error {m : WsM α} (hm : ReadsOnly m) {f : α → WsM β} {e : Err}
    (h : (m >>= f) ws = .error e ws') :
    ws' = ws ∨ ∃ a, m ws = .ok a ws ∧ f a ws = .error e ws' := by
  rcases TPBench.bind_eq_error h with herr | ⟨a, ws₁, hok, hrest⟩
  · exact .inl (hm.of_error herr)
  · obtain rfl := hm.of_ok hok
    exact .inr ⟨a, hok, hrest⟩

/-- A program that reads first succeeds behind its first call from the same workspace. -/
theorem ReadsOnly.bind_eq_ok {m : WsM α} (hm : ReadsOnly m) {f : α → WsM β} {b : β}
    (h : (m >>= f) ws = .ok b ws') : ∃ a, m ws = .ok a ws ∧ f a ws = .ok b ws' := by
  obtain ⟨a, ws₁, hok, hrest⟩ := CFile.bind_eq_ok.mp h
  obtain rfl := hm.of_ok hok
  exact ⟨a, hok, hrest⟩

theorem readsOnly_pure (a : α) : ReadsOnly (pure a : WsM α) := fun _ => rfl

theorem readsOnly_tpbFail (mod : Module) (cause : Cause) : ReadsOnly (tpbFail mod cause : WsM α) :=
  fun _ => rfl

/-- An error is passed on. -/
theorem ReadsOnly.propagate {m : WsM α} (hm : ReadsOnly m) (mod : Module) :
    ReadsOnly (propagate mod m) := by
  intro ws
  rw [after_propagate]
  exact hm ws

/-- A file is opened to be read. -/
theorem readsOnly_fopenRead (mod : Module) (p : Path) (m : FileM α) :
    ReadsOnly (fopenRead mod p m) := by
  intro ws
  rcases hrun : fopenRead mod p m ws with ⟨a, ws'⟩ | ⟨e, ws'⟩
  · exact (fopenRead_eq_ok hrun).1
  · exact fopenRead_eq_error hrun

/-- One or the other. -/
theorem ReadsOnly.ite {c : Prop} [Decidable c] {m n : WsM α} (hm : ReadsOnly m)
    (hn : ReadsOnly n) : ReadsOnly (if c then m else n) := by
  split
  · exact hm
  · exact hn

/-- One after the other. -/
theorem ReadsOnly.bind {m : WsM α} {f : α → WsM β} (hm : ReadsOnly m)
    (hf : ∀ a, ReadsOnly (f a)) : ReadsOnly (m >>= f) := by
  intro ws
  rcases hrun : (m >>= f) ws with ⟨b, ws'⟩ | ⟨e, ws'⟩
  · obtain ⟨a, -, hrest⟩ := hm.bind_eq_ok hrun
    exact (hf a).of_ok hrest
  · rcases hm.bind_eq_error hrun with h | ⟨a, -, hrest⟩
    · exact h
    · exact (hf a).of_error hrest

end ReadsOnly

end TPBench
