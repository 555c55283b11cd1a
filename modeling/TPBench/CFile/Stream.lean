import TPBench.CFile.Bytes

/-!
# A Model of Buffered File Access

`FileM` is the monad of programs over one open file: its state is the content of the
file together with the position of the next access, and a program either returns a
value or stops. The state of a stopped program is kept, since bytes written before a
failed call stay in the file.

A program stops in one of three ways (`Stop`): `fail` is the error exit of the source
(a short read, a rejected seek, a check that does not hold), `noMemory` is a request for
more memory than any object may have, `undefined` is an access outside an object, to
which the language gives no meaning. Writing is taken to succeed: a full device is not
part of the model.

## Sequential reading

`Reads m bs a` says that `m`, started anywhere in any file in front of the bytes
`bs`, consumes exactly `bs`, returns `a` and leaves the file alone. The relation
composes along `bind` (`Reads.bind`) and along a counted loop (`reads_readN`), so the
correctness of a decoder against an encoder is the derivation of one `Reads` fact
that follows the program.

## Random access

Programs that seek are executed symbolically: `bind_then` performs one call, and
`fseek_run`, `fread_run`, `readU32_run`, `readU64_run` and `fwrite_run` say what the
call does from the block found at the position.
-/

namespace CFile

/-! ### Programs with state and failure -/

section EStateM

variable {ε σ α β : Type} {m : EStateM ε σ α} {f : α → EStateM ε σ β}

/-- One successful call of a program. -/
theorem bind_ok {s s' : σ} {a : α} (h : m s = .ok a s') : (m >>= f) s = f a s' := by
  change EStateM.bind m f s = f a s'
  simp [EStateM.bind, h]

/-- One successful call, and what the rest of the program does. -/
theorem bind_then {s s' : σ} {a : α} {r : EStateM.Result ε σ β} (h : m s = .ok a s')
    (hf : f a s' = r) : (m >>= f) s = r :=
  (bind_ok h).trans hf

/-- A failed call ends the program. -/
theorem bind_error {s s' : σ} {e : ε} (h : m s = .error e s') :
    (m >>= f) s = .error e s' := by
  change EStateM.bind m f s = .error e s'
  simp [EStateM.bind, h]

/-- A successful program is a successful call followed by a successful rest. -/
theorem bind_eq_ok {s s'' : σ} {b : β} :
    (m >>= f) s = .ok b s'' ↔ ∃ a s', m s = .ok a s' ∧ f a s' = .ok b s'' := by
  constructor
  · intro h
    rcases hm : m s with ⟨a, s'⟩ | ⟨e, s'⟩
    · exact ⟨a, s', rfl, by rwa [bind_ok hm] at h⟩
    · rw [bind_error hm] at h
      cases h
  · rintro ⟨a, s', hm, hf⟩
    rwa [bind_ok hm]

end EStateM

/-! ### The calls -/

/-- An open file: its content and the position of the next access. -/
structure Stream where
  content : Bytes
  pos : ℕ

/-- The ways a program over a file stops early: the error exit of the source, an
allocation that cannot be served, or an access outside an object. -/
inductive Stop
  | fail
  | noMemory
  | undefined
  deriving DecidableEq, Repr

/-- Programs over one open file. -/
abbrev FileM := EStateM Stop Stream

/-- `fseek(fp, off, SEEK_SET)`: negative positions are rejected. -/
def fseek (off : ℤ) : FileM Unit := fun s =>
  if off < 0 then .error .fail s else .ok () ⟨s.content, off.toNat⟩

/-- `fread` of one block of `k` bytes; `none` is a short count, which leaves the
position at the end of the file. -/
def freadTry (k : ℕ) : FileM (Option Bytes) := fun s =>
  if (pread s.content s.pos k).length = k then
    .ok (some (pread s.content s.pos k)) ⟨s.content, s.pos + k⟩
  else .ok none ⟨s.content, max s.pos s.content.length⟩

/-- `fread` whose short count is the error exit. -/
def fread (k : ℕ) : FileM Bytes := fun s =>
  match freadTry k s with
  | .ok (some bs) s' => .ok bs s'
  | .ok none s' => .error .fail s'
  | .error e s' => .error e s'

/-- `fwrite` of one block at the current position. -/
def fwrite (bs : Bytes) : FileM Unit := fun s =>
  .ok () ⟨pwrite s.content s.pos bs, s.pos + bs.length⟩

/-- A check of the source whose failure is the error exit. -/
def check {σ : Type} (c : Prop) [Decidable c] : EStateM Stop σ Unit := fun s =>
  if c then .ok () s else .error .fail s

/-- The size `fstat` reports. -/
def fstatSize : FileM ℕ := fun s => .ok s.content.length s

/-- The exit of a `malloc` whose argument exceeds the size of any object. -/
def outOfMemory {α : Type} : FileM α := fun s => .error .noMemory s

/-- Read a `uint32_t`. -/
def readU32 : FileM UInt32 := do return getU32 (← fread 4)

/-- Read a `uint64_t`. -/
def readU64 : FileM UInt64 := do return getU64 (← fread 8)

/-- Read an `int32_t`. -/
def readI32 : FileM Int32 := do return getI32 (← fread 4)

/-- Read an array of `n` bytes. -/
def readArr (n : ℕ) : FileM (CArr n) := do return toArr n (← fread n)

/-- Run a reader `n` times, collecting the results. -/
def readN {α : Type} : ℕ → FileM α → FileM (List α)
  | 0, _ => pure []
  | n + 1, m => do
      let a ← m
      let as ← readN n m
      return a :: as

/-- A counted loop returns as many results as it makes calls. -/
theorem length_readN {α : Type} {m : FileM α} {n : ℕ} {as : List α} {s s' : Stream}
    (h : readN n m s = .ok as s') : as.length = n := by
  induction n generalizing as s with
  | zero =>
      cases h
      rfl
  | succ n ih =>
      obtain ⟨a, s₁, -, h⟩ := bind_eq_ok.mp h
      obtain ⟨rest, s₂, hrest, h⟩ := bind_eq_ok.mp h
      cases h
      rw [List.length_cons, ih hrest]

/-- What holds of every single result holds of all results. -/
theorem forall_of_readN {α : Type} {m : FileM α} {P : α → Prop}
    (hm : ∀ a s s', m s = .ok a s' → P a) {n : ℕ} {as : List α} {s s' : Stream}
    (h : readN n m s = .ok as s') : ∀ a ∈ as, P a := by
  induction n generalizing as s with
  | zero =>
      cases h
      simp
  | succ n ih =>
      obtain ⟨a, s₁, ha, h⟩ := bind_eq_ok.mp h
      obtain ⟨rest, s₂, hrest, h⟩ := bind_eq_ok.mp h
      cases h
      rw [List.forall_mem_cons]
      exact ⟨hm a s s₁ ha, ih hrest⟩

/-- The store of one more element into an array that has no slot left: the first byte
the file delivers lands outside the array; at the end of the file nothing is stored
and the short count is the error exit. -/
def storeOutside {α : Type} : FileM α := fun s =>
  if s.pos < s.content.length then .error .undefined s else .error .fail s

/-- A loop that stores `n` elements one after another into an array of `cap` slots. -/
def readInto {α : Type} (m : FileM α) : ℕ → ℕ → FileM (List α)
  | _, 0 => pure []
  | 0, _ + 1 => storeOutside
  | cap + 1, n + 1 => do
      let a ← m
      let as ← readInto m cap n
      return a :: as

/-- A loop that stays inside its array is a plain counted loop. -/
theorem readInto_eq_readN {α : Type} (m : FileM α) {cap n : ℕ} (h : n ≤ cap) :
    readInto m cap n = readN n m := by
  induction n generalizing cap with
  | zero => cases cap <;> rfl
  | succ n ih =>
      obtain ⟨cap, rfl⟩ : ∃ c, cap = c + 1 := ⟨cap - 1, by omega⟩
      rw [readInto, readN, ih (by omega)]

/-- A loop that stored its elements had slots for them. -/
theorem length_of_readInto {α : Type} {m : FileM α} {cap n : ℕ} {as : List α} {s s' : Stream}
    (h : readInto m cap n s = .ok as s') : n ≤ cap ∧ as.length = n := by
  induction n generalizing cap as s with
  | zero =>
      rw [readInto] at h
      cases h
      exact ⟨Nat.zero_le _, rfl⟩
  | succ n ih =>
      cases cap with
      | zero =>
          rw [readInto, storeOutside] at h
          split_ifs at h
      | succ cap =>
          obtain ⟨a, s₁, -, h⟩ := bind_eq_ok.mp h
          obtain ⟨rest, s₂, hrest, h⟩ := bind_eq_ok.mp h
          cases h
          obtain ⟨hle, hlen⟩ := ih hrest
          exact ⟨by omega, by rw [List.length_cons, hlen]⟩

/-! ### Executing single calls -/

section Exec

variable {c : Bytes} {p k : ℕ} {bs : Bytes}

/-- Seeking to the position `k`, in whatever way the source computes it. -/
theorem fseek_run {off : ℤ} (h : off = k) : fseek off ⟨c, p⟩ = .ok () ⟨c, k⟩ := by
  subst h
  simp [fseek]

theorem freadTry_run (h : pread c p k = bs) (hl : bs.length = k) :
    freadTry k ⟨c, p⟩ = .ok (some bs) ⟨c, p + k⟩ := by
  subst h
  simp [freadTry, hl]

/-- A block that is not there is a short count. -/
theorem freadTry_short (h : c.length < p + k) (hk : 0 < k) :
    freadTry k ⟨c, p⟩ = .ok none ⟨c, max p c.length⟩ := by
  have hne : (pread c p k).length ≠ k := by
    simp only [pread, List.length_take, List.length_drop]
    omega
  simp [freadTry, hne]

theorem fread_run (h : pread c p k = bs) (hl : bs.length = k) :
    fread k ⟨c, p⟩ = .ok bs ⟨c, p + k⟩ := by
  simp [fread, freadTry_run h hl]

/-- A block that is not there is the error exit. -/
theorem fread_short (h : c.length < p + k) (hk : 0 < k) :
    fread k ⟨c, p⟩ = .error .fail ⟨c, max p c.length⟩ := by
  simp [fread, freadTry_short h hk]

theorem fwrite_run (c : Bytes) (p : ℕ) (bs : Bytes) :
    fwrite bs ⟨c, p⟩ = .ok () ⟨pwrite c p bs, p + bs.length⟩ := rfl

theorem fstatSize_run (c : Bytes) (p : ℕ) : fstatSize ⟨c, p⟩ = .ok c.length ⟨c, p⟩ := rfl

theorem check_run {σ : Type} {q : Prop} [Decidable q] (h : q) (s : σ) :
    check q s = .ok () s := by
  simp [check, h]

theorem check_fail {σ : Type} {q : Prop} [Decidable q] (h : ¬q) (s : σ) :
    check q s = .error .fail s := by
  simp [check, h]

theorem readU32_run {v : UInt32} (h : pread c p 4 = u32 v) :
    readU32 ⟨c, p⟩ = .ok v ⟨c, p + 4⟩ := by
  rw [readU32, bind_ok (fread_run h (length_u32 v)), getU32_u32]
  rfl

theorem readU64_run {v : UInt64} (h : pread c p 8 = u64 v) :
    readU64 ⟨c, p⟩ = .ok v ⟨c, p + 8⟩ := by
  rw [readU64, bind_ok (fread_run h (length_u64 v)), getU64_u64]
  rfl

end Exec

/-! ### Sequential reading -/

/-- `Reads m bs a`: wherever the bytes `bs` stand in front of it in a file, the
program `m` consumes exactly these bytes, returns `a` and changes nothing. -/
def Reads {α : Type} (m : FileM α) (bs : Bytes) (a : α) : Prop :=
  ∀ pre post : Bytes, m ⟨pre ++ (bs ++ post), pre.length⟩ =
    .ok a ⟨pre ++ (bs ++ post), pre.length + bs.length⟩

section Reads

variable {α β : Type} {m : FileM α} {f : α → FileM β} {a : α} {b : β} {bs cs : Bytes}

/-- A reader of the whole file succeeds on it. -/
theorem Reads.run (h : Reads m bs a) : m ⟨bs, 0⟩ = .ok a ⟨bs, bs.length⟩ := by
  simpa using h [] []

/-- Consecutive readers consume consecutive blocks. -/
theorem Reads.bind (hm : Reads m bs a) (hf : Reads (f a) cs b) :
    Reads (m >>= f) (bs ++ cs) b := by
  intro pre post
  have h₁ := hm pre (cs ++ post)
  have h₂ := hf (pre ++ bs) post
  rw [List.append_assoc, bind_ok h₁]
  simpa [Nat.add_assoc] using h₂

theorem Reads.pure (a : α) : Reads (Pure.pure a : FileM α) [] a := by
  intro pre post
  rfl

/-- The last call of a reader: its result is post-processed, nothing more is read. -/
theorem Reads.map (hm : Reads m bs a) (g : α → β) :
    Reads (do return g (← m)) bs (g a) := by
  have h := hm.bind (f := fun a => Pure.pure (g a)) (Reads.pure (g a))
  rwa [List.append_nil] at h

theorem Reads.check {c : Prop} [Decidable c] (h : c) : Reads (CFile.check c) [] () := by
  intro pre post
  exact check_run h _

/-- A check between two readers consumes nothing. -/
theorem Reads.checkThen {c : Prop} [Decidable c] {g : Unit → FileM β} (h : c)
    (hg : Reads (g ()) cs b) : Reads (CFile.check c >>= g) cs b := by
  simpa using (Reads.check h).bind hg

theorem reads_fread {k : ℕ} (h : bs.length = k) : Reads (fread k) bs bs := by
  intro pre post
  subst h
  refine fread_run ?_ rfl
  rw [pread_append_right le_rfl, Nat.sub_self, pread_append_self rfl]

theorem reads_readU32 (v : UInt32) : Reads readU32 (u32 v) v := by
  have h := (reads_fread (length_u32 v)).map getU32
  rwa [getU32_u32] at h

theorem reads_readU64 (v : UInt64) : Reads readU64 (u64 v) v := by
  have h := (reads_fread (length_u64 v)).map getU64
  rwa [getU64_u64] at h

theorem reads_readI32 (v : Int32) : Reads readI32 (i32 v) v := by
  have h := (reads_fread (length_i32 v)).map getI32
  rwa [getI32_i32] at h

theorem reads_readArr {n : ℕ} (v : CArr n) : Reads (readArr n) v.toList v := by
  have h := (reads_fread v.toList_length).map (toArr n)
  rwa [toArr_toList] at h

/-- A counted loop of readers consumes the concatenation of their blocks. -/
theorem reads_readN {γ : Type} {enc : γ → Bytes} {dec : γ → α} (xs : List γ)
    (h : ∀ x ∈ xs, Reads m (enc x) (dec x)) :
    Reads (readN xs.length m) (xs.flatMap enc) (xs.map dec) := by
  induction xs with
  | nil => exact Reads.pure []
  | cons x xs ih =>
      have hx := h x List.mem_cons_self
      have hxs := ih fun y hy => h y (List.mem_cons_of_mem x hy)
      rw [List.flatMap_cons, List.map_cons, List.length_cons, readN]
      exact hx.bind (hxs.map (dec x :: ·))

end Reads

end CFile
