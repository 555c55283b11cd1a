import TPBench.Conc.Keeps
import TPBench.Mpi.Store

/-!
# Appends That Stop Halfway

An append to a capsule makes five writes to its record: the ID over the END magic, the magic
behind it, and three counts (`appendTaskCapsule`). Any of them can fail. Then the record stays as
the writes in front have left it: it can have lost its END magic, or have counts that do not
agree, and is no capsule any more. Nothing repairs it, and later calls work on it as it is.

`appendTaskCapsule_eq` takes the append apart into its checks and the list of its writes, and
`appendTaskCapsuleFails` stops behind some of these. `Torn` says what is left of such a record,
whatever is appended to it later: it begins with its magic and its ID, and the size it announces
is at most that of the IDs it was given. This is enough for a derivation to find it.
-/

open CFile Conc

namespace TPBench

/-! ### The append and its writes -/

/-- The reads and the checks of `tpb_raf_record_append_task_capsule`: where the END magic stands,
and the size of the payload. -/
def appendChecks : FileM (ℤ × UInt64) := do
  let magic ← fread 8
  check (tpbRafValidateMagic magic .record .task .posStart)
  let _metasize ← readU64
  let datasize ← readU64
  fseek 172
  let nheader ← readU32
  check (nheader = 1)
  fseek 340
  let namechk ← fread 256
  check (nameIs namechk taskIdName)
  check (datasize % 20 = 0)
  fseek (308 + 4)
  let hdr0Ndim ← readU32
  let splitOff : ℤ := 308 + 32 + 256 + 256 + 2048 + hdr0Ndim.toNat * 8 + hdr0Ndim.toNat * 64
  let endMagicOff := splitOff + 8 + longOfU64 datasize
  fseek endMagicOff
  let magic ← fread 8
  check (tpbRafValidateMagic magic .record .task .posEnd)
  return (endMagicOff, datasize)

/-- Its writes, with their positions. -/
def appendWrites (taskId : Id20) (endMagicOff : ℤ) (newDs : UInt64) : List (ℤ × Bytes) :=
  [(endMagicOff, taskId.toList),
   (endMagicOff + taskId.toList.length, tpbRafBuildMagic .record .task .posEnd),
   (16, u64 newDs),
   (316, u64 newDs),
   (2900, u64 (newDs / 20))]

/-- Writes to a file, one after the other. -/
def writeAll : List (ℤ × Bytes) → FileM Unit
  | [] => pure ()
  | w :: writes => do
      fseek w.1
      fwrite w.2
      writeAll writes

/-- `tpb_raf_record_append_task_capsule` on the open record, when only its first `k` writes
succeed (`goto fail_unlock`). -/
def appendTaskCapsuleFails (k : ℕ) (taskId : Id20) : FileM Unit := do
  let (endMagicOff, datasize) ← appendChecks
  writeAll ((appendWrites taskId endMagicOff (datasize + 20)).take k)
  check False

/-- `tpb_raf_record_append_task_capsule`, when only its first `k` writes succeed. -/
def tpbRafRecordAppendTaskCapsuleFails (k : ℕ) (capsuleId taskId : Id20) : WsM Unit :=
  fopenUpdate .rafL3Task (.record .task capsuleId) (appendTaskCapsuleFails k taskId)

/-- Behind a write, the position is where the next one would seek to. -/
theorem fseek_behind {α : Type} (off : ℤ) (bs : Bytes) (m : FileM α) :
    (do fseek off; fwrite bs; fseek (off + bs.length); m) = (do fseek off; fwrite bs; m) := by
  funext s
  by_cases hoff : off < 0
  · rw [bind_error (show fseek off s = .error .fail s from if_pos hoff),
      bind_error (show fseek off s = .error .fail s from if_pos hoff)]
  · have hseek : fseek off s = .ok () ⟨s.content, off.toNat⟩ := if_neg hoff
    rw [bind_ok hseek, bind_ok hseek, bind_ok (fwrite_run _ _ _), bind_ok (fwrite_run _ _ _)]
    refine bind_ok (fseek_run ?_)
    omega

/-- An append is its checks and its writes. -/
theorem appendTaskCapsule_eq (taskId : Id20) : appendTaskCapsule taskId = (do
    let (endMagicOff, datasize) ← appendChecks
    writeAll (appendWrites taskId endMagicOff (datasize + 20))) := by
  simp only [appendTaskCapsule, appendChecks, appendWrites, writeAll, bind_assoc, pure_bind,
    fseek_behind, bind_pure_unit]

/-! ### What the checks leave alone -/

section Checks

variable {P : Bytes → Prop}

theorem keeps_fseek (off : ℤ) : Keeps (fun s : Stream => P s.content) (fseek off) := by
  intro s h
  rw [fseek]
  split
  · exact h
  · exact h

theorem keeps_fread (k : ℕ) : Keeps (fun s : Stream => P s.content) (fread k) := by
  rintro ⟨c, p⟩ h
  rcases fread_cases k c p with hok | ⟨e, s', herr, hs'⟩
  · rw [hok]
    exact h
  · rw [herr]
    change P s'.content
    rwa [hs']

theorem keeps_check (q : Prop) [Decidable q] : Keeps (fun s : Stream => P s.content) (check q) :=
  keeps_of_after fun s => by
    rw [check]
    split
    · rfl
    · rfl

theorem keeps_readU32 : Keeps (fun s : Stream => P s.content) readU32 :=
  (keeps_fread 4).bind fun _ => keeps_pure _

theorem keeps_readU64 : Keeps (fun s : Stream => P s.content) readU64 :=
  (keeps_fread 8).bind fun _ => keeps_pure _

/-- The checks change nothing. -/
theorem keeps_appendChecks : Keeps (fun s : Stream => P s.content) appendChecks := by
  refine (keeps_fread 8).bind fun _ => (keeps_check _).bind fun _ => ?_
  refine keeps_readU64.bind fun _ => keeps_readU64.bind fun _ => ?_
  refine (keeps_fseek _).bind fun _ => keeps_readU32.bind fun _ => (keeps_check _).bind fun _ => ?_
  refine (keeps_fseek _).bind fun _ => (keeps_fread _).bind fun _ => ?_
  refine (keeps_check _).bind fun _ => (keeps_check _).bind fun _ => ?_
  refine (keeps_fseek _).bind fun _ => keeps_readU32.bind fun _ => ?_
  refine (keeps_fseek _).bind fun _ => (keeps_fread _).bind fun _ => ?_
  exact (keeps_check _).bind fun _ => keeps_pure _

/-- The checks return the size that the file announces, and a position behind the header. -/
theorem appendChecks_eq_ok {f : Bytes} {off : ℤ} {ds : UInt64} {s : Stream}
    (h : appendChecks ⟨f, 0⟩ = .ok (off, ds) s) :
    ds = getU64 (pread f 16 8) ∧ 2908 + longOfU64 ds ≤ off := by
  simp only [appendChecks, bind_eq_ok] at h
  obtain ⟨_, s₁, hmagic, _, s₂, hcheck, _, s₃, hmeta, size, s₄, hsize, _, _, -, _, _, -, _, _, -,
    _, _, -, _, _, -, _, _, -, _, _, -, _, _, -, ndim, _, -, _, _, -, _, _, -, _, _, -, hret⟩ := h
  obtain ⟨-, rfl⟩ := fread_eq_ok hmagic
  obtain rfl := check_eq_ok hcheck
  obtain rfl := readU64_eq_ok hmeta
  obtain ⟨bs, s', hread, hget⟩ := bind_eq_ok.mp hsize
  obtain ⟨rfl, -⟩ := fread_eq_ok hread
  cases hget
  cases hret
  refine ⟨rfl, ?_⟩
  omega

end Checks

/-! ### Torn records -/

/-- What is left of a capsule, `n` IDs at most, an append to which has stopped halfway. -/
structure Torn (n : ℕ) (x : Id20) (f : Bytes) : Prop where
  magic : pread f 0 8 = tpbRafBuildMagic .record .task .posStart
  size : (getU64 (pread f 16 8)).toNat ≤ 20 * n
  id : pread f 24 20 = x.toList

section Torn

variable {n : ℕ} {x : Id20} {f : Bytes}

theorem Torn.mono {m : ℕ} (h : Torn n x f) (hle : n ≤ m) : Torn m x f where
  magic := h.magic
  size := h.size.trans (Nat.mul_le_mul_left 20 hle)
  id := h.id

theorem Torn.length (h : Torn n x f) : 44 ≤ f.length := by
  have hlen := congrArg List.length h.id
  rw [pread, List.length_take, List.length_drop, x.toList_length] at hlen
  omega

/-- A write behind a block leaves the block alone. -/
theorem pread_pwrite_before {off k p : ℕ} (bs : Bytes) (hk : off + k ≤ f.length)
    (hp : off + k ≤ p) : pread (pwrite f p bs) off k = pread f off k := by
  have hsplit : pread (f.take p ++ f.drop p) off k = pread (f.take p) off k :=
    pread_append_left (by rw [List.length_take]; omega)
  rw [List.take_append_drop] at hsplit
  rw [hsplit, pwrite, List.append_assoc, List.append_assoc]
  exact pread_append_left (by rw [List.length_take]; omega)

/-- And so does a write in front of it. -/
theorem pread_pwrite_after {off k p : ℕ} {bs : Bytes} (hp : p + bs.length ≤ off)
    (hf : p + bs.length ≤ f.length) : pread (pwrite f p bs) off k = pread f off k := by
  have hlen : (f.take p ++ bs).length = p + bs.length := by
    rw [List.length_append, List.length_take]
    omega
  have hlen' : (f.take (p + bs.length)).length = p + bs.length := List.length_take_of_le hf
  have hsplit : pread (f.take (p + bs.length) ++ f.drop (p + bs.length)) off k =
      pread (f.drop (p + bs.length)) (off - (p + bs.length)) k := by
    rw [pread_append_right (hlen'.le.trans hp), hlen']
  rw [List.take_append_drop] at hsplit
  rw [hsplit, pwrite_of_le hf, ← List.append_assoc, pread_append_right (hlen.le.trans hp), hlen]

/-- A write behind the ID keeps what is known. -/
theorem Torn.pwrite_behind (h : Torn n x f) {p : ℕ} (hp : 44 ≤ p) (bs : Bytes) :
    Torn n x (pwrite f p bs) := by
  have hlen := h.length
  refine ⟨?_, ?_, ?_⟩
  · rw [pread_pwrite_before bs (by omega) (by omega)]
    exact h.magic
  · rw [pread_pwrite_before bs (by omega) (by omega)]
    exact h.size
  · rw [pread_pwrite_before bs (by omega) (by omega)]
    exact h.id

/-- A write of a size keeps it, if the size is not too large. -/
theorem Torn.pwrite_size (h : Torn n x f) {ds : UInt64} (hds : ds.toNat ≤ 20 * n) :
    Torn n x (pwrite f 16 (u64 ds)) := by
  have hlen := h.length
  refine ⟨?_, ?_, ?_⟩
  · rw [pread_pwrite_before _ (by omega) (by omega)]
    exact h.magic
  · have hread := pread_pwrite_self f (u64 ds) 16
    rw [length_u64] at hread
    rwa [hread, getU64_u64]
  · rw [pread_pwrite_after (by rw [length_u64]) (by rw [length_u64]; omega)]
    exact h.id

/-- Writes that each keep what is known of a file. -/
theorem keeps_writeAll {P : Bytes → Prop} {writes : List (ℤ × Bytes)}
    (h : ∀ w ∈ writes, ∀ f, P f → P (pwrite f w.1.toNat w.2)) :
    Keeps (fun s : Stream => P s.content) (writeAll writes) := by
  induction writes with
  | nil => exact keeps_pure ()
  | cons w writes ih =>
      have ih' := ih fun w' hw' => h w' (List.mem_cons_of_mem _ hw')
      intro s hs
      by_cases hneg : w.1 < 0
      · have hseek : fseek w.1 s = .error .fail s := if_pos hneg
        rw [writeAll, bind_error hseek]
        exact hs
      · have hseek : fseek w.1 s = .ok () ⟨s.content, w.1.toNat⟩ := if_neg hneg
        rw [writeAll, bind_ok hseek, bind_ok (fwrite_run _ _ _)]
        exact ih' _ (h w List.mem_cons_self _ hs)

/-- The writes of an append keep a record torn. -/
theorem keeps_torn_writes {off : ℤ} {ds : UInt64} (hoff : 44 ≤ off) (hds : ds.toNat ≤ 20 * n)
    (y : Id20) (k : ℕ) :
    Keeps (fun s : Stream => Torn n x s.content) (writeAll ((appendWrites y off ds).take k)) := by
  refine keeps_writeAll fun w hw f h => ?_
  have hmem := List.mem_of_mem_take hw
  simp only [appendWrites, List.mem_cons, List.not_mem_nil, or_false] at hmem
  rcases hmem with rfl | rfl | rfl | rfl | rfl
  · exact h.pwrite_behind (by simp only; omega) _
  · exact h.pwrite_behind (by simp only; omega) _
  · exact h.pwrite_size hds
  · exact h.pwrite_behind (show 44 ≤ 316 by decide) _
  · exact h.pwrite_behind (show 44 ≤ 2900 by decide) _

/-- A record that is torn before the checks is torn behind what follows them. -/
theorem Torn.checked (h : Torn n x f) (hn : 20 * (n + 1) < 2 ^ 63) {rest : ℤ × UInt64 → FileM Unit}
    (hrest : ∀ off ds, 44 ≤ off → (ds + 20).toNat ≤ 20 * (n + 1) →
      Keeps (fun s : Stream => Torn (n + 1) x s.content) (rest (off, ds))) :
    Torn (n + 1) x (after ((appendChecks >>= rest) ⟨f, 0⟩)).content := by
  have hmono := h.mono (Nat.le_succ n)
  have hsame := keeps_appendChecks (P := Torn (n + 1) x) ⟨f, 0⟩ hmono
  rcases hrun : appendChecks ⟨f, 0⟩ with ⟨⟨off, ds⟩, s⟩ | ⟨e, s⟩
  · rw [hrun] at hsame
    obtain ⟨rfl, hoff⟩ := appendChecks_eq_ok hrun
    set ds := getU64 (pread f 16 8) with hds
    have hsize : ds.toNat ≤ 20 * n := h.size
    have hlong : longOfU64 ds = ds.toNat := by
      have hof := longOfU64_ofNat (n := ds.toNat) (by omega)
      rwa [UInt64.ofNat_toNat] at hof
    have hsum : (ds + 20).toNat = ds.toNat + 20 := by
      rw [UInt64.toNat_add, show (20 : UInt64).toNat = 20 from rfl, Nat.mod_eq_of_lt (by omega)]
    rw [bind_ok hrun]
    exact hrest off ds (by omega) (by omega) s hsame
  · rw [hrun] at hsame
    rwa [bind_error hrun]

/-- **An append** keeps a record torn, whatever becomes of it, -/
theorem Torn.append (h : Torn n x f) (hn : 20 * (n + 1) < 2 ^ 63) (y : Id20) :
    Torn (n + 1) x (after (appendTaskCapsule y ⟨f, 0⟩)).content := by
  rw [appendTaskCapsule_eq]
  refine h.checked hn fun off ds hoff hds => ?_
  have hall : (appendWrites y off (ds + 20)).take 5 = appendWrites y off (ds + 20) := rfl
  have hkeep := keeps_torn_writes (x := x) hoff hds y 5
  rwa [hall] at hkeep

/-- and so does one that stops halfway. -/
theorem Torn.appendFails (h : Torn n x f) (hn : 20 * (n + 1) < 2 ^ 63) (k : ℕ) (y : Id20) :
    Torn (n + 1) x (after (appendTaskCapsuleFails k y ⟨f, 0⟩)).content :=
  h.checked hn fun _ _ hoff hds => (keeps_torn_writes hoff hds y k).bind fun _ => keeps_check _

/-- An append that fails before its first write changes nothing. -/
theorem appendFails_zero (y : Id20) (f : Bytes) :
    (after (appendTaskCapsuleFails 0 y ⟨f, 0⟩)).content = f := by
  have hkeep : Keeps (fun s : Stream => s.content = f) (appendTaskCapsuleFails 0 y) :=
    (keeps_appendChecks (P := (· = f))).bind fun _ => (keeps_pure ()).bind fun _ =>
      keeps_check (P := (· = f)) _
  exact hkeep _ rfl

/-- A derivation finds a torn record, and keeps it torn. -/
theorem Torn.derive (h : Torn n x f) (d : Id20) :
    ∃ s, patchTaskDeriveTo x d ⟨f, 0⟩ = .ok () s ∧ Torn n x s.content :=
  ⟨_, bind_then (fread_run h.magic rfl) (bind_then (check_run (tpbRafValidateMagic_self _ _ _) _)
    (bind_then (fseek_run rfl) (bind_then (fread_run h.id x.toList_length)
    (bind_then (check_run rfl _) (bind_then (fseek_run rfl) (fwrite_run _ _ _)))))),
    h.pwrite_behind (Nat.le_refl 44) _⟩

/-- The record of a capsule. -/
theorem Capsule.torn (c : Capsule) : Torn c.ids.length c.attr.taskRecordId c.record.bytes where
  magic := c.record.pread_magic
  size := by
    have hlt := c.ids_lt
    rw [c.bytes_eq, pread_layout_datasize, getU64_u64, toNat_ofNat_of_lt hlt]
  id := by
    have hlen : (taskFormat.encode c.attr).length = 284 := c.attr.length_encode
    have hid : pread c.record.bytes (24 + 0) 20 = pread c.attr.encode 0 20 := by
      rw [c.bytes_eq, pread_layout_attr (by rw [hlen]; decide)]
      rfl
    exact hid.trans c.attr.pread_taskRecordId

end Torn

end TPBench
