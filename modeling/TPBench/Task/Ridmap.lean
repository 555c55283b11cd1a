import Mathlib.Data.List.DropRight
import Mathlib.Tactic.IntervalCases
import TPBench.CFile.Lines
import TPBench.Task.ExportData

/-!
# The RIDMAP

`task ls` numbers the rows it shows, and keeps their task IDs in a text file, one ID in
hexadecimal digits on each line, so that later commands can name a row by its number. The file
is replaced as a whole: the new text goes to a temporary file, which is renamed at the end
(`tpbcliTaskRidmapWriteAtomic`). Every system call on the way can fail (`RidmapSys`), and then
the RIDMAP is as it was (`ridmapWrite_eq_error`).

The reader (`tpbcliTaskRidmapRead`) accepts blank lines and comments, and digits of either
case. It doubles the capacity of its array as an `int`, so that it reads back what was written
as long as there are at most 2³⁰ IDs (`ridmapRead_ridmapText`).
-/

open CFile

namespace TPBench

/-! ### IDs in hexadecimal digits -/

/-- `_sf_hex_nibble`. -/
def sfHexNibble (b : UInt8) : Option ℕ :=
  if 48 ≤ b ∧ b ≤ 57 then some (b.toNat - 48)
  else if 97 ≤ b ∧ b ≤ 102 then some (b.toNat - 97 + 10)
  else if 65 ≤ b ∧ b ≤ 70 then some (b.toNat - 65 + 10)
  else none

/-- The bytes that pairs of digits stand for. -/
def hexPairs : Bytes → Option Bytes
  | hi :: lo :: rest => do
      let h ← sfHexNibble hi
      let l ← sfHexNibble lo
      let bs ← hexPairs rest
      return UInt8.ofNat (16 * h + l) :: bs
  | _ => some []

/-- `tpb_raf_hex_to_id` on a string. -/
def tpbRafHexToId (hex : Bytes) : Except Err Id20 :=
  if hex.length < 40 ∨ (hex.take 40).any (!isxdigit ·) then .error (.code .rafL1 .cliFail)
  else if hex.length ≠ 40 then .error (.code .rafL1 .cliFail)
  else match hexPairs hex with
    | some bs => .ok (toArr 20 bs)
    | none => .error (.code .rafL1 .cliFail)

/-! ### Writing -/

/-- `PATH_MAX`. -/
def pathMax : ℕ := 4096

/-- What the system answers to the calls that write the RIDMAP, and the ID of the process.
`mkdir` is false when the directory is not there and cannot be made; `fprintf i` is the answer
to the line of ID `i`. -/
structure RidmapSys where
  pid : ℤ
  mkdir : Bool
  openTemp : Bool
  fdopen : Bool
  fprintf : ℕ → Bool
  fflush : Bool
  fsync : Bool
  fclose : Bool
  rename : Bool
  unlink : Bool

/-- The RIDMAP and the temporary file next to it. -/
structure RidmapFiles where
  ridmap : Option Bytes
  temp : Option Bytes

/-- Programs over the two files. -/
abbrev RidmapM := EStateM Err RidmapFiles

/-- The directory of the RIDMAP in the workspace. -/
def tmpDir : Bytes := ascii "/.tmp".toList

/-- `TPBCLI_TASK_RIDMAP_NAME`, in its directory. -/
def ridmapName : Bytes :=
  ascii "/tpb_rt_local_ridmap".toList

/-- `tpbcli_task_ridmap_path`. -/
def tpbcliTaskRidmapPath (workspace : Bytes) : Except Err Bytes :=
  let out := workspace ++ tmpDir ++ ridmapName
  if out.length ≥ pathMax then .error (.code .cliMisc .cliFail) else .ok out

/-- `_sf_ensure_tmp_dir`. -/
def sfEnsureTmpDir (sys : RidmapSys) (workspace : Bytes) : Except Err Unit :=
  if (workspace ++ tmpDir).length ≥ pathMax then
    .error (.code .cliMisc .cliFail)
  else if !sys.mkdir then .error (.code .cliMisc .fileIoFail)
  else .ok ()

/-- `unlink` of the temporary file, and the failure that follows it. -/
def dropTemp (sys : RidmapSys) : RidmapM Unit := fun s =>
  .error (.code .cliMisc .fileIoFail) { s with temp := if sys.unlink then none else s.temp }

/-- A call on the temporary file that has no other effect. -/
def orDropTemp (sys : RidmapSys) (answer : Bool) : RidmapM Unit :=
  if answer then pure () else dropTemp sys

/-- The line of an ID. -/
def ridmapLine (id : Id20) : Bytes := hexBytes id.toList ++ [newline]

/-- The text of a list of IDs. -/
def ridmapText (ids : List Id20) : Bytes := ids.flatMap ridmapLine

/-- `fprintf` of one line. -/
def printLine (sys : RidmapSys) (i : ℕ) (id : Id20) : RidmapM Unit := fun s =>
  if sys.fprintf i then .ok () { s with temp := some (s.temp.getD [] ++ ridmapLine id) }
  else dropTemp sys s

/-- The loop over the IDs, from ID `i` on. -/
def printLines (sys : RidmapSys) : ℕ → List Id20 → RidmapM Unit
  | _, [] => pure ()
  | i, id :: ids => do
      printLine sys i id
      printLines sys (i + 1) ids

/-- `open` with `O_CREAT | O_TRUNC` of the temporary file. -/
def openTemp (sys : RidmapSys) : RidmapM Unit := fun s =>
  if sys.openTemp then .ok () { s with temp := some [] }
  else .error (.code .cliMisc .fileIoFail) s

/-- `rename` of the temporary file. -/
def renameTemp (sys : RidmapSys) : RidmapM Unit := fun s =>
  if sys.rename then .ok () ⟨s.temp, none⟩ else dropTemp sys s

/-- The result of a function that does not touch the state. -/
def liftResult {σ α : Type} (r : Except Err α) : EStateM Err σ α := fun s =>
  match r with
  | .ok a => .ok a s
  | .error e => .error (e.propagated .cliMisc) s

/-- The name of the temporary file has room. -/
def tempPath (sys : RidmapSys) (path : Bytes) : Except Err Bytes :=
  let out := path ++ ascii ".tmp.".toList ++ formatInt sys.pid
  if out.length ≥ pathMax then .error (.code .cliMisc .cliFail) else .ok out

/-- `tpbcli_task_ridmap_write_atomic`. -/
def tpbcliTaskRidmapWriteAtomic (sys : RidmapSys) (workspace : Bytes) (ids : List Id20) :
    RidmapM Unit :=
  if ids.isEmpty then pure ()
  else do
    liftResult (sfEnsureTmpDir sys workspace)
    let path ← liftResult (tpbcliTaskRidmapPath workspace)
    let _ ← liftResult (tempPath sys path)
    openTemp sys
    orDropTemp sys sys.fdopen
    printLines sys 0 ids
    orDropTemp sys (sys.fflush && sys.fsync)
    orDropTemp sys sys.fclose
    renameTemp sys

/-! ### Reading -/

/-- A line of the RIDMAP: an ID, or nothing when it is blank or a comment. -/
def parseRidmapLine (line : Bytes) : Except Err (Option Id20) :=
  let p := (cstr line).dropWhile isBlank
  match p with
  | [] => .ok none
  | b :: _ =>
      if b = newline ∨ b = 35 then .ok none
      else
        let p := p.rdropWhile fun b => b = newline ∨ b = 13 ∨ b = 32 ∨ b = 9
        if p.length ≠ 40 then .error (.code .cliMisc .cliFail)
        else match tpbRafHexToId p with
          | .ok id => .ok (some id)
          | .error _ => .error (.code .cliMisc .cliFail)

/-- The capacity after the array of `cap` IDs has grown. The product is an `int`. -/
def grownCap (cap : ℕ) : Except Err ℕ :=
  let ncap := if cap = 0 then 16 else cap * 2
  if ncap > intMax then .error .undefined
  else if ncap < cap then .error (.code .cliMisc .mallocFail)
  else .ok ncap

/-- The loop of `tpbcli_task_ridmap_read`: `ids` is the array, with room for `cap` IDs. -/
def readLines : List Bytes → ℕ → List Id20 → Except Err (List Id20)
  | [], _, ids => .ok ids
  | line :: lines, cap, ids =>
      match parseRidmapLine line with
      | .error e => .error e
      | .ok none => readLines lines cap ids
      | .ok (some id) =>
          if ids.length = cap then
            match grownCap cap with
            | .error e => .error e
            | .ok ncap => readLines lines ncap (ids ++ [id])
          else readLines lines cap (ids ++ [id])

/-- `tpbcli_task_ridmap_read`. A missing file is an empty map. -/
def tpbcliTaskRidmapRead (workspace : Bytes) (files : RidmapFiles) : Except Err (List Id20) :=
  match tpbcliTaskRidmapPath workspace with
  | .error e => .error (e.propagated .cliMisc)
  | .ok _ =>
      match files.ridmap with
      | none => .ok []
      | some text => readLines (fgetsLines 127 text) 0 []

/-! ### The text is read back -/

/-- A digit is read as its value. -/
theorem sfHexNibble_hexLower {n : ℕ} (hn : n < 16) : sfHexNibble (hexLower n) = some n := by
  interval_cases n <;> rfl

/-- A digit is one, and it is none of the characters the reader looks for. -/
theorem hexLower_class {n : ℕ} (hn : n < 16) :
    isxdigit (hexLower n) = true ∧ hexLower n ≠ 0 ∧ hexLower n ≠ newline ∧ hexLower n ≠ 35 ∧
      hexLower n ≠ 13 ∧ isBlank (hexLower n) = false := by
  interval_cases n <;> decide

/-- The digits of bytes are read back. -/
theorem hexPairs_hexBytes (bs : Bytes) : hexPairs (hexBytes bs) = some bs := by
  induction bs with
  | nil => rfl
  | cons b bs ih =>
      have hb := b.toNat_lt
      have hsplit : UInt8.ofNat (16 * (b.toNat / 16) + b.toNat % 16) = b := by
        rw [Nat.div_add_mod, UInt8.ofNat_toNat]
      rw [hexBytes, List.flatMap_cons, ← hexBytes]
      simp only [List.cons_append, List.nil_append, hexPairs]
      rw [sfHexNibble_hexLower (by omega), sfHexNibble_hexLower (by omega), ih]
      exact congrArg (fun x => some (x :: bs)) hsplit

theorem length_hexBytes (bs : Bytes) : (hexBytes bs).length = 2 * bs.length := by
  induction bs with
  | nil => rfl
  | cons b bs ih =>
      rw [hexBytes, List.flatMap_cons, ← hexBytes, List.length_append, ih]
      simp only [List.length_cons, List.length_nil]
      omega

/-- An ID has forty digits. -/
theorem length_hexBytes_id (id : Id20) : (hexBytes id.toList).length = 40 := by
  rw [length_hexBytes, id.toList_length]

/-- Every character of a printed byte string is a digit. -/
theorem exists_of_mem_hexBytes {bs : Bytes} {c : UInt8} (h : c ∈ hexBytes bs) :
    ∃ n < 16, c = hexLower n := by
  obtain ⟨b, -, hc⟩ := List.mem_flatMap.mp h
  have hb := b.toNat_lt
  simp only [List.mem_cons, List.not_mem_nil, or_false] at hc
  rcases hc with rfl | rfl
  · exact ⟨_, by omega, rfl⟩
  · exact ⟨_, by omega, rfl⟩

/-- A printed ID is read back. -/
theorem tpbRafHexToId_hexBytes (id : Id20) : tpbRafHexToId (hexBytes id.toList) = .ok id := by
  have hlen := length_hexBytes_id id
  have hdigits : ((hexBytes id.toList).take 40).any (!isxdigit ·) = false := by
    rw [List.take_of_length_le hlen.le, List.any_eq_false]
    intro c hc
    obtain ⟨n, hn, rfl⟩ := exists_of_mem_hexBytes hc
    simp [(hexLower_class hn).1]
  simp [tpbRafHexToId, hlen, hdigits, hexPairs_hexBytes]

/-- The line of an ID is read as the ID. -/
theorem parseRidmapLine_ridmapLine (id : Id20) :
    parseRidmapLine (ridmapLine id) = .ok (some id) := by
  have hclass : ∀ c ∈ hexBytes id.toList, c ≠ 0 ∧ c ≠ newline ∧ c ≠ 35 ∧ c ≠ 13 ∧
      isBlank c = false := by
    intro c hc
    obtain ⟨n, hn, rfl⟩ := exists_of_mem_hexBytes hc
    exact (hexLower_class hn).2
  have hlen := length_hexBytes_id id
  have hcstr : cstr (ridmapLine id) = ridmapLine id := by
    refine cstr_of_not_mem fun h => ?_
    rcases List.mem_append.mp h with h | h
    · exact (hclass 0 h).1 rfl
    · simp [newline] at h
  have hstrip : (ridmapLine id).rdropWhile (fun b => b = newline ∨ b = 13 ∨ b = 32 ∨ b = 9) =
      hexBytes id.toList := by
    rw [ridmapLine, List.rdropWhile_concat_pos _ _ _ (by simp), List.rdropWhile_eq_self_iff]
    intro hne
    obtain ⟨-, hnl, -, hcr, hblank⟩ := hclass _ (List.getLast_mem hne)
    simp only [isBlank, Bool.decide_or, Bool.or_eq_false_iff, decide_eq_false_iff_not] at hblank
    simp [hnl, hcr, hblank]
  obtain ⟨b, bs, hcons⟩ := List.exists_cons_of_length_eq_add_one hlen
  have hline : ridmapLine id = b :: (bs ++ [newline]) := by
    rw [ridmapLine, hcons, List.cons_append]
  obtain ⟨-, hnl, hhash, -, hblank⟩ := hclass b (by simp [hcons])
  have hdrop : (ridmapLine id).dropWhile isBlank = ridmapLine id := by
    rw [hline, List.dropWhile_cons_of_neg (by simp [hblank])]
  rw [parseRidmapLine, hcstr, hdrop]
  simp only
  rw [hstrip, hline]
  simp [hnl, hhash, hlen, tpbRafHexToId_hexBytes]

/-- The array of the reader has room for its IDs, and its capacity came from doubling. -/
def CapOf (cap : ℕ) (ids : List Id20) : Prop :=
  ids.length ≤ cap ∧ (cap = 0 ∨ ∃ k ≤ 26, cap = 16 * 2 ^ k)

/-- The array has room for 2³⁰ IDs at most. -/
theorem CapOf.cap_le {cap : ℕ} {ids : List Id20} (h : CapOf cap ids) : cap ≤ 2 ^ 30 := by
  rcases h.2 with rfl | ⟨k, hk, rfl⟩
  · exact Nat.zero_le _
  · calc 16 * 2 ^ k ≤ 16 * 2 ^ 26 := by
          gcongr
          omega
      _ = 2 ^ 30 := by norm_num

theorem CapOf.length_le {cap : ℕ} {ids : List Id20} (h : CapOf cap ids) : ids.length ≤ 2 ^ 30 :=
  h.1.trans h.cap_le

/-- As long as there are fewer than 2³⁰ IDs, there is room for one more or the array can
grow. -/
theorem grownCap_eq_ok {cap : ℕ} {ids : List Id20} (h : CapOf cap ids)
    (hfull : ids.length = cap) (hlen : ids.length < 2 ^ 30) (id : Id20) :
    ∃ ncap, grownCap cap = .ok ncap ∧ CapOf ncap (ids ++ [id]) := by
  rcases h.2 with rfl | ⟨k, hk, rfl⟩
  · exact ⟨16, rfl, by simp [hfull], .inr ⟨0, by omega, rfl⟩⟩
  · have hk26 : k < 26 := by
      rw [hfull] at hlen
      by_contra hge
      obtain rfl : k = 26 := by omega
      norm_num at hlen
    have hgrow : 16 * 2 ^ k * 2 = 16 * 2 ^ (k + 1) := by ring
    have hmax : 16 * 2 ^ (k + 1) ≤ 2 ^ 30 := by
      calc 16 * 2 ^ (k + 1) ≤ 16 * 2 ^ 26 := by
            gcongr
            · omega
            · omega
        _ = 2 ^ 30 := by norm_num
    have hpos : 0 < 2 ^ k := by positivity
    refine ⟨16 * 2 ^ (k + 1), ?_, ?_, .inr ⟨k + 1, by omega, rfl⟩⟩
    · rw [grownCap, if_neg (by omega : ¬ 16 * 2 ^ k = 0), hgrow]
      rw [if_neg (by rw [intMax]; omega), if_neg (by rw [← hgrow]; omega)]
    · rw [List.length_append, List.length_singleton, hfull, ← hgrow]
      omega

/-- A full array of 2³⁰ IDs cannot grow. -/
theorem grownCap_eq_undefined : grownCap (2 ^ 30) = .error .undefined := by
  decide

/-- One more line. -/
theorem readLines_cons (id : Id20) (lines : List Bytes) {cap : ℕ} {ids : List Id20}
    (h : CapOf cap ids) (hlen : ids.length < 2 ^ 30) :
    ∃ ncap, CapOf ncap (ids ++ [id]) ∧
      readLines (ridmapLine id :: lines) cap ids = readLines lines ncap (ids ++ [id]) := by
  rw [readLines, parseRidmapLine_ridmapLine]
  simp only
  by_cases hfull : ids.length = cap
  · obtain ⟨ncap, hgrow, hcap⟩ := grownCap_eq_ok h hfull hlen id
    refine ⟨ncap, hcap, ?_⟩
    rw [if_pos hfull, hgrow]
  · refine ⟨cap, ⟨?_, h.2⟩, ?_⟩
    · have := h.1
      rw [List.length_append, List.length_singleton]
      omega
    · rw [if_neg hfull]

/-- The reader returns the IDs of the text when there are at most 2³⁰ of them. -/
theorem readLines_eq_ok {ids' ids : List Id20} {cap : ℕ} (h : CapOf cap ids')
    (hlen : ids'.length + ids.length ≤ 2 ^ 30) :
    readLines (ids.map ridmapLine) cap ids' = .ok (ids' ++ ids) := by
  induction ids generalizing ids' cap with
  | nil => simp [readLines]
  | cons id ids ih =>
      rw [List.length_cons] at hlen
      obtain ⟨ncap, hcap, hread⟩ := readLines_cons id (ids.map ridmapLine) h (by omega)
      rw [List.map_cons, hread, ih hcap]
      · simp
      · rw [List.length_append, List.length_singleton]
        omega

/-- The reader fails on a text of more IDs. -/
theorem readLines_ne_ok {ids' ids : List Id20} {cap : ℕ} (h : CapOf cap ids')
    (hlen' : ids'.length ≤ 2 ^ 30) (hlen : 2 ^ 30 < ids'.length + ids.length)
    (res : List Id20) : readLines (ids.map ridmapLine) cap ids' ≠ .ok res := by
  induction ids generalizing ids' cap with
  | nil =>
      rw [List.length_nil] at hlen
      omega
  | cons id ids ih =>
      rw [List.length_cons] at hlen
      by_cases hfull : ids'.length = 2 ^ 30
      · have hcap : ids'.length = cap := le_antisymm h.1 (hfull ▸ h.cap_le)
        rw [List.map_cons, readLines, parseRidmapLine_ridmapLine]
        simp only
        rw [if_pos hcap, ← hcap, hfull, grownCap_eq_undefined]
        simp
      · obtain ⟨ncap, hcap, hread⟩ := readLines_cons id (ids.map ridmapLine) h (by omega)
        rw [List.map_cons, hread]
        refine ih hcap ?_ ?_
        · rw [List.length_append, List.length_singleton]
          omega
        · rw [List.length_append, List.length_singleton]
          omega

/-- The reader returns no more than 2³⁰ IDs. -/
theorem length_le_of_readLines {lines : List Bytes} {ids res : List Id20} {cap : ℕ}
    (h : CapOf cap ids) (hread : readLines lines cap ids = .ok res) : res.length ≤ 2 ^ 30 := by
  induction lines generalizing ids cap with
  | nil =>
      obtain rfl := Except.ok.inj hread
      exact h.length_le
  | cons line lines ih =>
      rw [readLines] at hread
      split at hread
      · cases hread
      · exact ih h hread
      · rename_i id hline
        split_ifs at hread with hfull
        · split at hread
          · cases hread
          · rename_i ncap hgrow
            have hlen : ids.length ≠ 2 ^ 30 := by
              intro hlen
              rw [← hfull, hlen, grownCap_eq_undefined] at hgrow
              cases hgrow
            obtain ⟨ncap', hgrow', hcap⟩ :=
              grownCap_eq_ok h hfull (lt_of_le_of_ne h.length_le hlen) id
            rw [hgrow] at hgrow'
            obtain rfl := Except.ok.inj hgrow'
            exact ih hcap hread
        · have hroom : (ids ++ [id]).length ≤ cap := by
            have := h.1
            rw [List.length_append, List.length_singleton]
            omega
          exact ih ⟨hroom, h.2⟩ hread

/-- A RIDMAP has no more than 2³⁰ IDs. -/
theorem length_le_of_ridmapRead {workspace : Bytes} {files : RidmapFiles} {ids : List Id20}
    (h : tpbcliTaskRidmapRead workspace files = .ok ids) : ids.length ≤ 2 ^ 30 := by
  rw [tpbcliTaskRidmapRead] at h
  split at h
  · cases h
  · split at h
    · obtain rfl := Except.ok.inj h
      simp
    · have hstart : CapOf 0 [] := ⟨le_rfl, .inl rfl⟩
      exact length_le_of_readLines hstart h

/-- The lines of the text are the lines of the IDs. -/
theorem fgetsLines_ridmapText (ids : List Id20) :
    fgetsLines 127 (ridmapText ids) = ids.map ridmapLine := by
  refine fgetsLines_flatMap (fun id : Id20 => hexBytes id.toList) ids fun id _ => ⟨?_, ?_⟩
  · intro h
    obtain ⟨n, hn, hc⟩ := exists_of_mem_hexBytes h
    exact (hexLower_class hn).2.2.1 hc.symm
  · rw [length_hexBytes_id]
    omega

/-- **The text that was written is read back** exactly when it has at most 2³⁰ lines. -/
theorem ridmapRead_ridmapText {workspace path : Bytes} {files : RidmapFiles} {ids : List Id20}
    (hpath : tpbcliTaskRidmapPath workspace = .ok path)
    (hfile : files.ridmap = some (ridmapText ids)) :
    tpbcliTaskRidmapRead workspace files = .ok ids ↔ ids.length ≤ 2 ^ 30 := by
  have hstart : CapOf 0 ([] : List Id20) := ⟨le_rfl, .inl rfl⟩
  simp only [tpbcliTaskRidmapRead, hpath, hfile, fgetsLines_ridmapText]
  constructor
  · intro hread
    by_contra hlong
    exact readLines_ne_ok hstart (by simp) (by simpa using hlong) _ hread
  · intro hlen
    exact readLines_eq_ok hstart (by simpa using hlen)

/-! ### What the writer does -/

/-- A program that leaves the RIDMAP alone when it fails. -/
def FailsClean {α : Type} (m : RidmapM α) : Prop :=
  ∀ s e s', m s = .error e s' → s'.ridmap = s.ridmap

/-- A program that leaves the RIDMAP alone. -/
def KeepsRidmap {α : Type} (m : RidmapM α) : Prop :=
  FailsClean m ∧ ∀ s a s', m s = .ok a s' → s'.ridmap = s.ridmap

theorem FailsClean.bind {α β : Type} {m : RidmapM α} {f : α → RidmapM β} (hm : KeepsRidmap m)
    (hf : ∀ a, FailsClean (f a)) : FailsClean (m >>= f) := by
  intro s e s' h
  rcases hrun : m s with ⟨a, s₁⟩ | ⟨e₁, s₁⟩
  · rw [bind_ok hrun] at h
    rw [hf a s₁ e s' h, hm.2 s a s₁ hrun]
  · rw [bind_error hrun] at h
    cases h
    exact hm.1 s e s' hrun

theorem KeepsRidmap.bind {α β : Type} {m : RidmapM α} {f : α → RidmapM β} (hm : KeepsRidmap m)
    (hf : ∀ a, KeepsRidmap (f a)) : KeepsRidmap (m >>= f) := by
  refine ⟨.bind hm fun a => (hf a).1, ?_⟩
  intro s b s' h
  obtain ⟨a, s₁, hrun, hrest⟩ := bind_eq_ok.mp h
  rw [(hf a).2 s₁ b s' hrest, hm.2 s a s₁ hrun]

theorem keepsRidmap_pure {α : Type} (a : α) : KeepsRidmap (pure a : RidmapM α) := by
  constructor
  · intro s e s' h
    cases h
  · intro s b s' h
    cases h
    rfl

theorem keepsRidmap_liftResult {α : Type} (r : Except Err α) :
    KeepsRidmap (liftResult r : RidmapM α) := by
  constructor
  · intro s e s' h
    cases r with
    | ok a => cases h
    | error e => cases h; rfl
  · intro s a s' h
    cases r with
    | ok a => cases h; rfl
    | error e => cases h

theorem keepsRidmap_dropTemp (sys : RidmapSys) : KeepsRidmap (dropTemp sys) := by
  constructor
  · intro s e s' h
    cases h
    rfl
  · intro s a s' h
    cases h

theorem keepsRidmap_orDropTemp (sys : RidmapSys) (answer : Bool) :
    KeepsRidmap (orDropTemp sys answer) := by
  cases answer with
  | true => exact keepsRidmap_pure ()
  | false => exact keepsRidmap_dropTemp sys

theorem keepsRidmap_openTemp (sys : RidmapSys) : KeepsRidmap (openTemp sys) := by
  constructor
  · intro s e s' h
    rw [openTemp] at h
    split at h
    · cases h
    · cases h
      rfl
  · intro s a s' h
    rw [openTemp] at h
    split at h
    · cases h
      rfl
    · cases h

theorem keepsRidmap_printLine (sys : RidmapSys) (i : ℕ) (id : Id20) :
    KeepsRidmap (printLine sys i id) := by
  constructor
  · intro s e s' h
    rw [printLine] at h
    split at h
    · cases h
    · exact (keepsRidmap_dropTemp sys).1 s e s' h
  · intro s a s' h
    rw [printLine] at h
    split at h
    · cases h
      rfl
    · exact (keepsRidmap_dropTemp sys).2 s a s' h

theorem keepsRidmap_printLines (sys : RidmapSys) (i : ℕ) (ids : List Id20) :
    KeepsRidmap (printLines sys i ids) := by
  induction ids generalizing i with
  | nil => exact keepsRidmap_pure ()
  | cons id ids ih => exact (keepsRidmap_printLine sys i id).bind fun _ => ih (i + 1)

theorem failsClean_renameTemp (sys : RidmapSys) : FailsClean (renameTemp sys) := by
  intro s e s' h
  rw [renameTemp] at h
  split at h
  · cases h
  · exact (keepsRidmap_dropTemp sys).1 s e s' h

/-- A write that fails leaves the RIDMAP as it was. -/
theorem ridmapWrite_eq_error {sys : RidmapSys} {workspace : Bytes} {ids : List Id20}
    {s s' : RidmapFiles} {e : Err}
    (h : tpbcliTaskRidmapWriteAtomic sys workspace ids s = .error e s') :
    s'.ridmap = s.ridmap := by
  rw [tpbcliTaskRidmapWriteAtomic] at h
  split at h
  · cases h
  · refine FailsClean.bind (keepsRidmap_liftResult _) (fun _ => ?_) s e s' h
    refine FailsClean.bind (keepsRidmap_liftResult _) fun path => ?_
    refine FailsClean.bind (keepsRidmap_liftResult _) fun _ => ?_
    refine FailsClean.bind (keepsRidmap_openTemp sys) fun _ => ?_
    refine FailsClean.bind (keepsRidmap_orDropTemp sys _) fun _ => ?_
    refine FailsClean.bind (keepsRidmap_printLines sys 0 ids) fun _ => ?_
    refine FailsClean.bind (keepsRidmap_orDropTemp sys _) fun _ => ?_
    refine FailsClean.bind (keepsRidmap_orDropTemp sys _) fun _ => ?_
    exact failsClean_renameTemp sys

theorem orDropTemp_eq_ok {sys : RidmapSys} {answer : Bool} {s s' : RidmapFiles}
    (h : orDropTemp sys answer s = .ok () s') : s' = s := by
  cases answer with
  | true => cases h; rfl
  | false => cases h

/-- The loop appends the lines of the IDs to the temporary file. -/
theorem printLines_eq_ok {sys : RidmapSys} {i : ℕ} {ids : List Id20} {s s' : RidmapFiles}
    {text : Bytes} (h : printLines sys i ids s = .ok () s') (htemp : s.temp = some text) :
    s'.temp = some (text ++ ridmapText ids) := by
  induction ids generalizing i s text with
  | nil =>
      cases h
      simpa [ridmapText] using htemp
  | cons id ids ih =>
      obtain ⟨u, s₁, hline, hrest⟩ := bind_eq_ok.mp h
      rw [printLine] at hline
      split at hline
      · cases hline
        rw [ih hrest (by rw [htemp])]
        simp [ridmapText]
      · cases hline

/-- The system lets `n` lines be written, and the names of the files have room. -/
structure RidmapSys.Answers (sys : RidmapSys) (workspace : Bytes) (n : ℕ) : Prop where
  mkdir : sys.mkdir = true
  openTemp : sys.openTemp = true
  fdopen : sys.fdopen = true
  fprintf : ∀ i < n, sys.fprintf i = true
  fflush : sys.fflush = true
  fsync : sys.fsync = true
  fclose : sys.fclose = true
  rename : sys.rename = true
  room : (workspace ++ tmpDir ++ ridmapName ++ ascii ".tmp.".toList ++
    formatInt sys.pid).length < pathMax

/-- The loop succeeds exactly when every line can be printed. -/
theorem printLines_ok_iff {sys : RidmapSys} {i : ℕ} {ids : List Id20} {s : RidmapFiles} :
    (∃ s', printLines sys i ids s = .ok () s') ↔
      ∀ j < ids.length, sys.fprintf (i + j) = true := by
  induction ids generalizing i s with
  | nil => exact ⟨fun _ j hj => absurd hj (by simp), fun _ => ⟨s, rfl⟩⟩
  | cons id ids ih =>
      by_cases hfirst : sys.fprintf i = true
      · have hline : printLine sys i id s = .ok () _ := if_pos hfirst
        rw [printLines, bind_ok hline, ih]
        constructor
        · intro h j hj
          cases j with
          | zero => exact hfirst
          | succ j =>
              rw [List.length_cons] at hj
              have := h j (by omega)
              rwa [Nat.add_right_comm] at this
        · intro h j hj
          have := h (j + 1) (by rw [List.length_cons]; omega)
          rwa [← Nat.add_assoc, Nat.add_right_comm] at this
      · constructor
        · rintro ⟨s', h⟩
          obtain ⟨u, s₁, hline, -⟩ := bind_eq_ok.mp h
          rw [printLine, if_neg hfirst] at hline
          cases hline
        · intro h
          exact absurd (h 0 (by simp)) hfirst

theorem liftResult_eq_ok {σ α : Type} {r : Except Err α} {a : α} {s s' : σ} :
    liftResult r s = .ok a s' ↔ r = .ok a ∧ s' = s := by
  constructor
  · intro h
    cases r with
    | ok b => cases h; exact ⟨rfl, rfl⟩
    | error e => cases h
  · rintro ⟨rfl, rfl⟩
    rfl

/-- The calls of a write that succeeds. -/
theorem ridmapWrite_calls {sys : RidmapSys} {workspace : Bytes} {ids : List Id20}
    {s s' : RidmapFiles} (hids : ids ≠ [])
    (h : tpbcliTaskRidmapWriteAtomic sys workspace ids s = .ok () s') :
    ∃ path temp s₁ s₂, sfEnsureTmpDir sys workspace = .ok () ∧
      tpbcliTaskRidmapPath workspace = .ok path ∧ tempPath sys path = .ok temp ∧
      openTemp sys s = .ok () s₁ ∧ orDropTemp sys sys.fdopen s₁ = .ok () s₁ ∧
      printLines sys 0 ids s₁ = .ok () s₂ ∧
      orDropTemp sys (sys.fflush && sys.fsync) s₂ = .ok () s₂ ∧
      orDropTemp sys sys.fclose s₂ = .ok () s₂ ∧ renameTemp sys s₂ = .ok () s' := by
  rw [tpbcliTaskRidmapWriteAtomic, if_neg (by simpa using hids)] at h
  obtain ⟨u₁, t₁, hdir', h⟩ := bind_eq_ok.mp h
  obtain ⟨path, t₂, hpath', h⟩ := bind_eq_ok.mp h
  obtain ⟨temp, t₃, htemp', h⟩ := bind_eq_ok.mp h
  obtain ⟨u₄, s₁, hopen, h⟩ := bind_eq_ok.mp h
  obtain ⟨u₅, t₅, hfdopen, h⟩ := bind_eq_ok.mp h
  obtain ⟨u₆, s₂, hprint, h⟩ := bind_eq_ok.mp h
  obtain ⟨u₇, t₇, hflush, h⟩ := bind_eq_ok.mp h
  obtain ⟨u₈, t₈, hclose, hrename⟩ := bind_eq_ok.mp h
  obtain ⟨hdir, rfl⟩ := liftResult_eq_ok.mp hdir'
  obtain ⟨hpath, rfl⟩ := liftResult_eq_ok.mp hpath'
  obtain ⟨htemp, rfl⟩ := liftResult_eq_ok.mp htemp'
  obtain rfl := orDropTemp_eq_ok hfdopen
  obtain rfl := orDropTemp_eq_ok hflush
  obtain rfl := orDropTemp_eq_ok hclose
  exact ⟨path, temp, _, _, hdir, hpath, htemp, hopen, hfdopen, hprint, hflush, hclose, hrename⟩

/-- A write that succeeds replaces the RIDMAP. -/
theorem ridmapWrite_eq_ok {sys : RidmapSys} {workspace : Bytes} {ids : List Id20}
    {s s' : RidmapFiles} (hids : ids ≠ [])
    (h : tpbcliTaskRidmapWriteAtomic sys workspace ids s = .ok () s') :
    s'.ridmap = some (ridmapText ids) := by
  obtain ⟨path, temp, s₁, s₂, -, -, -, hopen, -, hprint, -, -, hrename⟩ :=
    ridmapWrite_calls hids h
  have hempty : s₁.temp = some [] := by
    rw [openTemp] at hopen
    split at hopen
    · cases hopen
      rfl
    · cases hopen
  have htext := printLines_eq_ok hprint hempty
  rw [renameTemp] at hrename
  split at hrename
  · cases hrename
    exact htext
  · cases hrename

theorem answer_of_orDropTemp {sys : RidmapSys} {answer : Bool} {s s' : RidmapFiles}
    (h : orDropTemp sys answer s = .ok () s') : answer = true := by
  cases answer with
  | true => rfl
  | false => cases h

/-- The write succeeds exactly when the system lets it. -/
theorem ridmapWrite_ok_iff {sys : RidmapSys} {workspace : Bytes} {ids : List Id20}
    {s : RidmapFiles} (hids : ids ≠ []) :
    (∃ s', tpbcliTaskRidmapWriteAtomic sys workspace ids s = .ok () s') ↔
      sys.Answers workspace ids.length := by
  constructor
  · rintro ⟨s', h⟩
    obtain ⟨path, temp, s₁, s₂, hdir, hpath, htemp, hopen, hfdopen, hprint, hflush, hclose,
      hrename⟩ := ridmapWrite_calls hids h
    have hlines := printLines_ok_iff.mp ⟨s₂, hprint⟩
    have hsync := answer_of_orDropTemp hflush
    rw [Bool.and_eq_true] at hsync
    obtain rfl : workspace ++ tmpDir ++ ridmapName = path := by
      rw [tpbcliTaskRidmapPath] at hpath
      split at hpath
      · cases hpath
      · exact Except.ok.inj hpath
    refine ⟨?_, ?_, answer_of_orDropTemp hfdopen, by simpa using hlines, hsync.1, hsync.2,
      answer_of_orDropTemp hclose, ?_, ?_⟩
    · by_contra hno
      rw [sfEnsureTmpDir] at hdir
      split at hdir
      · cases hdir
      · simp [hno] at hdir
    · by_contra hno
      rw [openTemp, if_neg hno] at hopen
      cases hopen
    · by_contra hno
      rw [renameTemp, if_neg hno] at hrename
      cases hrename
    · by_contra hno
      rw [tempPath, if_pos (by omega)] at htemp
      cases htemp
  · intro h
    have hroom := h.room
    simp only [List.length_append] at hroom
    have hdir : sfEnsureTmpDir sys workspace = .ok () := by
      rw [sfEnsureTmpDir, if_neg (by rw [List.length_append]; omega), h.mkdir]
      rfl
    have hpath : tpbcliTaskRidmapPath workspace = .ok (workspace ++ tmpDir ++ ridmapName) := by
      rw [tpbcliTaskRidmapPath, if_neg (by simp only [List.length_append]; omega)]
    have htemp : ∃ t, tempPath sys (workspace ++ tmpDir ++ ridmapName) = .ok t := by
      rw [tempPath, if_neg (by simp only [List.length_append]; omega)]
      exact ⟨_, rfl⟩
    obtain ⟨t, htemp⟩ := htemp
    have hopen : openTemp sys s = .ok () { s with temp := some [] } := if_pos h.openTemp
    have hlines : ∀ j < ids.length, sys.fprintf (0 + j) = true := by
      simpa using h.fprintf
    obtain ⟨s₂, hprint⟩ := printLines_ok_iff.mpr hlines
    have hrename : renameTemp sys s₂ = .ok () ⟨s₂.temp, none⟩ := if_pos h.rename
    refine ⟨⟨s₂.temp, none⟩, ?_⟩
    rw [tpbcliTaskRidmapWriteAtomic, if_neg (by simpa using hids), h.fdopen, h.fflush, h.fsync,
      h.fclose]
    refine bind_then (liftResult_eq_ok.mpr ⟨hdir, rfl⟩) ?_
    refine bind_then (liftResult_eq_ok.mpr ⟨hpath, rfl⟩) ?_
    refine bind_then (liftResult_eq_ok.mpr ⟨htemp, rfl⟩) ?_
    refine bind_then hopen ?_
    refine bind_then rfl ?_
    refine bind_then hprint ?_
    refine bind_then rfl ?_
    refine bind_then rfl ?_
    exact hrename

end TPBench
