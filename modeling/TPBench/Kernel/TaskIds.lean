import TPBench.Kernel.TaskRecord
import TPBench.Raf.Frames
import TPBench.Raf.GenIds
import TPBench.Task.Ridmap

/-!
# The IDs a Kernel Takes from its Environment

The process that starts a kernel hands it the IDs of the batch and of the kernel as 40
hexadecimal digits, in `TPB_TBATCH_ID` and `TPB_KERNEL_ID`, and the kernel stores them in the
record of its task and in the row of the task (`tpb_record_write_task`). The store has a parser
for such IDs, which refuses whatever is not 40 digits (`tpbRafHexToId`). The kernel has one of
its own (`sfHexToId`): it looks at the length only, and has `sscanf` read each byte with `%02x`.
That conversion skips blanks, also those that belong to the bytes behind; it takes a sign; and
one digit is enough for it. And it stores byte by byte, so that the bytes in front of one that
is refused stay: the ID of the batch keeps them, that of the kernel is cleared.

C leaves it to the library what `0x` is with no digit behind it. The standard has the
conversion fail, and the GNU library reads a zero. `lone0x` says which.

## Main definitions

* `scanHex2`, `sfHexToId` and `writeTaskFromEnv`, the code;
* `RecordsIds`, what it is to store the IDs that the parser of the store reads;
* `TbatchReadsAlike` and `KernelReadsAlike`, when the texts are such that it does.

## Main results

* `recordsIds_iff` — the IDs are stored exactly for such texts, and the parser of the store
  inverts the printing of an ID.
-/

open CFile Conc

namespace TPBench

/-! ### The parser of a kernel -/

/-- The value of hexadecimal digits. -/
def hexNat (ds : Bytes) : ℕ := ds.foldl (fun n d => 16 * n + (sfHexNibble d).getD 0) 0

/-- What `%02x` has to read behind the blanks: a sign, and what is left of two characters. -/
def scanField (s : Bytes) : ℤ × Bytes := splitSign ((s.dropWhile isspace).take 2)

/-- The digits among them. -/
def scanDigits (s : Bytes) : Bytes := (scanField s).2.takeWhile isxdigit

/-- The prefix of hexadecimal numbers, with nothing behind it. -/
def isLone0x (field : Bytes) : Bool :=
  field = ascii "0x".toList ∨ field = ascii "0X".toList

/-- `sscanf(s, "%02x", &byte)`: what is stored in `byte`, or `none` when it does not return 1. -/
def scanHex2 (lone0x : Bool) (s : Bytes) : Option UInt32 :=
  if scanDigits s = [] ∨ lone0x = false ∧ isLone0x (scanField s).2 = true then none
  else some (UInt32.ofInt ((scanField s).1 * hexNat (scanDigits s)))

/-- The bytes that the loop of `_sf_hex_to_id` stores in its last `n` rounds. -/
def scanBytes (lone0x : Bool) : ℕ → Bytes → Bytes
  | 0, _ => []
  | n + 1, hex =>
      match scanHex2 lone0x hex with
      | none => []
      | some byte => byte.toUInt8 :: scanBytes lone0x n (hex.drop 2)

/-- `_sf_hex_to_id`: whether it returns 0, and the ID that it leaves. -/
def sfHexToId (lone0x : Bool) (hex : Bytes) (id : Id20) : Bool × Id20 :=
  if hex.length ≠ 40 then (false, id)
  else
    ((scanBytes lone0x 20 hex).length = 20,
      toArr 20 (scanBytes lone0x 20 hex ++ id.toList.drop (scanBytes lone0x 20 hex).length))

/-! ### The environment -/

/-- The variables that `tpb_record_write_task` reads. -/
structure TaskEnv where
  tbatchId : Option CString
  handleIndex : Option CString
  kernelId : Option CString

/-- The ID of the batch. Nobody asks whether the parser failed. -/
def envTbatchId (lone0x : Bool) : Option CString → Id20
  | none => zeroArr 20
  | some s =>
      if s.1.length = 40 then (sfHexToId lone0x s.1 (zeroArr 20)).2 else zeroArr 20

/-- The ID of the kernel. -/
def envKernelId (lone0x : Bool) : Option CString → Id20
  | none => zeroArr 20
  | some s =>
      if s.1.length = 40 then
        if (sfHexToId lone0x s.1 (zeroArr 20)).1 then (sfHexToId lone0x s.1 (zeroArr 20)).2
        else zeroArr 20
      else zeroArr 20

/-- The index of the handle. What `atoi` does with a number that is not an `int` is not
defined. -/
def envHandleIndex : Option CString → Except Err UInt32
  | none => .ok 0
  | some s =>
      match atoi (s.1 ++ [0]) with
      | some i => .ok (UInt32.ofInt i)
      | none => .error .undefined

/-- What the system tells a kernel about itself. -/
structure TaskHost where
  utcBits : UInt64
  btime : UInt64
  hostname : CString
  username : CString
  pid : UInt32
  tid : UInt32

/-- What `tpb_raf_gen_task_id` is given. -/
def TaskHost.idArgs (host : TaskHost) (tbatchId kernelId : Id20) (handleIndex : UInt32) :
    TaskIdArgs where
  utcBits := host.utcBits
  btime := host.btime
  hostname := host.hostname
  username := host.username
  tbatchId := tbatchId
  kernelId := kernelId
  hdlId := handleIndex
  pid := host.pid
  tid := host.tid

/-- What identifies the task. -/
def TaskHost.ident (host : TaskHost) (exitCode : UInt32) (tbatchId kernelId : Id20)
    (handleIndex : UInt32) : TaskIdent where
  taskRecordId := tpbRafGenTaskId (host.idArgs tbatchId kernelId handleIndex)
  tbatchId := tbatchId
  kernelId := kernelId
  utcBits := host.utcBits
  btime := host.btime
  exitCode := exitCode
  handleIndex := handleIndex
  pid := host.pid
  tid := host.tid

/-- `tpb_record_write_task` from its start. -/
def writeTaskFromEnv (lone0x : Bool) (env : TaskEnv) (host : TaskHost) (exitCode : UInt32)
    (activeId : Int32) (snap : EnvSnapshot) (h : Rthdl) : WsM Id20 :=
  match envHandleIndex env.handleIndex with
  | .error e => fun ws => .error e ws
  | .ok handleIndex =>
      tpbRecordWriteTask (host.ident exitCode (envTbatchId lone0x env.tbatchId)
        (envKernelId lone0x env.kernelId) handleIndex) activeId snap h

/-! ### What has to be stored -/

/-- The ID that the parser of the store reads in a variable, zero when it refuses the text. -/
def storedId : Option CString → Id20
  | none => zeroArr 20
  | some s =>
      match tpbRafHexToId s.1 with
      | .ok id => id
      | .error _ => zeroArr 20

/-- The record of a task and the row behind the rows there were have these IDs. -/
structure StoresIds (rows : List TaskEntry) (id tbatchId kernelId : Id20) (ws : Workspace) :
    Prop where
  record : ∃ (attr : TaskAttr) (headers : List MetaHeader) (data : Option Bytes)
    (datasize : UInt64), ws.files (.record .task id) =
        some (recordBytes taskFormat attr headers data datasize) ∧
      attr.tbatchId = tbatchId ∧ attr.kernelId = kernelId
  row : ∃ e : TaskEntry, ws.files (.entry .task) = some (taskRow.table (rows ++ [e])) ∧
    e.taskRecordId = id ∧ e.tbatchId = tbatchId ∧ e.kernelId = kernelId

/-- Whatever kernel ran, and wherever: where the variables have these texts, every write of a
task that succeeds stores the IDs that the parser of the store reads in them. -/
def RecordsIds (lone0x : Bool) (tbatchId kernelId : Option CString) : Prop :=
  ∀ (handleIndex : Option CString) (host : TaskHost) (exitCode : UInt32) (activeId : Int32)
    (snap : EnvSnapshot) (h : Rthdl) (rows : List TaskEntry) (ws ws' : Workspace) (id : Id20),
    taskRow.Holds ws rows →
    writeTaskFromEnv lone0x ⟨tbatchId, handleIndex, kernelId⟩ host exitCode activeId snap h ws =
      .ok id ws' →
    StoresIds rows id (storedId tbatchId) (storedId kernelId) ws'

/-- What `sscanf` finds at the place of a byte is refused: there is no digit, or it is a lone `0x`
and the library refuses that. -/
def Refused (lone0x : Bool) (s : Bytes) : Prop :=
  scanDigits s = [] ∨ lone0x = false ∧ isLone0x (scanField s).2 = true

/-- The digits `sscanf` finds at the place of a byte are zeros. -/
def ReadsZero (s : Bytes) : Prop := ∀ d ∈ scanDigits s, d = 48

/-- A text is not of the length of an ID, or is one. -/
def IdOrNot (s : Bytes) : Prop := s.length ≠ 40 ∨ ∀ b ∈ s, isxdigit b = true

/-- Both parsers read the same ID of a batch: where the text is not an ID, there are only zeros in
front of the first byte that is refused. -/
def TbatchReadsAlike (lone0x : Bool) (s : Bytes) : Prop :=
  IdOrNot s ∨ ∀ i < 20, (∀ j ≤ i, ¬Refused lone0x (s.drop (2 * j))) → ReadsZero (s.drop (2 * i))

/-- Both parsers read the same ID of a kernel: where the text is not an ID, a byte is refused or
there are only zeros. -/
def KernelReadsAlike (lone0x : Bool) (s : Bytes) : Prop :=
  IdOrNot s ∨ (∃ i < 20, Refused lone0x (s.drop (2 * i))) ∨
    ∀ i < 20, ReadsZero (s.drop (2 * i))

/-! ### One byte -/

section Byte

variable {lone0x : Bool} {s : Bytes}

/-- A digit has a value less than 16, which is zero for `0` alone. -/
theorem exists_hexNibble {d : UInt8} (h : isxdigit d = true) :
    ∃ n < 16, sfHexNibble d = some n ∧ (n = 0 ↔ d = 48) := by
  have hlt := d.toNat_lt
  simp only [isxdigit, isdigit, decide_eq_true_eq, UInt8.le_iff_toNat_le, Bool.decide_or,
    Bool.or_eq_true, Bool.decide_and, Bool.and_eq_true] at h
  rw [← UInt8.toNat_inj]
  simp only [sfHexNibble, UInt8.le_iff_toNat_le]
  change (48 ≤ d.toNat ∧ d.toNat ≤ 57) ∨
    (97 ≤ d.toNat ∧ d.toNat ≤ 102) ∨ (65 ≤ d.toNat ∧ d.toNat ≤ 70) at h
  change ∃ n < 16, (if 48 ≤ d.toNat ∧ d.toNat ≤ 57 then some (d.toNat - 48)
    else if 97 ≤ d.toNat ∧ d.toNat ≤ 102 then some (d.toNat - 97 + 10)
    else if 65 ≤ d.toNat ∧ d.toNat ≤ 70 then some (d.toNat - 65 + 10) else none) = some n ∧
      (n = 0 ↔ d.toNat = 48)
  rcases h with h | h | h
  · exact ⟨d.toNat - 48, by omega, by rw [if_pos h], by omega⟩
  · exact ⟨d.toNat - 97 + 10, by omega, by rw [if_neg (by omega), if_pos h], by omega⟩
  · exact ⟨d.toNat - 65 + 10, by omega, by
      rw [if_neg (by omega), if_neg (by omega), if_pos h], by omega⟩

/-- At most two digits are read, and a number of two digits is a byte, which is zero for zeros
alone. -/
theorem hexNat_of_two {ds : Bytes} (hlen : ds.length ≤ 2) (hall : ∀ d ∈ ds, isxdigit d = true) :
    hexNat ds < 256 ∧ (hexNat ds = 0 ↔ ∀ d ∈ ds, d = 48) := by
  rcases ds with - | ⟨a, - | ⟨b, - | ⟨c, ds⟩⟩⟩
  · exact ⟨by simp [hexNat], by simp [hexNat]⟩
  · obtain ⟨n, hn, ha, hzero⟩ := exists_hexNibble (hall a (by simp))
    simp only [hexNat, List.foldl_cons, List.foldl_nil, ha, Option.getD_some, List.mem_singleton,
      forall_eq]
    exact ⟨by omega, by rw [← hzero]; omega⟩
  · obtain ⟨n, hn, ha, hzero⟩ := exists_hexNibble (hall a (by simp))
    obtain ⟨m, hm, hb, hzero'⟩ := exists_hexNibble (hall b (by simp))
    simp only [hexNat, List.foldl_cons, List.foldl_nil, ha, hb, Option.getD_some, List.mem_cons,
      List.not_mem_nil, or_false, forall_eq_or_imp, forall_eq]
    exact ⟨by omega, by rw [← hzero, ← hzero']; omega⟩
  · simp only [List.length_cons] at hlen
    omega

theorem length_splitSign_le (s : Bytes) : (splitSign s).2.length ≤ s.length := by
  unfold splitSign
  split
  · simp
  · simp
  · exact le_rfl

theorem fst_splitSign (s : Bytes) : (splitSign s).1 = 1 ∨ (splitSign s).1 = -1 := by
  unfold splitSign
  split
  · exact .inr rfl
  · exact .inl rfl
  · exact .inl rfl

theorem length_scanDigits_le (s : Bytes) : (scanDigits s).length ≤ 2 := by
  have hdigits : (scanDigits s).length ≤ (scanField s).2.length :=
    (List.takeWhile_prefix isxdigit).length_le
  have hsign : (scanField s).2.length ≤ ((s.dropWhile isspace).take 2).length :=
    length_splitSign_le _
  rw [List.length_take] at hsign
  omega

theorem isxdigit_of_mem_scanDigits {d : UInt8} (h : d ∈ scanDigits s) : isxdigit d = true :=
  List.mem_takeWhile_imp h

/-- The byte that is stored of an `unsigned int`. -/
theorem toNat_byte (i : ℤ) : (UInt32.ofInt i).toUInt8.toNat = (i % 256).toNat := by
  have hnat : (UInt32.ofInt i).toNat = (i % 2 ^ 32).toNat := by
    rw [UInt32.ofInt, UInt32.toNat_ofNat_of_lt']
    change (i % 2 ^ 32).toNat < 2 ^ 32
    omega
  rw [UInt32.toNat_toUInt8, hnat]
  omega

/-- The stored byte is zero when the digits are. -/
theorem byte_eq_zero_iff {byte : UInt32} (h : scanHex2 lone0x s = some byte) :
    byte.toUInt8 = 0 ↔ ReadsZero s := by
  obtain ⟨hlt, hzero⟩ := hexNat_of_two (length_scanDigits_le s) fun d =>
    isxdigit_of_mem_scanDigits
  rw [scanHex2] at h
  split_ifs at h
  cases h
  rw [ReadsZero, ← hzero, ← UInt8.toNat_inj, toNat_byte]
  change _ = 0 ↔ _
  rcases fst_splitSign ((s.dropWhile isspace).take 2) with hsign | hsign
  · rw [scanField, hsign]
    omega
  · rw [scanField, hsign]
    omega

theorem scanHex2_eq_none_iff : scanHex2 lone0x s = none ↔ Refused lone0x s := by
  rw [scanHex2, Refused]
  split_ifs with h
  · exact ⟨fun _ => h, fun _ => rfl⟩
  · exact ⟨fun hnone => (by cases hnone), fun h' => absurd h' h⟩

theorem not_isspace_of_isxdigit {d : UInt8} (h : isxdigit d = true) : isspace d = false := by
  rw [Bool.eq_false_iff]
  intro hspace
  simp only [isxdigit, isdigit, isspace, decide_eq_true_eq, UInt8.le_iff_toNat_le,
    ← UInt8.toNat_inj, Bool.decide_or, Bool.or_eq_true, Bool.decide_and, Bool.and_eq_true]
    at h hspace
  change d.toNat = 32 ∨ (9 ≤ d.toNat ∧ d.toNat ≤ 13) at hspace
  change (48 ≤ d.toNat ∧ d.toNat ≤ 57) ∨
    (97 ≤ d.toNat ∧ d.toNat ≤ 102) ∨ (65 ≤ d.toNat ∧ d.toNat ≤ 70) at h
  omega

/-- Where there are two digits, they are read. -/
theorem scanHex2_of_digits {hi lo : UInt8} {rest : Bytes} {n m : ℕ}
    (hhi : isxdigit hi = true) (hlo : isxdigit lo = true) (hn : sfHexNibble hi = some n)
    (hm : sfHexNibble lo = some m) :
    scanHex2 lone0x (hi :: lo :: rest) = some (UInt32.ofInt ((16 * n + m : ℕ) : ℤ)) := by
  have hdigit : isspace hi = false ∧ hi ≠ 45 ∧ hi ≠ 43 := by
    refine ⟨not_isspace_of_isxdigit hhi, ?_, ?_⟩
    · rintro rfl
      cases hhi
    · rintro rfl
      cases hhi
  have hx : lo ≠ 120 ∧ lo ≠ 88 := by
    constructor
    · rintro rfl
      cases hlo
    · rintro rfl
      cases hlo
  have hfield : scanField (hi :: lo :: rest) = (1, [hi, lo]) := by
    rw [scanField, List.dropWhile_cons_of_neg (by simp [hdigit.1])]
    change splitSign [hi, lo] = _
    unfold splitSign
    split
    · rename_i heq
      exact absurd (List.cons.inj heq).1 hdigit.2.1
    · rename_i heq
      exact absurd (List.cons.inj heq).1 hdigit.2.2
    · rfl
  have hdigits : scanDigits (hi :: lo :: rest) = [hi, lo] := by
    rw [scanDigits, hfield]
    simp [hhi, hlo]
  have hlone : isLone0x [hi, lo] = false := by
    simp [isLone0x, ascii, hx]
  rw [scanHex2, hdigits, hfield]
  simp [hexNat, hn, hm, hlone]

end Byte

/-! ### All bytes -/

section Loop

variable {lone0x : Bool}

theorem drop_two_drop (s : Bytes) (i : ℕ) : (s.drop 2).drop (2 * i) = s.drop (2 * (i + 1)) := by
  rw [List.drop_drop, show 2 + 2 * i = 2 * (i + 1) by omega]

theorem length_scanBytes_le (n : ℕ) (s : Bytes) : (scanBytes lone0x n s).length ≤ n := by
  induction n generalizing s with
  | zero => exact le_rfl
  | succ n ih =>
      rw [scanBytes]
      split
      · exact Nat.zero_le _
      · exact Nat.succ_le_succ (ih _)

/-- As many bytes are stored as there are rounds when none is refused. -/
theorem length_scanBytes_eq (n : ℕ) (s : Bytes) :
    (scanBytes lone0x n s).length = n ↔ ∀ i < n, ¬Refused lone0x (s.drop (2 * i)) := by
  induction n generalizing s with
  | zero => simp [scanBytes]
  | succ n ih =>
      rw [scanBytes]
      rcases hscan : scanHex2 lone0x s with - | byte
      · have href := scanHex2_eq_none_iff.mp hscan
        constructor
        · intro hlen
          cases hlen
        · intro hall
          exact absurd href (hall 0 (by omega))
      · have href : ¬Refused lone0x s := fun h => by
          rw [scanHex2_eq_none_iff.mpr h] at hscan
          cases hscan
        simp only [List.length_cons, Nat.add_right_cancel_iff, ih, drop_two_drop]
        constructor
        · rintro hall (- | i) hi
          · exact href
          · exact hall i (by omega)
        · intro hall i hi
          exact hall (i + 1) (by omega)

/-- The bytes that are stored are zero when the digits are, up to the first byte that is
refused. -/
theorem scanBytes_zero_iff (n : ℕ) (s : Bytes) :
    (∀ b ∈ scanBytes lone0x n s, b = 0) ↔
      ∀ i < n, (∀ j ≤ i, ¬Refused lone0x (s.drop (2 * j))) → ReadsZero (s.drop (2 * i)) := by
  induction n generalizing s with
  | zero => simp [scanBytes]
  | succ n ih =>
      rw [scanBytes]
      rcases hscan : scanHex2 lone0x s with - | byte
      · have href := scanHex2_eq_none_iff.mp hscan
        refine ⟨fun _ i _ hnone => absurd href (hnone 0 (by omega)), fun _ b hb => ?_⟩
        cases hb
      · have href : ¬Refused lone0x s := fun h => by
          rw [scanHex2_eq_none_iff.mpr h] at hscan
          cases hscan
        simp only [List.forall_mem_cons, byte_eq_zero_iff hscan, ih, drop_two_drop]
        constructor
        · rintro ⟨hzero, hall⟩ (- | i) hi hnone
          · exact hzero
          · exact hall i (by omega) fun j hj => hnone (j + 1) (by omega)
        · intro hall
          refine ⟨hall 0 (by omega) fun j hj => ?_, fun i hi hnone => ?_⟩
          · obtain rfl : j = 0 := by omega
            exact href
          · refine hall (i + 1) (by omega) fun j hj => ?_
            rcases j with - | j
            · exact href
            · exact hnone j (by omega)

/-- On digits the two parsers read the same. -/
theorem scanBytes_of_digits {n : ℕ} {s : Bytes} (hlen : s.length = 2 * n)
    (hall : ∀ b ∈ s, isxdigit b = true) :
    (scanBytes lone0x n s).length = n ∧ hexPairs s = some (scanBytes lone0x n s) := by
  induction n generalizing s with
  | zero =>
      obtain rfl : s = [] := List.length_eq_zero_iff.mp hlen
      exact ⟨rfl, rfl⟩
  | succ n ih =>
      rcases s with - | ⟨hi, - | ⟨lo, rest⟩⟩
      · simp only [List.length_nil] at hlen
        omega
      · simp only [List.length_cons, List.length_nil] at hlen
        omega
      · have hhi := hall hi (by simp)
        have hlo := hall lo (by simp)
        obtain ⟨a, ha, hna, -⟩ := exists_hexNibble hhi
        obtain ⟨b, hb, hnb, -⟩ := exists_hexNibble hlo
        simp only [List.length_cons] at hlen
        obtain ⟨hlen', hpairs⟩ := ih (s := rest) (by omega) fun c hc => hall c (by simp [hc])
        have hbyte : (UInt32.ofInt ((16 * a + b : ℕ) : ℤ)).toUInt8 = UInt8.ofNat (16 * a + b) := by
          rw [← UInt8.toNat_inj, toNat_byte, UInt8.toNat_ofNat']
          omega
        rw [scanBytes, scanHex2_of_digits hhi hlo hna hnb]
        simp only [hbyte, List.drop_succ_cons, List.drop_zero, List.length_cons, hexPairs, hna, hnb,
          hpairs]
        exact ⟨by rw [hlen'], rfl⟩

end Loop

/-! ### The IDs -/

section Ids

variable {lone0x : Bool} {s : CString}

/-- A zero ID in which bytes are stored is zero when they are. -/
theorem store_eq_zero_iff {bs : Bytes} (hlen : bs.length ≤ 20) :
    toArr 20 (bs ++ (zeroArr 20).toList.drop bs.length) = zeroArr 20 ↔ ∀ b ∈ bs, b = 0 := by
  have hzero : (zeroArr 20).toList = List.replicate 20 0 := rfl
  have htotal : (bs ++ (zeroArr 20).toList.drop bs.length).length = 20 := by
    rw [List.length_append, List.length_drop, (zeroArr 20).toList_length]
    omega
  rw [← List.Vector.toList_injective.eq_iff, toList_toArr htotal, hzero, List.drop_replicate,
    List.eq_replicate_iff, List.length_append, List.length_replicate]
  constructor
  · rintro ⟨-, hall⟩ b hb
    exact hall b (List.mem_append_left _ hb)
  · intro hall
    refine ⟨by omega, fun b hb => ?_⟩
    rcases List.mem_append.mp hb with hb | hb
    · exact hall b hb
    · exact List.eq_of_mem_replicate hb

/-- An ID in digits is read, by both parsers. -/
theorem sfHexToId_of_digits (hlen : s.1.length = 40) (hall : ∀ b ∈ s.1, isxdigit b = true) :
    sfHexToId lone0x s.1 (zeroArr 20) = (true, storedId (some s)) := by
  obtain ⟨hcount, hpairs⟩ := @scanBytes_of_digits lone0x 20 _ hlen hall
  have hdigits : (s.1.take 40).any (!isxdigit ·) = false := by
    rw [List.take_of_length_le hlen.le, List.any_eq_false]
    intro b hb
    simp [hall b hb]
  have hstored : storedId (some s) = toArr 20 (scanBytes lone0x 20 s.1) := by
    simp [storedId, tpbRafHexToId, hlen, hdigits, hpairs]
  have hrest : (zeroArr 20).toList.drop 20 = [] := rfl
  rw [sfHexToId, if_neg (by omega), hcount, hstored, hrest, List.append_nil]
  rfl

/-- A text that is not an ID is refused by the parser of the store. -/
theorem storedId_of_not (h : s.1.length ≠ 40 ∨ ∃ b ∈ s.1, isxdigit b = false) :
    storedId (some s) = zeroArr 20 := by
  have herr : tpbRafHexToId s.1 = .error (.code .rafL1 .cliFail) := by
    rw [tpbRafHexToId]
    split_ifs with hshort hlen
    · rfl
    · rfl
    · rw [not_or, Bool.not_eq_true, List.any_eq_false] at hshort
      rw [not_not] at hlen
      rcases h with h | ⟨b, hb, hno⟩
      · exact absurd hlen h
      · have := hshort.2 b (by rwa [List.take_of_length_le hlen.le])
        rw [hno] at this
        exact absurd rfl this
  rw [storedId, herr]

/-- What is left of the ID of a batch, and of a kernel, when the text is not an ID. -/
theorem env_of_length (hlen : s.1.length = 40) :
    (envTbatchId lone0x (some s) = zeroArr 20 ↔
      ∀ i < 20, (∀ j ≤ i, ¬Refused lone0x (s.1.drop (2 * j))) → ReadsZero (s.1.drop (2 * i))) ∧
    (envKernelId lone0x (some s) = zeroArr 20 ↔
      (∃ i < 20, Refused lone0x (s.1.drop (2 * i))) ∨ ∀ i < 20, ReadsZero (s.1.drop (2 * i))) := by
  have hzero := store_eq_zero_iff (@length_scanBytes_le lone0x 20 s.1)
  rw [scanBytes_zero_iff] at hzero
  simp only [envTbatchId, envKernelId, sfHexToId, ne_eq, hlen, not_true_eq_false, if_true,
    if_false, decide_eq_true_eq]
  refine ⟨hzero, ?_⟩
  by_cases hall : ∀ i < 20, ¬Refused lone0x (s.1.drop (2 * i))
  · have hnone : ¬∃ i < 20, Refused lone0x (s.1.drop (2 * i)) := fun ⟨i, hi, h⟩ => hall i hi h
    rw [if_pos ((length_scanBytes_eq 20 s.1).mpr hall), hzero]
    constructor
    · exact fun h => .inr fun i hi => h i hi fun j hj => hall j (by omega)
    · exact fun h i hi _ => (h.resolve_left hnone) i hi
  · rw [if_neg fun h => hall ((length_scanBytes_eq 20 s.1).mp h)]
    push Not at hall
    exact ⟨fun _ => .inl hall, fun _ => rfl⟩

/-- An ID that is read of an ID in digits, and is zero for other lengths, is the one the parser of
the store reads when it is zero for the other texts. -/
theorem eq_storedId_iff {x : Id20} {P : Prop}
    (hid : s.1.length = 40 → (∀ b ∈ s.1, isxdigit b = true) → x = storedId (some s))
    (hshort : s.1.length ≠ 40 → x = zeroArr 20) (hzero : s.1.length = 40 → (x = zeroArr 20 ↔ P)) :
    x = storedId (some s) ↔ IdOrNot s.1 ∨ P := by
  by_cases hlen : s.1.length = 40
  · by_cases hall : ∀ b ∈ s.1, isxdigit b = true
    · exact ⟨fun _ => .inl (.inr hall), fun _ => hid hlen hall⟩
    · have hno : ∃ b ∈ s.1, isxdigit b = false := by simpa using hall
      rw [storedId_of_not (.inr hno), hzero hlen]
      exact ⟨.inr, fun h => h.resolve_left fun h' => h'.elim (· hlen) hall⟩
  · rw [storedId_of_not (.inl hlen)]
    exact ⟨fun _ => .inl (.inl hlen), fun _ => hshort hlen⟩

/-- The ID of the batch is the one the parser of the store reads for such texts only. -/
theorem envTbatchId_eq_iff :
    envTbatchId lone0x (some s) = storedId (some s) ↔ TbatchReadsAlike lone0x s.1 := by
  refine eq_storedId_iff ?_ ?_ fun hlen => (env_of_length hlen).1
  · intro hlen hall
    rw [envTbatchId, if_pos hlen, sfHexToId_of_digits hlen hall]
  · intro hlen
    rw [envTbatchId, if_neg hlen]

/-- The ID of the kernel is the one the parser of the store reads for such texts only. -/
theorem envKernelId_eq_iff :
    envKernelId lone0x (some s) = storedId (some s) ↔ KernelReadsAlike lone0x s.1 := by
  refine eq_storedId_iff ?_ ?_ fun hlen => (env_of_length hlen).2
  · intro hlen hall
    rw [envKernelId, if_pos hlen, sfHexToId_of_digits hlen hall]
    rfl
  · intro hlen
    rw [envKernelId, if_neg hlen]

end Ids

/-! ### A run -/

section Run

variable {lone0x : Bool} {rows : List TaskEntry} {ws ws' : Workspace} {id : Id20}

/-- Counting for an environment writes its record and the table of environments only. -/
theorem frames_counters {P : Path → Prop} {activeId : Int32} (hrecord : ¬P (.rtenv activeId))
    (hentry : ¬P (.entry .rtenv)) (m n : UInt32) :
    Frames P (tpbRafRecordPatchRtenvCounters activeId m n) := by
  rw [tpbRafRecordPatchRtenvCounters]
  split_ifs
  · exact fun _ _ _ => rfl
  · refine (frames_fopenUpdate hrecord).bind fun _ ws p hp => ?_
    rw [after_orFail]
    exact frames_fopenUpdate hentry ws p hp

/-- A write that succeeds stores the attributes and the row of the task. -/
theorem storesIds_of_write {t : TaskIdent} {activeId : Int32} {snap : EnvSnapshot} {h : Rthdl}
    (htable : taskRow.Holds ws rows) (hok : tpbRecordWriteTask t activeId snap h ws = .ok id ws') :
    StoresIds rows id t.tbatchId t.kernelId ws' ∧
      ws'.files (.entry .task) = some (taskRow.table (rows ++ [t.entry])) := by
  rw [tpbRecordWriteTask] at hok
  rcases hr : buildTaskRecord t snap h with e | r
  · rw [hr] at hok
    cases hok
  · rw [hr] at hok
    obtain ⟨p, p', -, -, rfl⟩ := buildTaskRecord_eq_ok.mp hr
    obtain ⟨u₁, ws₁, hrecord, hok⟩ := bind_eq_ok.mp hok
    obtain ⟨u₂, ws₂, hentry, hok⟩ := bind_eq_ok.mp hok
    obtain ⟨u₃, ws₃, hcounters, hok⟩ := bind_eq_ok.mp hok
    cases hok
    rw [propagate_eq_ok] at hrecord hentry hcounters
    set file := recordBytes taskFormat (t.attr (UInt32.ofNat h.args.length) (noutputWritten h)
      (nheaderOf h + 3)) p'.headers (some p'.data) p'.datasize with hfile
    have hws₁ : ws₁ = ws.set (.record .task t.taskRecordId) file := by
      cases hrecord
      rfl
    have htable₁ : taskRow.Holds ws₁ rows := by
      rw [hws₁, RowFormat.Holds, Workspace.set_files_of_ne _ _ (by simp)]
      exact htable
    have hws₂ : ws₂ = ws₁.set (.entry .task) (taskRow.table (rows ++ [t.entry])) := by
      cases (entryAppendRow_ok htable₁ t.entry).symm.trans hentry
      rfl
    have hkeeps := @frames_counters (fun p => p = .record .task t.taskRecordId ∨ p = .entry .task)
      activeId (by simp) (by simp) 1 0 ws₂
    rw [hcounters] at hkeeps
    have hrecord' : ws'.files (.record .task t.taskRecordId) = some file := by
      refine (hkeeps _ (.inl rfl)).trans ?_
      rw [hws₂, Workspace.set_files_of_ne _ _ (by simp), hws₁, Workspace.set_files_same]
    have hrow : ws'.files (.entry .task) = some (taskRow.table (rows ++ [t.entry])) := by
      refine (hkeeps _ (.inr rfl)).trans ?_
      rw [hws₂, Workspace.set_files_same]
    exact ⟨⟨⟨_, _, _, _, hrecord', rfl, rfl⟩, ⟨t.entry, hrow, rfl, rfl, rfl⟩⟩, hrow⟩

/-- The handle of a kernel without arguments and outputs. -/
def bareHandle : Rthdl := ⟨⟨[], [], 0, [], []⟩, [], []⟩

/-- Such a kernel leaves its record in a workspace with an environment. -/
theorem exists_write (t : TaskIdent) :
    ∃ ws', tpbRecordWriteTask t 0 .clear bareHandle patchSample = .ok t.taskRecordId ws' := by
  obtain ⟨r, hr⟩ : ∃ r, buildTaskRecord t .clear bareHandle = .ok r :=
    ⟨_, buildTaskRecord_eq_ok.mpr ⟨⟨[], [], 0⟩, _, rfl, rfl, rfl⟩⟩
  set ws₁ := patchSample.set (taskFormat.path r.attr)
    (recordBytes taskFormat r.attr r.headers (some r.data) r.datasize) with hws₁
  set ws₂ := ws₁.set (.entry .task) (taskRow.table [t.entry]) with hws₂
  have hpath : taskFormat.path r.attr = .record .task r.attr.taskRecordId := rfl
  have hempty : taskRow.Holds ws₁ [] := by
    refine .inr ⟨?_, rfl⟩
    change ws₁.files (.entry .task) = none
    simp [hws₁, hpath, patchSample, Workspace.empty]
  have hrtenv : ws₂.files (.rtenv 0) =
      some (Record.bare (F := rtenvFormat) RtenvAttr.zero rfl).bytes := by
    simp [hws₂, hws₁, hpath, patchSample]
  have htable : ws₂.files (.entry .rtenv) = some (rtenvRow.table [RtenvEntry.zero]) := by
    simp [hws₂, hws₁, hpath, patchSample]
  obtain ⟨ws₃, hcounters⟩ : ∃ ws₃, tpbRafRecordPatchRtenvCounters 0 1 0 ws₂ = .ok () ws₃ :=
    ⟨_, tpbRafRecordPatchRtenvCounters_run hrtenv htable
      ⟨RtenvEntry.zero, List.mem_cons_self, rfl⟩ 1 0⟩
  refine ⟨ws₃, ?_⟩
  rw [tpbRecordWriteTask, hr]
  refine bind_then (propagate_eq_ok.mpr rfl) ?_
  refine bind_then (propagate_eq_ok.mpr (entryAppendRow_ok hempty t.entry)) ?_
  exact bind_then (propagate_eq_ok.mpr hcounters) rfl

/-- **Which IDs are stored.** The IDs that the parser of the store reads are, exactly when the
kernel reads them as well. -/
theorem recordsIds_iff_eq (tbatchId kernelId : Option CString) :
    RecordsIds lone0x tbatchId kernelId ↔
      envTbatchId lone0x tbatchId = storedId tbatchId ∧
        envKernelId lone0x kernelId = storedId kernelId := by
  constructor
  · intro hrec
    let host : TaskHost := ⟨0, 0, ⟨[], by simp⟩, ⟨[], by simp⟩, 0, 0⟩
    let t := host.ident 0 (envTbatchId lone0x tbatchId) (envKernelId lone0x kernelId) 0
    have hempty : taskRow.Holds patchSample [] := .inr ⟨by simp [taskRow, patchSample,
      Workspace.empty], rfl⟩
    obtain ⟨ws', hrun⟩ := exists_write t
    obtain ⟨-, e, hrow, -, htbatch, hkernel⟩ :=
      hrec none host 0 0 .clear bareHandle [] patchSample ws' _ hempty hrun
    obtain ⟨-, hrow'⟩ := storesIds_of_write hempty hrun
    have hholds : taskRow.Holds ws' [e] := .inl hrow
    have hone : [e] = [t.entry] := hholds.unique (.inl hrow')
    obtain rfl : e = t.entry := (List.cons.inj hone).1
    exact ⟨htbatch, hkernel⟩
  · rintro ⟨htbatch, hkernel⟩ handleIndex host exitCode activeId snap h rows ws ws' id htable hok
    rw [writeTaskFromEnv] at hok
    rcases hidx : envHandleIndex handleIndex with e | i
    · simp only [hidx] at hok
      cases hok
    · simp only [hidx] at hok
      have hstores := (storesIds_of_write htable hok).1
      rw [← htbatch, ← hkernel]
      exact hstores

end Run

/-- **The IDs a kernel stores.** An ID that is printed is read back by the parser of the store.
Whatever is in the two variables, and whatever the library makes of a lone `0x`: the IDs that are
stored are those the parser of the store reads exactly for texts on which the parsers agree. -/
theorem recordsIds_iff (id : Id20) (lone0x : Bool) (tbatchId kernelId : Option CString) :
    tpbRafHexToId (hexBytes id.toList) = .ok id ∧
      (RecordsIds lone0x tbatchId kernelId ↔
        (∀ s ∈ tbatchId, TbatchReadsAlike lone0x s.1) ∧
          ∀ s ∈ kernelId, KernelReadsAlike lone0x s.1) := by
  refine ⟨tpbRafHexToId_hexBytes id, ?_⟩
  rw [recordsIds_iff_eq]
  refine and_congr ?_ ?_
  · rcases tbatchId with - | s
    · exact ⟨fun _ _ hs => (by cases hs), fun _ => rfl⟩
    · simp [envTbatchId_eq_iff]
  · rcases kernelId with - | s
    · exact ⟨fun _ _ hs => (by cases hs), fun _ => rfl⟩
    · simp [envKernelId_eq_iff]

/-- The digits `ab` with 38 letters behind them. -/
def halfId : CString := ⟨ascii "ab".toList ++ List.replicate 38 122, by decide⟩

/-- Of such a text the parser of the store stores nothing. The kernel stores the byte the digits
stand for. -/
theorem recordsIds_halfId : ¬ RecordsIds true (some halfId) none := by
  rw [recordsIds_iff_eq]
  rintro ⟨htbatch, -⟩
  have hzero : storedId (some halfId) = zeroArr 20 := by decide +kernel
  have hbyte : envTbatchId true (some halfId) ≠ zeroArr 20 := by decide +kernel
  exact hbyte (htbatch.trans hzero)

end TPBench
