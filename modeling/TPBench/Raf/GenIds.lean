import Mathlib.Data.List.Flatten
import TPBench.CFile.Text
import TPBench.Raf.Sha1

/-!
# The IDs of Batches, Tasks and Task Capsules

An ID is the digest of the fields of what it names, and the design has them one behind the other:
a literal, the two times and the numbers in decimal, the names as they are, and the IDs as 20
bytes. There is nothing between two fields. `GenCall` is a call of one of the three generators,
and `GenCall.pieces` what it feeds, piece by piece.

The bytes tell which generator fed them, for behind the literal there is always a digit
(`gen_eq_of_fed_eq`). They do not tell where a field ends: handle 1 of process 23 and handle 12 of
process 3 feed the same. Given the same bytes, the calls are the same exactly when the fields in
front of the last one have the same lengths (`genCalls_of_fed_eq`).
-/

open CFile

namespace TPBench

/-! ### The generators -/

/-- A C string. -/
abbrev CString := {s : Bytes // (0 : UInt8) ∉ s}

/-- What `tpb_raf_gen_tbatch_id` is given. -/
structure TbatchIdArgs where
  utcBits : UInt64
  btime : UInt64
  hostname : CString
  username : CString
  frontPid : UInt32

/-- What `tpb_raf_gen_task_id` and `tpb_raf_gen_taskcapsule_id` are given. -/
structure TaskIdArgs where
  utcBits : UInt64
  btime : UInt64
  hostname : CString
  username : CString
  tbatchId : Id20
  kernelId : Id20
  hdlId : UInt32
  pid : UInt32
  tid : UInt32

/-- What `tpb_raf_gen_tbatch_id` feeds. A number has at most 20 digits, and `numbuf` takes them
all. -/
def TbatchIdArgs.pieces (x : TbatchIdArgs) : List Bytes :=
  [ascii "tbatch".toList, formatD x.utcBits.toNat, formatD x.btime.toNat, x.hostname, x.username,
    formatD x.frontPid.toNat]

/-- What the generators of tasks feed behind their literal. -/
def TaskIdArgs.pieces (x : TaskIdArgs) : List Bytes :=
  [formatD x.utcBits.toNat, formatD x.btime.toNat, x.hostname, x.username, x.tbatchId.toList,
    x.kernelId.toList, formatD x.hdlId.toNat, formatD x.pid.toNat, formatD x.tid.toNat]

/-- The literal of a task. -/
def taskLiteral : Bytes := ascii "task".toList

/-- The literal of a task capsule: twelve bytes are fed, with the NUL at its end. -/
def taskcapsuleLiteral : Bytes := ascii "taskcapsule".toList ++ [0]

/-- `tpb_sha1_init`, an update for each piece, and `tpb_sha1_final`. -/
def hashPieces (pieces : List Bytes) : Id20 :=
  tpbSha1Final (pieces.foldl tpbSha1Update tpbSha1Init)

/-- `tpb_raf_gen_tbatch_id`. -/
def tpbRafGenTbatchId (x : TbatchIdArgs) : Id20 := hashPieces x.pieces

/-- `tpb_raf_gen_task_id`. -/
def tpbRafGenTaskId (x : TaskIdArgs) : Id20 := hashPieces (taskLiteral :: x.pieces)

/-- `tpb_raf_gen_taskcapsule_id`. -/
def tpbRafGenTaskcapsuleId (x : TaskIdArgs) : Id20 := hashPieces (taskcapsuleLiteral :: x.pieces)

/-! ### The calls -/

/-- The three generators. -/
inductive Gen where
  | tbatch
  | task
  | taskcapsule
  deriving DecidableEq

/-- A call of a generator. -/
inductive GenCall where
  | tbatch (x : TbatchIdArgs)
  | task (x : TaskIdArgs)
  | taskcapsule (x : TaskIdArgs)

/-- The generator of a call. -/
def GenCall.gen : GenCall → Gen
  | .tbatch _ => .tbatch
  | .task _ => .task
  | .taskcapsule _ => .taskcapsule

/-- The pieces that a call feeds. -/
def GenCall.pieces : GenCall → List Bytes
  | .tbatch x => x.pieces
  | .task x => taskLiteral :: x.pieces
  | .taskcapsule x => taskcapsuleLiteral :: x.pieces

/-- The bytes that a call feeds. -/
def GenCall.fed (c : GenCall) : Bytes := c.pieces.flatten

/-- The ID that a call puts out. -/
def GenCall.id : GenCall → Id20
  | .tbatch x => tpbRafGenTbatchId x
  | .task x => tpbRafGenTaskId x
  | .taskcapsule x => tpbRafGenTaskcapsuleId x

/-- The lengths of the fields in front of the last one. -/
def GenCall.fieldLengths (c : GenCall) : List ℕ := c.pieces.dropLast.map List.length

/-- An ID is the digest of the bytes that are fed. -/
theorem GenCall.toList_id (c : GenCall) : c.id.toList = Sha1.digest c.fed := by
  have hpieces (pieces : List Bytes) :
      (hashPieces pieces).toList = Sha1.digest pieces.flatten :=
    (absorbed_foldl Absorbed.init pieces).final
  cases c <;> exact hpieces _

/-! ### What the bytes tell -/

/-- A decimal number starts with a digit. -/
theorem exists_formatD_eq_cons (n : ℕ) :
    ∃ (b : UInt8) (bs : Bytes), formatD n = b :: bs ∧ isdigit b = true := by
  obtain ⟨b, bs, h⟩ := List.exists_cons_of_ne_nil (formatD_ne_nil n)
  exact ⟨b, bs, h, isdigit_of_mem_formatD (h ▸ List.mem_cons_self)⟩

/-- Behind the literal of a batch comes its `b`, where that of a task has an `a`. -/
theorem tbatch_fed_ne (x : TbatchIdArgs) (bs : Bytes) :
    (GenCall.tbatch x).fed ≠ taskLiteral ++ bs := by
  intro h
  have hbyte := congrArg (fun l : Bytes => l[1]?) h
  cases hbyte

/-- Behind the literal of a task comes a digit, where that of a capsule goes on. -/
theorem task_fed_ne (x y : TaskIdArgs) :
    (GenCall.task x).fed ≠ (GenCall.taskcapsule y).fed := by
  intro h
  obtain ⟨b, bs, hb, hdigit⟩ := exists_formatD_eq_cons x.utcBits.toNat
  have hfed : (GenCall.task x).fed = taskLiteral ++ (b :: (bs ++ x.pieces.tail.flatten)) := by
    rw [← List.cons_append, ← hb]
    rfl
  rw [hfed] at h
  have hbyte := congrArg (fun l : Bytes => l[4]?) h
  obtain rfl : b = 99 := Option.some.inj hbyte
  cases hdigit

/-- **The bytes tell the generator.** -/
theorem gen_eq_of_fed_eq {c d : GenCall} (h : c.fed = d.fed) : c.gen = d.gen := by
  cases c with
  | tbatch x =>
      cases d with
      | tbatch y => rfl
      | task y => exact absurd h (tbatch_fed_ne x _)
      | taskcapsule y => exact absurd h (tbatch_fed_ne x _)
  | task x =>
      cases d with
      | tbatch y => exact absurd h.symm (tbatch_fed_ne y _)
      | task y => rfl
      | taskcapsule y => exact absurd h (task_fed_ne x y)
  | taskcapsule x =>
      cases d with
      | tbatch y => exact absurd h.symm (tbatch_fed_ne y _)
      | task y => exact absurd h.symm (task_fed_ne y x)
      | taskcapsule y => rfl

/-! ### Where the fields end -/

/-- Lists one behind the other, cut again: the lengths in front of the last one tell where. -/
theorem eq_of_flatten_eq {α : Type*} {L M : List (List α)} (hL : L ≠ []) (hM : M ≠ [])
    (hflat : L.flatten = M.flatten)
    (hlen : L.dropLast.map List.length = M.dropLast.map List.length) : L = M := by
  rw [← List.dropLast_append_getLast hL, ← List.dropLast_append_getLast hM] at hflat ⊢
  rw [List.flatten_append, List.flatten_append, List.flatten_singleton,
    List.flatten_singleton] at hflat
  have hfront : L.dropLast.flatten.length = M.dropLast.flatten.length := by
    rw [List.length_flatten, List.length_flatten, hlen]
  obtain ⟨hinit, hlast⟩ := List.append_inj hflat hfront
  rw [List.eq_iff_flatten_eq.mpr ⟨hinit, hlen⟩, hlast]

/-- The fields of a batch can be read off its pieces. -/
theorem TbatchIdArgs.pieces_injective : Function.Injective TbatchIdArgs.pieces := by
  rintro ⟨u, b, hostname, username, p⟩ ⟨u', b', hostname', username', p'⟩ h
  simp only [TbatchIdArgs.pieces, List.cons.injEq, formatD_injective.eq_iff, UInt64.toNat_inj,
    UInt32.toNat_inj, Subtype.val_inj, true_and, and_true] at h
  obtain ⟨rfl, rfl, rfl, rfl, rfl⟩ := h
  rfl

/-- The fields of a task can be read off its pieces. -/
theorem TaskIdArgs.pieces_injective : Function.Injective TaskIdArgs.pieces := by
  rintro ⟨u, b, host, user, t, k, i, p, q⟩ ⟨u', b', host', user', t', k', i', p', q'⟩ h
  simp only [TaskIdArgs.pieces, List.cons.injEq, formatD_injective.eq_iff, UInt64.toNat_inj,
    UInt32.toNat_inj, Subtype.val_inj, and_true] at h
  obtain ⟨rfl, rfl, rfl, rfl, ht, hk, rfl, rfl, rfl⟩ := h
  obtain rfl : t = t' := Subtype.ext ht
  obtain rfl : k = k' := Subtype.ext hk
  rfl

/-- A generator and the pieces are a call. -/
theorem call_eq_of_pieces_eq {c d : GenCall} (hgen : c.gen = d.gen) (h : c.pieces = d.pieces) :
    c = d := by
  cases c <;> cases d <;> try cases hgen
  case tbatch.tbatch x y => rw [TbatchIdArgs.pieces_injective h]
  case task.task x y => rw [TaskIdArgs.pieces_injective (List.cons.inj h).2]
  case taskcapsule.taskcapsule x y => rw [TaskIdArgs.pieces_injective (List.cons.inj h).2]

/-- Something is fed. -/
theorem GenCall.pieces_ne_nil (c : GenCall) : c.pieces ≠ [] := by
  cases c <;> exact List.cons_ne_nil _ _

/-- **Two calls that feed the same bytes** are calls of one generator, and they are the same
call exactly when the fields in front of the last one have the same lengths. -/
theorem genCalls_of_fed_eq (c d : GenCall) (h : c.fed = d.fed) :
    c.gen = d.gen ∧ (c = d ↔ c.fieldLengths = d.fieldLengths) := by
  have hgen := gen_eq_of_fed_eq h
  refine ⟨hgen, ?_⟩
  constructor
  · rintro rfl
    rfl
  · intro hlen
    exact call_eq_of_pieces_eq hgen (eq_of_flatten_eq c.pieces_ne_nil d.pieces_ne_nil h hlen)

/-- A task of a batch on `node01`. -/
def sampleTask (hdlId pid : UInt32) : GenCall :=
  .task ⟨1, 2, ⟨ascii "node01".toList, by decide⟩, ⟨ascii "user".toList, by decide⟩, zeroArr 20,
    zeroArr 20, hdlId, pid, 7⟩

/-- Handle 1 of process 234 and handle 12 of process 34. -/
theorem sampleTask_fed : (sampleTask 1 234).fed = (sampleTask 12 34).fed := by rfl

/-- They are different calls that feed the same bytes. -/
theorem genCalls_collide : ¬ ∀ c d : GenCall, c.fed = d.fed → c = d := by
  intro h
  have hcall : sampleTask 1 234 = sampleTask 12 34 := h _ _ sampleTask_fed
  have hlen : (sampleTask 1 234).fieldLengths = (sampleTask 12 34).fieldLengths := by
    rw [hcall]
  exact absurd hlen (by decide)

/-- The fields of the two have different lengths. -/
theorem genCalls_of_fed_eq_sample :
    (sampleTask 1 234).fed = (sampleTask 12 34).fed ∧
      (sampleTask 1 234).gen = (sampleTask 12 34).gen ∧
      (sampleTask 1 234 = sampleTask 12 34 ↔
        (sampleTask 1 234).fieldLengths = (sampleTask 12 34).fieldLengths) :=
  ⟨sampleTask_fed, genCalls_of_fed_eq _ _ sampleTask_fed⟩

end TPBench
