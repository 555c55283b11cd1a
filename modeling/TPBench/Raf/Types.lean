import TPBench.CFile.Stream

/-!
# The rafdb Workspace

The store of TPBench keeps its data in files of two kinds. Each of the four domains
(task batch, kernel, task, runtime environment) has one `.tpbe` file with a row per
object, and one `.tpbr` record file per object. This module fixes what every layer
above shares:

* the error values (`Cause`, `Module`, `Err`) and the two ways an error travels,
  `tpbFail` at its origin and `propagate` through a caller;
* the domains, the eight-byte magic signatures and their validation;
* the workspace as a map from paths to file contents, and the programs over it
  (`WsM`), with one rule for each way of opening a file.

A record is named by the 20-byte ID of its object, an RTEnv record by its number; the
path builders of the source are injective on both, so a path is represented by the
domain and the name (`Path`). Pointers are never null in the model, and an allocation
succeeds.
-/

open CFile

namespace TPBench

/-! ### Errors -/

/-- The cause of an error, `enum _tpb_errno` without its success value. -/
inductive Cause
  | exitOnHelp
  | cliFail
  | fileIoFail
  | mallocFail
  | mpiFail
  | kernArgFail
  | kernVerifyFail
  | listNotFound
  | listDup
  | nullptrArg
  | dtypeNotSupported
  | illegalCall
  | kernelNeFail
  | kargNeFail
  | kernelIncomplete
  | dlopenFail
  | metricMissing
  deriving DecidableEq, Repr

/-- The reporting module of an encoded error, `enum _tpb_module`. A bare cause carries
`none`. -/
inductive Module
  | none
  | driver
  | argp
  | impl
  | io
  | misc
  | rafL1
  | rafL2Kernel
  | rafL2Task
  | rafL2Tbatch
  | rafL2Rtenv
  | rafL3Kernel
  | rafL3Task
  | rafL3Tbatch
  | rafL3Rtenv
  | rafMisc
  | cliRun
  | cliBenchmark
  | cliKernel
  | cliMisc
  | cliRtenv
  deriving DecidableEq, Repr

/-- What a call that does not succeed returns: an encoded error, or nothing the
language gives a meaning to. -/
inductive Err
  | code (mod : Module) (cause : Cause)
  | undefined
  deriving DecidableEq, Repr

/-- The error `TPB_PROPAGATE` makes of the error of a callee. -/
def Err.propagated (mod : Module) : Err → Err
  | .code _ .exitOnHelp => .code .none .exitOnHelp
  | .code _ cause => .code mod cause
  | .undefined => .undefined

/-! ### Domains and magic signatures -/

/-- The record domains of the store. -/
inductive Domain
  | tbatch
  | kernel
  | task
  | rtenv
  deriving DecidableEq, Repr

/-- `TPB_RAF_DOM_*`. -/
def Domain.code : Domain → UInt8
  | tbatch => 0x00
  | kernel => 0x01
  | task => 0x02
  | rtenv => 0x03

/-- The two file types. -/
inductive FType
  | entry
  | record
  deriving DecidableEq, Repr

/-- `TPB_RAF_FTYPE_*`. -/
def FType.code : FType → UInt8
  | entry => 0xE0
  | record => 0xD0

/-- The positions a magic signature marks. -/
inductive MagicPos
  | posStart
  | posSplit
  | posEnd
  deriving DecidableEq, Repr

/-- `TPB_RAF_POS_*`. -/
def MagicPos.code : MagicPos → UInt8
  | posStart => 0x53
  | posSplit => 0x44
  | posEnd => 0x45

/-- Build an 8-byte magic signature. -/
def tpbRafBuildMagic (ftype : FType) (domain : Domain) (pos : MagicPos) : Bytes :=
  [0xE1, 0x54, 0x50, 0x42, ftype.code ||| domain.code, pos.code, 0x31, 0xE0]

/-- Validate an 8-byte magic signature. -/
def tpbRafValidateMagic (magic : Bytes) (ftype : FType) (domain : Domain)
    (pos : MagicPos) : Bool :=
  magic == tpbRafBuildMagic ftype domain pos

@[simp] theorem length_tpbRafBuildMagic (t : FType) (d : Domain) (p : MagicPos) :
    (tpbRafBuildMagic t d p).length = 8 := rfl

@[simp] theorem tpbRafValidateMagic_self (t : FType) (d : Domain) (p : MagicPos) :
    tpbRafValidateMagic (tpbRafBuildMagic t d p) t d p = true := by
  simp [tpbRafValidateMagic]

/-- A validated signature is the one the builder writes. -/
theorem tpbRafValidateMagic_iff {m : Bytes} {t : FType} {d : Domain} {p : MagicPos} :
    tpbRafValidateMagic m t d p = true ↔ m = tpbRafBuildMagic t d p := by
  simp [tpbRafValidateMagic]

/-- Reading a signature and checking it passes over exactly its eight bytes. -/
theorem reads_magic {β : Type} {g : Unit → FileM β} {cs : Bytes} {b : β} (t : FType)
    (d : Domain) (p : MagicPos) (h : Reads (g ()) cs b) :
    Reads (do let magic ← fread 8; let u ← check (tpbRafValidateMagic magic t d p); g u)
      (tpbRafBuildMagic t d p ++ cs) b :=
  (reads_fread rfl).bind (Reads.checkThen (tpbRafValidateMagic_self t d p) h)

/-! ### The workspace -/

/-- A 20-byte object ID. -/
abbrev Id20 := CArr 20

instance lawfulBEqId20 : LawfulBEq Id20 := inferInstance

/-- An ID of equal bytes. -/
def idOf (b : UInt8) : Id20 := List.Vector.replicate 20 b

/-- The files of a workspace: the `.tpbe` table of a domain, the `.tpbr` record of an
object, the `.tpbr` record of a runtime environment. -/
inductive Path
  | entry (d : Domain)
  | record (d : Domain) (id : Id20)
  | rtenv (id : Int32)
  deriving DecidableEq

/-- A workspace: the content of every file that exists, and the `base_id` key of
`etc/config.json` when it is present. -/
structure Workspace where
  files : Path → Option Bytes
  baseId : Option Int32

/-- The workspace without files. -/
def Workspace.empty : Workspace := ⟨fun _ => none, none⟩

/-- The workspace after one file was written. -/
def Workspace.set (ws : Workspace) (p : Path) (f : Bytes) : Workspace :=
  { ws with files := Function.update ws.files p (some f) }

@[simp] theorem Workspace.set_files_same (ws : Workspace) (p : Path) (f : Bytes) :
    (ws.set p f).files p = some f := by
  simp [Workspace.set]

@[simp] theorem Workspace.set_files_of_ne (ws : Workspace) {p q : Path} (f : Bytes)
    (h : q ≠ p) : (ws.set p f).files q = ws.files q := by
  simp [Workspace.set, Function.update_of_ne h]

@[simp] theorem Workspace.set_set (ws : Workspace) (p : Path) (f g : Bytes) :
    (ws.set p f).set p g = ws.set p g := by
  simp [Workspace.set]

/-- Two files can be written in either order. -/
theorem Workspace.set_comm (ws : Workspace) {p q : Path} {f g : Bytes} (h : p ≠ q) :
    (ws.set p f).set q g = (ws.set q g).set p f := by
  simp only [Workspace.set]
  rw [Function.update_comm h]

/-- Writing back what a file holds changes nothing. -/
theorem Workspace.set_self {ws : Workspace} {p : Path} {f : Bytes}
    (h : ws.files p = some f) : ws.set p f = ws := by
  simp [Workspace.set, ← h]

/-! ### Programs over a workspace -/

/-- Programs over a workspace. The workspace of a failed program is kept: what it wrote
before the failure stays. -/
abbrev WsM := EStateM Err Workspace

/-- `TPB_FAIL`: an error at its origin. -/
def tpbFail {α : Type} (mod : Module) (cause : Cause) : WsM α := fun ws =>
  .error (.code mod cause) ws

/-- A call to which the language gives no meaning. -/
def undefinedCall {α : Type} : WsM α := fun ws => .error .undefined ws

/-- `TPB_PROPAGATE`: the error of a callee is re-encoded with the module of the
caller. -/
def propagate {α : Type} (mod : Module) (m : WsM α) : WsM α := fun ws =>
  match m ws with
  | .ok a ws' => .ok a ws'
  | .error (.code _ .exitOnHelp) ws' => .error (.code .none .exitOnHelp) ws'
  | .error (.code _ cause) ws' => .error (.code mod cause) ws'
  | .error .undefined ws' => .error .undefined ws'

/-- A callee whose failure is answered with an error of the caller's own. -/
def orFail {α : Type} (mod : Module) (cause : Cause) (m : WsM α) : WsM α := fun ws =>
  match m ws with
  | .ok a ws' => .ok a ws'
  | .error (.code _ _) ws' => .error (.code mod cause) ws'
  | .error .undefined ws' => .error .undefined ws'

/-- A callee whose error the caller drops. -/
def ignoring (m : WsM Unit) : WsM Unit := fun ws =>
  match m ws with
  | .ok () ws' => .ok () ws'
  | .error (.code _ _) ws' => .ok () ws'
  | .error .undefined ws' => .error .undefined ws'

theorem ignoring_ok {ws ws' : Workspace} {m : WsM Unit} (h : m ws = .ok () ws') :
    ignoring m ws = .ok () ws' := by
  simp only [ignoring, h]

theorem ignoring_code {ws ws' : Workspace} {m : WsM Unit} {mod : Module} {cause : Cause}
    (h : m ws = .error (.code mod cause) ws') : ignoring m ws = .ok () ws' := by
  simp only [ignoring, h]

/-- The error exit of a function that works on one file: `goto fail` reports an I/O
failure of the module. -/
def Stop.toErr (mod : Module) : Stop → Err
  | .fail => .code mod .fileIoFail
  | .noMemory => .code mod .mallocFail
  | .undefined => .undefined

/-- Open a file for reading and run a program on it. -/
def fopenRead {α : Type} (mod : Module) (p : Path) (m : FileM α) : WsM α := fun ws =>
  match ws.files p with
  | none => .error (.code mod .fileIoFail) ws
  | some f =>
      match m ⟨f, 0⟩ with
      | .ok a _ => .ok a ws
      | .error e _ => .error (Stop.toErr mod e) ws

/-- Open an existing file for update and run a program on it. The bytes written before
an error exit stay in the file. -/
def fopenUpdate {α : Type} (mod : Module) (p : Path) (m : FileM α) : WsM α := fun ws =>
  match ws.files p with
  | none => .error (.code mod .fileIoFail) ws
  | some f =>
      match m ⟨f, 0⟩ with
      | .ok a s => .ok a (ws.set p s.content)
      | .error e s => .error (Stop.toErr mod e) (ws.set p s.content)

/-- Open a file for update, creating it when it does not exist, and run a program on
it. -/
def fopenCreate {α : Type} (mod : Module) (p : Path) (m : FileM α) : WsM α := fun ws =>
  match m ⟨(ws.files p).getD [], 0⟩ with
  | .ok a s => .ok a (ws.set p s.content)
  | .error e s => .error (Stop.toErr mod e) (ws.set p s.content)

/-- Open a file for writing, which empties it, and write its whole content. -/
def fopenWrite (p : Path) (f : Bytes) : WsM Unit := fun ws => .ok () (ws.set p f)

@[simp] theorem propagate_eq_ok {α : Type} {mod : Module} {m : WsM α} {ws ws' : Workspace}
    {a : α} : propagate mod m ws = .ok a ws' ↔ m ws = .ok a ws' := by
  unfold propagate
  split <;> simp_all

/-- An error that was propagated came from an error in the same state. -/
theorem propagate_eq_error {α : Type} {mod : Module} {m : WsM α} {ws ws' : Workspace}
    {e : Err} (h : propagate mod m ws = .error e ws') : ∃ e', m ws = .error e' ws' := by
  unfold propagate at h
  split at h
  · cases h
  · rename_i heq
    cases h
    exact ⟨_, heq⟩
  · rename_i heq
    cases h
    exact ⟨_, heq⟩
  · rename_i heq
    cases h
    exact ⟨_, heq⟩

@[simp] theorem orFail_eq_ok {α : Type} {mod : Module} {cause : Cause} {m : WsM α}
    {ws ws' : Workspace} {a : α} :
    orFail mod cause m ws = .ok a ws' ↔ m ws = .ok a ws' := by
  unfold orFail
  split <;> simp_all

theorem fopenRead_ok {α : Type} {mod : Module} {p : Path} {m : FileM α} {ws : Workspace}
    {f : Bytes} {a : α} {s : Stream} (hf : ws.files p = some f) (hm : m ⟨f, 0⟩ = .ok a s) :
    fopenRead mod p m ws = .ok a ws := by
  simp [fopenRead, hf, hm]

/-- A successful read found the file, and left the workspace as it was. -/
theorem fopenRead_eq_ok {α : Type} {mod : Module} {p : Path} {m : FileM α}
    {ws ws' : Workspace} {a : α} (h : fopenRead mod p m ws = .ok a ws') :
    ws' = ws ∧ ∃ f s, ws.files p = some f ∧ m ⟨f, 0⟩ = .ok a s := by
  simp only [fopenRead] at h
  split at h
  · cases h
  · rename_i f hf
    split at h
    · rename_i b s hm
      cases h
      exact ⟨rfl, f, s, hf, hm⟩
    · cases h

/-- A failed read leaves the workspace as it was, too. -/
theorem fopenRead_eq_error {α : Type} {mod : Module} {p : Path} {m : FileM α}
    {ws ws' : Workspace} {e : Err} (h : fopenRead mod p m ws = .error e ws') : ws' = ws := by
  simp only [fopenRead] at h
  split at h
  · cases h
    rfl
  · split at h
    · cases h
    · cases h
      rfl

theorem fopenUpdate_ok {α : Type} {mod : Module} {p : Path} {m : FileM α} {ws : Workspace}
    {f : Bytes} {a : α} {s : Stream} (hf : ws.files p = some f) (hm : m ⟨f, 0⟩ = .ok a s) :
    fopenUpdate mod p m ws = .ok a (ws.set p s.content) := by
  simp [fopenUpdate, hf, hm]

theorem fopenCreate_ok {α : Type} {mod : Module} {p : Path} {m : FileM α} {ws : Workspace}
    {f : Bytes} {a : α} {s : Stream} (hf : (ws.files p).getD [] = f)
    (hm : m ⟨f, 0⟩ = .ok a s) : fopenCreate mod p m ws = .ok a (ws.set p s.content) := by
  simp [fopenCreate, hf, hm]

theorem fopenCreate_error {α : Type} (mod : Module) {p : Path} {m : FileM α}
    {ws : Workspace} {f : Bytes} {e : Stop} {s : Stream} (hf : (ws.files p).getD [] = f)
    (hm : m ⟨f, 0⟩ = .error e s) :
    fopenCreate mod p m ws = .error (Stop.toErr mod e) (ws.set p s.content) := by
  simp [fopenCreate, hf, hm]

/-- A successful update found the file, and wrote no other. -/
theorem fopenUpdate_eq_ok {α : Type} {mod : Module} {p : Path} {m : FileM α}
    {ws ws' : Workspace} {a : α} (h : fopenUpdate mod p m ws = .ok a ws') :
    ∃ f s, ws.files p = some f ∧ m ⟨f, 0⟩ = .ok a s ∧ ws' = ws.set p s.content := by
  simp only [fopenUpdate] at h
  split at h
  · cases h
  · rename_i f hf
    split at h
    · rename_i b s hm
      cases h
      exact ⟨f, s, hf, hm, rfl⟩
    · cases h

end TPBench
