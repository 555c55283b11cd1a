import TPBench.Capped
import TPBench.Rtenv.Create

/-!
# Merging the Record of a Runtime Environment

The applications and variables of a runtime environment are those of its ancestors and its
own, where a later one replaces an earlier one of the same name. They are collected in a
structure with a fixed number of slots, record by record. The code of this exists twice, in
the core library and in the command line tool. The two copies of the functions of this
module differ in the number of slots for variables only, which is a parameter here.

A record names its contents through its headers: the applications stand in a table, and
every header named `key[i]` declares a variable whose other parts are found by the names
`value[i]`, `on_set[i]` and `on_get[i]`. Positions in the payload are sums of header sizes,
and no read is checked against the size of the payload.

`sfMergeRecordDelta_within` compares the two copies. What the
copies make of records as they are written is the subject of the module `Written`.
-/

open CFile Capped

namespace TPBench

/-! ### The merged structure -/

/-- An application: three strings. -/
structure MergedApp where
  name : Bytes
  version : Bytes
  note : Bytes
  deriving DecidableEq

/-- The contents of a `tpb_rtenv_merged_t` or a `tpbcli_rtenv_merged_t`: the strings in the
slots in use. -/
structure Merged where
  apps : List MergedApp
  vars : List EnvVar
  deriving DecidableEq

/-- What a `snprintf` of a string leaves in a buffer of `n` bytes. -/
def cut (n : ℕ) (s : Bytes) : Bytes := s.take (n - 1)

/-- Follow a pointer. -/
def deref {α : Type} : Option α → WsM α
  | some a => pure a
  | none => undefinedCall

/-- `_sf_merge_add_app`. -/
def sfMergeAddApp (name version note : Option Bytes) (out : Merged) : WsM Merged := do
  let name ← deref name
  match out.apps.findIdx? (·.name = name) with
  | some i =>
      let version ← deref version
      let note ← deref note
      return { out with apps := out.apps.modify i fun a =>
        { a with version := cut 64 version, note := cut 64 note } }
  | none =>
      if 32 ≤ out.apps.length then tpbFail .none .cliFail else
      let version ← deref version
      let note ← deref note
      return { out with apps := out.apps ++ [⟨cut 64 name, cut 64 version, cut 64 note⟩] }

/-- `_sf_merge_add_var`, with `maxVar` slots. -/
def sfMergeAddVar (maxVar : ℕ) (key value : Option Bytes) (onSet onGet : UInt32)
    (out : Merged) : WsM Merged := do
  let key ← deref key
  match out.vars.findIdx? (·.key = key) with
  | some i =>
      let value ← deref value
      return { out with vars := out.vars.modify i fun x =>
        { x with value := cut 4096 value, onSet, onGet } }
  | none =>
      if maxVar ≤ out.vars.length then tpbFail .none .cliFail else
      let value ← deref value
      return { out with vars := out.vars ++ [⟨cut 256 key, cut 4096 value, onSet, onGet⟩] }

/-! ### The record -/

/-- `_sf_hdr_payload_off`. -/
def sfHdrPayloadOff (hdrs : List MetaHeader) (idx : ℕ) : ℕ :=
  (sfHeaderDataOffset hdrs idx).toNat

/-- How often a loop up to `(int)n` runs. -/
def intCount (n : UInt32) : ℕ := if n.toNat ≤ intMax then n.toNat else 0

/-- The name that `snprintf` prints for a part of variable number `i`. -/
def VarField.nameOf (f : VarField) (i : ℤ) : Bytes :=
  f.word ++ ascii ['['] ++ formatInt i ++ ascii [']']

/-- The loop over the rows of an application table at position `base`. The offset of a row
is an `int`. -/
def mergeApps (data : Bytes) (base napp : ℕ) (out : Merged) : WsM Merged :=
  (List.range napp).foldlM (fun out a =>
    if intMax < a * 3 * 64 then undefinedCall else
    sfMergeAddApp (strAt data (base + a * 3 * 64)) (strAt data (base + a * 3 * 64 + 64))
      (strAt data (base + a * 3 * 64 + 128)) out) out

/-- The parts of a variable besides its key. -/
structure VarParts where
  value : Option Bytes
  onSet : UInt32
  onGet : UInt32

/-- One round of the inner loop, which looks for the parts of variable number `i`, at header
`h.1` with the number `h.2`. -/
def partsStep (hdrs : List MetaHeader) (data : Bytes) (i : ℤ) (x : VarParts)
    (h : MetaHeader × ℕ) : WsM VarParts :=
  if cstr h.1.name.toList = VarField.nameOf .value i then
    return { x with value := strAt data (sfHdrPayloadOff hdrs h.2) }
  else if cstr h.1.name.toList = VarField.nameOf .onSet i ∧ 4 ≤ h.1.dataSize then do
    let onSet ← deref (u32At data (sfHdrPayloadOff hdrs h.2))
    return { x with onSet }
  else if cstr h.1.name.toList = VarField.nameOf .onGet i ∧ 4 ≤ h.1.dataSize then do
    let onGet ← deref (u32At data (sfHdrPayloadOff hdrs h.2))
    return { x with onGet }
  else return x

/-- The inner loop over the headers. -/
def findParts (hdrs : List MetaHeader) (data : Bytes) (i : ℤ) : WsM VarParts :=
  hdrs.zipIdx.foldlM (partsStep hdrs data i) ⟨some [], 0, 0⟩

/-- One round of the loop over the headers that merges the variables. -/
def varStep (maxVar : ℕ) (hdrs : List MetaHeader) (data : Bytes) (out : Merged)
    (h : MetaHeader × ℕ) : WsM Merged :=
  if h.1.name.toList.take 4 = VarField.word .key ++ ascii ['['] ∧ data ≠ [] then do
    let i ← deref (atoi (h.1.name.toList.drop 4))
    let x ← findParts hdrs data i
    sfMergeAddVar maxVar (strAt data (sfHdrPayloadOff hdrs h.2)) x.value x.onSet x.onGet out
  else return out

/-- One round of the loop over the headers that merges the applications. -/
def appStep (hdrs : List MetaHeader) (data : Bytes) (napp : UInt32) (out : Merged)
    (h : MetaHeader × ℕ) : WsM Merged :=
  if cstr h.1.name.toList = applicationName ∧ data ≠ [] ∧ 0 < napp then
    mergeApps data (sfHdrPayloadOff hdrs h.2) (intCount napp) out
  else return out

/-- The two loops of `_sf_merge_record_delta`, on a record that was read. -/
def mergeView (maxVar : ℕ) (v : RecordView RtenvAttr) (out : Merged) : WsM Merged := do
  let hdrs := v.headers.take (intCount v.attr.nheader)
  let out ← hdrs.zipIdx.foldlM (appStep hdrs v.data v.attr.napp) out
  hdrs.zipIdx.foldlM (varStep maxVar hdrs v.data) out

/-- `_sf_merge_record_delta`. -/
def sfMergeRecordDelta (maxVar : ℕ) (id : Int32) (out : Merged) : WsM Merged := do
  let v ← tpbRafRecordReadRtenv id
  mergeView maxVar v out

/-! ### Two numbers of slots -/

/-- The number of variables. -/
def Merged.nenv (m : Merged) : ℕ := m.vars.length

section Slots

variable {k k' : ℕ}

/-- Applications take no slot for a variable. -/
theorem sfMergeAddApp_nenv {name version note : Option Bytes} {a b : Merged}
    {ws ws' : Workspace} (h : sfMergeAddApp name version note a ws = .ok b ws') :
    b.nenv = a.nenv := by
  obtain ⟨name, ws₁, -, h⟩ := bind_eq_ok.mp h
  rcases hfind : a.apps.findIdx? (·.name = name) with - | i
  · simp only [hfind] at h
    split at h
    · cases h
    · obtain ⟨version, ws₂, -, h⟩ := bind_eq_ok.mp h
      obtain ⟨note, ws₃, -, h⟩ := bind_eq_ok.mp h
      cases h
      rfl
  · simp only [hfind] at h
    obtain ⟨version, ws₂, -, h⟩ := bind_eq_ok.mp h
    obtain ⟨note, ws₃, -, h⟩ := bind_eq_ok.mp h
    cases h
    rfl

/-- With fewer slots, a new variable finds no slot earlier. -/
theorem sfMergeAddVar_within (hk : k ≤ k') (key value : Option Bytes) (onSet onGet : UInt32)
    (out : Merged) :
    Within Merged.nenv k (.code .none .cliFail) out.nenv
      (sfMergeAddVar k key value onSet onGet out)
      (sfMergeAddVar k' key value onSet onGet out) := by
  refine Within.after (fun _ _ _ => Iff.rfl) fun key => ?_
  rcases hfind : out.vars.findIdx? (·.key = key) with - | i
  · simp only [hfind]
    refine Within.slot hk (fun _ => rfl) ?_
    intro ws b ws' h
    obtain ⟨value, ws₁, -, h⟩ := bind_eq_ok.mp h
    cases h
    simp [Merged.nenv]
  · simp only [hfind]
    refine Within.refl ?_
    intro ws b ws' h
    obtain ⟨value, ws₁, -, h⟩ := bind_eq_ok.mp h
    cases h
    simp [Merged.nenv]

theorem mergeView_within (hk : k ≤ k') (v : RecordView RtenvAttr) (out : Merged) :
    Within Merged.nenv k (.code .none .cliFail) out.nenv (mergeView k v out)
      (mergeView k' v out) := by
  refine Within.bind (Within.foldlM ?_ _ out) ?_
  · intro out h
    refine Within.ite (Within.foldlM ?_ _ out) (.pure out)
    intro out a
    refine .refl ?_
    intro ws b ws' hok
    split at hok
    · cases hok
    · exact sfMergeAddApp_nenv hok
  · refine Within.foldlM ?_ _
    intro out h
    refine Within.ite (Within.after (fun _ _ _ => Iff.rfl) fun i =>
      Within.after (fun _ _ _ => Iff.rfl) fun x => ?_) (.pure out)
    exact sfMergeAddVar_within hk _ _ _ _ out

/-- **One record in the two copies**: with fewer slots, merging a record succeeds exactly
when the result of the other copy fits. -/
theorem sfMergeRecordDelta_within (hk : k ≤ k') (id : Int32) (out : Merged) :
    Within Merged.nenv k (.code .none .cliFail) out.nenv (sfMergeRecordDelta k id out)
      (sfMergeRecordDelta k' id out) :=
  Within.after (fun _ _ _ => Iff.rfl) fun v => mergeView_within hk v out

end Slots

end TPBench
