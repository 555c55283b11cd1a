import TPBench.Rtenv.NewArgv
import TPBench.Rtenv.Stored

/-!
# Room for a Payload

`tpbcli_rtenv_write_record` assembles the payload of a record in an array of 65536 bytes. The
table of the applications comes first, and behind it, for each variable, its key and its value
with their terminators and two numbers. Nothing compares the offset with the size of the array:
the limits are those of the settings, 32 applications and 128 variables of up to 4351 bytes.

`RtenvSpec.payloadWrites` lists what is written where. All of it is inside the array exactly when
the strings are short enough in total (`payloadInside_iff`), and there are command lines with 17
variables for which it is not.
-/

open CFile

namespace TPBench

/-! ### The writes -/

/-- A write into an array. -/
structure ArrayWrite where
  off : ℕ
  len : ℕ

/-- The size of the array for the payload. -/
def payloadRoom : ℕ := 65536

/-- What `snprintf(buf, 64, "%s", s)` writes. -/
def cellSize (s : CArr 64) : ℕ := min (cstr s.toList).length 63 + 1

/-- The strings of the application in row `i`. -/
def rowWrites (a : RtenvApp) (i : ℕ) : List ArrayWrite :=
  [⟨i * 3 * 64, cellSize a.name⟩, ⟨i * 3 * 64 + 64, cellSize a.version⟩,
    ⟨i * 3 * 64 + 128, cellSize a.note⟩]

/-- The table of the applications, which is cleared first. -/
def tableWrites (apps : List RtenvApp) : List ArrayWrite :=
  ⟨0, apps.length * 3 * 64⟩ :: apps.zipIdx.flatMap fun x => rowWrites x.1 x.2

/-- `klen` and `vlen`. -/
def strSize {n : ℕ} (s : CArr n) : ℕ := (cstr s.toList).length + 1

/-- The loop over the variables, which starts at `off`: the writes, and the offset it ends with. -/
def varsWrites : ℕ → List RtenvVar → List ArrayWrite × ℕ
  | off, [] => ([], off)
  | off, v :: vs =>
      let klen := strSize v.key
      let vlen := strSize v.value
      let rest := varsWrites (off + klen + vlen + 4 + 4) vs
      (⟨off, klen⟩ :: ⟨off + klen, vlen⟩ :: ⟨off + klen + vlen, 4⟩ ::
        ⟨off + klen + vlen + 4, 4⟩ :: rest.1, rest.2)

/-- The writes into the array. -/
def RtenvSpec.payloadWrites (spec : RtenvSpec) : List ArrayWrite :=
  tableWrites spec.apps ++ (varsWrites (spec.apps.length * 3 * 64) spec.vars).1

/-- The offset in the end, which is the length of the payload (`length_payload_eq`). -/
def RtenvSpec.payloadEnd (spec : RtenvSpec) : ℕ :=
  (varsWrites (spec.apps.length * 3 * 64) spec.vars).2

/-- No write leaves the array, and the offset in the end does not either. -/
def PayloadInside (spec : RtenvSpec) : Prop :=
  (∀ w ∈ spec.payloadWrites, w.off + w.len ≤ payloadRoom) ∧ spec.payloadEnd ≤ payloadRoom

/-! ### When they are inside -/

/-- The bytes that a variable takes. -/
def varRoom (v : RtenvVar) : ℕ :=
  (cstr v.key.toList).length + (cstr v.value.toList).length + 10

section Room

variable {spec : RtenvSpec}

/-- The offset grows by what the variables take. -/
theorem snd_varsWrites (off : ℕ) (vars : List RtenvVar) :
    (varsWrites off vars).2 = off + (vars.map varRoom).sum := by
  induction vars generalizing off with
  | nil => rfl
  | cons v vs ih =>
      rw [varsWrites, List.map_cons, List.sum_cons, varRoom]
      simp only [ih, strSize]
      omega

/-- No write of the loop is behind the offset it ends with. -/
theorem le_of_mem_varsWrites {off : ℕ} {vars : List RtenvVar} {w : ArrayWrite}
    (hw : w ∈ (varsWrites off vars).1) : w.off + w.len ≤ (varsWrites off vars).2 := by
  induction vars generalizing off with
  | nil => cases hw
  | cons v vs ih =>
      have hend := snd_varsWrites (off + strSize v.key + strSize v.value + 4 + 4) vs
      simp only [varsWrites, List.mem_cons] at hw ⊢
      rcases hw with rfl | rfl | rfl | rfl | hw
      · simp only
        omega
      · simp only
        omega
      · simp only
        omega
      · simp only
        omega
      · exact ih hw

/-- The table ends where the loop over the variables starts. -/
theorem le_of_mem_tableWrites {apps : List RtenvApp} {w : ArrayWrite}
    (hw : w ∈ tableWrites apps) : w.off + w.len ≤ apps.length * 3 * 64 := by
  have hcell : ∀ s : CArr 64, cellSize s ≤ 64 := by
    intro s
    rw [cellSize]
    omega
  rw [tableWrites, List.mem_cons, List.mem_flatMap] at hw
  rcases hw with rfl | ⟨x, hx, hw⟩
  · simp only
    omega
  · have hlt := List.snd_lt_of_mem_zipIdx hx
    simp only [rowWrites, List.mem_cons, List.not_mem_nil, or_false] at hw
    rcases hw with rfl | rfl | rfl
    · have := hcell x.1.name
      simp only
      omega
    · have := hcell x.1.version
      simp only
      omega
    · have := hcell x.1.note
      simp only
      omega

/-- The offset in the end is the length of the payload. -/
theorem length_payload_eq (spec : RtenvSpec) : spec.payload.length = spec.payloadEnd := by
  have happs : (spec.apps.flatMap RtenvApp.payload).length = spec.apps.length * 3 * 64 := by
    induction spec.apps with
    | nil => rfl
    | cons a apps ih =>
        rw [List.flatMap_cons, List.length_append, ih, List.length_cons]
        simp [RtenvApp.payload]
        omega
  have hvars : ((spec.vars.map RtenvVar.envVar).flatMap varPayload).length =
      (spec.vars.map varRoom).sum := by
    induction spec.vars with
    | nil => rfl
    | cons v vs ih =>
        rw [List.map_cons, List.flatMap_cons, List.length_append, ih, List.map_cons,
          List.sum_cons]
        simp [varPayload, RtenvVar.envVar, varRoom]
        omega
  rw [RtenvSpec.payload, List.length_append, happs, hvars, RtenvSpec.payloadEnd, snd_varsWrites]

/-- Everything is inside when the end is. -/
theorem payloadInside_iff_end : PayloadInside spec ↔ spec.payloadEnd ≤ payloadRoom := by
  refine ⟨fun h => h.2, fun hend => ⟨fun w hw => ?_, hend⟩⟩
  have hgrow := snd_varsWrites (spec.apps.length * 3 * 64) spec.vars
  rw [RtenvSpec.payloadEnd] at hend
  rcases List.mem_append.mp hw with hw | hw
  · have := le_of_mem_tableWrites hw
    omega
  · have := le_of_mem_varsWrites hw
    omega

end Room

/-- **The room of the payload.** Whatever the settings: the writes stay inside the array exactly
when 192 bytes for each application, and for each variable ten bytes and those of its strings, come
to no more than its size. -/
theorem payloadInside_iff (spec : RtenvSpec) :
    PayloadInside spec ↔ 192 * spec.apps.length + (spec.vars.map fun v =>
      (cstr v.key.toList).length + (cstr v.value.toList).length + 10).sum ≤ 65536 := by
  rw [payloadInside_iff_end, RtenvSpec.payloadEnd, snd_varsWrites, payloadRoom]
  change spec.apps.length * 3 * 64 + (spec.vars.map varRoom).sum ≤ 65536 ↔
    192 * spec.apps.length + (spec.vars.map varRoom).sum ≤ 65536
  omega

/-- A variable with the key `A` and a value of 4000 bytes. -/
def bulkyVar : Bytes × Bytes := ([65], List.replicate 4000 118)

/-- The command line of `tpbcli rtenv new -n e` with 17 such variables. -/
def longArgv : List Bytes :=
  [ascii "tpbcli".toList, ascii "rtenv".toList, ascii "new".toList, ascii "-n".toList, [101]] ++
    (List.replicate 17 bulkyVar).flatMap varArgs

theorem varRoom_bulkyVar : varRoom (overwrittenVar bulkyVar) = 4011 := by
  have hkey : cstr (overwrittenVar bulkyVar).key.toList = [65] :=
    cstr_snprintfS (by decide) (by decide)
  have hvalue : cstr (overwrittenVar bulkyVar).value.toList = List.replicate 4000 118 := by
    refine cstr_snprintfS ?_ ?_
    · intro h
      cases List.eq_of_mem_replicate h
    · change (List.replicate 4000 (118 : UInt8)).length < 4096
      rw [List.length_replicate]
      omega
  rw [varRoom, hkey, hvalue, List.length_replicate]
  rfl

/-- The settings of this command line do not have room. -/
theorem longArgv_leaves_room :
    ∃ args, sfParseNewArgv longArgv = .ok args ∧ ¬PayloadInside args.settings.toRtenvSpec := by
  have hkeys : ∀ v ∈ List.replicate 17 bulkyVar, cstr v.1 ≠ [] := by
    intro v hv
    obtain rfl := List.eq_of_mem_replicate hv
    exact List.cons_ne_nil _ _
  obtain ⟨args, hrun, happs, hvars⟩ := sfParseNewArgs_varArgs hkeys
    { NewArgs.start with settings.envName := snprintfS 256 [101] } (by decide)
  have hname : plainOption (ascii "-n".toList) =
      some fun v st => { st with settings.envName := snprintfS 256 v } := rfl
  have hstart : sfParseNewArgv longArgv = .ok args := by
    rw [← hrun]
    exact sfParseNewArgs_plain hname
  refine ⟨args, hstart, fun hinside => ?_⟩
  have hnone : args.settings.apps = [] := happs
  have hall : args.settings.vars = List.replicate 17 (overwrittenVar bulkyVar) := by
    rw [hvars, List.map_replicate]
    rfl
  have hend := payloadInside_iff_end.mp hinside
  rw [RtenvSpec.payloadEnd, snd_varsWrites, hnone, hall, List.map_replicate, varRoom_bulkyVar]
    at hend
  revert hend
  decide

end TPBench
