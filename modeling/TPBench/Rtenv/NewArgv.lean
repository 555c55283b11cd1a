import TPBench.Rtenv.Template

/-!
# The Command Line of `rtenv new`

The options of `tpbcli rtenv new` name an environment and declare its applications and
variables. An application or a variable is a block: an option that opens it, and behind it the
options with its fields, up to an option that opens the next block or names a file. Options of
other names are skipped between blocks, and refused in a block.

There is room for 32 applications and 128 variables. A string that is too long for its field is
cut. `sfParseNewArgs_varArgs` says that any list of variables with keys, as long as there is room
for it, can be declared on a command line.
-/

open CFile

namespace TPBench

/-! ### Options -/

/-- `_sf_match_arg`. -/
def sfMatchArg (arg : Bytes) (shortName longName : String) : Bool :=
  arg = ascii shortName.toList ∨ arg = ascii longName.toList

/-- The options that open a block of a variable. -/
def isVarBlock (arg : Bytes) : Bool :=
  sfMatchArg arg "-evo" "--env-var-overwrite" ∨ sfMatchArg arg "-evp" "--env-var-prepend" ∨
    sfMatchArg arg "-eva" "--env-var-append"

/-- `_sf_is_new_block_start`. -/
def sfIsNewBlockStart (arg : Bytes) : Bool :=
  sfMatchArg arg "-app" "--application" ∨ isVarBlock arg ∨ sfMatchArg arg "-o" "--output-file" ∨
    sfMatchArg arg "-f" "--input-file" ∨ arg = ascii "--inherit-from".toList

/-- What `_sf_parse_new_argv` fills. -/
structure NewArgs where
  settings : RtenvSettings
  outFile : Option Bytes
  inFile : Option Bytes
  outputOnly : Bool

/-- What it starts with. -/
def NewArgs.start : NewArgs :=
  ⟨{ RtenvSettings.zero with inheritFrom := -1 }, none, none, false⟩

/-- An option of a block: what its value is stored in. -/
abbrev BlockOption (β : Type) := Bytes → Option (Bytes → β → β)

/-- The options of an application. -/
def appOption : BlockOption RtenvApp := fun opt =>
  if sfMatchArg opt "-n" "--name" then some fun v a => { a with name := snprintfS 64 v }
  else if sfMatchArg opt "-v" "--value" then some fun v a => { a with version := snprintfS 64 v }
  else if sfMatchArg opt "-N" "--note" then some fun v a => { a with note := snprintfS 64 v }
  else none

/-- The options of a variable. -/
def varOption : BlockOption RtenvVar := fun opt =>
  if sfMatchArg opt "-k" "--key" then some fun v x => { x with key := snprintfS 256 v }
  else if sfMatchArg opt "-v" "--value" then some fun v x => { x with value := snprintfS 4096 v }
  else none

/-- The options of a block, and what is left behind it. -/
def parseBlock {β : Type} (option : BlockOption β) :
    List Bytes → β → Except Err (β × List Bytes)
  | [], b => .ok (b, [])
  | opt :: rest, b =>
      if sfIsNewBlockStart opt then .ok (b, opt :: rest)
      else
        match option opt, rest with
        | none, _ => .error (.code .cliRtenv .cliFail)
        | some _, [] => .error (.code .cliRtenv .cliFail)
        | some store, v :: rest' => parseBlock option rest' (store v b)

theorem length_of_parseBlock {β : Type} {option : BlockOption β} {args rest : List Bytes}
    {b b' : β} (hok : parseBlock option args b = .ok (b', rest)) : rest.length ≤ args.length := by
  fun_induction parseBlock option args b with
  | case1 b =>
      cases hok
      exact le_rfl
  | case2 b opt rest' hstart =>
      cases hok
      exact le_rfl
  | case3 =>
      cases hok
  | case4 =>
      cases hok
  | case5 b opt hstart store v rest' hopt ih =>
      have hle := ih hok
      simp only [List.length_cons]
      omega

/-- The mode of a block of a variable. -/
def blockOnSet (arg : Bytes) : UInt32 :=
  if sfMatchArg arg "-evp" "--env-var-prepend" then tpbRtenvOnSetPrepend
  else if sfMatchArg arg "-eva" "--env-var-append" then tpbRtenvOnSetAppend
  else tpbRtenvOnSetOverwrite

/-- The end of a block of an application. -/
def NewArgs.addApp (st : NewArgs) (a : RtenvApp) : Except Err NewArgs :=
  if cstr a.name.toList = [] then .error (.code .cliRtenv .cliFail)
  else
    match st.settings.addApp (.of a.name.toList a.version.toList a.note.toList) with
    | none => .error (.code .cliRtenv .cliFail)
    | some s => .ok { st with settings := s }

/-- The end of a block of a variable. -/
def NewArgs.addVar (st : NewArgs) (x : RtenvVar) : Except Err NewArgs :=
  if cstr x.key.toList = [] then .error (.code .cliRtenv .cliFail)
  else
    match st.settings.addVar (.of x.key.toList x.value.toList x.onSet x.onGet) with
    | none => .error (.code .cliRtenv .cliFail)
    | some s => .ok { st with settings := s }

/-- What an option with one value is for, outside of blocks. -/
def plainOption (arg : Bytes) : Option (Bytes → NewArgs → NewArgs) :=
  if sfMatchArg arg "-o" "--output-file" then
    some fun v st => { st with outFile := some v, outputOnly := true }
  else if sfMatchArg arg "-f" "--input-file" then some fun v st => { st with inFile := some v }
  else if sfMatchArg arg "-n" "--name" then
    some fun v st => { st with settings.envName := snprintfS 256 v }
  else if sfMatchArg arg "-N" "--note" then
    some fun v st => { st with settings.note := snprintfS 256 v }
  else if arg = ascii "--inherit-from".toList then
    some fun v st => { st with settings := st.settings.inherit v }
  else none

/-- `_sf_parse_new_argv` on the arguments from the third on. -/
def sfParseNewArgs (args : List Bytes) (st : NewArgs) : Except Err NewArgs :=
  match args with
  | [] => .ok st
  | arg :: rest =>
      match plainOption arg, rest with
      | some _, [] => .error (.code .cliRtenv .cliFail)
      | some store, v :: rest' => sfParseNewArgs rest' (store v st)
      | none, rest =>
          if sfMatchArg arg "-app" "--application" then
            match h : parseBlock appOption rest ⟨zeroArr 64, zeroArr 64, zeroArr 64⟩ with
            | .error e => .error e
            | .ok (a, rest') =>
                have := length_of_parseBlock h
                match st.addApp a with
                | .error e => .error e
                | .ok st' => sfParseNewArgs rest' st'
          else if isVarBlock arg then
            match h : parseBlock varOption rest
                ⟨zeroArr 256, zeroArr 4096, blockOnSet arg, tpbRtenvOnGetOverwrite⟩ with
            | .error e => .error e
            | .ok (x, rest') =>
                have := length_of_parseBlock h
                match st.addVar x with
                | .error e => .error e
                | .ok st' => sfParseNewArgs rest' st'
          else sfParseNewArgs rest st
  termination_by args.length

/-- `_sf_parse_new_argv`. -/
def sfParseNewArgv (argv : List Bytes) : Except Err NewArgs :=
  sfParseNewArgs (argv.drop 3) .start

/-! ### Declaring variables -/

/-- The block of a variable that is overwritten. -/
def varArgs (v : Bytes × Bytes) : List Bytes :=
  [ascii "-evo".toList, ascii "-k".toList, v.1, ascii "-v".toList, v.2]

/-- The slot of such a variable. -/
def overwrittenVar (v : Bytes × Bytes) : RtenvVar :=
  .of v.1 v.2 tpbRtenvOnSetOverwrite tpbRtenvOnGetOverwrite

section VarArgs

variable {v : Bytes × Bytes} {vs : List (Bytes × Bytes)}

/-- A block ends where the next one is opened, and at the end of the command line. -/
theorem parseBlock_varArgs (x : RtenvVar) :
    parseBlock varOption (ascii "-k".toList :: v.1 :: ascii "-v".toList :: v.2 ::
        vs.flatMap varArgs) x =
      .ok (⟨snprintfS 256 v.1, snprintfS 4096 v.2, x.onSet, x.onGet⟩, vs.flatMap varArgs) := by
  have hend : ∀ y, parseBlock varOption (vs.flatMap varArgs) y = .ok (y, vs.flatMap varArgs) := by
    intro y
    rcases vs with - | ⟨w, vs⟩
    · rfl
    · rfl
  exact hend _

/-- An option with one value, and what is behind it. -/
theorem sfParseNewArgs_plain {arg v : Bytes} {rest : List Bytes} {st : NewArgs}
    {store : Bytes → NewArgs → NewArgs} (hplain : plainOption arg = some store) :
    sfParseNewArgs (arg :: v :: rest) st = sfParseNewArgs rest (store v st) := by
  rw [sfParseNewArgs.eq_def]
  simp only [hplain]

/-- The block of a variable, and what is behind it. -/
theorem sfParseNewArgs_block {arg : Bytes} {rest rest' : List Bytes} {st st' st'' : NewArgs}
    {x : RtenvVar} (hplain : plainOption arg = none)
    (happ : sfMatchArg arg "-app" "--application" = false) (hvar : isVarBlock arg = true)
    (hblock : parseBlock varOption rest
      ⟨zeroArr 256, zeroArr 4096, blockOnSet arg, tpbRtenvOnGetOverwrite⟩ = .ok (x, rest'))
    (hadd : st.addVar x = .ok st') (hrest : sfParseNewArgs rest' st' = .ok st'') :
    sfParseNewArgs (arg :: rest) st = .ok st'' := by
  rw [sfParseNewArgs]
  · simp only [happ, hvar, Bool.false_eq_true, if_false, if_true]
    split
    · rename_i e he
      cases he.symm.trans hblock
    · rename_i y rest₁ hok
      cases hok.symm.trans hblock
      simp only [hadd, hrest]
  · exact hplain

/-- Variables with keys are declared when there is room for them. -/
theorem sfParseNewArgs_varArgs (hkeys : ∀ v ∈ vs, cstr v.1 ≠ []) (st : NewArgs)
    (hroom : st.settings.vars.length + vs.length ≤ 128) :
    ∃ st', sfParseNewArgs (vs.flatMap varArgs) st = .ok st' ∧
      st'.settings.apps = st.settings.apps ∧
      st'.settings.vars = st.settings.vars ++ vs.map overwrittenVar := by
  induction vs generalizing st with
  | nil => exact ⟨st, by rw [List.flatMap_nil, sfParseNewArgs], rfl, by simp⟩
  | cons v vs ih =>
      rw [List.length_cons] at hroom
      have hkey : cstr (snprintfS 256 v.1).toList ≠ [] := by
        rw [cstr_snprintfS_take (by omega)]
        obtain ⟨b, bs, hb⟩ := List.exists_cons_of_ne_nil (hkeys v (by simp))
        rw [hb]
        exact List.cons_ne_nil _ _
      obtain ⟨st', hrun, happs, hvars⟩ := ih (fun w hw => hkeys w (by simp [hw]))
        { st with settings := ⟨⟨st.settings.apps, st.settings.vars ++ [overwrittenVar v],
            st.settings.napp_le, by rw [List.length_append, List.length_singleton]; omega⟩,
          st.settings.envName, st.settings.note, st.settings.inheritFrom,
          st.settings.hasInherit, st.settings.inheritFromText⟩ }
        (by
          change (st.settings.vars ++ [_]).length + _ ≤ _
          rw [List.length_append, List.length_singleton]
          omega)
      refine ⟨st', ?_, happs, by simp [hvars]⟩
      have hslot : RtenvVar.of (snprintfS 256 v.1).toList (snprintfS 4096 v.2).toList
          tpbRtenvOnSetOverwrite tpbRtenvOnGetOverwrite = overwrittenVar v := by
        rw [RtenvVar.of, snprintfS_snprintfS (by omega), snprintfS_snprintfS (by omega)]
        rfl
      refine sfParseNewArgs_block rfl rfl rfl (parseBlock_varArgs _) ?_ hrun
      rw [NewArgs.addVar, if_neg hkey]
      change (match st.settings.addVar (RtenvVar.of _ _ tpbRtenvOnSetOverwrite
        tpbRtenvOnGetOverwrite) with
        | none => _
        | some s => _) = _
      rw [hslot, RtenvSettings.addVar, dif_pos (by omega)]

end VarArgs

end TPBench
