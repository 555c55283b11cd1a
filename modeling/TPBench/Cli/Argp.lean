import TPBench.Raf.Types

/-!
# The Argument Tree and Its Stack Parser

The subcommands of `tpbcli` describe their command line by a tree of options
(`tpbcli-argp.c`): a node is a subcommand, an option that takes a value or a flag, and
the children of a node are what may follow it. The parser keeps the path from the root to
the node it is in on a stack. A token that names no child of the top is looked for one
level further out, and the parse state of what was left is reset on the way.

The callbacks of the nodes work on a state `σ` of their own, so a parse is a program over
that state. The marks the parser sets on the nodes (`is_set`, `chosen_count`,
`parsed_value`) are kept beside the tree, by the number of the node.

The texts of help and error messages are left out of the model; an error keeps its module
and its cause. A callback that prints help does not work on the state.

## Main definitions

* `ArgNode`: a node with its configuration and its children.
* `findOnStack`: the search for a token from the top of the stack outwards.
* `parseLoop`, `tpbcliParseArgs`: the parser.
-/

open CFile

namespace TPBench

/-! ### Errors of a program over any state -/

section Failing

variable {σ α : Type}

/-- `TPB_FAIL` in a program over any state. -/
def failAt (mod : Module) (cause : Cause) : EStateM Err σ α := fun s =>
  .error (.code mod cause) s

/-- `TPB_PROPAGATE` in a program over any state. -/
def propagateAt (mod : Module) (m : EStateM Err σ α) : EStateM Err σ α := fun s =>
  match m s with
  | .ok a s' => .ok a s'
  | .error e s' => .error (e.propagated mod) s'

/-- A call whose failure the caller answers with an error of its own. -/
def failInstead (mod : Module) (cause : Cause) (m : EStateM Err σ α) : EStateM Err σ α :=
  fun s =>
    match m s with
    | .ok a s' => .ok a s'
    | .error (.code _ _) s' => .error (.code mod cause) s'
    | .error .undefined s' => .error .undefined s'

@[simp] theorem failAt_ne_ok {mod : Module} {cause : Cause} {s s' : σ} {a : α} :
    failAt mod cause s ≠ .ok a s' := by
  simp [failAt]

@[simp] theorem propagateAt_eq_ok {mod : Module} {m : EStateM Err σ α} {s s' : σ} {a : α} :
    propagateAt mod m s = .ok a s' ↔ m s = .ok a s' := by
  unfold propagateAt
  split <;> simp_all

@[simp] theorem failInstead_eq_ok {mod : Module} {cause : Cause} {m : EStateM Err σ α}
    {s s' : σ} {a : α} : failInstead mod cause m s = .ok a s' ↔ m s = .ok a s' := by
  unfold failInstead
  split <;> simp_all

end Failing

/-! ### The tree -/

/-- `tpbcli_arg_type_t`. -/
inductive ArgType
  | cmd
  | opt
  | flag
  deriving DecidableEq, Repr

/-- `tpbcli_argconf_t`: the configuration of a node, with the bits of its `flags` as
fields. A callback gets the value of an option, and none for a flag. -/
structure ArgConf (σ : Type) where
  name : Bytes
  shortName : Option Bytes
  type : ArgType
  exclusive : Bool
  mandatory : Bool
  preset : Bool
  delegateSubcmd : Bool
  maxChosen : ℤ
  parseFn : Option (Option Bytes → EStateM Err σ Unit)
  hasHelpFn : Bool
  conflictOpts : List Bytes

/-- The configuration of a root, which has the name of the program: a subcommand that can be
chosen once. -/
def rootConf {σ : Type} (progName : Bytes) : ArgConf σ where
  name := progName
  shortName := none
  type := .cmd
  exclusive := false
  mandatory := false
  preset := false
  delegateSubcmd := false
  maxChosen := 1
  parseFn := none
  hasHelpFn := false
  conflictOpts := []

/-- `tpbcli_argnode_t` without its parse state, which is kept by the number of the
node. -/
inductive ArgNode (σ : Type)
  | node (id : ℕ) (conf : ArgConf σ) (children : List (ArgNode σ))

namespace ArgNode

variable {σ : Type}

/-- The number of a node, which stands for its address. -/
def id : ArgNode σ → ℕ
  | node i _ _ => i

/-- The configuration of a node. -/
def conf : ArgNode σ → ArgConf σ
  | node _ c _ => c

/-- The children of a node in the order in which they were added. -/
def children : ArgNode σ → List (ArgNode σ)
  | node _ _ cs => cs

@[simp] theorem id_node (i : ℕ) (c : ArgConf σ) (cs : List (ArgNode σ)) :
    (node i c cs).id = i := rfl

@[simp] theorem conf_node (i : ℕ) (c : ArgConf σ) (cs : List (ArgNode σ)) :
    (node i c cs).conf = c := rfl

@[simp] theorem children_node (i : ℕ) (c : ArgConf σ) (cs : List (ArgNode σ)) :
    (node i c cs).children = cs := rfl

mutual

/-- The numbers of a node and of everything below it. -/
def ids : ArgNode σ → List ℕ
  | node i _ cs => i :: idsOf cs

/-- The numbers of a list of nodes and of everything below them. -/
def idsOf : List (ArgNode σ) → List ℕ
  | [] => []
  | c :: cs => ids c ++ idsOf cs

end

/-- A token names a node by its name or by its short name. -/
def named (n : ArgNode σ) (token : Bytes) : Bool :=
  n.conf.name = token ∨ n.conf.shortName = some token

end ArgNode

/-- What a parse records about a node. -/
structure NodeState where
  isSet : Bool
  chosenCount : ℕ
  parsedValue : Option Bytes
  deriving DecidableEq, Repr

/-- A node that was not chosen. -/
def NodeState.fresh : NodeState := ⟨false, 0, none⟩

/-- The parse state of all nodes of a tree. -/
abbrev NodeStates := ℕ → NodeState

variable {σ : Type}

/-- `_sf_reset_parse_state`. -/
def sfResetParseState (node : ArgNode σ) (st : NodeStates) : NodeStates := fun i =>
  if i ∈ node.ids then .fresh else st i

/-- What popping a node does to the parse state: everything below it is reset. -/
def resetChildren (node : ArgNode σ) (st : NodeStates) : NodeStates := fun i =>
  if i ∈ ArgNode.idsOf node.children then .fresh else st i

/-- A node was chosen once more. -/
def NodeStates.choose (st : NodeStates) (node : ArgNode σ) : NodeStates :=
  Function.update st node.id
    { st node.id with isSet := true, chosenCount := (st node.id).chosenCount + 1 }

/-- An option was chosen once more, with a value. -/
def NodeStates.chooseValue (st : NodeStates) (node : ArgNode σ) (value : Bytes) : NodeStates :=
  Function.update st node.id
    { isSet := true, chosenCount := (st node.id).chosenCount + 1, parsedValue := some value }

/-! ### Lookup and validation -/

/-- `_sf_find_child`. -/
def sfFindChild (parent : ArgNode σ) (token : Bytes) : Option (ArgNode σ) :=
  parent.children.find? (·.named token)

/-- `_sf_find_child_by_name`. -/
def sfFindChildByName (parent : ArgNode σ) (name : Bytes) : Option (ArgNode σ) :=
  parent.children.find? (·.conf.name = name)

/-- `_sf_find_max_chosen_zero_child`. -/
def sfFindMaxChosenZeroChild (opt : ArgNode σ) (token : Bytes) : Option (ArgNode σ) :=
  opt.children.find? fun c => c.conf.maxChosen = 0 ∧ c.named token

/-- `_sf_sibling_exclusive_conflict`. -/
def sfSiblingExclusiveConflict (st : NodeStates) (parent «match» : ArgNode σ) :
    Option (ArgNode σ) :=
  parent.children.find? fun s =>
    s.id ≠ «match».id ∧ (st s.id).isSet ∧ («match».conf.exclusive ∨ s.conf.exclusive)

/-- `_sf_sibling_conflict_opts_hit`. -/
def sfSiblingConflictOptsHit (st : NodeStates) (parent «match» : ArgNode σ) :
    Option (ArgNode σ) :=
  «match».conf.conflictOpts.findSome? fun nm =>
    (sfFindChildByName parent nm).filter fun other => (st other.id).isSet

/-- `_sf_validate_pre_increment`: may the node be chosen once more? -/
def sfValidatePreIncrement (st : NodeStates) (parent «match» : ArgNode σ) :
    EStateM Err σ Unit :=
  if (sfSiblingExclusiveConflict st parent «match»).isSome then failAt .cliMisc .cliFail
  else if (sfSiblingConflictOptsHit st parent «match»).isSome then failAt .cliMisc .cliFail
  else if «match».conf.maxChosen = 0 then
    if «match».conf.hasHelpFn then failAt .none .exitOnHelp else failAt .cliMisc .cliFail
  else if 0 < «match».conf.maxChosen ∧ «match».conf.maxChosen ≤ (st «match».id).chosenCount then
    failAt .cliMisc .cliFail
  else pure ()

mutual

/-- `_sf_resolve_conflict_opts_validate` below the root: every name in the list of
conflicts of a node is the name of a sibling. -/
def conflictOptsValid (parent : ArgNode σ) : ArgNode σ → Bool
  | .node i conf cs =>
      (conf.conflictOpts.all fun nm => (sfFindChildByName parent nm).isSome) &&
        conflictOptsValidList (.node i conf cs) cs

/-- The same for a list of siblings. -/
def conflictOptsValidList (parent : ArgNode σ) : List (ArgNode σ) → Bool
  | [] => true
  | c :: cs => conflictOptsValid parent c && conflictOptsValidList parent cs

end

/-- `_sf_resolve_conflict_opts_validate` on the root, which has no siblings. -/
def sfResolveConflictOptsValidate (root : ArgNode σ) : Bool :=
  root.conf.conflictOpts.isEmpty && conflictOptsValidList root root.children

/-! ### The parser -/

/-- `TPBCLI_ARGP_STACK_MAX`. -/
def argpStackMax : ℕ := 128

/-- The search for a token from the top of the stack outwards: the node it names with the
stack and the parse state after the pops. The root is not popped. -/
def findOnStack (token : Bytes) :
    List (ArgNode σ) → NodeStates → Option (ArgNode σ × List (ArgNode σ) × NodeStates)
  | [], _ => none
  | top :: below, st =>
      match sfFindChild top token with
      | some node => some (node, top :: below, st)
      | none => if below = [] then none else findOnStack token below (resetChildren top st)

/-- A callback of a node, whose failure is a failure of the parse. -/
def callParseFn (node : ArgNode σ) (value : Option Bytes) : EStateM Err σ Unit :=
  match node.conf.parseFn with
  | some f => failInstead .cliMisc .cliFail (f value)
  | none => pure ()

/-- The stack with one more node on top. -/
def pushNode (node : ArgNode σ) (stack : List (ArgNode σ)) :
    EStateM Err σ (List (ArgNode σ)) :=
  if argpStackMax ≤ stack.length then failAt .cliMisc .cliFail else pure (node :: stack)

/-- The stack after an option: a node without children is not entered. -/
def enterOpt (node : ArgNode σ) (stack : List (ArgNode σ)) :
    EStateM Err σ (List (ArgNode σ)) :=
  if node.children = [] then pure stack else pushNode node stack

/-- The loop of `tpbcli_parse_args` over the tokens of the command line, with the top of
the stack at the front of the list. -/
def parseLoop :
    List Bytes → List (ArgNode σ) → NodeStates →
      EStateM Err σ (List (ArgNode σ) × NodeStates)
  | [], stack, st => pure (stack, st)
  | tok :: rest, stack, st =>
      match findOnStack tok stack st with
      | none => failAt .cliMisc .cliFail
      | some (_, [], _) => failAt .cliMisc .cliFail
      | some (node, top :: below, st) => do
          propagateAt .cliMisc (sfValidatePreIncrement st top node)
          match node.conf.type with
          | .cmd =>
              let stack ← pushNode node (top :: below)
              if node.conf.delegateSubcmd then pure (stack, st.choose node)
              else parseLoop rest stack (st.choose node)
          | .flag =>
              callParseFn node none
              parseLoop rest (top :: below) (st.choose node)
          | .opt =>
              match rest with
              | [] => failAt .cliMisc .cliFail
              | value :: rest =>
                  match sfFindMaxChosenZeroChild node value with
                  | some hchild =>
                      if hchild.conf.parseFn.isSome then do
                        callParseFn hchild none
                        parseLoop rest (top :: below) ((st.choose hchild).choose node)
                      else do
                        propagateAt .cliMisc (sfValidatePreIncrement st node hchild)
                        parseLoop rest (top :: below) st
                  | none => do
                      callParseFn node (some value)
                      let stack ← enterOpt node (top :: below)
                      parseLoop rest stack (st.chooseValue node value)

/-- `_sf_mandatory_fail`: a mandatory child that is neither set nor preset. -/
def sfMandatoryFail (st : NodeStates) (parent : ArgNode σ) : Bool :=
  parent.children.any fun c => c.conf.mandatory && !(st c.id).isSet && !c.conf.preset

/-- The callback of the innermost subcommand, which runs at the end of the parse. -/
def runInnermost (stack : List (ArgNode σ)) : EStateM Err σ Unit :=
  match stack.dropLast.find? fun n => n.conf.type = .cmd ∧ n.conf.parseFn.isSome with
  | none => pure ()
  | some n =>
      match n.conf.parseFn with
      | none => pure ()
      | some f => f none

/-- `_sf_post_loop`. -/
def sfPostLoop (root : ArgNode σ) (stack : List (ArgNode σ)) (st : NodeStates) :
    EStateM Err σ Unit :=
  if root.children ≠ [] ∧ ¬root.children.any (fun c => (st c.id).isSet) then
    failAt .none .exitOnHelp
  else if stack.any (sfMandatoryFail st) then failAt .cliMisc .cliFail
  else runInnermost stack

/-- `tpbcli_parse_args` on the tokens behind `argv[0]`, from a parse state that earlier
parses may have left. -/
def tpbcliParseArgs (root : ArgNode σ) (st : NodeStates) (tokens : List Bytes) :
    EStateM Err σ NodeStates :=
  if sfResolveConflictOptsValidate root then do
    let r ← parseLoop tokens [root] (sfResetParseState root st)
    sfPostLoop root r.1 r.2
    pure r.2
  else failAt .cliMisc .cliFail

end TPBench
