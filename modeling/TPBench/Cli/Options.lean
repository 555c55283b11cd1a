import TPBench.Cli.ArgRuns
import TPBench.Cli.Command

/-!
# Command Lines of `run` as Sequences of Options

Every name in the option tree of `tpbcli run` determines its option, so a command line that is
accepted can be read without the tree (`scanOpts`). The tree decides which sequences are accepted:
arguments, environment variables and dimensions stand behind a `--kernel`, so that none of them is
in front of the first one (`Early`). What an accepted command line does is what the handlers of
its options do, one after the other (`parse_runs_options`).
-/

open CFile Relation

namespace TPBench

/-! ### Where an option may stand -/

/-- The start of a segment. -/
def Opt.isKernel : Opt → Bool
  | kernel _ => true
  | _ => false

/-- An option that stands directly behind a `--kernel` or one of its own kind. -/
def Opt.ofSegment : Opt → Bool
  | kargs _ | kargsDim _ | kenvs _ | kenvsDim _ | overrideGlobal => true
  | _ => false

/-- No option of a segment stands in front of the first segment. -/
def Early (opts : List Opt) : Prop := ∀ o ∈ opts.takeWhile (!·.isKernel), o.ofSegment = false

theorem early_cons_kernel (v : Bytes) (opts : List Opt) : Early (.kernel v :: opts) := by
  intro o ho
  rw [List.takeWhile_cons_of_neg (by simp [Opt.isKernel])] at ho
  cases ho

theorem Early.cons {o : Opt} {opts : List Opt} (h : Early opts) (ho : o.ofSegment = false) :
    Early (o :: opts) := by
  intro p hp
  by_cases hkernel : o.isKernel = true
  · rw [List.takeWhile_cons_of_neg (by simp [hkernel])] at hp
    cases hp
  · rw [List.takeWhile_cons_of_pos (by simpa using hkernel)] at hp
    rcases List.mem_cons.mp hp with rfl | hp
    · exact ho
    · exact h p hp

/-! ### The nodes of the tree -/

section Tree

variable {ctx : RunCtx} {tok : Bytes} {node : ArgNode RunState} {P : Opt → Prop}

/-- What a token that names a child says: an option with a value, a flag, or a demand for
help. -/
inductive Names (ctx : RunCtx) (P : Opt → Prop) (tok : Bytes) (node : ArgNode RunState) : Prop
  | value (o : Bytes → Opt) : valueOpt tok = some o → node.conf.type = .opt →
      node.conf.parseFn = some (withValue fun v => (o v).handler ctx) → (∀ v, P (o v)) →
      Names ctx P tok node
  | flag (o : Opt) : valueOpt tok = none → flagOpt tok = some o → node.conf.type = .flag →
      node.conf.parseFn = some (fun _ => o.handler ctx) → P o → Names ctx P tok node
  | help : node.conf.maxChosen = 0 → Names ctx P tok node

theorem mem_of_sfFindChild {parent : ArgNode RunState} (h : sfFindChild parent tok = some node) :
    node ∈ parent.children ∧ (node.conf.name = tok ∨ node.conf.shortName = some tok) := by
  have hnamed := List.find?_some h
  exact ⟨List.mem_of_find?_eq_some h, by simpa [ArgNode.named] using hnamed⟩

/-- Where the parser is behind the name of the subcommand, and what it still accepts there. -/
inductive Inside (ctx : RunCtx) (prog : Bytes) :
    List (ArgNode RunState) → (List Opt → Prop) → Prop
  | run : Inside ctx prog [runCmdNode ctx, runTree ctx prog] Early
  | wrapper : Inside ctx prog [wrapperNode, runCmdNode ctx, runTree ctx prog] Early
  | kernel : Inside ctx prog [kernelNode ctx, runCmdNode ctx, runTree ctx prog] fun _ => True

/-- Where the parser goes with a child of the node it is in, and what the child says. -/
structure Entered (ctx : RunCtx) (prog : Bytes) (allowed : List Opt → Prop)
    (stack : List (ArgNode RunState)) (tok : Bytes) (node : ArgNode RunState) : Prop where
  id_ne : node.id ≠ 1
  names : ∃ allowed', Names ctx (fun o => ∀ os, allowed' os → allowed (o :: os)) tok node ∧
    Inside ctx prog (if node.children = [] then stack else node :: stack) allowed'
  childless : node.conf.type = .flag → node.children = []
  help : ∀ value hchild, sfFindMaxChosenZeroChild node value = some hchild →
    hchild.conf.parseFn = none

/-- A node without children is not entered. -/
theorem Entered.of_leaf {prog : Bytes} {allowed : List Opt → Prop}
    {stack : List (ArgNode RunState)} {i : ℕ} {conf : ArgConf RunState}
    (hstack : Inside ctx prog stack allowed) (hi : i ≠ 1)
    (hnames : Names ctx (fun o => ∀ os, allowed os → allowed (o :: os)) tok (leaf i conf)) :
    Entered ctx prog allowed stack tok (leaf i conf) where
  id_ne := hi
  names := ⟨allowed, hnames, hstack⟩
  childless := fun _ => rfl
  help := fun _ _ h => by cases h

/-- The children of the subcommand. -/
theorem entered_of_run {prog : Bytes} (h : sfFindChild (runCmdNode ctx) tok = some node) :
    Entered ctx prog Early [runCmdNode ctx, runTree ctx prog] tok node := by
  obtain ⟨hmem, hname⟩ := mem_of_sfFindChild h
  have hcons : ∀ {o : Opt}, o.ofSegment = false → ∀ os, Early os → Early (o :: os) :=
    fun ho os hos => hos.cons ho
  simp only [runCmdNode, ArgNode.children_node, List.mem_cons, List.not_mem_nil, or_false] at hmem
  rcases hmem with rfl | rfl | rfl | rfl | rfl | rfl
  · refine ⟨by change 2 ≠ 1; decide, ⟨_, ?_, .kernel⟩, (fun h => by cases h), ?_⟩
    · rcases hname with rfl | hshort
      · exact .value .kernel rfl rfl rfl fun v os _ => early_cons_kernel v os
      · obtain rfl := Option.some.inj hshort
        exact .value .kernel rfl rfl rfl fun v os _ => early_cons_kernel v os
    · intro value hchild hzero
      obtain ⟨hmem, hmax⟩ := maxChosen_of_sfFindMaxChosenZeroChild hzero
      simp only [kernelNode, ArgNode.children_node, List.mem_cons, List.not_mem_nil,
        or_false] at hmem
      rcases hmem with rfl | rfl | rfl | rfl | rfl | rfl
      · cases hmax
      · cases hmax
      · cases hmax
      · cases hmax
      · cases hmax
      · rfl
  · refine ⟨by decide, ⟨_, ?_, .wrapper⟩, (fun h => by cases h), ?_⟩
    · rcases hname with rfl | hshort
      · exact .value .wrapper rfl rfl rfl fun v => hcons rfl
      · cases hshort
    · intro value hchild hzero
      obtain ⟨hmem, hmax⟩ := maxChosen_of_sfFindMaxChosenZeroChild hzero
      simp only [wrapperNode, ArgNode.children_node, List.mem_cons, List.not_mem_nil,
        or_false] at hmem
      obtain rfl := hmem
      cases hmax
  · refine .of_leaf .run (by decide) ?_
    rcases hname with rfl | hshort
    · exact .value .timer rfl rfl rfl fun v => hcons rfl
    · cases hshort
  · refine .of_leaf .run (by decide) ?_
    rcases hname with rfl | hshort
    · exact .value .outargs rfl rfl rfl fun v => hcons rfl
    · cases hshort
  · refine .of_leaf .run (by decide) ?_
    rcases hname with rfl | hshort
    · exact .flag .dryRun rfl rfl rfl rfl (hcons rfl)
    · obtain rfl := Option.some.inj hshort
      exact .flag .dryRun rfl rfl rfl rfl (hcons rfl)
  · exact .of_leaf .run (by decide) (.help rfl)

/-- The children of `--kernel`. -/
theorem entered_of_kernel {prog : Bytes} (h : sfFindChild (kernelNode ctx) tok = some node) :
    Entered ctx prog (fun _ => True) [kernelNode ctx, runCmdNode ctx, runTree ctx prog] tok
      node := by
  obtain ⟨hmem, hname⟩ := mem_of_sfFindChild h
  simp only [kernelNode, ArgNode.children_node, List.mem_cons, List.not_mem_nil, or_false] at hmem
  rcases hmem with rfl | rfl | rfl | rfl | rfl | rfl
  · refine .of_leaf .kernel (by decide) ?_
    rcases hname with rfl | hshort
    · exact .value .kargs rfl rfl rfl fun _ _ _ => trivial
    · cases hshort
  · refine .of_leaf .kernel (by decide) ?_
    rcases hname with rfl | hshort
    · exact .value .kargsDim rfl rfl rfl fun _ _ _ => trivial
    · cases hshort
  · refine .of_leaf .kernel (by decide) ?_
    rcases hname with rfl | hshort
    · exact .value .kenvs rfl rfl rfl fun _ _ _ => trivial
    · cases hshort
  · refine .of_leaf .kernel (by decide) ?_
    rcases hname with rfl | hshort
    · exact .value .kenvsDim rfl rfl rfl fun _ _ _ => trivial
    · cases hshort
  · refine .of_leaf .kernel (by decide) ?_
    rcases hname with rfl | hshort
    · exact .flag .overrideGlobal rfl rfl rfl rfl fun _ _ => trivial
    · obtain rfl := Option.some.inj hshort
      exact .flag .overrideGlobal rfl rfl rfl rfl fun _ _ => trivial
  · exact .of_leaf .kernel (by decide) (.help rfl)

/-- The child of `--wrapper`. -/
theorem entered_of_wrapper {prog : Bytes} (h : sfFindChild wrapperNode tok = some node) :
    Entered ctx prog Early [wrapperNode, runCmdNode ctx, runTree ctx prog] tok node := by
  obtain ⟨hmem, hname⟩ := mem_of_sfFindChild h
  simp only [wrapperNode, ArgNode.children_node, List.mem_cons, List.not_mem_nil, or_false] at hmem
  obtain rfl := hmem
  refine .of_leaf .wrapper (by decide) ?_
  rcases hname with rfl | hshort
  · exact .value .wrapperArgs rfl rfl rfl fun _ os hos => hos.cons rfl
  · cases hshort

/-- What stands inside the subcommand names a child of the node the parser is in. -/
theorem Inside.entered {prog : Bytes} {allowed : List Opt → Prop} {top : ArgNode RunState}
    {below : List (ArgNode RunState)} (h : Inside ctx prog (top :: below) allowed)
    (hfind : sfFindChild top tok = some node) :
    Entered ctx prog allowed (top :: below) tok node := by
  cases h with
  | run => exact entered_of_run hfind
  | wrapper => exact entered_of_wrapper hfind
  | kernel => exact entered_of_kernel hfind

end Tree

/-! ### Reading the options -/

section Scan

variable {tok : Bytes} {rest : List Bytes} {opts : List Opt}

theorem scanOpts_value {o : Bytes → Opt} {value : Bytes} (htok : valueOpt tok = some o)
    (hrest : scanOpts rest = some opts) :
    scanOpts (tok :: value :: rest) = some (o value :: opts) := by
  rw [scanOpts, htok]
  simp [hrest]

theorem scanOpts_flag {o : Opt} (hvalue : valueOpt tok = none) (hflag : flagOpt tok = some o)
    (hrest : scanOpts rest = some opts) : scanOpts (tok :: rest) = some (o :: opts) := by
  cases rest with
  | nil =>
      obtain rfl : opts = [] := (Option.some.inj hrest).symm
      rw [scanOpts, hflag]
      rfl
  | cons value rest =>
      rw [scanOpts, hvalue]
      simp [hflag, hrest]

end Scan

/-! ### Runs of the parser inside the subcommand -/

section Runs

variable {ctx : RunCtx} {prog : Bytes} {c c' : ParseConfig RunState}

/-- The subcommand was chosen: it is not chosen again. -/
def RunChosen (st : NodeStates) : Prop := 1 ≤ (st 1).chosenCount

theorem RunChosen.choose {st : NodeStates} {node : ArgNode RunState} (h : RunChosen st)
    (hid : node.id ≠ 1) : RunChosen (st.choose node) := by
  rw [RunChosen, NodeStates.choose, Function.update_of_ne (Ne.symm hid)]
  exact h

theorem RunChosen.chooseValue {st : NodeStates} {node : ArgNode RunState} {value : Bytes}
    (h : RunChosen st) (hid : node.id ≠ 1) : RunChosen (st.chooseValue node value) := by
  rw [RunChosen, NodeStates.chooseValue, Function.update_of_ne (Ne.symm hid)]
  exact h

/-- Nothing is accepted behind the subcommand. -/
theorem not_step_of_root {tokens : List Bytes} {st : NodeStates} {s : RunState}
    (hchosen : RunChosen st) :
    ¬ParserStep ⟨tokens, [runTree ctx prog], st, s⟩ c' := by
  have hadmitted : ∀ {tok node}, sfFindChild (runTree ctx prog) tok = some node →
      ¬sfValidatePreIncrement st (runTree ctx prog) node s = .ok () s := by
    intro tok node hfind hvalid
    have hnode : node = runCmdNode ctx := by
      obtain ⟨hmem, -⟩ := mem_of_sfFindChild hfind
      exact List.mem_singleton.mp hmem
    subst hnode
    have hbound := (admitted_of_sfValidatePreIncrement hvalid).bounded Int.one_pos
    have hcount : (1 : ℤ) ≤ ((st 1).chosenCount : ℤ) := by exact_mod_cast hchosen
    exact absurd hbound (not_lt.mpr hcount)
  intro hstep
  cases hstep with
  | cmd hfind hvalid => exact hadmitted hfind hvalid
  | flag hfind hvalid => exact hadmitted hfind hvalid
  | zero hfind hvalid => exact hadmitted hfind hvalid
  | opt hfind hvalid => exact hadmitted hfind hvalid

theorem RunChosen.reset {st : NodeStates} {top : ArgNode RunState} (h : RunChosen st)
    (htop : 1 ∉ ArgNode.idsOf top.children) : RunChosen (resetChildren top st) := by
  rw [RunChosen, resetChildren, if_neg htop]
  exact h

theorem Inside.nil {allowed : List Opt → Prop} {stack : List (ArgNode RunState)}
    (h : Inside ctx prog stack allowed) : allowed [] := by
  cases h with
  | run => simp [Early]
  | wrapper => simp [Early]
  | kernel => trivial

/-- A token that names no child leaves the node for the subcommand. -/
theorem Inside.pop {allowed : List Opt → Prop} {top next : ArgNode RunState}
    {below : List (ArgNode RunState)} (h : Inside ctx prog (top :: next :: below) allowed) :
    1 ∉ ArgNode.idsOf top.children ∧
      (next :: below = [runTree ctx prog] ∨
        Inside ctx prog (next :: below) Early ∧ ∀ opts, Early opts → allowed opts) := by
  cases h with
  | run =>
      refine ⟨?_, .inl rfl⟩
      simp [runCmdNode, kernelNode, wrapperNode, leaf, ArgNode.idsOf, ArgNode.ids]
  | wrapper => exact ⟨by decide, .inr ⟨.run, fun _ h => h⟩⟩
  | kernel =>
      refine ⟨?_, .inr ⟨.run, fun _ _ => trivial⟩⟩
      simp [kernelNode, leaf, ArgNode.idsOf, ArgNode.ids]

/-- The callback of a node that names an option. -/
theorem callParseFn_eq_ok {node : ArgNode RunState} {f : Option Bytes → RunM Unit}
    {value : Option Bytes} {s s' : RunState} (hf : node.conf.parseFn = some f) :
    callParseFn node value s = .ok () s' ↔ f value s = .ok () s' := by
  rw [callParseFn, hf]
  exact failInstead_eq_ok

/-- **Inside the subcommand** a run of the parser is a run of the handlers of the options it
reads. -/
theorem opts_of_run (hrun : ReflTransGen ParserStep c c') (htokens : c'.tokens = [])
    (hchosen : RunChosen c.states) :
    (∀ allowed, Inside ctx prog c.stack allowed →
      (∃ allowed', Inside ctx prog c'.stack allowed') ∧
      ∃ opts, scanOpts c.tokens = some opts ∧ allowed opts ∧
        runOpts ctx opts c.user = .ok () c'.user) ∧
    (c.stack = [runTree ctx prog] → c.tokens = []) := by
  induction hrun using ReflTransGen.head_induction_on with
  | refl =>
      refine ⟨fun allowed h => ⟨⟨allowed, h⟩, [], ?_, h.nil, rfl⟩, fun _ => htokens⟩
      rw [htokens]
      rfl
  | head hstep hrest ih =>
      refine ⟨fun allowed h => ?_, fun hroot => ?_⟩
      · cases hstep with
        | pop hfind =>
            obtain ⟨hids, hnext⟩ := h.pop
            obtain ⟨hinside, hroot⟩ := ih (hchosen.reset hids)
            rcases hnext with hnext | ⟨hnext, himp⟩
            · exact absurd (hroot hnext) (List.cons_ne_nil _ _)
            · obtain ⟨hend, opts, hscan, hearly, hopts⟩ := hinside _ hnext
              exact ⟨hend, opts, hscan, himp opts hearly, hopts⟩
        | cmd hfind hvalid htype =>
            obtain ⟨allowed', hnames, -⟩ := (h.entered hfind).names
            rcases hnames with ⟨o, -, ht, -, -⟩ | ⟨o, -, -, ht, -, -⟩ | hhelp
            · rw [ht] at htype
              cases htype
            · rw [ht] at htype
              cases htype
            · exact absurd hvalid (sfValidatePreIncrement_zero hhelp)
        | flag hfind hvalid htype hcall =>
            have hentered := h.entered hfind
            obtain ⟨allowed', hnames, hstack⟩ := hentered.names
            rw [if_pos (hentered.childless htype)] at hstack
            rcases hnames with ⟨o, -, ht, -, -⟩ | ⟨o, hvalue, hflag, -, hparse, himp⟩ | hhelp
            · rw [ht] at htype
              cases htype
            · obtain ⟨hend, opts, hscan, hallowed, hopts⟩ :=
                (ih (hchosen.choose hentered.id_ne)).1 _ hstack
              refine ⟨hend, o :: opts, scanOpts_flag hvalue hflag hscan, himp opts hallowed, ?_⟩
              rw [runOpts, bind_ok ((callParseFn_eq_ok hparse).mp hcall)]
              exact hopts
            · exact absurd hvalid (sfValidatePreIncrement_zero hhelp)
        | zero hfind hvalid htype hzero hparse =>
            have hnone := (h.entered hfind).help _ _ hzero
            rw [hnone] at hparse
            cases hparse
        | opt hfind hvalid htype hzero hcall henter =>
            have hentered := h.entered hfind
            obtain ⟨allowed', hnames, hstack⟩ := hentered.names
            rw [← enterOpt_stack henter] at hstack
            rcases hnames with ⟨o, hvalue, -, hparse, himp⟩ | ⟨o, -, -, ht, -, -⟩ | hhelp
            · obtain ⟨hend, opts, hscan, hallowed, hopts⟩ :=
                (ih (hchosen.chooseValue hentered.id_ne)).1 _ hstack
              have hhandler := (callParseFn_eq_ok hparse).mp hcall
              refine ⟨hend, o _ :: opts, scanOpts_value hvalue hscan, himp _ opts hallowed, ?_⟩
              rw [withValue] at hhandler
              rw [runOpts, bind_ok hhandler]
              exact hopts
            · rw [ht] at htype
              cases htype
            · exact absurd hvalid (sfValidatePreIncrement_zero hhelp)
      · rename_i a b
        obtain ⟨tokens, stack, st, s⟩ := a
        obtain rfl : stack = [runTree ctx prog] := hroot
        exact absurd hstep (not_step_of_root hchosen)

/-- What stands at the end of the parse runs nothing. -/
theorem state_of_sfPostLoop {allowed : List Opt → Prop} {stack : List (ArgNode RunState)}
    {st : NodeStates} {s s' : RunState} {u : Unit} (h : Inside ctx prog stack allowed)
    (hpost : sfPostLoop (runTree ctx prog) stack st s = .ok u s') : s' = s := by
  unfold sfPostLoop at hpost
  split_ifs at hpost
  · exact (failAt_ne_ok hpost).elim
  · exact (failAt_ne_ok hpost).elim
  · cases h with
    | run =>
        cases hpost
        rfl
    | wrapper =>
        cases hpost
        rfl
    | kernel =>
        cases hpost
        rfl

/-- **An accepted command line** runs the handlers of its options, one after the other. -/
theorem parse_runs_options {tokens : List Bytes} {st r : NodeStates} {s s' : RunState}
    (h : tpbcliParseArgs (runTree ctx prog) st tokens s = .ok r s') :
    ∃ cmd rest opts, tokens = cmd :: rest ∧ (cmd = nameRun ∨ cmd = nameR) ∧
      scanOpts rest = some opts ∧ Early opts ∧ runOpts ctx opts s = .ok () s' := by
  unfold tpbcliParseArgs at h
  split_ifs at h with hvalid
  · obtain ⟨⟨stack, marks⟩, s₁, hloop, hrest⟩ := bind_eq_ok.mp h
    obtain ⟨u, s₂, hpost, hpure⟩ := bind_eq_ok.mp hrest
    obtain ⟨-, rfl⟩ : marks = r ∧ s₂ = s' := by
      cases hpure
      exact ⟨rfl, rfl⟩
    have hrun := (parseLoop_eq_ok_iff
      (c := parserStart (runTree ctx prog) tokens st s) (List.cons_ne_nil _ _)).mp hloop
    rcases hrun.cases_head with heq | ⟨c, hstep, hrun⟩
    · -- without a subcommand help is shown
      rw [parserStart, ParseConfig.mk.injEq] at heq
      obtain ⟨-, rfl, rfl, rfl⟩ := heq
      have hset : ¬(runTree ctx prog).children.any fun c =>
          (sfResetParseState (runTree ctx prog) st c.id).isSet := by
        simp [runTree, runCmdNode, sfResetParseState, ArgNode.ids, ArgNode.idsOf,
          NodeState.fresh]
      rw [sfPostLoop, if_pos ⟨List.cons_ne_nil _ _, hset⟩] at hpost
      exact (failAt_ne_ok hpost).elim
    · have hnode : ∀ {tok node}, sfFindChild (runTree ctx prog) tok = some node →
          node = runCmdNode ctx ∧ (tok = nameRun ∨ tok = nameR) := by
        intro tok node hfind
        obtain ⟨hmem, hname⟩ := mem_of_sfFindChild hfind
        obtain rfl := List.mem_singleton.mp hmem
        rcases hname with rfl | hshort
        · exact ⟨rfl, .inl rfl⟩
        · exact ⟨rfl, .inr (Option.some.inj hshort).symm⟩
      cases hstep with
      | cmd hfind hadmit htype =>
          obtain ⟨rfl, hcmd⟩ := hnode hfind
          have hchosen : RunChosen
              ((sfResetParseState (runTree ctx prog) st).choose (runCmdNode ctx)) := by
            have hid : (1 : ℕ) = (runCmdNode ctx).id := rfl
            rw [RunChosen, NodeStates.choose, hid, Function.update_self]
            exact Nat.succ_pos _
          obtain ⟨⟨allowed, hinside⟩, opts, hscan, hearly, hopts⟩ :=
            (opts_of_run hrun rfl hchosen).1 Early Inside.run
          obtain rfl := state_of_sfPostLoop hinside hpost
          exact ⟨_, _, opts, rfl, hcmd, hscan, hearly, hopts⟩
      | flag hfind hadmit htype =>
          obtain ⟨rfl, -⟩ := hnode hfind
          cases htype
      | zero hfind hadmit htype =>
          obtain ⟨rfl, -⟩ := hnode hfind
          cases htype
      | opt hfind hadmit htype =>
          obtain ⟨rfl, -⟩ := hnode hfind
          cases htype
  · exact (failAt_ne_ok h).elim

end Runs

/-! ### The subcommand -/

section Command

variable {host : Host} {argv : List Bytes} {s s' : RunState}

/-- What the handlers read: the kernels of the names on the command line are registered. -/
def runCtx (host : Host) (argv : List Bytes) : Except Err RunCtx := do
  let names ← sfCollectRunKernelNames [] argv
  let reg ← registerFor host names
  return ⟨host.floats, host.isX86, reg⟩

/-- The state in which the options are read. -/
def runBegin (s : RunState) : RunState :=
  { RunState.start with drv := s.drv, timer := clockGettime, outargs := s.outargs }

/-- What follows the options. -/
def runEnd (ctx : RunCtx) : RunM Unit := do
  sfFlushPendingDims ctx
  bindNewest

theorem liftRun_eq_ok {α : Type} {r : Except Err α} {a : α} :
    liftRun r s = .ok a s' ↔ r = .ok a ∧ s' = s := by
  unfold liftRun
  split
  · rename_i b
    constructor
    · intro h
      cases h
      exact ⟨rfl, rfl⟩
    · rintro ⟨h, rfl⟩
      cases h
      rfl
  · constructor
    · intro h
      cases h
    · rintro ⟨h, -⟩
      cases h

/-- **A run of the subcommand** that reaches `tpb_driver_run_all` is a run of the handlers of its
options. -/
theorem tpbcliRun_eq_ok (h : tpbcliRun host argv s = .ok () s') :
    ∃ ctx opts s₁, runCtx host argv = .ok ctx ∧ optsOfArgv argv = some opts ∧ Early opts ∧
      runOpts ctx opts (runBegin s) = .ok () s₁ ∧ runEnd ctx s₁ = .ok () s' := by
  obtain ⟨⟨⟩, s₂, hreset, hrest⟩ := bind_eq_ok.mp h
  obtain ⟨⟨⟩, s₃, htimer, hrest₃⟩ := bind_eq_ok.mp hrest
  obtain ⟨names, s₄, hnames, hrest₄⟩ := bind_eq_ok.mp hrest₃
  obtain ⟨reg, s₅, hreg, hrest₅⟩ := bind_eq_ok.mp hrest₄
  obtain ⟨marks, s₆, hparse, hend⟩ := bind_eq_ok.mp hrest₅
  obtain rfl : _ = s₂ := EStateM.Result.ok.inj hreset |>.2
  have hbegin : s₃ = runBegin s := by
    rw [propagateAt_eq_ok, tpbArgpSetTimer, if_pos (.inl rfl)] at htimer
    exact (EStateM.Result.ok.inj htimer).2.symm
  rw [propagateAt_eq_ok, liftRun_eq_ok] at hnames
  rw [liftRun_eq_ok] at hreg
  obtain ⟨hnames, rfl⟩ := hnames
  obtain ⟨hreg, rfl⟩ := hreg
  rw [propagateAt_eq_ok] at hparse
  obtain ⟨cmd, rest, opts, htokens, hcmd, hscan, hearly, hopts⟩ := parse_runs_options hparse
  refine ⟨⟨host.floats, host.isX86, reg⟩, opts, s₆, ?_, ?_, hearly, ?_, hend⟩
  · rw [runCtx, hnames]
    change Except.bind _ _ = _
    rw [Except.bind]
    change Except.bind (registerFor host names) _ = _
    rw [hreg]
    rfl
  · rcases argv with - | ⟨prog, argv⟩
    · cases htokens
    · rw [List.drop_one, List.tail_cons] at htokens
      rw [htokens, optsOfArgv, if_pos hcmd]
      exact hscan
  · rw [← hbegin]
    exact hopts

end Command

end TPBench
