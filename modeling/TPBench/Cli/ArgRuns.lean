import Mathlib.Data.List.Chain
import Mathlib.Data.Prod.Lex
import Mathlib.Logic.Relation
import Mathlib.Order.WellFounded
import TPBench.CFile.Stream
import TPBench.CFile.Text
import TPBench.Cli.ArgTree

/-!
# Runs of the Argument Parser

The loop of `tpbcli_parse_args` as a machine that goes from one configuration to the next:
it leaves a node, or it chooses one. The function computes what the runs of this machine
end with (`parseLoop_eq_ok_iff`), and the machine has no infinite run
(`parserStep_wellFounded`), so an intermediate state of the parser is a configuration that
a run from the start reaches.

The marks on the nodes are kept consistent by two facts. A node is admitted only when its
siblings allow it, and the children of a node that is not on the stack are not chosen, since
leaving a node resets them. The exception is a child with `max_chosen` 0, which an option
chooses when its value names it: the option is not entered, and nothing is checked.

## Main definitions

* `ParserStep`: one step of the machine.
* `ParserInv`: what holds in every configuration.

## Main results

* `parse_args_invariants`: termination, the invariants of every intermediate state, and what
  a successful parse leaves behind.
* `parse_args_zero_conflict`: two children with `max_chosen` 0 that name each other as
  conflicts can both be chosen.
-/

open CFile Relation

namespace TPBench

variable {σ : Type}

/-! ### The machine -/

/-- Where the parser is: the tokens that are left, the stack, the marks on the nodes, and
the state the callbacks work on. -/
structure ParseConfig (σ : Type) where
  tokens : List Bytes
  stack : List (ArgNode σ)
  states : NodeStates
  user : σ

/-- One step of the parser. The node on top of the stack is left when the token names none
of its children; otherwise the child is chosen, as its type says. -/
inductive ParserStep : ParseConfig σ → ParseConfig σ → Prop
  | pop {tok : Bytes} {rest : List Bytes} {top next : ArgNode σ} {below : List (ArgNode σ)}
      {st : NodeStates} {s : σ} : sfFindChild top tok = none →
      ParserStep ⟨tok :: rest, top :: next :: below, st, s⟩
        ⟨tok :: rest, next :: below, resetChildren top st, s⟩
  | cmd {tok : Bytes} {rest : List Bytes} {top node : ArgNode σ} {below : List (ArgNode σ)}
      {st : NodeStates} {s : σ} : sfFindChild top tok = some node →
      sfValidatePreIncrement st top node s = .ok () s → node.conf.type = .cmd →
      (top :: below).length < argpStackMax →
      ParserStep ⟨tok :: rest, top :: below, st, s⟩
        ⟨if node.conf.delegateSubcmd then [] else rest, node :: top :: below, st.choose node, s⟩
  | flag {tok : Bytes} {rest : List Bytes} {top node : ArgNode σ} {below : List (ArgNode σ)}
      {st : NodeStates} {s s' : σ} : sfFindChild top tok = some node →
      sfValidatePreIncrement st top node s = .ok () s → node.conf.type = .flag →
      callParseFn node none s = .ok () s' →
      ParserStep ⟨tok :: rest, top :: below, st, s⟩ ⟨rest, top :: below, st.choose node, s'⟩
  | zero {tok value : Bytes} {rest : List Bytes} {top node hchild : ArgNode σ}
      {below : List (ArgNode σ)} {st : NodeStates} {s s' : σ} :
      sfFindChild top tok = some node →
      sfValidatePreIncrement st top node s = .ok () s → node.conf.type = .opt →
      sfFindMaxChosenZeroChild node value = some hchild → hchild.conf.parseFn.isSome →
      callParseFn hchild none s = .ok () s' →
      ParserStep ⟨tok :: value :: rest, top :: below, st, s⟩
        ⟨rest, top :: below, (st.choose hchild).choose node, s'⟩
  | opt {tok value : Bytes} {rest : List Bytes} {top node : ArgNode σ}
      {below stack : List (ArgNode σ)} {st : NodeStates} {s s' : σ} :
      sfFindChild top tok = some node →
      sfValidatePreIncrement st top node s = .ok () s → node.conf.type = .opt →
      sfFindMaxChosenZeroChild node value = none →
      callParseFn node (some value) s = .ok () s' →
      enterOpt node (top :: below) s' = .ok stack s' →
      ParserStep ⟨tok :: value :: rest, top :: below, st, s⟩
        ⟨rest, stack, st.chooseValue node value, s'⟩

/-- Where the parser begins. -/
def parserStart (root : ArgNode σ) (argv : List Bytes) (st : NodeStates) (s : σ) :
    ParseConfig σ :=
  ⟨argv, [root], sfResetParseState root st, s⟩

/-- The function, from a configuration on. -/
def ParseConfig.run (c : ParseConfig σ) : EStateM.Result Err σ (List (ArgNode σ) × NodeStates) :=
  parseLoop c.tokens c.stack c.states c.user

section Machine

variable {c c' d : ParseConfig σ} {st : NodeStates} {s s' : σ} {top node : ArgNode σ}
  {below stack : List (ArgNode σ)} {tok value : Bytes}

/-- The search ends at the top when the token names a child of it. -/
theorem findOnStack_of_child (h : sfFindChild top tok = some node) :
    findOnStack tok (top :: below) st = some (node, top :: below, st) := by
  simp only [findOnStack, h]

/-- The search goes on one level further out. -/
theorem findOnStack_pop {next : ArgNode σ} (h : sfFindChild top tok = none) :
    findOnStack tok (top :: next :: below) st =
      findOnStack tok (next :: below) (resetChildren top st) := by
  rw [findOnStack]
  simp [h]

/-- An admission leaves the state of the callbacks as it is. -/
theorem sfValidatePreIncrement_state {u : Unit}
    (h : sfValidatePreIncrement st top node s = .ok u s') : s' = s := by
  unfold sfValidatePreIncrement at h
  split_ifs at h <;> first | exact (failAt_ne_ok h).elim | (cases h; rfl)

theorem enterOpt_state (h : enterOpt node stack s = .ok below s') :
    s' = s := by
  unfold enterOpt pushNode at h
  split_ifs at h <;> first | exact (failAt_ne_ok h).elim | (cases h; rfl)

/-- **The function computes what the machine does**: a step does not change its result. -/
theorem ParserStep.run_eq (h : ParserStep c c') : c.run = c'.run := by
  cases h with
  | pop hfind =>
      simp only [ParseConfig.run, parseLoop]
      rw [findOnStack_pop hfind]
  | @cmd tok rest top node below st s hfind hvalid htype hroom =>
      simp only [ParseConfig.run]
      rw [parseLoop]
      simp only [findOnStack_of_child hfind]
      rw [bind_ok (propagateAt_eq_ok.mpr hvalid)]
      simp only [htype]
      have hpush : pushNode node (top :: below) s = .ok (node :: top :: below) s := by
        rw [pushNode, if_neg (Nat.not_le.mpr hroom)]
        rfl
      rw [bind_ok hpush]
      split
      · rw [parseLoop]
      · rfl
  | flag hfind hvalid htype hcall =>
      simp only [ParseConfig.run]
      rw [parseLoop]
      simp only [findOnStack_of_child hfind]
      rw [bind_ok (propagateAt_eq_ok.mpr hvalid)]
      simp only [htype]
      rw [bind_ok hcall]
  | zero hfind hvalid htype hzero hparse hcall =>
      simp only [ParseConfig.run]
      rw [parseLoop]
      simp only [findOnStack_of_child hfind]
      rw [bind_ok (propagateAt_eq_ok.mpr hvalid)]
      simp only [htype, hzero, if_pos hparse]
      rw [bind_ok hcall]
  | opt hfind hvalid htype hzero hcall henter =>
      simp only [ParseConfig.run]
      rw [parseLoop]
      simp only [findOnStack_of_child hfind]
      rw [bind_ok (propagateAt_eq_ok.mpr hvalid)]
      simp only [htype, hzero]
      rw [bind_ok hcall, bind_ok henter]

/-- A child whose `max_chosen` is 0 is not admitted. -/
theorem sfValidatePreIncrement_zero {u : Unit} (h : node.conf.maxChosen = 0) :
    sfValidatePreIncrement st top node s ≠ .ok u s' := by
  unfold sfValidatePreIncrement
  split_ifs <;> simp_all

theorem maxChosen_of_sfFindMaxChosenZeroChild {hchild : ArgNode σ}
    (h : sfFindMaxChosenZeroChild node value = some hchild) :
    hchild ∈ node.children ∧ hchild.conf.maxChosen = 0 := by
  refine ⟨List.mem_of_find?_eq_some h, ?_⟩
  have hfound := List.find?_some h
  simp only [Bool.decide_and, Bool.and_eq_true, decide_eq_true_eq] at hfound
  exact hfound.1

/-- Where the function succeeds, the parse is over or there is a step. -/
theorem exists_step_of_run_eq_ok {r : List (ArgNode σ) × NodeStates} (hstack : c.stack ≠ [])
    (hok : c.run = .ok r s') : c.tokens = [] ∨ ∃ c', ParserStep c c' := by
  obtain ⟨tokens, stack, st, s⟩ := c
  rcases tokens with - | ⟨tok, rest⟩
  · exact .inl rfl
  rcases stack with - | ⟨top, below⟩
  · exact absurd rfl hstack
  right
  rcases hfind : sfFindChild top tok with - | node
  · rcases below with - | ⟨next, below⟩
    · simp only [ParseConfig.run] at hok
      rw [parseLoop] at hok
      simp only [findOnStack, hfind, if_true] at hok
      exact (failAt_ne_ok hok).elim
    · exact ⟨_, .pop hfind⟩
  · simp only [ParseConfig.run] at hok
    rw [parseLoop] at hok
    simp only [findOnStack_of_child hfind] at hok
    obtain ⟨⟨⟩, s₁, hvalid, hrest⟩ := bind_eq_ok.mp hok
    rw [propagateAt_eq_ok] at hvalid
    obtain rfl := sfValidatePreIncrement_state hvalid
    clear hok
    rcases htype : node.conf.type with - | - | -
    · simp only [htype] at hrest
      obtain ⟨stack, s₂, hpush, -⟩ := bind_eq_ok.mp hrest
      unfold pushNode at hpush
      split_ifs at hpush with hroom
      · exact (failAt_ne_ok hpush).elim
      · exact ⟨_, .cmd hfind hvalid htype (Nat.not_le.mp hroom)⟩
    · simp only [htype] at hrest
      rcases rest with - | ⟨value, rest⟩
      · exact (failAt_ne_ok hrest).elim
      rcases hzero : sfFindMaxChosenZeroChild node value with - | hchild
      · simp only [hzero] at hrest
        obtain ⟨⟨⟩, s₂, hcall, hpush⟩ := bind_eq_ok.mp hrest
        obtain ⟨stack, s₃, henter, -⟩ := bind_eq_ok.mp hpush
        obtain rfl := enterOpt_state henter
        exact ⟨_, .opt hfind hvalid htype hzero hcall henter⟩
      · simp only [hzero] at hrest
        split_ifs at hrest with hparse
        · obtain ⟨⟨⟩, s₂, hcall, -⟩ := bind_eq_ok.mp hrest
          exact ⟨_, .zero hfind hvalid htype hzero hparse hcall⟩
        · obtain ⟨⟨⟩, s₂, hfree, -⟩ := bind_eq_ok.mp hrest
          rw [propagateAt_eq_ok] at hfree
          exact absurd hfree (sfValidatePreIncrement_zero
            (maxChosen_of_sfFindMaxChosenZeroChild hzero).2)
    · simp only [htype] at hrest
      obtain ⟨⟨⟩, s₂, hcall, -⟩ := bind_eq_ok.mp hrest
      exact ⟨_, .flag hfind hvalid htype hcall⟩

/-! ### Termination -/

/-- Every step consumes tokens, or leaves a node. -/
def ParseConfig.rank (c : ParseConfig σ) : ℕ ×ₗ ℕ := toLex (c.tokens.length, c.stack.length)

theorem ParserStep.rank_lt (h : ParserStep c c') : c'.rank < c.rank := by
  have hfewer : ∀ (a b x y : ℕ), a < b → toLex (a, x) < toLex (b, y) := fun a b x y hab =>
    Prod.Lex.toLex_lt_toLex.mpr (.inl hab)
  cases h with
  | pop => exact Prod.Lex.toLex_lt_toLex.mpr (.inr ⟨rfl, by simp⟩)
  | cmd =>
      refine hfewer _ _ _ _ ?_
      dsimp only
      split <;> simp
  | flag => exact hfewer _ _ _ _ (Nat.lt_succ_self _)
  | zero => exact hfewer _ _ _ _ (Nat.lt_add_of_pos_right Nat.two_pos)
  | opt => exact hfewer _ _ _ _ (Nat.lt_add_of_pos_right Nat.two_pos)

/-- **The machine has no infinite run.** -/
theorem parserStep_wellFounded : WellFounded fun c' c : ParseConfig σ => ParserStep c c' :=
  Subrelation.wf (fun h => h.rank_lt) (InvImage.wf ParseConfig.rank wellFounded_lt)

theorem ParserStep.stack_ne_nil (h : ParserStep c c') : c'.stack ≠ [] := by
  cases h with
  | opt hfind hvalid htype hzero hcall henter =>
      unfold enterOpt pushNode at henter
      split_ifs at henter
      · cases henter
        simp
      · exact (failAt_ne_ok henter).elim
      · cases henter
        simp
  | _ => simp

/-- **The function succeeds when a run of the machine consumes all tokens**, and with what
this run ends. -/
theorem parseLoop_eq_ok_iff (hstack : c.stack ≠ []) :
    c.run = .ok (stack, st) s' ↔ ReflTransGen ParserStep c ⟨[], stack, st, s'⟩ := by
  constructor
  · intro hok
    induction c using parserStep_wellFounded.induction with
    | _ c ih =>
        rcases exists_step_of_run_eq_ok hstack hok with hnil | ⟨c', hstep⟩
        · obtain ⟨tokens, stack₀, st₀, s₀⟩ := c
          obtain rfl : tokens = [] := hnil
          simp only [ParseConfig.run, parseLoop] at hok
          cases hok
          exact .refl
        · rw [hstep.run_eq] at hok
          exact .head hstep (ih c' hstep hstep.stack_ne_nil hok)
  · intro hrun
    induction hrun using ReflTransGen.head_induction_on with
    | refl =>
        simp only [ParseConfig.run, parseLoop]
        rfl
    | head hstep _ ih =>
        rw [hstep.run_eq]
        exact ih hstep.stack_ne_nil

end Machine

/-! ### What does not depend on the callbacks -/

/-- Where a step goes from given tokens and a given stack, and what it does to the marks. It
is decided by the tree alone: admissions and callbacks only decide whether there is a step. -/
def advance : List Bytes → List (ArgNode σ) →
    Option (List Bytes × List (ArgNode σ) × (NodeStates → NodeStates))
  | tok :: rest, top :: below =>
      match sfFindChild top tok with
      | none => some (tok :: rest, below, resetChildren top)
      | some node =>
          match node.conf.type, rest with
          | .cmd, rest =>
              some (if node.conf.delegateSubcmd then [] else rest, node :: top :: below,
                fun st => st.choose node)
          | .flag, rest => some (rest, top :: below, fun st => st.choose node)
          | .opt, [] => none
          | .opt, value :: rest =>
              match sfFindMaxChosenZeroChild node value with
              | some hchild => some (rest, top :: below, fun st => (st.choose hchild).choose node)
              | none =>
                  some (rest, if node.children = [] then top :: below else node :: top :: below,
                    fun st => st.chooseValue node value)
  | _, _ => none

section Advance

variable {c c' d d' : ParseConfig σ} {i : ℕ}

theorem enterOpt_stack {node : ArgNode σ} {stack stack' : List (ArgNode σ)} {s s' : σ}
    (h : enterOpt node stack s = .ok stack' s') :
    stack' = if node.children = [] then stack else node :: stack := by
  unfold enterOpt pushNode at h
  split_ifs at h with hleaf
  · cases h
    rw [if_pos hleaf]
  · exact (failAt_ne_ok h).elim
  · cases h
    rw [if_neg hleaf]

theorem ParserStep.advance_eq (h : ParserStep c c') :
    ∃ f, advance c.tokens c.stack = some (c'.tokens, c'.stack, f) ∧ c'.states = f c.states := by
  cases h with
  | pop hfind =>
      refine ⟨resetChildren _, ?_, rfl⟩
      simp only [advance, hfind]
  | cmd hfind hvalid htype | flag hfind hvalid htype =>
      refine ⟨fun st => st.choose _, ?_, rfl⟩
      simp only [advance, hfind, htype]
  | zero hfind hvalid htype hzero =>
      refine ⟨fun st => (st.choose _).choose _, ?_, rfl⟩
      simp only [advance, hfind, htype, hzero]
  | opt hfind hvalid htype hzero hcall henter =>
      refine ⟨fun st => st.chooseValue _ _, ?_, rfl⟩
      simp only [advance, hfind, htype, hzero, enterOpt_stack henter]

/-- The new mark of a node depends on its old mark only. -/
theorem choose_congr {node : ArgNode σ} {st st' : NodeStates} (h : st i = st' i) :
    st.choose node i = st'.choose node i := by
  by_cases hi : i = node.id
  · subst hi
    simp [NodeStates.choose, h]
  · simp [NodeStates.choose, hi, h]

theorem chooseValue_congr {node : ArgNode σ} {value : Bytes} {st st' : NodeStates}
    (h : st i = st' i) : st.chooseValue node value i = st'.chooseValue node value i := by
  by_cases hi : i = node.id
  · subst hi
    simp [NodeStates.chooseValue, h]
  · simp [NodeStates.chooseValue, hi, h]

theorem resetChildren_congr {node : ArgNode σ} {st st' : NodeStates} (h : st i = st' i) :
    resetChildren node st i = resetChildren node st' i := by
  simp only [resetChildren, h]

theorem advance_congr {tokens tokens' : List Bytes} {stack stack' : List (ArgNode σ)}
    {f : NodeStates → NodeStates} {st st' : NodeStates}
    (h : advance tokens stack = some (tokens', stack', f)) (hst : st i = st' i) :
    f st i = f st' i := by
  unfold advance at h
  split at h
  · split at h
    · cases h
      exact resetChildren_congr hst
    · split at h
      · cases h
        exact choose_congr hst
      · cases h
        exact choose_congr hst
      · cases h
      · split at h
        · cases h
          exact choose_congr (choose_congr hst)
        · cases h
          exact chooseValue_congr hst
  · cases h

/-- **Two parses of the same tokens from the same stack**, on different states: a mark that
was the same is the same at their ends. -/
theorem states_eq_of_runs (hc : ReflTransGen ParserStep c c') (hd : ReflTransGen ParserStep d d')
    (htokens : c.tokens = d.tokens) (hstack : c.stack = d.stack)
    (hst : c.states i = d.states i) (hc' : c'.tokens = []) (hd' : d'.tokens = []) :
    c'.stack = d'.stack ∧ c'.states i = d'.states i := by
  have hfinal : ∀ {e e' : ParseConfig σ}, e.tokens = [] → ¬ParserStep e e' := by
    intro e e' he hstep
    obtain ⟨f, hadvance, -⟩ := hstep.advance_eq
    rw [he] at hadvance
    cases hadvance
  induction hc using ReflTransGen.head_induction_on generalizing d with
  | refl =>
      rcases hd.cases_head with rfl | ⟨e, hstep, -⟩
      · exact ⟨hstack, hst⟩
      · exact absurd hstep (hfinal (htokens.symm.trans hc'))
  | head hstep _ ih =>
      rcases hd.cases_head with rfl | ⟨e, hstep', hrest⟩
      · exact absurd hstep (hfinal (htokens.trans hd'))
      · obtain ⟨f, hadvance, heq⟩ := hstep.advance_eq
        obtain ⟨g, hadvance', heq'⟩ := hstep'.advance_eq
        rw [← htokens, ← hstack, hadvance, Option.some.injEq, Prod.mk.injEq,
          Prod.mk.injEq] at hadvance'
        obtain ⟨htokens', hstack', rfl⟩ := hadvance'
        refine ih hrest htokens' hstack' ?_
        rw [heq, heq']
        exact advance_congr hadvance hst

end Advance

/-! ### The invariants -/

/-- Two siblings that name each other as conflicts. -/
def Conflicting (a b : ArgNode σ) : Prop :=
  a.conf.name ∈ b.conf.conflictOpts ∧ b.conf.name ∈ a.conf.conflictOpts

/-- What holds of the marks on the nodes of a tree, while the nodes of `stack` are
entered. -/
structure MarksInv (root : ArgNode σ) (stack : List (ArgNode σ)) (st : NodeStates) : Prop where
  /-- No node is chosen more often than it may be. -/
  bounded : ∀ n ∈ root.nodes, 0 < n.conf.maxChosen →
    ((st n.id).chosenCount : ℤ) ≤ n.conf.maxChosen
  /-- A sibling of a chosen exclusive node is not chosen. -/
  exclusive : ∀ p ∈ root.nodes, ∀ a ∈ p.children, ∀ b ∈ p.children, a ≠ b →
    (st a.id).isSet → (st b.id).isSet → a.conf.maxChosen ≠ 0 → b.conf.maxChosen ≠ 0 →
    a.conf.exclusive = false
  /-- Conflicting siblings are not both chosen, unless nothing is checked for either. -/
  conflicts : ∀ p ∈ root.nodes, ∀ a ∈ p.children, ∀ b ∈ p.children, a ≠ b →
    Conflicting a b → (st a.id).isSet → (st b.id).isSet →
    a.conf.maxChosen = 0 ∧ b.conf.maxChosen = 0
  /-- The children of a node that is not entered are not chosen. -/
  outside : ∀ p ∈ root.nodes, p ∉ stack → ∀ a ∈ p.children, (st a.id).isSet →
    a.conf.maxChosen = 0

/-- What holds in every configuration of a parse. -/
structure ParserInv (root : ArgNode σ) (c : ParseConfig σ) : Prop where
  /-- The stack ends at the root. -/
  bottom : c.stack.getLast? = some root
  /-- Each node on it is a child of the next one. -/
  path : c.stack.IsChain fun n p => n ∈ p.children
  marks : MarksInv root c.stack c.states

/-- What an admission says. -/
structure Admitted (st : NodeStates) (parent node : ArgNode σ) : Prop where
  exclusive : ∀ a ∈ parent.children, a.id ≠ node.id → (st a.id).isSet →
    node.conf.exclusive = false ∧ a.conf.exclusive = false
  conflicts : ∀ nm ∈ node.conf.conflictOpts, ∀ a, sfFindChildByName parent nm = some a →
    (st a.id).isSet = false
  nonzero : node.conf.maxChosen ≠ 0
  bounded : 0 < node.conf.maxChosen → ((st node.id).chosenCount : ℤ) < node.conf.maxChosen

theorem admitted_of_sfValidatePreIncrement {st : NodeStates} {parent node : ArgNode σ}
    {s s' : σ} {u : Unit} (h : sfValidatePreIncrement st parent node s = .ok u s') :
    Admitted st parent node := by
  unfold sfValidatePreIncrement at h
  split_ifs at h with hexclusive hconflict hzero hhelp hbound
  · exact (failAt_ne_ok h).elim
  · exact (failAt_ne_ok h).elim
  · exact (failAt_ne_ok h).elim
  · exact (failAt_ne_ok h).elim
  · exact (failAt_ne_ok h).elim
  · refine ⟨?_, ?_, hzero, fun hpos => ?_⟩
    · intro a ha hne hset
      rw [sfSiblingExclusiveConflict, List.find?_isSome] at hexclusive
      push Not at hexclusive
      have hnone := hexclusive a ha
      simpa [hne, hset] using hnone
    · intro nm hnm a hfind
      rw [Bool.not_eq_true, Option.isSome_eq_false_iff, Option.isNone_iff_eq_none,
        sfSiblingConflictOptsHit, List.findSome?_eq_none_iff] at hconflict
      have hnone := hconflict nm hnm
      simpa [hfind] using hnone
    · by_contra hge
      exact hbound ⟨hpos, by omega⟩

section Invariant

variable {root top node p a b : ArgNode σ} {stack below : List (ArgNode σ)} {st : NodeStates}

/-- Names of siblings are distinct, so a child is found by its name. -/
theorem sfFindChildByName_child (hnames : root.NamesNodup) (hp : p ∈ root.nodes)
    (ha : a ∈ p.children) : sfFindChildByName p a.conf.name = some a := by
  obtain ⟨b, hb⟩ : ∃ b, sfFindChildByName p a.conf.name = some b := by
    apply Option.isSome_iff_exists.mp
    rw [sfFindChildByName, List.find?_isSome]
    exact ⟨a, ha, decide_eq_true rfl⟩
  have hfound := List.find?_some (show List.find? _ p.children = some b from hb)
  have hname : b.conf.name = a.conf.name := of_decide_eq_true hfound
  have hmem : b ∈ p.children := List.mem_of_find?_eq_some hb
  rw [hb, List.inj_on_of_nodup_map (hnames p hp) hmem ha hname]

/-- The mark of one node is set, and the others are what they were. -/
theorem update_other {ns : NodeState} (hids : root.ids.Nodup) (hnode : node ∈ root.nodes)
    (ha : a ∈ root.nodes) (hne : a ≠ node) : Function.update st node.id ns a.id = st a.id := by
  refine Function.update_of_ne ?_ _ _
  intro hid
  exact hne (ArgNode.node_unique hids ha hnode hid)

/-- Marks that are removed. -/
theorem MarksInv.mono {st' : NodeStates} {stack' : List (ArgNode σ)} (h : MarksInv root stack st)
    (hst : ∀ i, st' i = st i ∨ st' i = .fresh)
    (hout : ∀ p ∈ root.nodes, p ∉ stack' → p ∈ stack → ∀ a ∈ p.children, st' a.id = .fresh) :
    MarksInv root stack' st' := by
  have hset : ∀ {i}, (st' i).isSet → (st i).isSet := by
    intro i hi
    rcases hst i with heq | heq <;> rw [heq] at hi
    · exact hi
    · cases hi
  refine ⟨?_, ?_, ?_, ?_⟩
  · intro n hn hpos
    rcases hst n.id with heq | heq <;> rw [heq]
    · exact h.bounded n hn hpos
    · exact hpos.le
  · intro p hp a ha b hb hne hseta hsetb
    exact h.exclusive p hp a ha b hb hne (hset hseta) (hset hsetb)
  · intro p hp a ha b hb hne hconf hseta hsetb
    exact h.conflicts p hp a ha b hb hne hconf (hset hseta) (hset hsetb)
  · intro p hp hnot a ha hseta
    by_cases hin : p ∈ stack
    · rw [hout p hp hnot hin a ha] at hseta
      cases hseta
    · exact h.outside p hp hin a ha (hset hseta)

/-- A node is left. -/
theorem MarksInv.pop (h : MarksInv root (top :: below) st) :
    MarksInv root below (resetChildren top st) := by
  refine h.mono ?_ ?_
  · intro i
    unfold resetChildren
    split
    · exact .inr rfl
    · exact .inl rfl
  · intro p _ hnot hin a ha
    rcases List.mem_cons.mp hin with rfl | hin
    · exact if_pos (ArgNode.mem_idsOf.mpr ⟨a, ha, a.id_mem_ids⟩)
    · exact absurd hin hnot

/-- A node is entered. -/
theorem MarksInv.push (h : MarksInv root stack st) : MarksInv root (node :: stack) st :=
  h.mono (fun _ => .inl rfl) fun _ _ hnot hin =>
    absurd (List.mem_cons_of_mem _ hin) hnot

/-- A child of an entered node is chosen, when its siblings admit it. -/
theorem MarksInv.choose {ns : NodeState} (hids : root.ids.Nodup) (hnames : root.NamesNodup)
    (h : MarksInv root stack st) (htop : top ∈ root.nodes) (hin : top ∈ stack)
    (hnode : node ∈ top.children) (hfree : Admitted st top node)
    (hcount : ns.chosenCount = (st node.id).chosenCount + 1) :
    MarksInv root stack (Function.update st node.id ns) := by
  have hroot : node ∈ root.nodes := ArgNode.child_mem_nodes htop hnode
  have hother : ∀ {n}, n ∈ root.nodes → n ≠ node →
      Function.update st node.id ns n.id = st n.id := update_other hids hroot
  have hparent : ∀ {q}, q ∈ root.nodes → node ∈ q.children → q = top := fun hq hmem =>
    ArgNode.parent_unique hids hq htop hmem hnode
  have hidne : ∀ {n}, n ∈ root.nodes → n ≠ node → n.id ≠ node.id := fun hn hne hid =>
    hne (ArgNode.node_unique hids hn hroot hid)
  refine ⟨?_, ?_, ?_, ?_⟩
  · intro n hn hpos
    by_cases heq : n = node
    · subst heq
      rw [Function.update_self, hcount]
      have := hfree.bounded hpos
      omega
    · rw [hother hn heq]
      exact h.bounded n hn hpos
  · intro p hp a ha b hb hne hseta hsetb hza hzb
    have harel := ArgNode.child_mem_nodes hp ha
    have hbrel := ArgNode.child_mem_nodes hp hb
    by_cases hanode : a = node
    · subst hanode
      obtain rfl := hparent hp ha
      rw [hother hbrel hne.symm] at hsetb
      exact (hfree.exclusive b hb (hidne hbrel hne.symm) hsetb).1
    · rw [hother harel hanode] at hseta
      by_cases hbnode : b = node
      · subst hbnode
        obtain rfl := hparent hp hb
        exact (hfree.exclusive a ha (hidne harel hne) hseta).2
      · rw [hother hbrel hbnode] at hsetb
        exact h.exclusive p hp a ha b hb hne hseta hsetb hza hzb
  · intro p hp a ha b hb hne hconf hseta hsetb
    have harel := ArgNode.child_mem_nodes hp ha
    have hbrel := ArgNode.child_mem_nodes hp hb
    by_cases hanode : a = node
    · subst hanode
      obtain rfl := hparent hp ha
      rw [hother hbrel hne.symm, hfree.conflicts _ hconf.2 b
        (sfFindChildByName_child hnames hp hb)] at hsetb
      cases hsetb
    · rw [hother harel hanode] at hseta
      by_cases hbnode : b = node
      · subst hbnode
        obtain rfl := hparent hp hb
        rw [hfree.conflicts _ hconf.1 a (sfFindChildByName_child hnames hp ha)] at hseta
        cases hseta
      · rw [hother hbrel hbnode] at hsetb
        exact h.conflicts p hp a ha b hb hne hconf hseta hsetb
  · intro p hp hnot a ha hseta
    have hne : a ≠ node := by
      rintro rfl
      exact hnot (hparent hp ha ▸ hin)
    rw [hother (ArgNode.child_mem_nodes hp ha) hne] at hseta
    exact h.outside p hp hnot a ha hseta

/-- A child with `max_chosen` 0 of a node that is not entered is chosen. Nothing is checked,
but its siblings with another `max_chosen` are not chosen. -/
theorem MarksInv.chooseZero {ns : NodeState} (hids : root.ids.Nodup)
    (h : MarksInv root stack st) (hp : p ∈ root.nodes) (hnot : p ∉ stack)
    (hnode : node ∈ p.children) (hzero : node.conf.maxChosen = 0) :
    MarksInv root stack (Function.update st node.id ns) := by
  have hroot : node ∈ root.nodes := ArgNode.child_mem_nodes hp hnode
  have hother : ∀ {n}, n ∈ root.nodes → n ≠ node →
      Function.update st node.id ns n.id = st n.id := update_other hids hroot
  have hsame : ∀ {n}, n ∈ root.nodes → n.conf.maxChosen ≠ 0 →
      Function.update st node.id ns n.id = st n.id := by
    intro n hn hne
    refine hother hn ?_
    rintro rfl
    exact hne hzero
  refine ⟨?_, ?_, ?_, ?_⟩
  · intro n hn hpos
    rw [hsame hn hpos.ne']
    exact h.bounded n hn hpos
  · intro q hq a ha b hb hne hseta hsetb hza hzb
    rw [hsame (ArgNode.child_mem_nodes hq ha) hza] at hseta
    rw [hsame (ArgNode.child_mem_nodes hq hb) hzb] at hsetb
    exact h.exclusive q hq a ha b hb hne hseta hsetb hza hzb
  · intro q hq a ha b hb hne hconf hseta hsetb
    -- a sibling of the node is not chosen, or nothing is checked for it
    have hsibling : ∀ {c d}, c ∈ q.children → d ∈ q.children → d ≠ c → c = node →
        (Function.update st node.id ns d.id).isSet → c.conf.maxChosen = 0 ∧
          d.conf.maxChosen = 0 := by
      intro c d hc hd hdc heq hset
      subst heq
      obtain rfl := ArgNode.parent_unique hids hq hp hc hnode
      rw [hother (ArgNode.child_mem_nodes hq hd) hdc] at hset
      exact ⟨hzero, h.outside q hq hnot d hd hset⟩
    by_cases hanode : a = node
    · exact hsibling ha hb hne.symm hanode hsetb
    · by_cases hbnode : b = node
      · exact (hsibling hb ha hne hbnode hseta).symm
      · rw [hother (ArgNode.child_mem_nodes hq ha) hanode] at hseta
        rw [hother (ArgNode.child_mem_nodes hq hb) hbnode] at hsetb
        exact h.conflicts q hq a ha b hb hne hconf hseta hsetb
  · intro q hq hnotq a ha hseta
    by_cases hanode : a = node
    · rw [hanode, hzero]
    · rw [hother (ArgNode.child_mem_nodes hq ha) hanode] at hseta
      exact h.outside q hq hnotq a ha hseta

/-- The nodes of the stack are nodes of the tree. -/
theorem mem_nodes_of_path (hbottom : stack.getLast? = some root)
    (hpath : stack.IsChain fun n p => n ∈ p.children) (hn : node ∈ stack) :
    node ∈ root.nodes := by
  refine hpath.backwards_induction (· ∈ root.nodes) stack ?_ ?_ node hn
  · intro n p hnp hp
    exact ArgNode.child_mem_nodes hp hnp
  · intro hne
    rw [List.getLast?_eq_some_getLast hne, Option.some.injEq] at hbottom
    rw [hbottom]
    exact root.self_mem_nodes

/-- A child of the top is not on the stack: it is smaller than everything there. -/
theorem not_mem_of_path (hpath : (top :: below).IsChain fun n p => n ∈ p.children)
    (hnode : node ∈ top.children) : node ∉ top :: below := by
  intro hin
  have hsmaller : ∀ n ∈ top :: below, node.ids.length < n.ids.length := by
    refine hpath.induction (fun n => node.ids.length < n.ids.length) _ ?_ ?_
    · intro n p hnp hn
      exact hn.trans (ArgNode.length_ids_child hnp)
    · intro _
      exact ArgNode.length_ids_child hnode
  exact lt_irrefl _ (hsmaller node hin)

theorem mem_children_of_sfFindChild {tok : Bytes} (h : sfFindChild top tok = some node) :
    node ∈ top.children :=
  List.mem_of_find?_eq_some h

/-- The invariants hold where the parser begins. -/
theorem parserInv_start (root : ArgNode σ) (argv : List Bytes) (st : NodeStates) (s : σ) :
    ParserInv root (parserStart root argv st s) := by
  have hfresh : ∀ n ∈ root.nodes, sfResetParseState root st n.id = .fresh := fun n hn =>
    if_pos (ArgNode.id_mem_ids_of_mem_nodes hn)
  have hnot : ∀ p ∈ root.nodes, ∀ a ∈ p.children,
      ¬(sfResetParseState root st a.id).isSet = true := by
    intro p hp a ha
    rw [hfresh a (ArgNode.child_mem_nodes hp ha)]
    exact Bool.false_ne_true
  refine ⟨rfl, List.isChain_singleton _, ?_, ?_, ?_, ?_⟩
  · intro n hn hpos
    change ((sfResetParseState root st n.id).chosenCount : ℤ) ≤ _
    rw [hfresh n hn]
    exact hpos.le
  · intro p hp a ha b _ _ hset
    exact absurd hset (hnot p hp a ha)
  · intro p hp a ha b _ _ _ hset
    exact absurd hset (hnot p hp a ha)
  · intro p hp _ a ha hset
    exact absurd hset (hnot p hp a ha)

/-- **A step keeps the invariants.** -/
theorem ParserInv.step {c c' : ParseConfig σ} (hids : root.ids.Nodup)
    (hnames : root.NamesNodup) (h : ParserInv root c) (hstep : ParserStep c c') :
    ParserInv root c' := by
  obtain ⟨hbottom, hpath, hmarks⟩ := h
  have hroot : ∀ n ∈ c.stack, n ∈ root.nodes := fun n hn => mem_nodes_of_path hbottom hpath hn
  have henter : ∀ {top node : ArgNode σ} {below : List (ArgNode σ)}, c.stack = top :: below →
      node ∈ top.children → (node :: top :: below).getLast? = some root ∧
        (node :: top :: below).IsChain fun n p => n ∈ p.children := by
    intro top node below hstack hnode
    rw [hstack] at hbottom hpath
    exact ⟨by rw [List.getLast?_cons_cons, hbottom], List.isChain_cons_cons.mpr ⟨hnode, hpath⟩⟩
  cases hstep with
  | pop hfind =>
      rw [List.getLast?_cons_cons] at hbottom
      exact ⟨hbottom, hpath.tail, hmarks.pop⟩
  | cmd hfind hvalid htype hroom =>
      have hnode := mem_children_of_sfFindChild hfind
      obtain ⟨hbottom', hpath'⟩ := henter rfl hnode
      exact ⟨hbottom', hpath', (hmarks.choose hids hnames (hroot _ List.mem_cons_self)
        List.mem_cons_self hnode (admitted_of_sfValidatePreIncrement hvalid) rfl).push⟩
  | flag hfind hvalid htype hcall =>
      have hnode := mem_children_of_sfFindChild hfind
      exact ⟨hbottom, hpath, hmarks.choose hids hnames (hroot _ List.mem_cons_self)
        List.mem_cons_self hnode (admitted_of_sfValidatePreIncrement hvalid) rfl⟩
  | @zero tok value rest top node hchild below st s s' hfind hvalid htype hzero hparse hcall =>
      have hnode := mem_children_of_sfFindChild hfind
      obtain ⟨hmem, hmax⟩ := maxChosen_of_sfFindMaxChosenZeroChild hzero
      have htop := hroot top List.mem_cons_self
      have hne : hchild.id ≠ node.id := by
        intro hid
        have heq := ArgNode.node_unique hids
          (ArgNode.child_mem_nodes (ArgNode.child_mem_nodes htop hnode) hmem)
          (ArgNode.child_mem_nodes htop hnode) hid
        have hlt := ArgNode.length_ids_child hmem
        rw [heq] at hlt
        exact lt_irrefl _ hlt
      -- the two marks are set on different nodes, so their order does not matter
      have hswap : (st.choose hchild).choose node = Function.update (st.choose node) hchild.id
          { st hchild.id with isSet := true, chosenCount := (st hchild.id).chosenCount + 1 } := by
        simp only [NodeStates.choose, Function.update_of_ne hne.symm]
        exact Function.update_comm hne _ _ _
      refine ⟨hbottom, hpath, ?_⟩
      change MarksInv root (top :: below) ((st.choose hchild).choose node)
      rw [hswap]
      refine MarksInv.chooseZero hids ?_ (ArgNode.child_mem_nodes htop hnode)
        (not_mem_of_path hpath hnode) hmem hmax
      exact hmarks.choose hids hnames htop List.mem_cons_self hnode
        (admitted_of_sfValidatePreIncrement hvalid) rfl
  | @opt tok value rest top node below stack st s s' hfind hvalid htype hzero hcall hpush =>
      have hnode := mem_children_of_sfFindChild hfind
      have hmarks' : MarksInv root (top :: below) (st.chooseValue node value) :=
        hmarks.choose hids hnames (hroot _ List.mem_cons_self) List.mem_cons_self hnode
          (admitted_of_sfValidatePreIncrement hvalid) rfl
      have hstack := enterOpt_stack hpush
      split_ifs at hstack
      · subst hstack
        exact ⟨hbottom, hpath, hmarks'⟩
      · subst hstack
        obtain ⟨hbottom', hpath'⟩ := henter rfl hnode
        exact ⟨hbottom', hpath', hmarks'.push⟩

/-- The invariants hold in every configuration that a parse reaches. -/
theorem ParserInv.of_run {c c' : ParseConfig σ} (hids : root.ids.Nodup)
    (hnames : root.NamesNodup) (h : ParserInv root c) (hrun : ReflTransGen ParserStep c c') :
    ParserInv root c' := by
  induction hrun with
  | refl => exact h
  | tail _ hstep ih => exact ih.step hids hnames hstep

end Invariant

/-! ### A successful parse -/

section Parse

variable {root : ArgNode σ} {argv : List Bytes} {st st' : NodeStates} {s s' : σ}

/-- A successful parse is a run that consumes the tokens, and a check of what it left on
the stack. -/
theorem tpbcliParseArgs_eq_ok (h : tpbcliParseArgs root st argv s = .ok st' s') :
    ∃ stack s₁, ReflTransGen ParserStep (parserStart root argv st s) ⟨[], stack, st', s₁⟩ ∧
      sfPostLoop root stack st' s₁ = .ok () s' := by
  unfold tpbcliParseArgs at h
  split_ifs at h
  · obtain ⟨⟨stack, st₁⟩, s₁, hloop, hpost⟩ := bind_eq_ok.mp h
    obtain ⟨⟨⟩, s₂, hpost, hend⟩ := bind_eq_ok.mp hpost
    cases hend
    have hstart : (parserStart root argv st s).stack ≠ [] := List.cons_ne_nil _ _
    exact ⟨stack, s₁, (parseLoop_eq_ok_iff hstart).mp hloop, hpost⟩
  · exact (failAt_ne_ok h).elim

/-- The check at the end: a mandatory child of a node on the stack is set or has a preset. -/
theorem mandatory_of_sfPostLoop {stack : List (ArgNode σ)}
    (h : sfPostLoop root stack st s = .ok () s') {p c : ArgNode σ} (hp : p ∈ stack)
    (hc : c ∈ p.children) (hmandatory : c.conf.mandatory) :
    (st c.id).isSet ∨ c.conf.preset := by
  unfold sfPostLoop at h
  split_ifs at h with _ hmiss
  · exact (failAt_ne_ok h).elim
  · exact (failAt_ne_ok h).elim
  · by_contra hneither
    push Not at hneither
    refine hmiss (List.any_eq_true.mpr ⟨p, hp, List.any_eq_true.mpr ⟨c, hc, ?_⟩⟩)
    simp [hmandatory, hneither.1, hneither.2]

/-- **What a parse keeps.** The parser ends on every command line; the invariants hold in
every state on the way; and after a successful parse the mandatory children of the nodes
that are still entered are there, and the marks depend on the tree and the command line
only, not on the marks that were there before or on the state of the callbacks. -/
theorem parse_args_invariants (root : ArgNode σ) (hbuilt : Built root) (argv : List Bytes)
    (st : NodeStates) (s : σ) :
    (WellFounded fun c' c : ParseConfig σ => ParserStep c c') ∧
    (∀ c, ReflTransGen ParserStep (parserStart root argv st s) c → ParserInv root c) ∧
    ∀ st' s', tpbcliParseArgs root st argv s = .ok st' s' →
      (∃ stack s₁, ReflTransGen ParserStep (parserStart root argv st s) ⟨[], stack, st', s₁⟩ ∧
        ∀ p ∈ stack, ∀ c ∈ p.children, c.conf.mandatory →
          (st' c.id).isSet ∨ c.conf.preset) ∧
      ∀ st₂ s₂ st₂' s₂', tpbcliParseArgs root st₂ argv s₂ = .ok st₂' s₂' →
        ∀ i ∈ root.ids, st' i = st₂' i := by
  refine ⟨parserStep_wellFounded, fun c hrun => ?_, fun st' s' hok => ?_⟩
  · exact (parserInv_start root argv st s).of_run hbuilt.ids_nodup hbuilt.names_nodup hrun
  · obtain ⟨stack, s₁, hrun, hpost⟩ := tpbcliParseArgs_eq_ok hok
    refine ⟨⟨stack, s₁, hrun, fun p hp c hc => mandatory_of_sfPostLoop hpost hp hc⟩, ?_⟩
    intro st₂ s₂ st₂' s₂' hok₂ i hi
    obtain ⟨stack₂, s₃, hrun₂, -⟩ := tpbcliParseArgs_eq_ok hok₂
    have hreset : sfResetParseState root st i = sfResetParseState root st₂ i := by
      rw [sfResetParseState, sfResetParseState, if_pos hi, if_pos hi]
    exact (states_eq_of_runs hrun hrun₂ rfl rfl hreset rfl rfl).2

end Parse

/-! ### Two children nothing is checked for -/

/-- A flag with `max_chosen` 0 and a callback, and a flag it conflicts with. -/
def zeroFlag (name other : Bytes) : ArgConf Unit where
  name := name
  shortName := none
  type := .flag
  exclusive := false
  mandatory := false
  preset := false
  delegateSubcmd := false
  maxChosen := 0
  parseFn := some fun _ => pure ()
  hasHelpFn := false
  conflictOpts := [other]

/-- An option that can be chosen any number of times. -/
def manyOpt : ArgConf Unit where
  name := ascii ['-', 'o']
  shortName := none
  type := .opt
  exclusive := false
  mandatory := false
  preset := false
  delegateSubcmd := false
  maxChosen := -1
  parseFn := none
  hasHelpFn := false
  conflictOpts := []

/-- An option with two flags that name each other as conflicts. -/
def zeroTree : ArgNode Unit :=
  tpbcliAddArg 1 3 (zeroFlag (ascii ['y']) (ascii ['x'])) <|
  tpbcliAddArg 1 2 (zeroFlag (ascii ['x']) (ascii ['y'])) <|
  tpbcliAddArg 0 1 manyOpt <|
  tpbcliArgtreeCreate 0 (ascii ['p'])

theorem built_zeroTree : Built zeroTree := by
  refine .addArg 1 3 _ (.addArg 1 2 _ (.addArg 0 1 _ (.create 0 _) ?_) ?_) ?_ <;> decide

/-- The option, with its two flags. -/
def zeroOpt : ArgNode Unit :=
  .node 1 manyOpt [.node 2 (zeroFlag (ascii ['x']) (ascii ['y'])) [],
    .node 3 (zeroFlag (ascii ['y']) (ascii ['x'])) []]

theorem zeroTree_eq : zeroTree = .node 0 (rootConf (ascii ['p'])) [zeroOpt] := by
  rfl

/-- **Conflicting flags that are both chosen.** The value of the option names the one, and
then the other. -/
theorem parse_args_zero_conflict : ∃ (root : ArgNode Unit) (argv : List Bytes)
    (c : ParseConfig Unit), Built root ∧
      ReflTransGen ParserStep (parserStart root argv (fun _ => .fresh) ()) c ∧
      ∃ p ∈ root.nodes, ∃ a ∈ p.children, ∃ b ∈ p.children, a ≠ b ∧ Conflicting a b ∧
        (c.states a.id).isSet ∧ (c.states b.id).isSet := by
  refine ⟨zeroTree, [ascii ['-', 'o'], ascii ['x'], ascii ['-', 'o'], ascii ['y']],
      _, built_zeroTree,
    .head (.zero rfl rfl rfl rfl rfl rfl) (.head (.zero rfl rfl rfl rfl rfl rfl) .refl),
    zeroOpt, ?_, .node 2 (zeroFlag (ascii ['x']) (ascii ['y'])) [], ?_,
    .node 3 (zeroFlag (ascii ['y']) (ascii ['x'])) [], ?_, ?_, ?_, ?_, ?_⟩
  · rw [zeroTree_eq]
    exact List.mem_cons_of_mem _ List.mem_cons_self
  · exact List.mem_cons_self
  · exact List.mem_cons_of_mem _ List.mem_cons_self
  · intro heq
    have hid := congrArg ArgNode.id heq
    cases hid
  · exact ⟨List.mem_cons_self, List.mem_cons_self⟩
  · rfl
  · rfl

/-- A value that names neither flag: the option is entered. -/
theorem parse_args_invariants_value : ∃ c : ParseConfig Unit,
    ReflTransGen ParserStep (parserStart zeroTree [ascii ['-', 'o'], ascii ['v']]
      (fun _ => .fresh) ()) c ∧ c.tokens = [] ∧ c.stack.length = 2 ∧ ParserInv zeroTree c := by
  have hrun : ReflTransGen ParserStep
      (parserStart zeroTree [ascii ['-', 'o'], ascii ['v']] (fun _ => .fresh) ())
      ⟨[], [zeroOpt, zeroTree], (sfResetParseState zeroTree fun _ => .fresh).chooseValue zeroOpt
        (ascii ['v']), ()⟩ := .head (.opt rfl rfl rfl rfl rfl rfl) .refl
  obtain ⟨-, hinv, -⟩ := parse_args_invariants zeroTree built_zeroTree
    [ascii ['-', 'o'], ascii ['v']] (fun _ => .fresh) ()
  exact ⟨_, hrun, rfl, rfl, hinv _ hrun⟩

end TPBench
