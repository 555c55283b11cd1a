import Mathlib.Algebra.Order.BigOperators.Group.Finset
import Mathlib.Data.Nat.Find
import TPBench.Conc.Runs

/-!
# Ranks and Collective Calls

A number of ranks run the same code over one shared state. The code of a rank is a machine:
at each point it has returned, performs a local action on the shared state, or calls a
collective (`Cmd`). A collective is entered with a contribution and left with a reply, and
the calls of the ranks are matched by their order, as on an MPI communicator. A rank leaves
as soon as the contributions its reply depends on are there (`Collectives.deliver`), so the
root of a broadcast does not wait for the others, and ranks can be several calls apart.

Nothing keeps two ranks from calling different collectives; then the reply never comes, and
they hang.

## Uniform control

Local actions give the ranks different data, and they branch on it. What keeps them together
is that the branches in front of a collective only look at the data that all ranks agree on.
A *plan* is the part of the code that this data determines: the next collective, or the
return (`Uniform`). If the code follows a plan, then in every state of every run

* the collectives the ranks have entered are prefixes of one sequence
  (`Uniform.comparable`);
* two ranks that have returned agree on the part of the result the plan determines, and on
  the whole sequence (`Uniform.returned`);
* a state without a step has no rank that has not returned (`Uniform.progress`).

A local action can return anything here, and the invariant (`Lockstep`) only tracks which
replies were given at which place of the sequence.
-/

namespace Conc

/-! ### Collectives -/

/-- The collectives of a communicator. A kind of call has a type of contributions and a type
of replies; `view` is the part of a reply that is the same on all ranks. -/
structure Collectives (ι : Type) where
  Kind : Type
  In : Kind → Type
  Out : Kind → Type
  View : Kind → Type
  view : (k : Kind) → Out k → View k
  deliver : (k : Kind) → ι → (ι → Option (In k)) → Option (Out k)
  decEq : DecidableEq Kind
  stable : ∀ {k i e e' o}, deliver k i e = some o →
    (∀ j v, e j = some v → e' j = some v) → deliver k i e' = some o
  agree : ∀ {k i j e o o'}, deliver k i e = some o → deliver k j e = some o' →
    view k o = view k o'
  total : ∀ {k e} i, (∀ j, (e j).isSome) → (deliver k i e).isSome

instance {ι : Type} (C : Collectives ι) : DecidableEq C.Kind := C.decEq

/-- What a rank does next: return, act on the shared state, or call a collective. -/
inductive Cmd {ι : Type} (C : Collectives ι) (σ P α : Type)
  | ret (a : α)
  | act (m : σ → P × σ)
  | coll (k : C.Kind) (v : C.In k) (next : C.Out k → P)

/-- The ranks of a run: the shared state, and for each rank its point in the code, the calls
it has entered, and whether it is still in the last of them. -/
structure Ranks {ι : Type} (C : Collectives ι) (σ P : Type) where
  shared : σ
  point : ι → P
  entered : ι → List (Σ k, C.In k)
  waiting : ι → Bool

section Steps

variable {ι σ P α : Type} {C : Collectives ι}

/-- The contribution of an entry to a call of kind `k`, when it is one. -/
def contribution (k : C.Kind) (e : Σ k, C.In k) : Option (C.In k) :=
  if h : e.1 = k then some (h ▸ e.2) else none

@[simp] theorem contribution_self (k : C.Kind) (v : C.In k) :
    contribution k ⟨k, v⟩ = some v := by
  simp [contribution]

theorem contribution_eq_some {k : C.Kind} {e : Σ k, C.In k} {v : C.In k} :
    contribution k e = some v ↔ e = ⟨k, v⟩ := by
  obtain ⟨k', v'⟩ := e
  constructor
  · intro h
    rw [contribution] at h
    split at h
    · rename_i hk
      cases hk
      cases h
      rfl
    · cases h
  · rintro h
    cases h
    exact contribution_self k v

/-- The contributions of kind `k` to call number `j`. -/
def Ranks.entries (s : Ranks C σ P) (j : ℕ) (k : C.Kind) (i : ι) : Option (C.In k) :=
  (s.entered i)[j]?.bind (contribution k)

/-- The number of calls a rank has left. -/
def Ranks.level (s : Ranks C σ P) (i : ι) : ℕ :=
  if s.waiting i then (s.entered i).length - 1 else (s.entered i).length

/-- The ranks before their first step. -/
def Ranks.start (shared : σ) (p : P) : Ranks C σ P :=
  ⟨shared, fun _ => p, fun _ => [], fun _ => false⟩

/-- One step of one rank. -/
inductive SpmdStep [DecidableEq ι] (cmd : ι → P → Cmd C σ P α) :
    Ranks C σ P → ι → Ranks C σ P → Prop
  | act {s : Ranks C σ P} {i : ι} {m : σ → P × σ} :
      cmd i (s.point i) = .act m →
      SpmdStep cmd s i { s with
        shared := (m s.shared).2
        point := Function.update s.point i (m s.shared).1 }
  | enter {s : Ranks C σ P} {i : ι} {k : C.Kind} {v : C.In k} {f : C.Out k → P} :
      cmd i (s.point i) = .coll k v f → s.waiting i = false →
      SpmdStep cmd s i { s with
        entered := Function.update s.entered i (s.entered i ++ [⟨k, v⟩])
        waiting := Function.update s.waiting i true }
  | leave {s : Ranks C σ P} {i : ι} {k : C.Kind} {v : C.In k} {f : C.Out k → P} {o : C.Out k} :
      cmd i (s.point i) = .coll k v f → s.waiting i = true →
      C.deliver k i (s.entries (s.level i) k) = some o →
      SpmdStep cmd s i { s with
        point := Function.update s.point i (f o)
        waiting := Function.update s.waiting i false }

/-- A local action whose outcome is known. -/
theorem SpmdStep.act_eq [DecidableEq ι] {cmd : ι → P → Cmd C σ P α} {s : Ranks C σ P} {i : ι}
    {m : σ → P × σ} {p : P} {x : σ} (hcmd : cmd i (s.point i) = .act m)
    (hm : m s.shared = (p, x)) :
    SpmdStep cmd s i { s with shared := x, point := Function.update s.point i p } := by
  have hstep := SpmdStep.act hcmd
  rwa [hm] at hstep

end Steps

/-! ### Plans -/

/-- What the data all ranks agree on determines: the result, or the next collective and what
follows from the common part of its reply. -/
inductive Plan {ι : Type} (C : Collectives ι) (U γ : Type)
  | ret (g : γ)
  | coll (k : C.Kind) (next : C.View k → U)

section Plan

variable {ι σ P α U γ : Type} {C : Collectives ι}

/-- The code follows the plan: `u` is the agreed part of a point. -/
structure Uniform (cmd : ι → P → Cmd C σ P α) (plan : U → Plan C U γ) (u : P → U)
    (f : α → γ) : Prop where
  ret : ∀ {i p a}, cmd i p = .ret a → plan (u p) = .ret (f a)
  act : ∀ {i p m}, cmd i p = .act m → ∀ s, u (m s).1 = u p
  coll : ∀ {i p k v g}, cmd i p = .coll k v g →
    ∃ nx, plan (u p) = .coll k nx ∧ ∀ o, u (g o) = nx (C.view k o)

/-- One call of the plan, with the common part of its reply. -/
def Plan.next (plan : U → Plan C U γ) (y : U) (w : Σ k, C.View k) : Option U :=
  match plan y with
  | .ret _ => none
  | .coll k nx => if h : w.1 = k then some (nx (h ▸ w.2)) else none

/-- A sequence of calls of the plan. -/
def Plan.walk (plan : U → Plan C U γ) (x : U) (us : List (Σ k, C.View k)) : Option U :=
  us.foldlM (Plan.next plan) x

theorem Plan.walk_snoc (plan : U → Plan C U γ) (x : U) (us : List (Σ k, C.View k))
    (w : Σ k, C.View k) :
    Plan.walk plan x (us ++ [w]) = (Plan.walk plan x us).bind (Plan.next plan · w) := by
  rw [Plan.walk, List.foldlM_append, Plan.walk]
  cases h : List.foldlM (Plan.next plan) x us <;> simp [List.foldlM_cons, List.foldlM_nil]

/-- One call of the plan. -/
theorem Plan.next_of_coll {plan : U → Plan C U γ} {y : U} {k : C.Kind} {nx : C.View k → U}
    (h : plan y = .coll k nx) (w : C.View k) : Plan.next plan y ⟨k, w⟩ = some (nx w) := by
  simp [Plan.next, h]

/-- What follows one call of the plan. -/
theorem Plan.eq_of_next {plan : U → Plan C U γ} {y z : U} {w : Σ k, C.View k}
    (h : Plan.next plan y w = some z) {k : C.Kind} {nx : C.View k → U}
    (hplan : plan y = .coll k nx) : ∃ v, z = nx v := by
  rw [Plan.next, hplan] at h
  simp only at h
  split at h
  · cases h
    exact ⟨_, rfl⟩
  · cases h

/-- A call of a sequence is the call of the plan at its place. -/
theorem Plan.walk_take {plan : U → Plan C U γ} {x y z : U} {us : List (Σ k, C.View k)}
    (h : Plan.walk plan x us = some y) {j : ℕ} {k : C.Kind} {w : C.View k}
    (hj : us[j]? = some ⟨k, w⟩) (hz : Plan.walk plan x (us.take j) = some z) :
    ∃ nx : C.View k → U, plan z = .coll k nx ∧
      Plan.walk plan x (us.take (j + 1)) = some (nx w) := by
  obtain ⟨hlt, hget⟩ := List.getElem?_eq_some_iff.mp hj
  have hnext : Plan.walk plan x (us.take (j + 1)) = Plan.next plan z ⟨k, w⟩ := by
    rw [List.take_succ_eq_append_getElem hlt, Plan.walk_snoc, hz, hget]
    rfl
  have hsome : ∃ z', Plan.walk plan x (us.take (j + 1)) = some z' := by
    rw [Plan.walk, ← List.take_append_drop (j + 1) us, List.foldlM_append] at h
    obtain ⟨z', hz', -⟩ := Option.bind_eq_some_iff.mp h
    exact ⟨z', hz'⟩
  obtain ⟨z', hz'⟩ := hsome
  rw [hz', Plan.next] at hnext
  cases hplan : plan z with
  | ret g =>
      rw [hplan] at hnext
      cases hnext
  | coll k' nx =>
      rw [hplan] at hnext
      simp only at hnext
      split at hnext
      · rename_i hk
        subst hk
        exact ⟨nx, rfl, hz'.trans hnext⟩
      · cases hnext

end Plan

/-! ### The invariant of uniform control -/

section Lockstep

variable {ι σ P α U γ : Type} {C : Collectives ι}

/-- The ranks are on one way through the plan: `us` are the common parts of the replies
given so far, and a rank that has left `n` calls is where the first `n` of them lead. -/
structure Lockstep (cmd : ι → P → Cmd C σ P α) (plan : U → Plan C U γ) (u : P → U) (x : U)
    (us : List (Σ k, C.View k)) (s : Ranks C σ P) : Prop where
  walks : ∃ y, Plan.walk plan x us = some y
  level_le : ∀ i, s.level i ≤ us.length
  point : ∀ i, Plan.walk plan x (us.take (s.level i)) = some (u (s.point i))
  kinds : ∀ i, ((s.entered i).map Sigma.fst).take (s.level i) =
    (us.map Sigma.fst).take (s.level i)
  last : ∀ i, s.waiting i = true → ∃ k v f, cmd i (s.point i) = .coll k v f ∧
    ∃ es, s.entered i = es ++ [⟨k, v⟩]
  given : ∀ j k w, us[j]? = some ⟨k, w⟩ →
    ∃ i o, C.deliver k i (s.entries j k) = some o ∧ C.view k o = w

variable {cmd : ι → P → Cmd C σ P α} {plan : U → Plan C U γ} {u : P → U} {f : α → γ} {x : U}
  {us : List (Σ k, C.View k)} {s s' : Ranks C σ P}

theorem lockstep_start {shared : σ} {p : P} (hp : u p = x) :
    Lockstep cmd plan u x [] (Ranks.start shared p) where
  walks := ⟨x, rfl⟩
  level_le _ := le_rfl
  point _ := by rw [← hp]; rfl
  kinds _ := rfl
  last _ h := by cases h
  given _ _ _ h := by simp at h

/-- A rank in a call is one call behind the calls it has entered. -/
theorem Lockstep.length_entered (h : Lockstep cmd plan u x us s) {i : ι}
    (hwait : s.waiting i = true) : (s.entered i).length = s.level i + 1 := by
  obtain ⟨k, v, g, -, es, hes⟩ := h.last i hwait
  simp [Ranks.level, hwait, hes]

/-- The call a rank is in is the one of the plan at its place. -/
theorem Lockstep.waiting_kind (hu : Uniform cmd plan u f) (h : Lockstep cmd plan u x us s)
    {i : ι} (hwait : s.waiting i = true) :
    ∃ k v es nx, s.entered i = es ++ [⟨k, v⟩] ∧ es.length = s.level i ∧
      plan (u (s.point i)) = .coll k nx := by
  obtain ⟨k, v, g, hcmd, es, hes⟩ := h.last i hwait
  obtain ⟨nx, hplan, -⟩ := hu.coll hcmd
  refine ⟨k, v, es, nx, hes, ?_, hplan⟩
  have hlen := h.length_entered hwait
  rw [hes, List.length_append, List.length_singleton] at hlen
  omega

/-- A rank that has returned has left all calls of the way, which is complete. -/
theorem Lockstep.returned (hu : Uniform cmd plan u f) (h : Lockstep cmd plan u x us s) {i : ι}
    {a : α} (hret : cmd i (s.point i) = .ret a) :
    s.level i = us.length ∧ plan (u (s.point i)) = .ret (f a) ∧
      (s.entered i).map Sigma.fst = us.map Sigma.fst := by
  have hplan := hu.ret hret
  obtain ⟨y, hy⟩ := h.walks
  have hwait : s.waiting i = false := by
    by_contra hwait
    obtain ⟨k, v, g, hcoll, -⟩ := h.last i (by simpa using hwait)
    rw [hret] at hcoll
    cases hcoll
  have hlevel : s.level i = us.length := by
    refine (h.level_le i).eq_of_not_lt fun hlt => ?_
    obtain ⟨nx, hplan', -⟩ := Plan.walk_take hy (List.getElem?_eq_getElem hlt) (h.point i)
    rw [hplan] at hplan'
    cases hplan'
  refine ⟨hlevel, hplan, ?_⟩
  have hkinds := h.kinds i
  have hlen : ((s.entered i).map Sigma.fst).length = s.level i := by
    simp [Ranks.level, hwait]
  rw [List.take_of_length_le hlen.le, hlevel, List.take_of_length_le (by simp)] at hkinds
  exact hkinds

/-- The collective the plan calls next, when it calls one. -/
def Plan.kinds : Plan C U γ → List C.Kind
  | .ret _ => []
  | .coll k _ => [k]

/-- The calls a rank has entered are the first calls of the way, and the next one of the plan
when it is at the end of the way. -/
theorem Lockstep.entered_prefix (hu : Uniform cmd plan u f) (h : Lockstep cmd plan u x us s)
    {y : U} (hy : Plan.walk plan x us = some y) (i : ι) :
    (s.entered i).map Sigma.fst <+: us.map Sigma.fst ++ (plan y).kinds := by
  have hkinds := h.kinds i
  cases hwait : s.waiting i with
  | false =>
      have hlevel : s.level i = ((s.entered i).map Sigma.fst).length := by
        simp [Ranks.level, hwait]
      rw [hlevel, List.take_length] at hkinds
      rw [hkinds]
      exact (List.take_prefix _ _).trans (List.prefix_append _ _)
  | true =>
      obtain ⟨k, v, es, nx, hes, hlen, hplan⟩ := h.waiting_kind hu hwait
      rw [hes, List.map_append, List.take_append_of_le_length (by simp [hlen]),
        List.take_of_length_le (by simp [hlen])] at hkinds
      rw [hes, List.map_append, hkinds]
      rcases (h.level_le i).lt_or_eq with hlt | heq
      · obtain ⟨⟨k', w⟩, hget⟩ : ∃ e, us[s.level i]? = some e :=
          ⟨_, List.getElem?_eq_getElem hlt⟩
        obtain ⟨nx', hplan', -⟩ := Plan.walk_take hy hget (h.point i)
        rw [hplan] at hplan'
        cases hplan'
        have htake : (us.map Sigma.fst).take (s.level i) ++ [k] =
            (us.map Sigma.fst).take (s.level i + 1) := by
          rw [List.take_add_one, List.getElem?_map, hget]
          rfl
        rw [List.map_singleton, htake]
        exact (List.take_prefix _ _).trans (List.prefix_append _ _)
      · have hpoint := h.point i
        rw [heq, List.take_length, hy] at hpoint
        obtain rfl := Option.some.inj hpoint
        rw [hplan, heq, List.take_of_length_le (by simp)]
        exact List.prefix_refl _

/-- A rank that is not behind a waiting rank has made the contribution the waiting rank
needs. -/
theorem Lockstep.entries_isSome (hu : Uniform cmd plan u f) (h : Lockstep cmd plan u x us s)
    {i j : ι} {k : C.Kind} {nx : C.View k → U} (hplan : plan (u (s.point i)) = .coll k nx)
    (hj : s.level i < s.level j ∨ s.level i = s.level j ∧ s.waiting j = true) :
    (s.entries (s.level i) k j).isSome := by
  obtain ⟨y, hy⟩ := h.walks
  rcases hj with hlt | ⟨heq, hwait⟩
  · have hlen := hlt.trans_le (h.level_le j)
    obtain ⟨⟨k', w⟩, hget⟩ : ∃ e, us[s.level i]? = some e := ⟨_, List.getElem?_eq_getElem hlen⟩
    obtain ⟨nx', hplan', -⟩ := Plan.walk_take hy hget (h.point i)
    rw [hplan] at hplan'
    cases hplan'
    have hkind : ((s.entered j).map Sigma.fst)[s.level i]? = some k := by
      rw [← List.getElem?_take_of_lt hlt, h.kinds j, List.getElem?_take_of_lt hlt,
        List.getElem?_map, hget]
      rfl
    rw [List.getElem?_map] at hkind
    obtain ⟨⟨k', v⟩, hent, hfst⟩ := Option.map_eq_some_iff.mp hkind
    cases hfst
    simp [Ranks.entries, hent]
  · obtain ⟨k', v, es, nx', hes, hlen, hplan'⟩ := h.waiting_kind hu hwait
    have hsame : u (s.point i) = u (s.point j) := by
      refine Option.some.inj ?_
      rw [← h.point i, ← h.point j, heq]
    rw [← hsame, hplan] at hplan'
    cases hplan'
    simp [Ranks.entries, hes, ← hlen, heq]

/-- What a waiting rank contributed to its call. -/
theorem Lockstep.entries_self (h : Lockstep cmd plan u x us s) {i : ι}
    (hwait : s.waiting i = true) {k : C.Kind} {v : C.In k} {g : C.Out k → P}
    (hcmd : cmd i (s.point i) = .coll k v g) : s.entries (s.level i) k i = some v := by
  have hlen := h.length_entered hwait
  obtain ⟨k', v', g', hcmd', es, hes⟩ := h.last i hwait
  rw [hcmd] at hcmd'
  cases hcmd'
  rw [hes, List.length_append, List.length_singleton] at hlen
  have hes' : es.length = s.level i := by omega
  simp [Ranks.entries, hes, ← hes']

/-- A rank has made no contribution behind the call it is in. -/
theorem Lockstep.entries_eq_none (h : Lockstep cmd plan u x us s) {i : ι} {l : ℕ}
    (hl : s.level i < l ∨ s.level i = l ∧ s.waiting i = false) (k : C.Kind) :
    s.entries l k i = none := by
  have hlen : (s.entered i).length ≤ l := by
    cases hwait : s.waiting i with
    | true =>
        rw [h.length_entered hwait]
        simp only [hwait, Bool.true_eq_false, and_false, or_false] at hl
        exact hl
    | false =>
        have hlevel : s.level i = (s.entered i).length := by simp [Ranks.level, hwait]
        omega
  simp [Ranks.entries, List.getElem?_eq_none hlen]

/-- The call a rank has left was answered, and it is the one of the plan at its place. -/
theorem Lockstep.answered (h : Lockstep cmd plan u x us s) {i : ι} {l : ℕ}
    (hl : l < s.level i) {y : U} (hy : Plan.walk plan x (us.take l) = some y) {k : C.Kind}
    {nx : C.View k → U} (hplan : plan y = .coll k nx) :
    ∃ j o, C.deliver k j (s.entries l k) = some o := by
  obtain ⟨z, hz⟩ := h.walks
  obtain ⟨⟨k', w⟩, hget⟩ : ∃ e, us[l]? = some e :=
    ⟨_, List.getElem?_eq_getElem (hl.trans_le (h.level_le i))⟩
  obtain ⟨nx', hplan', -⟩ := Plan.walk_take hz hget hy
  rw [hplan] at hplan'
  cases hplan'
  obtain ⟨j, o, hdel, -⟩ := h.given l k w hget
  exact ⟨j, o, hdel⟩

/-- A rank in front of a local action is in no call. -/
theorem Lockstep.not_waiting (h : Lockstep cmd plan u x us s) {i : ι} {m : σ → P × σ}
    (hcmd : cmd i (s.point i) = .act m) : s.waiting i = false := by
  by_contra hwait
  obtain ⟨k, v, g, hcoll, -⟩ := h.last i (by simpa using hwait)
  rw [hcmd] at hcoll
  cases hcoll

variable [DecidableEq ι]

/-- Entering a call keeps the contributions that are there. -/
theorem entries_enter (s : Ranks C σ P) (i : ι) (e : Σ k, C.In k) (j : ℕ) (k : C.Kind) (r : ι)
    (v : C.In k) (h : s.entries j k r = some v) :
    Ranks.entries { s with
      entered := Function.update s.entered i (s.entered i ++ [e])
      waiting := Function.update s.waiting i true } j k r = some v := by
  rw [Ranks.entries] at h ⊢
  by_cases hr : r = i
  · subst hr
    obtain ⟨e', hget, hcon⟩ := Option.bind_eq_some_iff.mp h
    obtain ⟨hlt, -⟩ := List.getElem?_eq_some_iff.mp hget
    simp only [Function.update_self]
    rw [List.getElem?_append_left hlt, hget]
    exact hcon
  · simp only [Function.update_of_ne hr]
    exact h

/-- Contributions stay. -/
theorem entries_run {t : List ι} (hrun : Run (SpmdStep cmd) s t s') {j : ℕ} {k : C.Kind} {r : ι}
    {v : C.In k} (h : s.entries j k r = some v) : s'.entries j k r = some v := by
  refine Run.invariant (P := fun _ s' => s'.entries j k r = some v) h ?_ hrun
  intro t s i s' ih hstep
  cases hstep with
  | act hcmd => exact ih
  | enter hcmd hfree => exact entries_enter s i _ j k r v ih
  | leave hcmd hwait hdel => exact ih

/-- A contribution is from before the entering of a call, or is the one that was made. -/
theorem entries_enter_cases {s : Ranks C σ P} {i : ι} {e : Σ k, C.In k} {j : ℕ} {k : C.Kind}
    {r : ι} {v : C.In k}
    (h : Ranks.entries { s with
      entered := Function.update s.entered i (s.entered i ++ [e])
      waiting := Function.update s.waiting i true } j k r = some v) :
    s.entries j k r = some v ∨ r = i ∧ e = ⟨k, v⟩ := by
  rw [Ranks.entries] at h
  by_cases hr : r = i
  · subst hr
    obtain ⟨e', hget, hcon⟩ := Option.bind_eq_some_iff.mp h
    simp only [Function.update_self] at hget
    by_cases hlt : j < (s.entered r).length
    · rw [List.getElem?_append_left hlt] at hget
      exact .inl (Option.bind_eq_some_iff.mpr ⟨e', hget, hcon⟩)
    · rw [List.getElem?_append_right (Nat.le_of_not_lt hlt), List.getElem?_singleton] at hget
      split at hget
      · cases hget
        exact .inr ⟨rfl, contribution_eq_some.mp hcon⟩
      · cases hget
  · simp only [Function.update_of_ne hr] at h
    exact .inl h

/-- A local action keeps the ranks on their way. -/
theorem Lockstep.act (hu : Uniform cmd plan u f) (h : Lockstep cmd plan u x us s) {i : ι}
    {m : σ → P × σ} (hcmd : cmd i (s.point i) = .act m) :
    Lockstep cmd plan u x us { s with
      shared := (m s.shared).2
      point := Function.update s.point i (m s.shared).1 } where
  walks := h.walks
  level_le := h.level_le
  kinds := h.kinds
  given := h.given
  point r := by
    by_cases hr : r = i
    · subst hr
      simp only [Function.update_self, hu.act hcmd]
      exact h.point r
    · simp only [Function.update_of_ne hr]
      exact h.point r
  last r hr := by
    by_cases hri : r = i
    · subst hri
      rw [h.not_waiting hcmd] at hr
      cases hr
    · simp only [Function.update_of_ne hri]
      exact h.last r hr

/-- Entering a call keeps the ranks on their way. -/
theorem Lockstep.enter (h : Lockstep cmd plan u x us s) {i : ι} {k : C.Kind} {v : C.In k}
    {g : C.Out k → P} (hcmd : cmd i (s.point i) = .coll k v g) (hfree : s.waiting i = false) :
    Lockstep cmd plan u x us { s with
      entered := Function.update s.entered i (s.entered i ++ [⟨k, v⟩])
      waiting := Function.update s.waiting i true } := by
  set s' : Ranks C σ P := { s with
    entered := Function.update s.entered i (s.entered i ++ [⟨k, v⟩])
    waiting := Function.update s.waiting i true }
  have hlevel : ∀ r, s'.level r = s.level r := by
    intro r
    by_cases hr : r = i
    · subst hr
      simp [s', Ranks.level, hfree]
    · simp [s', Ranks.level, Function.update_of_ne hr]
  refine ⟨h.walks, ?_, ?_, ?_, ?_, ?_⟩
  · intro r
    rw [hlevel]
    exact h.level_le r
  · intro r
    rw [hlevel]
    exact h.point r
  · intro r
    rw [hlevel, ← h.kinds r]
    by_cases hr : r = i
    · subst hr
      have hle : s.level r ≤ ((s.entered r).map Sigma.fst).length := by
        simp [Ranks.level, hfree]
      simp only [s', Function.update_self, List.map_append]
      rw [List.take_append_of_le_length hle]
    · simp only [s', Function.update_of_ne hr]
  · intro r hr
    by_cases hri : r = i
    · subst hri
      exact ⟨k, v, g, hcmd, s.entered r, by simp [s']⟩
    · simp only [s', Function.update_of_ne hri] at hr ⊢
      exact h.last r hr
  · intro j k' w hj
    obtain ⟨r, o, hdel, hview⟩ := h.given j k' w hj
    exact ⟨r, o, C.stable hdel (entries_enter s i ⟨k, v⟩ j k'), hview⟩

/-- The state after rank `i` has left its call for the point `p`. -/
def Ranks.left (s : Ranks C σ P) (i : ι) (p : P) : Ranks C σ P :=
  { s with point := Function.update s.point i p, waiting := Function.update s.waiting i false }

theorem Ranks.level_left_of_ne (s : Ranks C σ P) {i r : ι} (p : P) (hr : r ≠ i) :
    (s.left i p).level r = s.level r := by
  simp [Ranks.left, Ranks.level, Function.update_of_ne hr]

theorem Lockstep.level_left (h : Lockstep cmd plan u x us s) {i : ι} (p : P)
    (hwait : s.waiting i = true) : (s.left i p).level i = s.level i + 1 := by
  rw [← h.length_entered hwait]
  simp [Ranks.left, Ranks.level]

/-- Leaving a call whose reply is on the way already, or is added to it, keeps the ranks on
their way. -/
theorem Lockstep.leave_of_walk (h : Lockstep cmd plan u x us s) {i : ι} {k : C.Kind}
    {v : C.In k} {g : C.Out k → P} {o : C.Out k} (hcmd : cmd i (s.point i) = .coll k v g)
    (hwait : s.waiting i = true)
    (hdel : C.deliver k i (s.entries (s.level i) k) = some o) {us' : List (Σ k, C.View k)}
    (hpre : us <+: us') (hlen : us'.length ≤ us.length + 1)
    (hget : us'[s.level i]? = some ⟨k, C.view k o⟩)
    (hend : us' ≠ us → us.length = s.level i) {y : U} (hwalks : Plan.walk plan x us' = some y)
    (hwalk : Plan.walk plan x (us'.take (s.level i + 1)) = some (u (g o))) :
    Lockstep cmd plan u x us' (s.left i (g o)) := by
  have hlt : s.level i < us'.length := (List.getElem?_eq_some_iff.mp hget).1
  have htake : ∀ r, us'.take (s.level r) = us.take (s.level r) := by
    intro r
    obtain ⟨rest, rfl⟩ := hpre
    exact List.take_append_of_le_length (h.level_le r)
  have hlevels : ∀ r, r ≠ i → (s.left i (g o)).level r = s.level r :=
    fun r hr => s.level_left_of_ne _ hr
  refine ⟨⟨y, hwalks⟩, ?_, ?_, ?_, ?_, ?_⟩
  · intro r
    by_cases hr : r = i
    · subst hr
      rw [h.level_left _ hwait]
      exact hlt
    · rw [hlevels r hr]
      exact (h.level_le r).trans hpre.length_le
  · intro r
    by_cases hr : r = i
    · subst hr
      rw [h.level_left _ hwait, hwalk]
      simp [Ranks.left]
    · rw [hlevels r hr, htake, h.point r]
      simp [Ranks.left, Function.update_of_ne hr]
  · intro r
    by_cases hr : r = i
    · subst hr
      obtain ⟨k', v', g', hcoll, es, hes⟩ := h.last r hwait
      rw [hcmd] at hcoll
      cases hcoll
      have hlen' := h.length_entered hwait
      have hes' : es.length = s.level r := by
        rw [hes, List.length_append, List.length_singleton] at hlen'
        omega
      have hkinds : es.map Sigma.fst = (us'.map Sigma.fst).take (s.level r) := by
        have := h.kinds r
        rw [hes, List.map_append, List.take_append_of_le_length (by simp [hes'])] at this
        rw [← List.map_take, htake, List.map_take, ← this]
        exact (List.take_of_length_le (by simp [hes'])).symm
      have hent : (s.left r (g o)).entered r = es ++ [⟨k, v⟩] := hes
      rw [h.level_left _ hwait, hent, List.take_of_length_le (by simp [hes']), List.map_append,
        hkinds, List.take_add_one, List.getElem?_map, hget]
      rfl
    · rw [hlevels r hr, ← List.map_take, ← List.map_take, htake, List.map_take, List.map_take]
      exact h.kinds r
  · intro r hr
    by_cases hri : r = i
    · subst hri
      simp [Ranks.left] at hr
    · simp only [Ranks.left, Function.update_of_ne hri] at hr ⊢
      exact h.last r hr
  · intro j k' w hj
    by_cases hold : j < us.length
    · obtain ⟨rest, rfl⟩ := hpre
      rw [List.getElem?_append_left hold] at hj
      exact h.given j k' w hj
    · have hne : us' ≠ us := by
        rintro rfl
        exact hold (List.getElem?_eq_some_iff.mp hj).1
      have hlevel := hend hne
      have hj' : j < us'.length := (List.getElem?_eq_some_iff.mp hj).1
      obtain rfl : j = s.level i := by omega
      rw [hget] at hj
      cases hj
      exact ⟨i, o, hdel, rfl⟩

/-- Leaving a call keeps the ranks on one way, which grows when the rank is the first to
leave the call. -/
theorem Lockstep.leave (hu : Uniform cmd plan u f) (h : Lockstep cmd plan u x us s) {i : ι}
    {k : C.Kind} {v : C.In k} {g : C.Out k → P} {o : C.Out k}
    (hcmd : cmd i (s.point i) = .coll k v g) (hwait : s.waiting i = true)
    (hdel : C.deliver k i (s.entries (s.level i) k) = some o) :
    ∃ us', Lockstep cmd plan u x us' (s.left i (g o)) := by
  obtain ⟨nx, hplan, hnx⟩ := hu.coll hcmd
  obtain ⟨y, hwalks⟩ := h.walks
  have hpoint := h.point i
  rcases (h.level_le i).lt_or_eq with hlt | hlen
  · -- another rank has left the call before, with the same view
    obtain ⟨⟨k', w⟩, hget⟩ : ∃ e, us[s.level i]? = some e := ⟨_, List.getElem?_eq_getElem hlt⟩
    obtain ⟨nx', hplan', hwalk⟩ := Plan.walk_take hwalks hget hpoint
    rw [hplan] at hplan'
    cases hplan'
    obtain ⟨r, o', hdel', rfl⟩ := h.given _ _ _ hget
    rw [C.agree hdel' hdel] at hget hwalk
    refine ⟨us, h.leave_of_walk hcmd hwait hdel (List.prefix_refl us) (Nat.le_succ _) hget
      (fun hne => absurd rfl hne) hwalks ?_⟩
    rw [hwalk, hnx]
  · -- the rank is the first to leave the call
    rw [hlen, List.take_length] at hpoint
    have hwalk : Plan.walk plan x (us ++ [⟨k, C.view k o⟩]) = some (u (g o)) := by
      rw [Plan.walk_snoc, hpoint, hnx]
      exact Plan.next_of_coll hplan _
    refine ⟨us ++ [⟨k, C.view k o⟩], h.leave_of_walk hcmd hwait hdel (List.prefix_append _ _)
      (by simp) (by simp [hlen]) (fun _ => hlen.symm) hwalk ?_⟩
    rw [List.take_of_length_le (by simp [hlen]), hwalk]

/-- Every step keeps the ranks on one way. -/
theorem Lockstep.step (hu : Uniform cmd plan u f) (h : Lockstep cmd plan u x us s) {i : ι}
    (hstep : SpmdStep cmd s i s') : ∃ us', Lockstep cmd plan u x us' s' := by
  cases hstep with
  | act hcmd => exact ⟨us, h.act hu hcmd⟩
  | enter hcmd hfree => exact ⟨us, h.enter hcmd hfree⟩
  | leave hcmd hwait hdel => exact h.leave hu hcmd hwait hdel

/-- The ranks of a run are on one way. -/
theorem Uniform.lockstep (hu : Uniform cmd plan u f) {shared : σ} {p : P} {t : List ι}
    (hrun : Run (SpmdStep cmd) (Ranks.start shared p) t s) :
    ∃ us, Lockstep cmd plan u (u p) us s := by
  refine Run.invariant (P := fun _ s => ∃ us, Lockstep cmd plan u (u p) us s)
    ⟨[], lockstep_start rfl⟩ ?_ hrun
  rintro t s i s' ⟨us, h⟩ hstep
  exact h.step hu hstep

/-- **One sequence of collectives.** Of the sequences of collectives that two ranks have
entered, one is a prefix of the other, in every state of every run. -/
theorem Uniform.comparable (hu : Uniform cmd plan u f) {shared : σ} {p : P} {t : List ι}
    (hrun : Run (SpmdStep cmd) (Ranks.start shared p) t s) (i j : ι) :
    (s.entered i).map Sigma.fst <+: (s.entered j).map Sigma.fst ∨
      (s.entered j).map Sigma.fst <+: (s.entered i).map Sigma.fst := by
  obtain ⟨us, h⟩ := hu.lockstep hrun
  obtain ⟨y, hy⟩ := h.walks
  exact List.prefix_or_prefix_of_prefix (h.entered_prefix hu hy i) (h.entered_prefix hu hy j)

/-- **One result.** Two ranks that have returned have entered the same collectives, and agree
on the part of the result that the plan determines. -/
theorem Uniform.returned (hu : Uniform cmd plan u f) {shared : σ} {p : P} {t : List ι}
    (hrun : Run (SpmdStep cmd) (Ranks.start shared p) t s) {i j : ι} {a b : α}
    (ha : cmd i (s.point i) = .ret a) (hb : cmd j (s.point j) = .ret b) :
    f a = f b ∧ (s.entered i).map Sigma.fst = (s.entered j).map Sigma.fst := by
  obtain ⟨us, h⟩ := hu.lockstep hrun
  obtain ⟨hleveli, hplani, hkindsi⟩ := h.returned hu ha
  obtain ⟨hlevelj, hplanj, hkindsj⟩ := h.returned hu hb
  refine ⟨?_, hkindsi.trans hkindsj.symm⟩
  have hsame : u (s.point i) = u (s.point j) := by
    refine Option.some.inj ?_
    rw [← h.point i, ← h.point j, hleveli, hlevelj]
  rw [hsame, hplanj] at hplani
  injection hplani with hfa
  exact hfa.symm

/-- **No rank hangs.** When no rank can take a step, all have returned. -/
theorem Uniform.progress (hu : Uniform cmd plan u f) {shared : σ} {p : P} {t : List ι}
    (hrun : Run (SpmdStep cmd) (Ranks.start shared p) t s)
    (hstuck : ∀ i s', ¬ SpmdStep cmd s i s') (i : ι) : ∃ a, cmd i (s.point i) = .ret a := by
  obtain ⟨us, h⟩ := hu.lockstep hrun
  have hshape : ∀ j, (∃ a, cmd j (s.point j) = .ret a) ∨ s.waiting j = true := by
    intro j
    cases hcmd : cmd j (s.point j) with
    | ret a => exact .inl ⟨a, rfl⟩
    | act m => exact absurd (SpmdStep.act hcmd) (hstuck j _)
    | coll k v g =>
        cases hwait : s.waiting j with
        | true => exact .inr rfl
        | false => exact absurd (SpmdStep.enter hcmd hwait) (hstuck j _)
  by_contra hi
  -- among the waiting ranks, take one that has left the fewest calls
  have hex : ∃ n j, s.waiting j = true ∧ s.level j = n :=
    ⟨_, i, (hshape i).resolve_left hi, rfl⟩
  classical
  obtain ⟨j, hwait, hlevel⟩ := Nat.find_spec hex
  obtain ⟨k, v, g, hcmd, -⟩ := h.last j hwait
  obtain ⟨nx, hplan, -⟩ := hu.coll hcmd
  have hall : ∀ r, (s.entries (s.level j) k r).isSome := by
    intro r
    refine h.entries_isSome hu hplan ?_
    rcases hshape r with ⟨a, hret⟩ | hr
    · obtain ⟨hlen, hplan', -⟩ := h.returned hu hret
      refine .inl ((hlen ▸ h.level_le j).lt_of_ne fun heq => ?_)
      have hsame : u (s.point j) = u (s.point r) := by
        refine Option.some.inj ?_
        rw [← h.point j, ← h.point r, heq]
      rw [hsame, hplan'] at hplan
      cases hplan
    · have hmin : s.level j ≤ s.level r := by
        rw [hlevel]
        exact Nat.find_min' hex ⟨r, hr, rfl⟩
      rcases hmin.lt_or_eq with hlt | heq
      · exact .inl hlt
      · exact .inr ⟨heq, hr⟩
  obtain ⟨o, hdel⟩ := Option.isSome_iff_exists.mp (C.total j hall)
  exact hstuck j _ (.leave hcmd hwait hdel)

end Lockstep

/-! ### Runs end -/

section Measure

variable {ι σ P α : Type} [DecidableEq ι] [Fintype ι] {C : Collectives ι}

/-- The steps the ranks still have to take, when `size` bounds the rest of the code. -/
def Ranks.todo (size : P → ℕ) (s : Ranks C σ P) : ℕ :=
  ∑ i, (2 * size (s.point i) + if s.waiting i then 0 else 1)

/-- When every command shortens the rest of the code, a run is no longer than the code. -/
theorem length_run_le {cmd : ι → P → Cmd C σ P α} {size : P → ℕ}
    (hact : ∀ {i p m}, cmd i p = .act m → ∀ s, size (m s).1 < size p)
    (hcoll : ∀ {i p k v g}, cmd i p = .coll k v g → ∀ o, size (g o) < size p)
    {s₀ s : Ranks C σ P} {t : List ι} (hrun : Run (SpmdStep cmd) s₀ t s) :
    t.length + s.todo size ≤ s₀.todo size := by
  refine Run.invariant (P := fun t s => t.length + s.todo size ≤ s₀.todo size) (by simp) ?_ hrun
  intro t s i s' ih hstep
  have hother : ∀ r, r ≠ i → s'.point r = s.point r ∧ s'.waiting r = s.waiting r := by
    intro r hr
    cases hstep with
    | act hcmd => exact ⟨Function.update_of_ne hr _ _, rfl⟩
    | enter hcmd hfree => exact ⟨rfl, Function.update_of_ne hr _ _⟩
    | leave hcmd hwait hdel =>
        exact ⟨Function.update_of_ne hr _ _, Function.update_of_ne hr _ _⟩
  have hself : (2 * size (s'.point i) + if s'.waiting i then 0 else 1) <
      2 * size (s.point i) + if s.waiting i then 0 else 1 := by
    cases hstep with
    | act hcmd =>
        have := hact hcmd s.shared
        simp only [Function.update_self]
        split <;> omega
    | enter hcmd hfree =>
        simp [hfree]
    | leave hcmd hwait hdel =>
        rename_i o
        have := hcoll hcmd o
        simp only [Function.update_self, hwait]
        simp only [Bool.false_eq_true, if_false, if_true]
        omega
  have hless : s'.todo size < s.todo size := by
    refine Finset.sum_lt_sum (fun r _ => ?_) ⟨i, Finset.mem_univ i, hself⟩
    by_cases hr : r = i
    · rw [hr]
      exact hself.le
    · rw [(hother r hr).1, (hother r hr).2]
  rw [List.length_append, List.length_singleton]
  omega

/-- Every run of uniform code that shortens the rest of the code goes on until all ranks have
returned. -/
theorem Uniform.exists_complete {U γ : Type} {cmd : ι → P → Cmd C σ P α} {plan : U → Plan C U γ}
    {u : P → U} {f : α → γ} (hu : Uniform cmd plan u f) {size : P → ℕ}
    (hact : ∀ {i p m}, cmd i p = .act m → ∀ s, size (m s).1 < size p)
    (hcoll : ∀ {i p k v g}, cmd i p = .coll k v g → ∀ o, size (g o) < size p)
    {shared : σ} {p : P} {t : List ι} {s : Ranks C σ P}
    (hrun : Run (SpmdStep cmd) (Ranks.start shared p) t s) :
    ∃ t' s', Run (SpmdStep cmd) s t' s' ∧ ∀ i, ∃ a, cmd i (s'.point i) = .ret a := by
  -- induction on the number of steps that are left
  obtain ⟨k, hk⟩ : ∃ k, (Ranks.start shared p : Ranks C σ P).todo size - t.length ≤ k :=
    ⟨_, le_rfl⟩
  induction k generalizing t s with
  | zero =>
      refine ⟨[], s, .nil, hu.progress hrun fun i s' hstep => ?_⟩
      have hlen := length_run_le hact hcoll (hrun.snoc hstep)
      rw [List.length_append, List.length_singleton] at hlen
      omega
  | succ k ih =>
      by_cases hstuck : ∀ i s', ¬ SpmdStep cmd s i s'
      · exact ⟨[], s, .nil, hu.progress hrun hstuck⟩
      · simp only [not_forall, not_not] at hstuck
        obtain ⟨i, s', hstep⟩ := hstuck
        have hlen : (Ranks.start shared p : Ranks C σ P).todo size - (t ++ [i]).length ≤ k := by
          rw [List.length_append, List.length_singleton]
          omega
        obtain ⟨t', s'', hrun', hret⟩ := ih (hrun.snoc hstep) hlen
        exact ⟨[] ++ [i] ++ t', s'', (Run.nil.snoc hstep).trans hrun', hret⟩

end Measure

end Conc
