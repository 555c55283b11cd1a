import Mathlib.Data.Fintype.EquivFin
import Mathlib.Data.Set.Finite.Lattice
import Mathlib.Order.RelIso.Basic

/-!
# Memoised Evaluation of References

Nodes have arguments, and an argument is a value or a reference to a node. A node is evaluated
by evaluating its arguments in their order; an argument may stop the evaluation, which then has
a value of its own. `System.denote` evaluates so, with a fuel for the depth of the references.

`System.memo` evaluates with a table: the value of a node is looked up, and stored once it is
known. The flag that a node is known is only set when its arguments have been evaluated, so that
nothing cuts a cycle of references.

## Main results

* `System.denotes_iff_acc`: a node has a value if and only if the references that are read from
  it are well founded, and `System.forall_denotes_iff`: on finitely many nodes, all have one if
  and only if none reaches itself through references that are read.
* `System.memo_sound`, `System.exists_memo`: with a table of right values the evaluation with a
  table returns if and only if the one without it does, and the same value.
* `System.isValuation_unique`: where all nodes have a value, the values are the only solution of
  the equations of the nodes.
* `System.Agree.denote`, `System.Agree.memoAll`: related nodes of two systems have the same values,
  with a table and without one.
-/

universe u v

/-- Nodes with their arguments. -/
structure System (ι : Type u) (α : Type v) where
  /-- The arguments of a node, in the order in which they are evaluated. -/
  args : ι → List (α ⊕ ι)
  /-- A value that stops the evaluation. -/
  stop : α → Bool
  /-- The value of a node whose evaluation was stopped. -/
  stopped : α
  /-- The value of a node from those of its arguments. -/
  combine : ι → List α → α

namespace System

variable {ι : Type u} {α : Type v} (S : System ι α)

/-! ### Evaluation -/

/-- The value of an argument. -/
def argValue (get : ι → Option α) : α ⊕ ι → Option α
  | .inl v => some v
  | .inr k => get k

/-- The values of arguments, or nothing behind an argument that stops. -/
def readArgs (get : ι → Option α) : List (α ⊕ ι) → Option (Option (List α))
  | [] => some (some [])
  | a :: as =>
      (argValue get a).bind fun v =>
        if S.stop v then some none
        else (readArgs get as).map (·.map (v :: ·))

/-- The value of a node whose arguments were read. -/
def finish (i : ι) : Option (List α) → α
  | none => S.stopped
  | some vs => S.combine i vs

/-- The value of a node, with a fuel. -/
def denote : ℕ → ι → Option α
  | 0, _ => none
  | n + 1, i => (S.readArgs (denote n) (S.args i)).map (S.finish i)

/-- A node has a value. -/
def Denotes (i : ι) (v : α) : Prop := ∃ n, S.denote n i = some v

/-- An argument has a value. -/
def ArgDenotes : α ⊕ ι → α → Prop
  | .inl w, v => w = v
  | .inr k, v => S.Denotes k v

/-- A node reads a reference: the arguments in front of it do not stop the evaluation. -/
def Reads (i k : ι) : Prop :=
  ∃ pre post, S.args i = pre ++ .inr k :: post ∧
    ∀ a ∈ pre, ∃ v, S.ArgDenotes a v ∧ S.stop v = false

/-- A node has a reference. -/
def Refers (i k : ι) : Prop := .inr k ∈ S.args i

variable {S}

theorem Reads.refers {i k : ι} (h : S.Reads i k) : S.Refers i k := by
  obtain ⟨pre, post, hargs, -⟩ := h
  rw [Refers, hargs]
  exact List.mem_append_right _ List.mem_cons_self

/-- What is evaluated with less is evaluated with more. -/
theorem readArgs_mono {get get' : ι → Option α} (hget : ∀ k v, get k = some v → get' k = some v)
    {as : List (α ⊕ ι)} {r : Option (List α)} (h : S.readArgs get as = some r) :
    S.readArgs get' as = some r := by
  induction as generalizing r with
  | nil => exact h
  | cons a as ih =>
      rw [readArgs, Option.bind_eq_some_iff] at h
      obtain ⟨v, hv, hrest⟩ := h
      have hv' : argValue get' a = some v := by
        cases a with
        | inl w => exact hv
        | inr k => exact hget k v hv
      rw [readArgs, hv', Option.bind_some]
      split_ifs at hrest ⊢
      · exact hrest
      · obtain ⟨vs, hvs, hr⟩ := Option.map_eq_some_iff.mp hrest
        rw [ih hvs, Option.map_some, hr]

theorem denote_succ {n : ℕ} {i : ι} {v : α} (h : S.denote n i = some v) :
    S.denote (n + 1) i = some v := by
  induction n generalizing i v with
  | zero => exact absurd h (Option.some_ne_none v).symm
  | succ n ih =>
      obtain ⟨r, hr, hv⟩ := Option.map_eq_some_iff.mp h
      rw [denote, readArgs_mono (fun k v => ih) hr, Option.map_some, hv]

theorem denote_mono {n m : ℕ} (hnm : n ≤ m) {i : ι} {v : α} (h : S.denote n i = some v) :
    S.denote m i = some v := by
  induction m, hnm using Nat.le_induction with
  | base => exact h
  | succ m _ ih => exact denote_succ ih

/-- A node has one value. -/
theorem Denotes.unique {i : ι} {v w : α} (hv : S.Denotes i v) (hw : S.Denotes i w) : v = w := by
  obtain ⟨n, hn⟩ := hv
  obtain ⟨m, hm⟩ := hw
  have hn' := denote_mono (Nat.le_max_left n m) hn
  rw [denote_mono (Nat.le_max_right n m) hm] at hn'
  exact (Option.some.inj hn').symm

/-! ### Well-founded references -/

/-- What has a value has well-founded references. -/
theorem acc_of_denote {n : ℕ} {i : ι} {v : α} (h : S.denote n i = some v) :
    Acc (fun k i => S.Reads i k) i := by
  induction n generalizing i v with
  | zero => exact absurd h (Option.some_ne_none v).symm
  | succ n ih =>
      obtain ⟨r, hr, -⟩ := Option.map_eq_some_iff.mp h
      refine ⟨i, fun k hk => ?_⟩
      obtain ⟨pre, post, hargs, hpre⟩ := hk
      rw [hargs] at hr
      obtain ⟨w, hw⟩ : ∃ w, S.denote n k = some w := by
        clear hargs
        induction pre generalizing r with
        | nil =>
            rw [List.nil_append, readArgs, Option.bind_eq_some_iff] at hr
            obtain ⟨w, hw, -⟩ := hr
            exact ⟨w, hw⟩
        | cons a pre ihpre =>
            obtain ⟨⟨u, hu, hstop⟩, hrest⟩ := List.forall_mem_cons.mp hpre
            rw [List.cons_append, readArgs, Option.bind_eq_some_iff] at hr
            obtain ⟨w, hw, hr⟩ := hr
            obtain rfl : w = u := by
              cases a with
              | inl x => exact (Option.some.inj hw).symm.trans hu
              | inr k' => exact Denotes.unique ⟨n, hw⟩ hu
            rw [hstop, if_neg Bool.false_ne_true] at hr
            obtain ⟨vs, hvs, -⟩ := Option.map_eq_some_iff.mp hr
            exact ihpre vs hvs hrest
      exact ih hw

/-- Arguments whose references have values are read. -/
theorem exists_readArgs {as : List (α ⊕ ι)}
    (h : ∀ pre k post, as = pre ++ .inr k :: post →
      (∀ a ∈ pre, ∃ v, S.ArgDenotes a v ∧ S.stop v = false) → ∃ v, S.Denotes k v) :
    ∃ n r, S.readArgs (S.denote n) as = some r := by
  induction as with
  | nil => exact ⟨0, some [], rfl⟩
  | cons a as ih =>
      obtain ⟨v, m, hm, hv⟩ : ∃ v m, argValue (S.denote m) a = some v ∧ S.ArgDenotes a v := by
        cases a with
        | inl w => exact ⟨w, 0, rfl, rfl⟩
        | inr k =>
            obtain ⟨v, n, hn⟩ := h [] k as rfl fun a ha => absurd ha List.not_mem_nil
            exact ⟨v, n, hn, n, hn⟩
      cases hstop : S.stop v with
      | true => exact ⟨m, none, by rw [readArgs, hm, Option.bind_some, if_pos hstop]⟩
      | false =>
          obtain ⟨n, r, hr⟩ := ih fun pre k post hsplit hpre =>
            h (a :: pre) k post (by rw [hsplit]; rfl)
            (List.forall_mem_cons.mpr ⟨⟨v, hv, hstop⟩, hpre⟩)
          have hmono {m' : ℕ} (hle : m' ≤ max m n) :
              ∀ k v, S.denote m' k = some v → S.denote (max m n) k = some v :=
            fun k v hkv => denote_mono hle hkv
          have ha : argValue (S.denote (max m n)) a = some v := by
            cases a with
            | inl w => exact hm
            | inr k => exact hmono (Nat.le_max_left m n) k v hm
          refine ⟨max m n, r.map (v :: ·), ?_⟩
          rw [readArgs, ha, Option.bind_some, hstop, if_neg Bool.false_ne_true,
            readArgs_mono (hmono (Nat.le_max_right m n)) hr, Option.map_some]

/-- **A node has a value** if and only if the references that are read from it are well founded. -/
theorem denotes_iff_acc (i : ι) : (∃ v, S.Denotes i v) ↔ Acc (fun k i => S.Reads i k) i := by
  constructor
  · rintro ⟨v, n, hn⟩
    exact acc_of_denote hn
  · intro hacc
    induction hacc with
    | intro i _ ih =>
        obtain ⟨n, r, hr⟩ := @exists_readArgs _ _ S (S.args i) fun pre k post hsplit hpre =>
          ih k ⟨pre, post, hsplit, hpre⟩
        exact ⟨S.finish i r, n + 1, by rw [denote, hr, Option.map_some]⟩

/-- On finitely many nodes all have a value if and only if none reaches itself through references
that are read. -/
theorem forall_denotes_iff [Finite ι] :
    (∀ i, ∃ v, S.Denotes i v) ↔ ∀ i, ¬Relation.TransGen S.Reads i i := by
  constructor
  · intro h i hcycle
    have hwf : WellFounded (Relation.TransGen fun k i => S.Reads i k) :=
      WellFounded.transGen ⟨fun i => (denotes_iff_acc i).mp (h i)⟩
    have hback : Relation.TransGen (fun k i => S.Reads i k) i i := Relation.transGen_swap.mpr hcycle
    exact hwf.asymmetric _ _ hback hback
  · intro h i
    refine (denotes_iff_acc i).mpr ?_
    have hirrefl : Std.Irrefl (Relation.TransGen fun k i => S.Reads i k) :=
      ⟨fun i hi => h i (Relation.transGen_swap.mp hi)⟩
    have hwf : WellFounded (Relation.TransGen fun k i => S.Reads i k) :=
      Finite.wellFounded_of_trans_of_irrefl _
    exact (Subrelation.wf (fun hread => Relation.TransGen.single hread) hwf).apply i

/-! ### Valuations -/

/-- The value of an argument under values of all nodes. -/
def valueOf (val : ι → α) : α ⊕ ι → α
  | .inl v => v
  | .inr k => val k

variable (S) in
/-- The equation of a node: the value made of those of the arguments, if none of them stops. -/
def nodeValue (val : ι → α) (i : ι) : α :=
  if (S.args i).any fun a => S.stop (valueOf val a) then S.stopped
  else S.combine i ((S.args i).map (valueOf val))

variable (S) in
/-- Values of all nodes that satisfy the equations of the nodes. -/
def IsValuation (val : ι → α) : Prop := ∀ i, val i = S.nodeValue val i

/-- What is read under a valuation that knows more. -/
theorem readArgs_valueOf {get : ι → Option α} {val : ι → α}
    (hget : ∀ k v, get k = some v → val k = v)
    {as : List (α ⊕ ι)} {r : Option (List α)} (h : S.readArgs get as = some r) :
    r = if as.any fun a => S.stop (valueOf val a) then none else some (as.map (valueOf val)) := by
  induction as generalizing r with
  | nil => exact (Option.some.inj h).symm
  | cons a as ih =>
      rw [readArgs, Option.bind_eq_some_iff] at h
      obtain ⟨v, hv, hrest⟩ := h
      have hval : valueOf val a = v := by
        cases a with
        | inl w => exact Option.some.inj hv
        | inr k => exact hget k v hv
      rw [List.any_cons, List.map_cons, hval]
      cases hstop : S.stop v with
      | true =>
          rw [hstop, if_pos rfl] at hrest
          exact (Option.some.inj hrest).symm
      | false =>
          rw [hstop, if_neg Bool.false_ne_true] at hrest
          obtain ⟨vs, hvs, hr⟩ := Option.map_eq_some_iff.mp hrest
          rw [← hr, ih hvs, Bool.false_or]
          split_ifs
          · rfl
          · rfl

/-- The values of the nodes are a valuation. -/
theorem isValuation_of_denotes {val : ι → α} (h : ∀ i, S.Denotes i (val i)) :
    S.IsValuation val := by
  intro i
  obtain ⟨n, hn⟩ := h i
  cases n with
  | zero => exact absurd hn (Option.some_ne_none _).symm
  | succ n =>
      obtain ⟨r, hr, hv⟩ := Option.map_eq_some_iff.mp hn
      have hread := readArgs_valueOf (fun k v hk => show val k = v from (h k).unique ⟨n, hk⟩) hr
      rw [← hv, hread, nodeValue]
      split_ifs
      · rfl
      · rfl

/-- A valuation gives every node the value it has. -/
theorem IsValuation.eq_of_denote {val : ι → α} (hval : S.IsValuation val) {n : ℕ} {i : ι} {v : α}
    (h : S.denote n i = some v) : val i = v := by
  induction n generalizing i v with
  | zero => exact absurd h (Option.some_ne_none _).symm
  | succ n ih =>
      obtain ⟨r, hr, hv⟩ := Option.map_eq_some_iff.mp h
      have hread := readArgs_valueOf (fun k v hk => show val k = v from ih hk) hr
      rw [← hv, hread, hval i, nodeValue]
      split_ifs
      · rfl
      · rfl

/-- **The values of the nodes are the only valuation**, where all nodes have one. -/
theorem isValuation_unique {val : ι → α} (h : ∀ i, S.Denotes i (val i)) {val' : ι → α}
    (hval' : S.IsValuation val') : val' = val := by
  funext i
  obtain ⟨n, hn⟩ := h i
  exact hval'.eq_of_denote hn

/-! ### Systems that agree -/

section Agree

variable {κ : Type u} {S' : System κ α} {R : ι → κ → Prop}

/-- Related nodes are alike: their references are related one by one, their other arguments are the
same, and so is what is made of them. -/
structure Agree (S : System ι α) (S' : System κ α) (R : ι → κ → Prop) : Prop where
  stop : S'.stop = S.stop
  stopped : S'.stopped = S.stopped
  combine : ∀ {i k}, R i k → S'.combine k = S.combine i
  args : ∀ {i k}, R i k → List.Forall₂ (Sum.LiftRel (· = ·) R) (S.args i) (S'.args k)

/-- Related arguments are read alike. -/
theorem Agree.readArgs (h : Agree S S' R) {get : ι → Option α} {get' : κ → Option α}
    (hget : ∀ {i k}, R i k → get' k = get i) {as : List (α ⊕ ι)} {as' : List (α ⊕ κ)}
    (has : List.Forall₂ (Sum.LiftRel (· = ·) R) as as') :
    S'.readArgs get' as' = S.readArgs get as := by
  induction has with
  | nil => rfl
  | cons ha _ ih =>
      cases ha with
      | inl hv =>
          rw [System.readArgs, System.readArgs, hv, ih, h.stop]
          rfl
      | inr hk =>
          rw [System.readArgs, System.readArgs, argValue, argValue, hget hk, ih, h.stop]

/-- **Related nodes have the same values.** -/
theorem Agree.denote (h : Agree S S' R) (n : ℕ) {i : ι} {k : κ} (hik : R i k) :
    S'.denote n k = S.denote n i := by
  induction n generalizing i k with
  | zero => rfl
  | succ n ih =>
      have hfinish : S'.finish k = S.finish i := by
        funext r
        cases r with
        | none => exact h.stopped
        | some vs => exact congrFun (h.combine hik) vs
      rw [System.denote, System.denote, hfinish, h.readArgs ih (h.args hik)]

end Agree

/-! ### Evaluation with a table -/

/-- The value of an argument, with a table that the evaluation of a reference extends. -/
def memoArg (rec : (ι → Option α) → ι → Option (α × (ι → Option α))) (c : ι → Option α) :
    α ⊕ ι → Option (α × (ι → Option α))
  | .inl v => some (v, c)
  | .inr k => rec c k

/-- The values of arguments, with a table. -/
def memoArgs (S : System ι α) (rec : (ι → Option α) → ι → Option (α × (ι → Option α))) :
    List (α ⊕ ι) → (ι → Option α) → Option (Option (List α) × (ι → Option α))
  | [], c => some (some [], c)
  | a :: as, c =>
      (memoArg rec c a).bind fun r =>
        if S.stop r.1 then some (none, r.2)
        else (memoArgs S rec as r.2).map fun rs => (rs.1.map (r.1 :: ·), rs.2)

/-- A table of right values. -/
def Sound (S : System ι α) (c : ι → Option α) : Prop := ∀ i v, c i = some v → S.Denotes i v

/-- A table has the values of another. -/
def Extends (c c' : ι → Option α) : Prop := ∀ i v, c i = some v → c' i = some v

theorem Extends.trans {c₁ c₂ c₃ : ι → Option α} (h : Extends c₁ c₂) (h' : Extends c₂ c₃) :
    Extends c₁ c₃ := fun i v hi => h' i v (h i v hi)

theorem sound_empty : S.Sound fun _ => none := fun _ _ h => absurd h (Option.some_ne_none _).symm

/-- What an evaluation with a table promises: the value is right, and so is the table that is left,
which knows no less. -/
def RecSound (S : System ι α) (rec : (ι → Option α) → ι → Option (α × (ι → Option α))) : Prop :=
  ∀ c k v c', S.Sound c → rec c k = some (v, c') → S.Denotes k v ∧ S.Sound c' ∧ Extends c c'

variable {rec : (ι → Option α) → ι → Option (α × (ι → Option α))}

/-- Arguments are read right with a table. -/
theorem memoArgs_sound (hrec : S.RecSound rec) {as : List (α ⊕ ι)} {c c' : ι → Option α}
    {r : Option (List α)} (hc : S.Sound c) (h : memoArgs S rec as c = some (r, c')) :
    (∃ n, S.readArgs (S.denote n) as = some r) ∧ S.Sound c' ∧ Extends c c' := by
  induction as generalizing c r with
  | nil =>
      obtain ⟨rfl, rfl⟩ := Prod.mk.inj (Option.some.inj h)
      exact ⟨⟨0, rfl⟩, hc, fun i v hi => hi⟩
  | cons a as ih =>
      rw [memoArgs, Option.bind_eq_some_iff] at h
      obtain ⟨⟨v, c₁⟩, hfirst, hrest⟩ := h
      obtain ⟨⟨m, hm⟩, hc₁, hext⟩ : (∃ m, argValue (S.denote m) a = some v) ∧ S.Sound c₁ ∧
          Extends c c₁ := by
        cases a with
        | inl w =>
            obtain ⟨rfl, rfl⟩ := Prod.mk.inj (Option.some.inj hfirst)
            exact ⟨⟨0, rfl⟩, hc, fun i v hi => hi⟩
        | inr k => exact hrec c k v c₁ hc hfirst
      cases hstop : S.stop v with
      | true =>
          rw [hstop, if_pos rfl] at hrest
          obtain ⟨rfl, rfl⟩ := Prod.mk.inj (Option.some.inj hrest)
          exact ⟨⟨m, by rw [readArgs, hm, Option.bind_some, if_pos hstop]⟩, hc₁, hext⟩
      | false =>
          rw [hstop, if_neg Bool.false_ne_true, Option.map_eq_some_iff] at hrest
          obtain ⟨⟨rs, c₂⟩, hargs, hrs⟩ := hrest
          obtain ⟨rfl, rfl⟩ := Prod.mk.inj hrs
          obtain ⟨⟨n, hn⟩, hc₂, hext'⟩ := ih hc₁ hargs
          have hmono {m' : ℕ} (hle : m' ≤ max m n) :
              ∀ k v, S.denote m' k = some v → S.denote (max m n) k = some v :=
            fun k v hkv => denote_mono hle hkv
          have ha : argValue (S.denote (max m n)) a = some v := by
            cases a with
            | inl w => exact hm
            | inr k => exact hmono (Nat.le_max_left m n) k v hm
          refine ⟨⟨max m n, ?_⟩, hc₂, hext.trans hext'⟩
          rw [readArgs, ha, Option.bind_some, hstop, if_neg Bool.false_ne_true,
            readArgs_mono (hmono (Nat.le_max_right m n)) hn, Option.map_some]

/-- Arguments that have values are read with a table. -/
theorem exists_memoArgs (hrec : S.RecSound rec) {n : ℕ}
    (hall : ∀ c k v, S.Sound c → S.denote n k = some v → ∃ c', rec c k = some (v, c'))
    {as : List (α ⊕ ι)} {c : ι → Option α} {r : Option (List α)} (hc : S.Sound c)
    (h : S.readArgs (S.denote n) as = some r) : ∃ c', memoArgs S rec as c = some (r, c') := by
  induction as generalizing c r with
  | nil => exact ⟨c, by rw [memoArgs, Option.some.inj h]⟩
  | cons a as ih =>
      rw [readArgs, Option.bind_eq_some_iff] at h
      obtain ⟨v, hv, hrest⟩ := h
      obtain ⟨c₁, hfirst, hc₁⟩ : ∃ c₁, memoArg rec c a = some (v, c₁) ∧ S.Sound c₁ := by
        cases a with
        | inl w => exact ⟨c, by rw [memoArg, Option.some.inj hv], hc⟩
        | inr k =>
            obtain ⟨c₁, hc₁⟩ := hall c k v hc hv
            exact ⟨c₁, hc₁, (hrec c k v c₁ hc hc₁).2.1⟩
      cases hstop : S.stop v with
      | true =>
          rw [hstop, if_pos rfl] at hrest
          refine ⟨c₁, ?_⟩
          rw [memoArgs, hfirst, Option.bind_some, if_pos hstop, Option.some.inj hrest]
      | false =>
          rw [hstop, if_neg Bool.false_ne_true] at hrest
          obtain ⟨vs, hvs, rfl⟩ := Option.map_eq_some_iff.mp hrest
          obtain ⟨c₂, hc₂⟩ := ih hc₁ hvs
          refine ⟨c₂, ?_⟩
          rw [memoArgs, hfirst, Option.bind_some, hstop, if_neg Bool.false_ne_true, hc₂,
            Option.map_some]

section Memo

variable [DecidableEq ι]

/-- The value of a node, with a fuel and a table. -/
def memo (S : System ι α) : ℕ → (ι → Option α) → ι → Option (α × (ι → Option α))
  | 0, _, _ => none
  | n + 1, c, i =>
      match c i with
      | some v => some (v, c)
      | none => (memoArgs S (memo S n) (S.args i) c).map fun r =>
          (S.finish i r.1, Function.update r.2 i (some (S.finish i r.1)))

/-- The nodes of a list, evaluated one after the other with one table. -/
def memoAll (S : System ι α) (n : ℕ) (is : List ι) (c : ι → Option α) : Option (ι → Option α) :=
  is.foldlM (fun c i => (S.memo n c i).map Prod.snd) c

/-- A value of a node is stored. -/
theorem Sound.update {c : ι → Option α} (hc : S.Sound c) {i : ι} {v : α} (hv : S.Denotes i v) :
    S.Sound (Function.update c i (some v)) ∧ Extends c (Function.update c i (some v)) := by
  constructor
  · intro j w hw
    by_cases hij : j = i
    · subst hij
      rw [Function.update_self] at hw
      exact Option.some.inj hw ▸ hv
    · rw [Function.update_of_ne hij] at hw
      exact hc j w hw
  · intro j w hw
    by_cases hij : j = i
    · subst hij
      rw [Function.update_self, (hc j w hw).unique hv]
    · rw [Function.update_of_ne hij, hw]

/-- **An evaluation with a table** gives the value of the node and leaves it in the table. -/
theorem memo_sound {n : ℕ} {c c' : ι → Option α} {i : ι} {v : α} (hc : S.Sound c)
    (h : S.memo n c i = some (v, c')) :
    S.Denotes i v ∧ S.Sound c' ∧ Extends c c' ∧ c' i = some v := by
  induction n generalizing c c' i v with
  | zero => exact absurd h (Option.some_ne_none _).symm
  | succ n ih =>
      rw [memo] at h
      cases hknown : c i with
      | some w =>
          simp only [hknown, Option.some.injEq, Prod.mk.injEq] at h
          obtain ⟨rfl, rfl⟩ := h
          exact ⟨hc i w hknown, hc, fun i v hi => hi, hknown⟩
      | none =>
          simp only [hknown, Option.map_eq_some_iff, Prod.mk.injEq] at h
          obtain ⟨⟨r, c₁⟩, hargs, rfl, rfl⟩ := h
          have hrec : S.RecSound (S.memo n) := fun c k v c' hc hk =>
            have hk := ih hc hk
            ⟨hk.1, hk.2.1, hk.2.2.1⟩
          obtain ⟨⟨m, hm⟩, hc₁, hext⟩ := memoArgs_sound hrec hc hargs
          have hden : S.Denotes i (S.finish i r) := ⟨m + 1, by rw [denote, hm, Option.map_some]⟩
          obtain ⟨hsound, hext'⟩ := hc₁.update hden
          exact ⟨hden, hsound, hext.trans hext', Function.update_self _ _ _⟩

theorem exists_memo {n : ℕ} {c : ι → Option α} {i : ι} {v : α} (hc : S.Sound c)
    (h : S.denote n i = some v) : ∃ c', S.memo n c i = some (v, c') := by
  induction n generalizing c i v with
  | zero => exact absurd h (Option.some_ne_none _).symm
  | succ n ih =>
      cases hknown : c i with
      | some w =>
          refine ⟨c, ?_⟩
          simp only [memo, hknown, (hc i w hknown).unique ⟨n + 1, h⟩]
      | none =>
          obtain ⟨r, hr, rfl⟩ := Option.map_eq_some_iff.mp h
          have hrec : S.RecSound (S.memo n) := fun c k v c' hc hk =>
            have hk := memo_sound hc hk
            ⟨hk.1, hk.2.1, hk.2.2.1⟩
          obtain ⟨c₁, hargs⟩ := exists_memoArgs hrec (fun c k v hc hk => ih hc hk) hc hr
          refine ⟨Function.update c₁ i (some (S.finish i r)), ?_⟩
          simp only [memo, hknown, hargs, Option.map_some]

/-- **The nodes of a list** leave their values in the table. -/
theorem memoAll_sound {n : ℕ} {is : List ι} {c c' : ι → Option α} (hc : S.Sound c)
    (h : S.memoAll n is c = some c') :
    S.Sound c' ∧ Extends c c' ∧ ∀ i ∈ is, ∃ v, c' i = some v := by
  induction is generalizing c with
  | nil =>
      obtain rfl := Option.some.inj h
      exact ⟨hc, fun i v hi => hi, fun i hi => absurd hi List.not_mem_nil⟩
  | cons i is ih =>
      rw [memoAll, List.foldlM_cons, Option.bind_eq_bind, Option.bind_eq_some_iff] at h
      obtain ⟨c₁, hfirst, hrest⟩ := h
      obtain ⟨⟨v, c₁⟩, hmemo, rfl⟩ := Option.map_eq_some_iff.mp hfirst
      obtain ⟨-, hc₁, hext, hi⟩ := memo_sound hc hmemo
      obtain ⟨hc', hext', hall⟩ := ih hc₁ hrest
      exact ⟨hc', hext.trans hext', List.forall_mem_cons.mpr ⟨⟨v, hext' i v hi⟩, hall⟩⟩

theorem exists_memoAll {n : ℕ} {is : List ι} {c : ι → Option α} (hc : S.Sound c)
    (h : ∀ i ∈ is, ∃ v, S.denote n i = some v) : ∃ c', S.memoAll n is c = some c' := by
  induction is generalizing c with
  | nil => exact ⟨c, rfl⟩
  | cons i is ih =>
      obtain ⟨⟨v, hv⟩, hrest⟩ := List.forall_mem_cons.mp h
      obtain ⟨c₁, hc₁⟩ := exists_memo hc hv
      obtain ⟨c', hc'⟩ := ih (memo_sound hc hc₁).2.1 hrest
      refine ⟨c', ?_⟩
      rw [memoAll, List.foldlM_cons, hc₁]
      exact hc'

/-- **All nodes are evaluated with one table**, started empty, if and only if all have a value. -/
theorem exists_memoAll_iff [Finite ι] {is : List ι} (his : ∀ i, i ∈ is) :
    (∃ n, (S.memoAll n is fun _ => none).isSome) ↔ ∀ i, ∃ v, S.Denotes i v := by
  constructor
  · rintro ⟨n, hn⟩ i
    obtain ⟨c', hc'⟩ := Option.isSome_iff_exists.mp hn
    obtain ⟨hsound, -, hall⟩ := memoAll_sound sound_empty hc'
    obtain ⟨v, hv⟩ := hall i (his i)
    exact ⟨v, hsound i v hv⟩
  · intro h
    choose val fuel hfuel using h
    obtain ⟨N, hN⟩ : ∃ N, ∀ i, fuel i ≤ N := by
      obtain ⟨N, hN⟩ := (Set.finite_range fuel).bddAbove
      exact ⟨N, fun i => hN (Set.mem_range_self i)⟩
    obtain ⟨c', hc'⟩ := @exists_memoAll _ _ S _ N is _ sound_empty fun i _ =>
      ⟨val i, denote_mono (hN i) (hfuel i)⟩
    exact ⟨N, by rw [hc']; rfl⟩

/-- What the evaluation of all nodes leaves is the values of the nodes. -/
theorem memoAll_eq_some_iff [Finite ι] {is : List ι} (his : ∀ i, i ∈ is) {val : ι → α} :
    (∃ n, (S.memoAll n is fun _ => none) = some fun i => some (val i)) ↔
      ∀ i, S.Denotes i (val i) := by
  constructor
  · rintro ⟨n, hn⟩ i
    exact (memoAll_sound sound_empty hn).1 i (val i) rfl
  · intro h
    obtain ⟨n, hn⟩ := (exists_memoAll_iff his).mpr fun i => ⟨val i, h i⟩
    obtain ⟨c, hc⟩ := Option.isSome_iff_exists.mp hn
    obtain ⟨hsound, -, hall⟩ := memoAll_sound sound_empty hc
    refine ⟨n, hc.trans (congrArg some (funext fun i => ?_))⟩
    obtain ⟨v, hv⟩ := hall i (his i)
    rw [hv, (hsound i v hv).unique (h i)]

/-- Related nodes are evaluated with one table to the same values, wherever they are listed. -/
theorem Agree.memoAll {κ : Type u} [DecidableEq κ] [Finite ι] [Finite κ] {S' : System κ α}
    {R : ι → κ → Prop} (h : Agree S S' R) {is : List ι} (his : ∀ i, i ∈ is) {ks : List κ}
    (hks : ∀ k, k ∈ ks) {e : κ → ι} (he : ∀ k, R (e k) k) {val : ι → α}
    (hval : ∃ n, (S.memoAll n is fun _ => none) = some fun i => some (val i)) :
    ∃ n, (S'.memoAll n ks fun _ => none) = some fun k => some (val (e k)) := by
  rw [memoAll_eq_some_iff his] at hval
  rw [memoAll_eq_some_iff hks]
  intro k
  obtain ⟨n, hn⟩ := hval (e k)
  exact ⟨n, (h.denote n (he k)).trans hn⟩

end Memo

end System
