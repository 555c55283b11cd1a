import Mathlib.Data.List.Nodup

/-!
# Versions with an Active One

Objects come in versions. A version belongs to a name (`name`, a function of the version), the
versions are listed in the order in which they were added, and each has a flag that says whether
it is active. Of the versions of a name one is to be active at most. This is the purpose of a
registry that keeps what it replaces.

Three operations change the flags: `add` a version, which becomes active if it is new, `choose`
one, and `retire` one. The first two clear the flags of the other versions of the name. A
registry that keeps its flags at many places changes them one by one, and may miss some:
`missed` says which. What is active is listed, and this is a part of the type (`Versions`).

## Main results

* `Versions.active_add`, `Versions.active_choose`, `Versions.active_retire`: what is active after
  each operation;
* `Versions.Op.active_pair`: two versions of a name become active together only by an operation
  that makes one of them active and misses the other, so that without such an operation there is
  never more than one.
-/

/-- The versions that were added, in this order, and their flags. -/
structure Versions {κ γ : Type*} (name : κ → γ) where
  versions : List κ
  active : κ → Bool
  distinct : versions.Nodup
  listed : ∀ k, active k = true → k ∈ versions

namespace Versions

variable {κ γ : Type*} {name : κ → γ}

/-- No versions. -/
def empty : Versions name where
  versions := []
  active _ := false
  distinct := List.nodup_nil
  listed := by
    intro k h
    cases h

section Flags

variable [DecidableEq γ]

/-- The version of a name that is shown: of the active ones that was added last, or else of all
the one that was added last. -/
def shown (r : Versions name) (g : γ) : Option κ :=
  (r.versions.reverse.find? fun k => name k = g ∧ r.active k).or
    (r.versions.reverse.find? fun k => name k = g)

/-- The flags when those of the versions of the name of `k` are cleared, but for those that are
missed. -/
def cleared (r : Versions name) (missed : κ → Bool) (k j : κ) : Bool :=
  r.active j && !(name j = name k && !missed j)

theorem cleared_eq_true {r : Versions name} {missed : κ → Bool} {j k : κ} :
    r.cleared missed k j = true ↔ r.active j = true ∧ (name j = name k → missed j = true) := by
  rw [cleared, Bool.and_eq_true, Bool.not_eq_true', Bool.and_eq_false_imp, decide_eq_true_eq,
    Bool.not_eq_false']

end Flags

section Retire

variable [DecidableEq κ]

/-- A version is not active any more. -/
def retire (r : Versions name) (missed : κ → Bool) (k : κ) : Versions name where
  versions := r.versions
  active j := r.active j && !(j = k && !missed k)
  distinct := r.distinct
  listed := by
    intro j h
    rw [Bool.and_eq_true] at h
    exact r.listed j h.1

/-- What is active after a version was retired. -/
theorem active_retire {r : Versions name} {missed : κ → Bool} {j k : κ} :
    (r.retire missed k).active j = true ↔ r.active j = true ∧ (j = k → missed k = true) := by
  change (r.active j && !(decide (j = k) && !missed k)) = true ↔ _
  rw [Bool.and_eq_true, Bool.not_eq_true', Bool.and_eq_false_imp, decide_eq_true_eq,
    Bool.not_eq_false']

end Retire

section Operations

variable [DecidableEq κ] [DecidableEq γ]

/-- List a new version and make it active. A version that is listed stays what it is. -/
def add (r : Versions name) (missed : κ → Bool) (k : κ) : Versions name :=
  if hk : k ∈ r.versions then r
  else
    { versions := r.versions ++ [k]
      active j := j = k || r.cleared missed k j
      distinct := by
        rw [← List.concat_eq_append]
        exact r.distinct.concat hk
      listed := by
        intro j h
        rw [Bool.or_eq_true, decide_eq_true_eq] at h
        rcases h with rfl | h
        · exact List.mem_append_right _ (List.mem_singleton_self j)
        · exact List.mem_append_left _ (r.listed j (cleared_eq_true.mp h).1) }

/-- Make a version active, if it is listed. -/
def choose (r : Versions name) (missed : κ → Bool) (k : κ) : Versions name where
  versions := r.versions
  active j := if j = k then r.active k || (k ∈ r.versions && !missed k) else r.cleared missed k j
  distinct := r.distinct
  listed := by
    intro j h
    split at h
    · rename_i hj
      rw [Bool.or_eq_true, Bool.and_eq_true, decide_eq_true_eq] at h
      rcases h with h | h
      · exact hj ▸ r.listed k h
      · exact hj ▸ h.1
    · exact r.listed j (cleared_eq_true.mp h).1

variable {r : Versions name} {missed : κ → Bool} {j k : κ}

@[simp] theorem add_of_mem (h : k ∈ r.versions) : r.add missed k = r := dif_pos h

theorem versions_add (h : k ∉ r.versions) : (r.add missed k).versions = r.versions ++ [k] := by
  rw [add, dif_neg h]

/-- What is active after a new version was added: the version itself, and the versions that were
active before and have another name, or were missed. -/
theorem active_add (h : k ∉ r.versions) :
    (r.add missed k).active j = true ↔
      j = k ∨ (r.active j = true ∧ (name j = name k → missed j = true)) := by
  rw [add, dif_neg h]
  change (decide (j = k) || r.cleared missed k j) = true ↔ _
  rw [Bool.or_eq_true, decide_eq_true_eq, cleared_eq_true]

/-- What is active after a choice. The version itself is, unless it is not listed or was missed;
then it is as before. -/
theorem active_choose :
    (r.choose missed k).active j = true ↔
      (j = k ∧ (r.active k = true ∨ (k ∈ r.versions ∧ missed k = false))) ∨
        (j ≠ k ∧ r.active j = true ∧ (name j = name k → missed j = true)) := by
  change (if j = k then r.active k || (k ∈ r.versions && !missed k) else r.cleared missed k j) =
    true ↔ _
  by_cases hj : j = k
  · simp [hj]
  · rw [if_neg hj, cleared_eq_true]
    simp [hj]

/-! ### Runs of operations -/

/-- An operation, with the flags that it misses. -/
inductive Op (κ : Type*)
  | add (missed : κ → Bool) (k : κ)
  | choose (missed : κ → Bool) (k : κ)
  | retire (missed : κ → Bool) (k : κ)

/-- The registry after an operation. -/
def Op.apply (r : Versions name) : Op κ → Versions name
  | add missed k => r.add missed k
  | choose missed k => r.choose missed k
  | retire missed k => r.retire missed k

/-- An operation lists one version more at most. -/
theorem Op.length_apply (op : Op κ) :
    (op.apply r).versions.length ≤ r.versions.length + 1 := by
  cases op with
  | add missed k =>
      by_cases hk : k ∈ r.versions
      · rw [apply, add_of_mem hk]
        exact Nat.le_succ _
      · have hlen : (r.add missed k).versions.length = r.versions.length + 1 := by
          rw [versions_add hk, List.length_append, List.length_singleton]
        exact Nat.le_of_eq hlen
  | choose missed k => exact Nat.le_succ _
  | retire missed k => exact Nat.le_succ _

/-- A version that is listed stays listed. -/
theorem Op.mem_apply (op : Op κ) (h : k ∈ r.versions) : k ∈ (op.apply r).versions := by
  cases op with
  | add missed x =>
      by_cases hx : x ∈ r.versions
      · rwa [apply, add_of_mem hx]
      · rw [apply, versions_add hx]
        exact List.mem_append_left _ h
  | choose missed x => exact h
  | retire missed x => exact h

/-- The operation makes `k` active and misses the flag of `j`. -/
def Op.Spares (j k : κ) : Op κ → Prop
  | add missed k' => k = k' ∧ missed j = true
  | choose missed k' => k = k' ∧ missed j = true
  | retire _ _ => False

/-- Two versions of a name are active after an operation if they were before, or if the operation
has made one active and missed the other. -/
theorem Op.active_pair (op : Op κ) (hname : name j = name k) (hne : j ≠ k)
    (hj : (op.apply r).active j = true) (hk : (op.apply r).active k = true) :
    (r.active j = true ∧ r.active k = true) ∨ op.Spares j k ∨ op.Spares k j := by
  cases op with
  | add missed x =>
      by_cases hx : x ∈ r.versions
      · rw [apply, add_of_mem hx] at hj hk
        exact .inl ⟨hj, hk⟩
      · rw [apply, active_add hx] at hj hk
        rcases hj with rfl | ⟨hj, hjx⟩
        · rcases hk with rfl | ⟨-, hkx⟩
          · exact absurd rfl hne
          · exact .inr (.inr ⟨rfl, hkx hname.symm⟩)
        · rcases hk with rfl | ⟨hk, -⟩
          · exact .inr (.inl ⟨rfl, hjx hname⟩)
          · exact .inl ⟨hj, hk⟩
  | choose missed x =>
      rw [apply, active_choose] at hj hk
      rcases hj with ⟨rfl, hj⟩ | ⟨-, hj, hjx⟩
      · rcases hk with ⟨rfl, -⟩ | ⟨-, -, hkx⟩
        · exact absurd rfl hne
        · exact .inr (.inr ⟨rfl, hkx hname.symm⟩)
      · rcases hk with ⟨rfl, -⟩ | ⟨-, hk, -⟩
        · exact .inr (.inl ⟨rfl, hjx hname⟩)
        · exact .inl ⟨hj, hk⟩
  | retire missed x =>
      rw [apply, active_retire] at hj hk
      exact .inl ⟨hj.1, hk.1⟩

end Operations

end Versions
