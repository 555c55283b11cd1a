import Mathlib.Data.List.Basic
import Mathlib.Order.Nat

/-!
# Nodes with Parents

Nodes are added one after another, and each is a root or has a parent that was there before it.
So the way from a node to its root is finite, and a node that is added later is on no way that
was there (`Lineage.path_of_extends`). What a node inherits is computed from the root down to it
(`Lineage.inherited`), and stays the same when nodes are added (`Lineage.inherited_of_extends`).
-/

/-- Nodes in the order in which they came, each with its parent. -/
structure Lineage (α : Type*) where
  nodes : List (Option ℕ × α)
  earlier : ∀ (i p : ℕ) (a : α), nodes[i]? = some (some p, a) → p < i

namespace Lineage

variable {α β : Type*} (L : Lineage α) {i j : ℕ}

/-- No nodes. -/
def empty : Lineage α where
  nodes := []
  earlier := by
    intro i p a h
    cases h

/-- The parent of a node. -/
def parent (i : ℕ) : Option ℕ := L.nodes[i]?.bind Prod.fst

theorem parent_lt {p : ℕ} (h : L.parent i = some p) : p < i := by
  obtain ⟨⟨_, a⟩, hn, rfl⟩ := Option.bind_eq_some_iff.mp h
  exact L.earlier i p a hn

/-- The way from a node to its root. -/
def path (L : Lineage α) (i : ℕ) : List ℕ :=
  match _h : L.parent i with
  | none => [i]
  | some p => i :: path L p
termination_by i
decreasing_by exact L.parent_lt _h

theorem path_root (h : L.parent i = none) : L.path i = [i] := by
  rw [path]
  split
  · rfl
  · next p hp => rw [h] at hp; cases hp

theorem path_child {p : ℕ} (h : L.parent i = some p) : L.path i = i :: L.path p := by
  rw [path]
  split
  · next hn => rw [h] at hn; cases hn
  · next q hq =>
      rw [h] at hq
      cases hq
      rfl

/-- Nodes on the way to the root came earlier. -/
theorem le_of_mem_path (h : j ∈ L.path i) : j ≤ i := by
  induction i using Nat.strongRecOn with
  | _ i ih =>
    rcases hp : L.parent i with - | p
    · rw [L.path_root hp, List.mem_singleton] at h
      exact h.le
    · rw [L.path_child hp, List.mem_cons] at h
      have hlt := L.parent_lt hp
      rcases h with rfl | h
      · exact le_rfl
      · exact (ih p hlt h).trans hlt.le

/-! ### New nodes -/

/-- One more node, with one of the nodes as its parent, or without a parent. -/
def add (p : Option ℕ) (a : α) (h : ∀ q ∈ p, q < L.nodes.length) : Lineage α where
  nodes := L.nodes ++ [(p, a)]
  earlier := by
    intro i q b hi
    rcases Nat.lt_or_ge i L.nodes.length with hlt | hge
    · rw [List.getElem?_append_left hlt] at hi
      exact L.earlier i q b hi
    · rw [List.getElem?_append_right hge] at hi
      obtain ⟨hlt, heq⟩ := List.getElem?_eq_some_iff.mp hi
      rw [List.getElem_singleton] at heq
      cases heq
      exact (h q rfl).trans_le hge

/-! ### What a node inherits -/

/-- The contents on the way from the root to a node, from the start value on. -/
def inherited (step : β → α → β) (start : β) (i : ℕ) : β :=
  ((L.path i).reverse.filterMap fun j => (L.nodes[j]?).map Prod.snd).foldl step start

/-! ### What stays -/

section Extends

variable {L} {L' : Lineage α}

theorem getElem?_of_extends (h : L.nodes <+: L'.nodes) (hi : i < L.nodes.length) :
    L'.nodes[i]? = L.nodes[i]? := by
  obtain ⟨t, ht⟩ := h
  rw [← ht, List.getElem?_append_left hi]

/-- The nodes that were there keep their parents. -/
theorem parent_of_extends (h : L.nodes <+: L'.nodes) (hi : i < L.nodes.length) :
    L'.parent i = L.parent i := by
  rw [parent, getElem?_of_extends h hi, parent]

/-- The nodes that were there keep the ways to their roots. -/
theorem path_of_extends (h : L.nodes <+: L'.nodes) (hi : i < L.nodes.length) :
    L'.path i = L.path i := by
  induction i using Nat.strongRecOn with
  | _ i ih =>
    have hparent := parent_of_extends h hi
    rcases hp : L.parent i with - | q
    · rw [L.path_root hp, L'.path_root (hparent.trans hp)]
    · have hlt := L.parent_lt hp
      rw [L.path_child hp, L'.path_child (hparent.trans hp), ih q hlt (hlt.trans hi)]

/-- The nodes that were there inherit what they did. -/
theorem inherited_of_extends (step : β → α → β) (start : β) (h : L.nodes <+: L'.nodes)
    (hi : i < L.nodes.length) : L'.inherited step start i = L.inherited step start i := by
  have hsame : ∀ j ∈ (L.path i).reverse,
      L'.nodes[j]?.map Prod.snd = L.nodes[j]?.map Prod.snd := by
    intro j hj
    have hle := L.le_of_mem_path (List.mem_reverse.mp hj)
    rw [getElem?_of_extends h (hle.trans_lt hi)]
  rw [inherited, inherited, path_of_extends h hi, List.filterMap_congr hsame]

end Extends

end Lineage
