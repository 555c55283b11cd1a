import Mathlib.Data.List.Nodup
import Mathlib.Logic.Function.Basic

/-!
# Rows and Records in Pairs

A store may keep every object twice: as a row of a table, where the objects are listed, and as
a record of its own, which is found by the key of the row. Fields that stand in both places have
to agree, and each operation writes the two one after the other.

`Paired key agree rows holds` is the invariant of such a store. The rows have distinct keys, and
`holds k a`, the records as a relation, has a record for the key of every row that agrees with
the row. Nothing is said about records without a row.

Two rules cover the operations. `Paired.map` is about an operation that changes rows where they
are, any number of them, and their records with them; a change of records alone is the case in
which no row changes (`Paired.mono`). Between the two halves of an operation a weaker agreement
may hold, and both rules allow to go from one agreement to another. `Paired.concat` is about a new
row with a new record. `modify_findIdx_eq_map` turns a change that is made to the first row with a
key into a change of every row with the key, which is the form `Paired.map` needs.
-/

/-- The rows have distinct keys, and for the key of every row there is a record that agrees
with the row. -/
structure Paired {ρ κ α : Type*} (key : ρ → κ) (agree : ρ → α → Prop) (rows : List ρ)
    (holds : κ → α → Prop) : Prop where
  distinct : (rows.map key).Nodup
  paired : ∀ e ∈ rows, ∃ a, holds (key e) a ∧ agree e a

namespace Paired

section Rules

variable {ρ κ α : Type*} {key : ρ → κ} {agree agree' : ρ → α → Prop} {rows : List ρ}
  {holds holds' : κ → α → Prop}

/-- A table without rows. -/
theorem nil : Paired key agree [] holds where
  distinct := List.nodup_nil
  paired := by
    intro e he
    cases he

/-- A row is determined by its key. -/
theorem eq_of_key (h : Paired key agree rows holds) {d e : ρ} (hd : d ∈ rows) (he : e ∈ rows)
    (hkey : key d = key e) : d = e :=
  List.inj_on_of_nodup_map h.distinct hd he hkey

/-- The keys of rows that are changed where they are. -/
theorem keys_map {f : ρ → ρ} (hkey : ∀ e, key (f e) = key e) (rows : List ρ) :
    (rows.map f).map key = rows.map key := by
  rw [List.map_map]
  exact List.map_congr_left fun e _ => hkey e

/-- **Rows change where they are**, and their records with them. -/
theorem map (h : Paired key agree rows holds) {f : ρ → ρ} (hkey : ∀ e, key (f e) = key e)
    (hrec : ∀ e ∈ rows, ∀ a, holds (key e) a → agree e a →
      ∃ b, holds' (key e) b ∧ agree' (f e) b) :
    Paired key agree' (rows.map f) holds' where
  distinct := by
    rw [keys_map hkey]
    exact h.distinct
  paired := by
    intro e he
    obtain ⟨d, hd, rfl⟩ := List.mem_map.mp he
    obtain ⟨a, ha, hagree⟩ := h.paired d hd
    rw [hkey]
    exact hrec d hd a ha hagree

/-- Records change, and no row. -/
theorem mono (h : Paired key agree rows holds)
    (hrec : ∀ e ∈ rows, ∀ a, holds (key e) a → agree e a → ∃ b, holds' (key e) b ∧ agree' e b) :
    Paired key agree' rows holds' := by
  have hmap := h.map (f := id) (fun _ => rfl) hrec
  rwa [List.map_id] at hmap

/-- **A new row with a new record**: the records of the rows that are there are kept. -/
theorem concat (h : Paired key agree rows holds) {e : ρ} {a : α} (hnew : key e ∉ rows.map key)
    (hkeep : ∀ d ∈ rows, ∀ b, holds (key d) b → holds' (key d) b) (hrec : holds' (key e) a)
    (hagree : agree e a) : Paired key agree (rows ++ [e]) holds' where
  distinct := by
    rw [List.map_append, List.map_singleton, ← List.concat_eq_append]
    exact h.distinct.concat hnew
  paired := by
    intro d hd
    rcases List.mem_append.mp hd with hd | hd
    · obtain ⟨b, hb, hbagree⟩ := h.paired d hd
      exact ⟨b, hkeep d hd b hb, hbagree⟩
    · rw [List.mem_singleton.mp hd]
      exact ⟨a, hrec, hagree⟩

end Rules

/-! ### The row with a key -/

section Key

variable {ρ κ : Type*} [DecidableEq κ] {key : ρ → κ} {rows : List ρ} {k : κ} {f : ρ → ρ}

/-- A change of the rows with a key changes nothing when there is no such row. -/
theorem map_ite_of_not_mem (h : k ∉ rows.map key) :
    (rows.map fun e => if key e = k then f e else e) = rows := by
  have hsame : ∀ e ∈ rows, (if key e = k then f e else e) = e := by
    intro e he
    rw [if_neg]
    rintro rfl
    exact h (List.mem_map_of_mem he)
  rw [List.map_congr_left hsame, List.map_id']

/-- With distinct keys, the first row with a key is the only one. -/
theorem modify_findIdx_eq_map (h : (rows.map key).Nodup) :
    rows.modify (rows.findIdx fun e => key e = k) f =
      rows.map fun e => if key e = k then f e else e := by
  induction rows with
  | nil => rfl
  | cons e rows ih =>
      rw [List.map_cons, List.nodup_cons] at h
      by_cases he : key e = k
      · have hrest : k ∉ rows.map key := he ▸ h.1
        rw [List.map_cons, if_pos he, map_ite_of_not_mem hrest]
        simp [List.findIdx_cons, he]
      · rw [List.map_cons, if_neg he, ← ih h.2]
        simp [List.findIdx_cons, he]

end Key

end Paired
