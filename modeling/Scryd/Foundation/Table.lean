import Mathlib.Data.List.Pairwise
import Mathlib.Data.List.Nodup

/-!
# Relations with uniqueness constraints

A table keeps its rows in insertion order together with the proof that no two
of them conflict.  What counts as a conflict is a parameter: equality of one
key for an ordinary primary key, a disjunction of such equalities where a
relation has several unique columns.
-/

namespace Scryd.Foundation

universe u v

/-- Rows in insertion order, no two of which violate a uniqueness constraint. -/
structure Table (Row : Type u) (Conflict : Row → Row → Prop) where
  rows : List Row
  consistent : rows.Pairwise fun earlier later => ¬ Conflict earlier later

namespace Table

variable {Row : Type u} {Conflict : Row → Row → Prop}

@[ext]
theorem ext {left right : Table Row Conflict} (same : left.rows = right.rows) :
    left = right := by
  cases left
  cases right
  cases same
  rfl

def empty : Table Row Conflict := ⟨[], List.Pairwise.nil⟩

/-- Append a row, or refuse it when a stored row conflicts with it. -/
def insert? [DecidableRel Conflict] (table : Table Row Conflict) (row : Row) :
    Option (Table Row Conflict) :=
  if free : ∀ stored ∈ table.rows, ¬ Conflict stored row then
    some ⟨table.rows ++ [row], List.pairwise_append.mpr
      ⟨table.consistent, List.pairwise_singleton _ _, by
        intro stored membership added isRow
        rw [List.mem_singleton.mp isRow]
        exact free stored membership⟩⟩
  else
    none

theorem insert?_eq_none_iff [DecidableRel Conflict] (table : Table Row Conflict) (row : Row) :
    table.insert? row = none ↔ ∃ stored ∈ table.rows, Conflict stored row := by
  unfold insert?
  split
  next free => simpa using free
  next taken => simpa using taken

theorem insert?_rows [DecidableRel Conflict] {table next : Table Row Conflict} {row : Row}
    (inserted : table.insert? row = some next) : next.rows = table.rows ++ [row] := by
  unfold insert? at inserted
  split at inserted
  next free => cases inserted; rfl
  next taken => cases inserted

theorem insert?_isSome [DecidableRel Conflict] {table : Table Row Conflict} {row : Row}
    (free : ∀ stored ∈ table.rows, ¬ Conflict stored row) :
    ∃ next, table.insert? row = some next := by
  unfold insert?
  rw [dif_pos free]
  exact ⟨_, rfl⟩

/-- Rewrite rows in place.  The change may not create a conflict. -/
def update (table : Table Row Conflict) (change : Row → Row)
    (keeps : ∀ left right, Conflict (change left) (change right) → Conflict left right) :
    Table Row Conflict :=
  ⟨table.rows.map change, List.pairwise_map.mpr
    (table.consistent.imp fun apart created => apart (keeps _ _ created))⟩

@[simp] theorem update_rows (table : Table Row Conflict) (change : Row → Row)
    (keeps : ∀ left right, Conflict (change left) (change right) → Conflict left right) :
    (table.update change keeps).rows = table.rows.map change := rfl

def delete (table : Table Row Conflict) (gone : Row → Bool) : Table Row Conflict :=
  ⟨table.rows.filter fun row => !gone row, table.consistent.filter _⟩

@[simp] theorem delete_rows (table : Table Row Conflict) (gone : Row → Bool) :
    (table.delete gone).rows = table.rows.filter fun row => !gone row := rfl

/-- Append a row in place of the stored rows that conflict with it. -/
def replace [DecidableRel Conflict] (table : Table Row Conflict) (row : Row) :
    Table Row Conflict :=
  ⟨(table.rows.filter fun stored => decide (¬ Conflict stored row)) ++ [row],
    List.pairwise_append.mpr ⟨table.consistent.filter _, List.pairwise_singleton _ _, by
      intro stored kept added isRow
      rw [List.mem_singleton.mp isRow]
      simpa using List.of_mem_filter kept⟩⟩

@[simp] theorem replace_rows [DecidableRel Conflict] (table : Table Row Conflict) (row : Row) :
    (table.replace row).rows =
      (table.rows.filter fun stored => decide (¬ Conflict stored row)) ++ [row] := rfl

/-- Rows that replace what they conflict with leave the other rows alone. -/
theorem foldl_replace_rows [DecidableRel Conflict] {rows : List Row}
    (apart : rows.Pairwise fun earlier later => ¬ Conflict earlier later)
    (table : Table Row Conflict) :
    (rows.foldl replace table).rows =
      (table.rows.filter fun stored => decide (∀ row ∈ rows, ¬ Conflict stored row)) ++ rows := by
  induction rows generalizing table with
  | nil => simp
  | cons row rest inductionHypothesis =>
      obtain ⟨rowApart, restApart⟩ := List.pairwise_cons.mp apart
      have rowKept : decide (∀ later ∈ rest, ¬ Conflict row later) = true :=
        decide_eq_true rowApart
      rw [List.foldl_cons, inductionHypothesis restApart, replace_rows, List.filter_append,
        List.filter_filter, List.filter_singleton, rowKept, List.append_assoc]
      simp only [List.forall_mem_cons, Bool.decide_and, Bool.and_comm, cond_true,
        List.singleton_append]

/-- A uniqueness constraint identifies a row. -/
theorem eq_of_conflict (symmetric : ∀ left right, Conflict left right → Conflict right left)
    (table : Table Row Conflict) {left right : Row}
    (leftStored : left ∈ table.rows) (rightStored : right ∈ table.rows)
    (conflict : Conflict left right) : left = right := by
  by_contra different
  have : Std.Symm fun first second : Row => ¬ Conflict first second :=
    ⟨fun first second apart reversed => apart (symmetric second first reversed)⟩
  exact table.consistent.forall leftStored rightStored different conflict

theorem nodup (reflexive : ∀ row, Conflict row row) (table : Table Row Conflict) :
    table.rows.Nodup := by
  apply table.consistent.imp
  intro first second apart same
  subst same
  exact apart (reflexive first)

/-- Looking a stored row up by a test that only conflicting rows pass finds it. -/
theorem find?_eq_some (symmetric : ∀ left right, Conflict left right → Conflict right left)
    (table : Table Row Conflict) (test : Row → Bool) {row : Row}
    (stored : row ∈ table.rows) (passes : test row = true)
    (only : ∀ other, test other = true → Conflict other row) :
    table.rows.find? test = some row := by
  cases found : table.rows.find? test with
  | none =>
      have fails := List.find?_eq_none.mp found row stored
      exact absurd passes fails
  | some other =>
      have otherStored := List.mem_of_find?_eq_some found
      have conflict := only other (List.find?_some found)
      rw [table.eq_of_conflict symmetric otherStored stored conflict]

end Table

end Scryd.Foundation
