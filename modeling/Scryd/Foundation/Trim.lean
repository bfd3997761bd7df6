import Mathlib.Data.List.DropRight

/-!
# Trimming

What dropping elements from the start or the end of a list leaves, and where it stops.
-/

namespace Scryd.Foundation

universe u

variable {α : Type u} {p : α → Bool}

theorem not_of_head?_dropWhile {xs : List α} {x : α}
    (first : (xs.dropWhile p).head? = some x) : p x = false := by
  have stopped := List.head?_dropWhile_not p xs
  rwa [first] at stopped

theorem not_of_getLast?_rdropWhile {xs : List α} {x : α}
    (last : (xs.rdropWhile p).getLast? = some x) : p x = false := by
  rw [List.rdropWhile, List.getLast?_reverse] at last
  exact not_of_head?_dropWhile last

theorem dropWhile_eq_self {xs : List α} (kept : ∀ x, xs.head? = some x → p x = false) :
    xs.dropWhile p = xs := by
  cases xs with
  | nil => rfl
  | cons x rest => exact List.dropWhile_cons_of_neg (by simp [kept x rfl])

theorem rdropWhile_eq_self {xs : List α}
    (kept : ∀ x, xs.getLast? = some x → p x = false) : xs.rdropWhile p = xs := by
  rw [List.rdropWhile, dropWhile_eq_self fun x last => kept x (List.head?_reverse ▸ last),
    List.reverse_reverse]

/-- Trimming at the start stops at an element that is kept. -/
theorem dropWhile_append_stop {x : α} (stops : p x = false) (front back : List α) :
    (front ++ x :: back).dropWhile p = front.dropWhile p ++ x :: back := by
  induction front with
  | nil => exact List.dropWhile_cons_of_neg (by simp [stops])
  | cons first rest inductionHypothesis =>
      rw [List.cons_append, List.dropWhile_cons, List.dropWhile_cons, inductionHypothesis]
      split
      · rfl
      · rfl

theorem rdropWhile_append_stop {x : α} (stops : p x = false) (front back : List α) :
    (front ++ x :: back).rdropWhile p = front ++ x :: back.rdropWhile p := by
  rw [List.rdropWhile, List.reverse_append, List.reverse_cons, List.append_assoc,
    List.singleton_append, dropWhile_append_stop stops]
  simp [List.rdropWhile]

theorem dropWhile_append_eq {front back : List α} (dropped : ∀ x ∈ front, p x = true)
    (kept : ∀ x, back.head? = some x → p x = false) : (front ++ back).dropWhile p = back := by
  rw [List.dropWhile_append_of_pos dropped, dropWhile_eq_self kept]

theorem dropWhile_eq_self_of_takeWhile {xs : List α} (none_taken : xs.takeWhile p = []) :
    xs.dropWhile p = xs := by
  have whole := @List.takeWhile_append_dropWhile _ p xs
  rwa [none_taken] at whole

end Scryd.Foundation
