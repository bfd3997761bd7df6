import Mathlib.Data.List.Basic

/-!
# Pages written over each other

Several pages, the newest first, are written from position zero on.  A position
shows the newest page that is long enough to reach it.
-/

namespace Scryd.Foundation

universe u

variable {α : Type u}

/-- What a position shows. -/
def overlay : List (List α) → Nat → Option α
  | [], _ => none
  | newest :: older, position => newest[position]?.or (overlay older position)

@[simp] theorem overlay_nil (position : Nat) : overlay ([] : List (List α)) position = none := rfl

theorem overlay_cons (newest : List α) (older : List (List α)) (position : Nat) :
    overlay (newest :: older) position = newest[position]?.or (overlay older position) := rfl

theorem overlay_eq_none_iff (pages : List (List α)) (position : Nat) :
    overlay pages position = none ↔ ∀ page ∈ pages, page.length ≤ position := by
  induction pages with
  | nil => simp
  | cons newest older inductionHypothesis =>
      rw [overlay_cons, Option.or_eq_none_iff, inductionHypothesis, List.getElem?_eq_none_iff,
        List.forall_mem_cons]

/-- What shows was on some page at that position. -/
theorem mem_of_overlay {pages : List (List α)} {position : Nat} {entry : α}
    (shown : overlay pages position = some entry) :
    ∃ page ∈ pages, page[position]? = some entry := by
  induction pages with
  | nil => cases shown
  | cons newest older inductionHypothesis =>
      rcases Option.or_eq_some_iff.mp shown with here | ⟨_, below⟩
      · exact ⟨newest, List.mem_cons_self, here⟩
      · obtain ⟨page, member, found⟩ := inductionHypothesis below
        exact ⟨page, List.mem_cons_of_mem newest member, found⟩

/-- When entries know their position, nothing but the newest page shows exactly if no older
page is longer. -/
theorem shows_newest_iff {index : α → Nat} {newest : List α} {older : List (List α)}
    (indexed : ∀ page ∈ newest :: older, ∀ position entry,
      page[position]? = some entry → index entry = position) :
    (∀ entry, (∃ position, overlay (newest :: older) position = some entry) ↔ entry ∈ newest) ↔
      ∀ page ∈ older, page.length ≤ newest.length := by
  have whenShort : (∀ page ∈ older, page.length ≤ newest.length) →
      ∀ position, overlay (newest :: older) position = newest[position]? := by
    intro short position
    rw [overlay_cons]
    cases reached : newest[position]? with
    | some entry => rfl
    | none =>
        have beyond := List.getElem?_eq_none_iff.mp reached
        rw [Option.none_or, overlay_eq_none_iff]
        exact fun page member => Nat.le_trans (short page member) beyond
  constructor
  · intro exact page member
    by_contra longer
    -- An older page sticks out: its entry just behind the newest page still shows.
    cases behind : overlay (newest :: older) newest.length with
    | none =>
        have reached := (overlay_eq_none_iff _ _).mp behind page
          (List.mem_cons_of_mem newest member)
        exact longer reached
    | some entry =>
        obtain ⟨source, sourceMember, found⟩ := mem_of_overlay behind
        have place := indexed source sourceMember newest.length entry found
        obtain ⟨position, atPosition⟩ :=
          List.getElem?_of_mem ((exact entry).mp ⟨newest.length, behind⟩)
        have samePlace := indexed newest List.mem_cons_self position entry atPosition
        have inside := (List.getElem?_eq_some_iff.mp atPosition).1
        omega
  · intro short entry
    simp only [whenShort short, ← List.mem_iff_getElem?]

end Scryd.Foundation
