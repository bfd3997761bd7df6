import Scryd.Search.Document
import Mathlib.Data.List.Induction

/-!
# Where a segment ends

What a boundary is snapped to, told by the text alone.  The window around a target
is searched for a break of the strongest kind; of several, the closest one counts.
-/

namespace Scryd.Search

open Scryd.Foundation

section Closest

/-- No candidate is closer to the target, and none as close stands before it. -/
structure Closest (candidate : Nat → Prop) (target place : Nat) : Prop where
  holds : candidate place
  closest : ∀ other, candidate other → absDiff place target ≤ absDiff other target
  first : ∀ other, candidate other → absDiff other target = absDiff place target → place ≤ other

variable {candidate : Nat → Prop} {target : Nat}

theorem Closest.unique {left right : Nat} (closestLeft : Closest candidate target left)
    (closestRight : Closest candidate target right) : left = right := by
  have equallyClose : absDiff left target = absDiff right target :=
    Nat.le_antisymm (closestLeft.closest right closestRight.holds)
      (closestRight.closest left closestLeft.holds)
  exact Nat.le_antisymm (closestLeft.first right closestRight.holds equallyClose.symm)
    (closestRight.first left closestLeft.holds equallyClose)

theorem Closest.congr {other : Nat → Prop} (same : ∀ place, candidate place ↔ other place)
    {place : Nat} (closest : Closest candidate target place) : Closest other target place where
  holds := (same place).mp closest.holds
  closest rival rivals := closest.closest rival ((same rival).mpr rivals)
  first rival rivals := closest.first rival ((same rival).mpr rivals)

theorem closestTo_concat (target offset : Nat) (before : List Nat) :
    closestTo target (before ++ [offset]) =
      match closestTo target before with
      | none => some offset
      | some kept =>
          if absDiff offset target < absDiff kept target then some offset else some kept := by
  rw [closestTo, List.foldl_append]
  rfl

theorem closestTo_eq_none_iff (target : Nat) (candidates : List Nat) :
    closestTo target candidates = none ↔ candidates = [] := by
  constructor
  · intro nothing
    cases candidates using List.reverseRecOn with
    | nil => rfl
    | append_singleton before offset =>
        rw [closestTo_concat] at nothing
        split at nothing
        · cases nothing
        · split at nothing <;> cases nothing
  · rintro rfl
    rfl

/-- The scan of increasing offsets keeps the first of the closest ones. -/
theorem closest_of_closestTo {candidates : List Nat} {place : Nat}
    (increasing : candidates.Pairwise (· < ·)) (found : closestTo target candidates = some place) :
    Closest (· ∈ candidates) target place := by
  induction candidates using List.reverseRecOn generalizing place with
  | nil => cases found
  | append_singleton before offset inductionHypothesis =>
      have parts := List.pairwise_append.mp increasing
      have later : ∀ earlier ∈ before, earlier < offset := fun earlier member =>
        parts.2.2 earlier member offset List.mem_cons_self
      rw [closestTo_concat] at found
      split at found
      next nothing =>
        rw [closestTo_eq_none_iff] at nothing
        subst nothing
        cases found
        exact ⟨by simp, by simp, by simp⟩
      next kept keptBefore =>
        have keptClosest := inductionHypothesis parts.1 keptBefore
        have keptLater := later kept keptClosest.holds
        split at found
        next closer =>
          cases found
          refine ⟨by simp, ?_, ?_⟩
          · intro other member
            rcases List.mem_append.mp member with earlier | last
            · exact closer.le.trans (keptClosest.closest other earlier)
            · rw [List.mem_singleton.mp last]
          · intro other member equallyClose
            rcases List.mem_append.mp member with earlier | last
            · have atLeast := keptClosest.closest other earlier
              omega
            · rw [List.mem_singleton.mp last]
        next notCloser =>
          cases found
          refine ⟨List.mem_append_left _ keptClosest.holds, ?_, ?_⟩
          · intro other member
            rcases List.mem_append.mp member with earlier | last
            · exact keptClosest.closest other earlier
            · rw [List.mem_singleton.mp last]
              exact Nat.le_of_not_lt notCloser
          · intro other member equallyClose
            rcases List.mem_append.mp member with earlier | last
            · exact keptClosest.first other earlier equallyClose
            · rw [List.mem_singleton.mp last]
              exact keptLater.le

end Closest

section Breaks

variable {chars : List Char} {capped target place : Nat}

/-- So many newlines stand before a place, all of them in the window around the target. -/
structure NewlinesBefore (chars : List Char) (capped target count place : Nat) : Prop where
  after_start : target - snapWindow + count ≤ place
  before_end : place ≤ min (target + snapWindow) capped
  newlines : ∀ i, place - count ≤ i → i < place → chars[i]? = some '\n'

def ParagraphEnd (chars : List Char) (capped target : Nat) : Nat → Prop :=
  NewlinesBefore chars capped target 2

def LineEnd (chars : List Char) (capped target : Nat) : Nat → Prop :=
  NewlinesBefore chars capped target 1

/-- The character before a place is whitespace in the half of the window before the target. -/
structure WordEnd (chars : List Char) (target place : Nat) : Prop where
  after_start : target - snapWindow < place
  before_target : place ≤ target
  blank : ∃ c, chars[place - 1]? = some c ∧ isWhitespace c = true

/-- The break that a text has for a target. -/
inductive BreakFor (chars : List Char) (capped target : Nat) : Nat → Prop
  | paragraph {place : Nat} (closest : Closest (ParagraphEnd chars capped target) target place) :
      BreakFor chars capped target place
  | line {place : Nat} (noParagraph : ∀ other, ¬ ParagraphEnd chars capped target other)
      (closest : Closest (LineEnd chars capped target) target place) :
      BreakFor chars capped target place
  | word {place : Nat} (noLine : ∀ other, ¬ LineEnd chars capped target other)
      (ends : WordEnd chars target place)
      (last : ∀ other, WordEnd chars target other → other ≤ place) :
      BreakFor chars capped target place
  | target (noLine : ∀ other, ¬ LineEnd chars capped target other)
      (noWord : ∀ other, ¬ WordEnd chars target other) : BreakFor chars capped target target

theorem ParagraphEnd.lineEnd (ends : ParagraphEnd chars capped target place) :
    LineEnd chars capped target place where
  after_start := by have := ends.after_start; omega
  before_end := ends.before_end
  newlines i after before := ends.newlines i (by omega) before

theorem BreakFor.after_start (breaks : BreakFor chars capped target place)
    (positive : 0 < target) : target - snapWindow < place := by
  have size : 0 < snapWindow := by decide
  cases breaks with
  | paragraph closest => exact Nat.lt_of_succ_lt closest.holds.after_start
  | line noParagraph closest => exact closest.holds.after_start
  | word noLine ends last => exact ends.after_start
  | target => omega

/-- A text has one break for a target. -/
theorem BreakFor.unique {left right : Nat} (breakLeft : BreakFor chars capped target left)
    (breakRight : BreakFor chars capped target right) : left = right := by
  cases breakLeft with
  | paragraph closest =>
      cases breakRight with
      | paragraph other => exact closest.unique other
      | line noParagraph => exact absurd closest.holds (noParagraph _)
      | word noLine => exact absurd closest.holds.lineEnd (noLine _)
      | target noLine => exact absurd closest.holds.lineEnd (noLine _)
  | line noParagraph closest =>
      cases breakRight with
      | paragraph other => exact absurd other.holds (noParagraph _)
      | line _ other => exact closest.unique other
      | word noLine => exact absurd closest.holds (noLine _)
      | target noLine => exact absurd closest.holds (noLine _)
  | word noLine ends last =>
      cases breakRight with
      | paragraph other => exact absurd other.holds.lineEnd (noLine _)
      | line _ other => exact absurd other.holds (noLine _)
      | word _ otherEnds otherLast => exact Nat.le_antisymm (otherLast _ ends) (last _ otherEnds)
      | target _ noWord => exact absurd ends (noWord _)
  | target noLine noWord =>
      cases breakRight with
      | paragraph other => exact absurd other.holds.lineEnd (noLine _)
      | line _ other => exact absurd other.holds (noLine _)
      | word _ ends => exact absurd ends (noWord _)
      | target => rfl

end Breaks

section Snapping

variable {chars : List Char} {capped target place first limit : Nat}

theorem offsets_increasing (first limit : Nat) : (offsets first limit).Pairwise (· < ·) := by
  rw [offsets, List.pairwise_map]
  exact List.pairwise_lt_range.imp fun before => Nat.add_lt_add_left before first

theorem paragraphEnds_increasing (chars : List Char) (first limit : Nat) :
    (paragraphEnds chars first limit).Pairwise (· < ·) := by
  rw [paragraphEnds, List.pairwise_map]
  exact ((offsets_increasing first _).filter _).imp fun before => Nat.add_lt_add_right before 2

theorem lineEnds_increasing (chars : List Char) (first limit : Nat) :
    (lineEnds chars first limit).Pairwise (· < ·) := by
  rw [lineEnds, List.pairwise_map]
  exact ((offsets_increasing first _).filter _).imp fun before => Nat.add_lt_add_right before 1

theorem mem_paragraphEnds_iff : place ∈ paragraphEnds chars (target - snapWindow)
    (min (target + snapWindow) capped) ↔ ParagraphEnd chars capped target place := by
  simp only [paragraphEnds, List.mem_map, List.mem_filter, mem_offsets_iff, Bool.and_eq_true,
    beq_iff_eq]
  constructor
  · rintro ⟨i, ⟨bounds, newline, another⟩, rfl⟩
    refine ⟨by omega, by omega, ?_⟩
    intro j after before
    obtain rfl | rfl : j = i ∨ j = i + 1 := by omega
    · exact newline
    · exact another
  · intro ends
    have after := ends.after_start
    have before := ends.before_end
    have apart : place - 2 + 1 = place - 1 := by omega
    refine ⟨place - 2, ⟨by omega, ends.newlines _ (Nat.le_refl _) (by omega), ?_⟩, by omega⟩
    rw [apart]
    exact ends.newlines _ (by omega) (by omega)

theorem mem_lineEnds_iff : place ∈ lineEnds chars (target - snapWindow)
    (min (target + snapWindow) capped) ↔ LineEnd chars capped target place := by
  simp only [lineEnds, List.mem_map, List.mem_filter, mem_offsets_iff, beq_iff_eq]
  constructor
  · rintro ⟨i, ⟨bounds, newline⟩, rfl⟩
    refine ⟨by omega, by omega, ?_⟩
    intro j after before
    obtain rfl : j = i := by omega
    exact newline
  · intro ends
    have after := ends.after_start
    have before := ends.before_end
    exact ⟨place - 1, ⟨by omega, ends.newlines _ (Nat.le_refl _) (by omega)⟩, by omega⟩

/-- The scan backwards from the target finds the last word end before it. -/
theorem wordEnd_of_find {i : Nat}
    (found : ((offsets (target - snapWindow) target).reverse.find? fun i =>
      (chars[i]?.map isWhitespace).getD false) = some i) :
    WordEnd chars target (i + 1) ∧ ∀ other, WordEnd chars target other → other ≤ i + 1 := by
  obtain ⟨isBlank, later, earlier, split, letters⟩ := List.find?_eq_some_iff_append.mp found
  have decreasing := List.pairwise_reverse.mpr (offsets_increasing (target - snapWindow) target)
  rw [split, List.pairwise_append, List.pairwise_cons] at decreasing
  have member := List.mem_of_find?_eq_some found
  rw [List.mem_reverse, mem_offsets_iff] at member
  constructor
  · refine ⟨by omega, by omega, ?_⟩
    rw [Nat.add_sub_cancel]
    cases here : chars[i]? with
    | none =>
        rw [here] at isBlank
        cases isBlank
    | some c =>
        rw [here] at isBlank
        exact ⟨c, rfl, isBlank⟩
  · intro other ends
    have after := ends.after_start
    have before := ends.before_target
    obtain ⟨c, here, blank⟩ := ends.blank
    have scanned : other - 1 ∈ (offsets (target - snapWindow) target).reverse := by
      rw [List.mem_reverse, mem_offsets_iff]
      omega
    rw [split, List.mem_append, List.mem_cons] at scanned
    rcases scanned with passed | same | unseen
    · have letter := letters _ passed
      rw [here, Option.map_some, Option.getD_some, blank] at letter
      cases letter
    · omega
    · have below := decreasing.2.1.1 _ unseen
      omega

theorem not_wordEnd_of_find
    (nothing : ((offsets (target - snapWindow) target).reverse.find? fun i =>
      (chars[i]?.map isWhitespace).getD false) = none) (other : Nat) :
    ¬ WordEnd chars target other := by
  intro ends
  have after := ends.after_start
  have before := ends.before_target
  obtain ⟨c, here, blank⟩ := ends.blank
  have letter := List.find?_eq_none.mp nothing (other - 1) (by
    rw [List.mem_reverse, mem_offsets_iff]
    omega)
  rw [here] at letter
  exact letter blank

/-- `snap_boundary` finds the break that the text has for the target. -/
theorem breakFor_snapBoundary (chars : List Char) {start target capped : Nat}
    (far : start + snapWindow < target) (inside : target < capped) :
    BreakFor chars capped target (snapBoundary chars start target capped) := by
  have opens : max (target - snapWindow) (start + 1) = target - snapWindow := by omega
  have size : 0 < snapWindow := by decide
  simp only [snapBoundary, opens]
  rw [if_neg (by omega)]
  split
  next p found =>
    have closest := (closest_of_closestTo (paragraphEnds_increasing chars _ _) found).congr
      fun place => mem_paragraphEnds_iff
    have before := closest.holds.before_end
    rw [Nat.min_eq_left (by omega)]
    exact .paragraph closest
  next noParagraph =>
    have noParagraphEnd : ∀ other, ¬ ParagraphEnd chars capped target other := by
      intro other ends
      rw [closestTo_eq_none_iff] at noParagraph
      have member := mem_paragraphEnds_iff.mpr ends
      rw [noParagraph] at member
      cases member
    split
    next p found =>
      have closest := (closest_of_closestTo (lineEnds_increasing chars _ _) found).congr
        fun place => mem_lineEnds_iff
      have before := closest.holds.before_end
      rw [Nat.min_eq_left (by omega)]
      exact .line noParagraphEnd closest
    next noLine =>
      have noLineEnd : ∀ other, ¬ LineEnd chars capped target other := by
        intro other ends
        rw [closestTo_eq_none_iff] at noLine
        have member := mem_lineEnds_iff.mpr ends
        rw [noLine] at member
        cases member
      split
      next i found =>
        obtain ⟨ends, last⟩ := wordEnd_of_find found
        have before := ends.before_target
        rw [Nat.min_eq_left (by omega)]
        exact .word noLineEnd ends last
      next nothing => exact .target noLineEnd (not_wordEnd_of_find nothing)

/-- Where a piece of the text ends: the last one at the cap, another one at the break that the
text has for its target. -/
inductive PieceEnd (chars : List Char) (capped start : Nat) : Nat → Prop
  | last (fits : capped ≤ start + segmentTargetChars) : PieceEnd chars capped start capped
  | cut {place : Nat} (more : start + segmentTargetChars < capped)
      (breaks : BreakFor chars capped (start + segmentTargetChars) place) :
      PieceEnd chars capped start place

/-- A piece is at most one window short of its target. -/
theorem PieceEnd.advances {start stop : Nat} (ends : PieceEnd chars capped start stop) :
    min (start + (segmentTargetChars - snapWindow + 1)) capped ≤ stop := by
  have sizes : segmentTargetChars = 2048 ∧ snapWindow = 256 := ⟨rfl, rfl⟩
  cases ends with
  | last => exact Nat.min_le_right _ _
  | cut more breaks =>
      have after := breaks.after_start (by omega)
      omega

/-- A segment ends where a piece of the text does. -/
theorem segmentEnd_eq_iff (chars : List Char) (capped start stop : Nat) :
    segmentEnd chars capped start = stop ↔ PieceEnd chars capped start stop := by
  have sizes : segmentTargetChars = 2048 ∧ snapWindow = 256 := ⟨rfl, rfl⟩
  by_cases fits : capped ≤ start + segmentTargetChars
  · have last : segmentEnd chars capped start = capped := by
      simp only [segmentEnd]
      rw [if_pos (by omega)]
    rw [last]
    constructor
    · rintro rfl
      exact .last fits
    · intro ends
      cases ends with
      | last => rfl
      | cut more => omega
  · have target : min (start + segmentTargetChars) capped = start + segmentTargetChars := by omega
    have snapped : segmentEnd chars capped start =
        snapBoundary chars start (start + segmentTargetChars) capped := by
      simp only [segmentEnd, target]
      rw [if_neg fits]
    have breaks := @breakFor_snapBoundary chars start (start + segmentTargetChars) capped
      (by omega) (Nat.lt_of_not_le fits)
    rw [snapped]
    constructor
    · rintro rfl
      exact .cut (Nat.lt_of_not_le fits) breaks
    · intro ends
      cases ends with
      | last other => exact absurd other fits
      | cut _ other => exact breaks.unique other

end Snapping

end Scryd.Search
