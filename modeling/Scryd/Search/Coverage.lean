import Scryd.Search.Boundary
import Mathlib.Logic.Function.Iterate

/-!
# How much of a document is indexed

The segments are consecutive pieces of the document.  A boundary may be snapped
inwards, but the number of segments is bounded as if none ever were.
-/

namespace Scryd.Search

open Scryd.Foundation

section Boundaries

variable {chars : List Char} {capped : Nat}

/-- Where the segmenter stands after a number of rounds. -/
def boundaryAfter (chars : List Char) (capped rounds : Nat) : Nat :=
  (segmentEnd chars capped)^[rounds] 0

theorem segmentEnd_capped : segmentEnd chars capped capped = capped := by
  simp only [segmentEnd]
  rw [if_pos (by omega)]

theorem segmentEnd_iterate_bounds (rounds : Nat) {start : Nat} (inside : start ≤ capped) :
    start ≤ (segmentEnd chars capped)^[rounds] start ∧
      (segmentEnd chars capped)^[rounds] start ≤ capped := by
  induction rounds generalizing start with
  | zero => exact ⟨Nat.le_refl start, inside⟩
  | succ rounds inductionHypothesis =>
      rw [Function.iterate_succ_apply]
      by_cases atEnd : start = capped
      · subst atEnd
        rw [segmentEnd_capped]
        exact inductionHypothesis (Nat.le_refl start)
      · have bounds := segmentEnd_bounds chars (Nat.lt_of_le_of_ne inside atEnd)
        have later := inductionHypothesis bounds.2.1
        exact ⟨bounds.1.le.trans later.1, later.2⟩

/-- The segments from a start on are what lies between it and the last boundary. -/
theorem segmentsFrom_join (fits : capped ≤ chars.length) (rounds : Nat) {start : Nat}
    (inside : start ≤ capped) :
    (segmentsFrom chars capped rounds start).flatMap String.toList =
      (chars.drop start).take ((segmentEnd chars capped)^[rounds] start - start) := by
  induction rounds generalizing start with
  | zero => simp [segmentsFrom]
  | succ rounds inductionHypothesis =>
      rw [Function.iterate_succ_apply]
      by_cases atEnd : start = capped
      · subst atEnd
        rw [segmentEnd_capped]
        have stays := @segmentEnd_iterate_bounds chars start rounds start (Nat.le_refl start)
        rw [Nat.le_antisymm stays.2 stays.1]
        simp [segmentsFrom]
      · have more := Nat.lt_of_le_of_ne inside atEnd
        have bounds := segmentEnd_bounds chars more
        have later := @segmentEnd_iterate_bounds chars capped rounds _ bounds.2.1
        have parts : (segmentEnd chars capped)^[rounds] (segmentEnd chars capped start) - start =
            (segmentEnd chars capped start - start) +
              ((segmentEnd chars capped)^[rounds] (segmentEnd chars capped start) -
                segmentEnd chars capped start) := by
          omega
        have next : start + (segmentEnd chars capped start - start) =
            segmentEnd chars capped start := by
          omega
        rw [segmentsFrom_cons fits more, List.flatMap_cons, String.toList_ofList,
          inductionHypothesis bounds.2.1, parts, List.take_add, List.drop_drop, next]

/-- So many characters are covered wherever the breaks are. -/
theorem boundaryAfter_advances (rounds : Nat) :
    min (rounds * (segmentTargetChars - snapWindow + 1)) capped ≤
      boundaryAfter chars capped rounds := by
  induction rounds with
  | zero => exact (Nat.min_le_left _ _).trans (by omega)
  | succ rounds inductionHypothesis =>
      rw [boundaryAfter, Function.iterate_succ_apply']
      unfold boundaryAfter at inductionHypothesis
      have ends := (segmentEnd_eq_iff chars capped ((segmentEnd chars capped)^[rounds] 0) _).mp rfl
      have advances := ends.advances
      rw [Nat.succ_mul]
      omega

/-- At most so many pieces lead from a place of the text to its cap. -/
inductive PiecesReach (chars : List Char) (capped : Nat) : Nat → Nat → Prop
  | atCap (pieces : Nat) : PiecesReach chars capped pieces capped
  | piece {pieces start stop : Nat} (ends : PieceEnd chars capped start stop)
      (rest : PiecesReach chars capped pieces stop) : PiecesReach chars capped (pieces + 1) start

theorem piecesReach_iff (chars : List Char) (capped pieces start : Nat) :
    PiecesReach chars capped pieces start ↔
      (segmentEnd chars capped)^[pieces] start = capped := by
  induction pieces generalizing start with
  | zero =>
      constructor
      · intro reaches
        cases reaches
        rfl
      · intro atCap
        obtain rfl : start = capped := atCap
        exact .atCap 0
  | succ pieces inductionHypothesis =>
      rw [Function.iterate_succ_apply, ← inductionHypothesis]
      constructor
      · intro reaches
        cases reaches with
        | atCap =>
            rw [segmentEnd_capped]
            exact .atCap pieces
        | piece ends rest =>
            rw [(segmentEnd_eq_iff chars capped _ _).mpr ends]
            exact rest
      · exact .piece ((segmentEnd_eq_iff chars capped _ _).mp rfl)

end Boundaries

section Documents

/-- The characters of a document that are not dropped for its length. -/
def cappedLength (document : String) : Nat := min document.toList.length segmentMaxChars

/-- Joined together, the segments of a long document are what lies before the last boundary. -/
theorem join_splitForIndex {document : String}
    (long : segmentTargetChars < document.toList.length) :
    (String.join (splitForIndex document)).toList = document.toList.take
      (boundaryAfter document.toList (cappedLength document) maxSegmentsPerMessage) := by
  rw [String.toList_join, splitForIndex_long long,
    segmentsFrom_join (Nat.min_le_left _ _) _ (Nat.zero_le _)]
  rfl

theorem join_splitForIndex_short {document : String}
    (short : document.toList.length ≤ segmentTargetChars) :
    (String.join (splitForIndex document)).toList = document.toList := by
  rw [splitForIndex_short short, String.toList_join]
  simp

/-- Nothing below the cap is dropped exactly when eight pieces of the text lead to it. -/
theorem splitForIndex_complete_iff (document : String) :
    (String.join (splitForIndex document)).toList =
        document.toList.take (min document.toList.length segmentMaxChars) ↔
      PiecesReach document.toList (cappedLength document) maxSegmentsPerMessage 0 := by
  by_cases short : document.toList.length ≤ segmentTargetChars
  · have below : segmentTargetChars ≤ segmentMaxChars := by decide
    have pieces : maxSegmentsPerMessage = 7 + 1 := by decide
    rw [join_splitForIndex_short short, List.take_of_length_le (by omega), pieces]
    refine iff_of_true rfl (.piece (.last ?_) (.atCap 7))
    exact (Nat.min_le_left _ _).trans (short.trans (by omega))
  · rw [join_splitForIndex (Nat.lt_of_not_le short), piecesReach_iff]
    have bounds := @segmentEnd_iterate_bounds document.toList (cappedLength document)
      maxSegmentsPerMessage 0 (Nat.zero_le _)
    constructor
    · intro same
      have lengths := congrArg List.length same
      simp only [List.length_take] at lengths
      unfold boundaryAfter cappedLength at *
      omega
    · intro reached
      rw [boundaryAfter, reached]
      rfl

/-- The characters that are indexed wherever the breaks are: the last segment is not cut. -/
def alwaysCovered : Nat :=
  (maxSegmentsPerMessage - 1) * (segmentTargetChars - snapWindow + 1) + segmentTargetChars

theorem boundaryAfter_of_short (chars : List Char) {capped : Nat}
    (bounded : capped ≤ alwaysCovered) :
    boundaryAfter chars capped maxSegmentsPerMessage = capped := by
  have sizes : alwaysCovered = 7 * (segmentTargetChars - snapWindow + 1) + segmentTargetChars := by
    decide
  have rounds : maxSegmentsPerMessage = 7 + 1 := by decide
  have advances := @boundaryAfter_advances chars capped 7
  have last : capped ≤ boundaryAfter chars capped 7 + segmentTargetChars := by omega
  rw [rounds]
  unfold boundaryAfter at last ⊢
  rw [Function.iterate_succ_apply']
  simp only [segmentEnd]
  rw [if_pos (by omega)]

/-- Short enough documents are indexed completely whatever their breaks. -/
theorem splitForIndex_complete_of_length_le {document : String}
    (bounded : document.toList.length ≤ alwaysCovered) :
    (String.join (splitForIndex document)).toList = document.toList := by
  by_cases short : document.toList.length ≤ segmentTargetChars
  · exact join_splitForIndex_short short
  · have below : alwaysCovered ≤ segmentMaxChars := by decide
    rw [join_splitForIndex (Nat.lt_of_not_le short), boundaryAfter_of_short]
    · apply List.take_of_length_le
      unfold cappedLength
      omega
    · exact (Nat.min_le_left _ _).trans bounded

end Documents

section Spaced

/-- A text whose words fill a segment that is cut a whole window early. -/
def spacedText (size : Nat) : String :=
  String.ofList ((List.range size).map fun i => if (i + 1) % 1793 = 0 then ' ' else 'a')

theorem spacedText_length (size : Nat) : (spacedText size).toList.length = size := by
  rw [spacedText, String.toList_ofList, List.length_map, List.length_range]

theorem spacedText_getElem? {size i : Nat} (inside : i < size) :
    (spacedText size).toList[i]? = some (if (i + 1) % 1793 = 0 then ' ' else 'a') := by
  rw [spacedText, String.toList_ofList, List.getElem?_map, List.getElem?_range inside]
  rfl

theorem spacedText_no_newline (size i : Nat) : (spacedText size).toList[i]? ≠ some '\n' := by
  intro newline
  obtain ⟨inside, _⟩ := List.getElem?_eq_some_iff.mp newline
  rw [spacedText_length] at inside
  rw [spacedText_getElem? inside] at newline
  split at newline <;> cases newline

theorem spacedText_no_lineEnd (size capped target place : Nat) :
    ¬ LineEnd (spacedText size).toList capped target place := by
  intro ends
  have after := ends.after_start
  exact spacedText_no_newline size (place - 1) (ends.newlines _ (Nat.le_refl _) (by omega))

theorem spacedText_wordEnd_iff {size target place : Nat} (inside : target < size) :
    WordEnd (spacedText size).toList target place ↔
      target - snapWindow < place ∧ place ≤ target ∧ place % 1793 = 0 := by
  have blank : isWhitespace ' ' = true := by decide
  have letter : isWhitespace 'a' = false := by decide
  constructor
  · intro ends
    have after := ends.after_start
    have before := ends.before_target
    obtain ⟨c, here, isBlank⟩ := ends.blank
    rw [spacedText_getElem? (by omega), Nat.sub_add_cancel (by omega)] at here
    refine ⟨after, before, ?_⟩
    by_contra other
    rw [if_neg other] at here
    cases here
    rw [letter] at isBlank
    cases isBlank
  · rintro ⟨after, before, wordEnd⟩
    refine ⟨after, before, ' ', ?_, blank⟩
    rw [spacedText_getElem? (by omega), Nat.sub_add_cancel (by omega), if_pos wordEnd]

/-- The only break in the window of such a text is the one a whole window early. -/
theorem spacedText_segmentEnd {size word : Nat}
    (more : 1793 * word + segmentTargetChars < size) :
    segmentEnd (spacedText size).toList size (1793 * word) = 1793 * (word + 1) := by
  have sizes : segmentTargetChars = 2048 ∧ snapWindow = 256 := ⟨rfl, rfl⟩
  rw [segmentEnd_eq_iff]
  refine .cut more (.word (spacedText_no_lineEnd size _ _) ?_ ?_)
  · rw [spacedText_wordEnd_iff more]
    omega
  · intro other ends
    rw [spacedText_wordEnd_iff more] at ends
    omega

theorem spacedText_boundaryAfter {size rounds : Nat}
    (more : 1793 * rounds + segmentTargetChars < size + 1793) :
    boundaryAfter (spacedText size).toList size rounds = 1793 * rounds := by
  induction rounds with
  | zero => rfl
  | succ rounds inductionHypothesis =>
      have before := inductionHypothesis (by omega)
      unfold boundaryAfter at before ⊢
      rw [Function.iterate_succ_apply', before, spacedText_segmentEnd (by omega)]

end Spaced

/-- One character more than what is always covered, and the end of the text is dropped. -/
theorem spacedText_not_complete :
    ¬ (String.join (splitForIndex (spacedText 14600))).toList =
      (spacedText 14600).toList.take (min (spacedText 14600).toList.length segmentMaxChars) := by
  have length := spacedText_length 14600
  have capped : cappedLength (spacedText 14600) = 14600 := by
    rw [cappedLength, length]
    rfl
  intro same
  have lengths := congrArg List.length same
  rw [join_splitForIndex (by rw [length]; decide), capped,
    spacedText_boundaryAfter (by decide), List.length_take, List.length_take, length] at lengths
  exact absurd lengths (by decide)

end Scryd.Search
