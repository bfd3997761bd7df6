import Scryd.Foundation.Text

/-!
# Documents and their segments

The text the indexer gets for a message, and the segments it is split into.
Offsets count characters.
-/

namespace Scryd.Search

open Scryd.Foundation

def segmentTargetChars : Nat := 2048

def segmentMaxChars : Nat := 16384

def maxSegmentsPerMessage : Nat := segmentMaxChars / segmentTargetChars

def snapWindow : Nat := 256

def fromDisplay (addr : String) (name : Option String) : String :=
  match name with
  | some n =>
      let trimmed := trim n.toList
      if trimmed.isEmpty then addr else String.ofList trimmed ++ " <" ++ addr ++ ">"
  | none => addr

/-- `document::build`. -/
def buildDocument (subject : Option String) (senderAddr : String) (senderName : Option String)
    (bodyMd : String) : String :=
  let heading :=
    match subject with
    | some s =>
        let trimmed := trim s.toList
        if trimmed.isEmpty then "" else String.ofList trimmed ++ "\n\n"
    | none => ""
  heading ++ fromDisplay senderAddr senderName ++ "\n\n" ++ bodyMd

section Segments

/-- The offsets `first, first + 1, ...` below `limit`. -/
def offsets (first limit : Nat) : List Nat := (List.range (limit - first)).map (first + ·)

theorem mem_offsets_iff (first limit offset : Nat) :
    offset ∈ offsets first limit ↔ first ≤ offset ∧ offset < limit := by
  simp only [offsets, List.mem_map, List.mem_range]
  constructor
  · rintro ⟨step, below, rfl⟩
    omega
  · intro bounds
    exact ⟨offset - first, by omega, by omega⟩

def absDiff (left right : Nat) : Nat := (left - right) + (right - left)

/-- The offset closest to the target, the first one of several. -/
def closestTo (target : Nat) : List Nat → Option Nat :=
  List.foldl (fun best offset =>
    match best with
    | none => some offset
    | some kept => if absDiff offset target < absDiff kept target then some offset else some kept)
    none

theorem mem_of_closestTo {target found : Nat} {candidates : List Nat}
    (closest : closestTo target candidates = some found) : found ∈ candidates := by
  suffices general : ∀ (candidates : List Nat) (best : Option Nat),
      candidates.foldl (fun best offset =>
        match best with
        | none => some offset
        | some kept =>
            if absDiff offset target < absDiff kept target then some offset else some kept)
        best = some found → best = some found ∨ found ∈ candidates by
    rcases general candidates none closest with impossible | member
    · cases impossible
    · exact member
  intro candidates
  induction candidates with
  | nil => exact fun best same => .inl same
  | cons offset rest inductionHypothesis =>
      intro best folded
      rcases inductionHypothesis _ folded with kept | member
      · cases best with
        | none =>
            cases kept
            exact .inr List.mem_cons_self
        | some old =>
            simp only at kept
            split at kept
            · cases kept
              exact .inr List.mem_cons_self
            · exact .inl kept
      · exact .inr (List.mem_cons_of_mem offset member)

/-- Where a paragraph, and where a line, ends in a window. -/
def paragraphEnds (chars : List Char) (windowStart windowEnd : Nat) : List Nat :=
  ((offsets windowStart (windowEnd - 1)).filter fun i =>
    chars[i]? == some '\n' && chars[i + 1]? == some '\n').map (· + 2)

def lineEnds (chars : List Char) (windowStart windowEnd : Nat) : List Nat :=
  ((offsets windowStart windowEnd).filter fun i => chars[i]? == some '\n').map (· + 1)

/-- `snap_boundary`: a paragraph end around the target, else a line end, else the last word
boundary before it, else the target itself. -/
def snapBoundary (chars : List Char) (start target capped : Nat) : Nat :=
  let windowStart := max (target - snapWindow) (start + 1)
  let windowEnd := min (target + snapWindow) capped
  if windowEnd ≤ windowStart then target
  else
    match closestTo target (paragraphEnds chars windowStart windowEnd) with
    | some p => min p capped
    | none =>
        match closestTo target (lineEnds chars windowStart windowEnd) with
        | some p => min p capped
        | none =>
            match (offsets windowStart target).reverse.find? fun i =>
                (chars[i]?.map isWhitespace).getD false with
            | some i => min (i + 1) capped
            | none => target

/-- Where the segment that begins at `start` ends. -/
def segmentEnd (chars : List Char) (capped start : Nat) : Nat :=
  let target := min (start + segmentTargetChars) capped
  if capped ≤ target then capped else snapBoundary chars start target capped

/-- The segmenter's loop, with the number of segments it may still produce. -/
def segmentsFrom (chars : List Char) (capped : Nat) : Nat → Nat → List String
  | 0, _ => []
  | rounds + 1, start =>
      if start < capped then
        let stop := segmentEnd chars capped start
        let segment := (chars.drop start).take (stop - start)
        if segment.isEmpty then segmentsFrom chars capped rounds stop
        else String.ofList segment :: segmentsFrom chars capped rounds stop
      else
        []

/-- `split_for_index`. -/
def splitForIndex (document : String) : List String :=
  let chars := document.toList
  let total := chars.length
  if total = 0 then [""]
  else if total ≤ segmentTargetChars then [document]
  else
    let segments := segmentsFrom chars (min total segmentMaxChars) maxSegmentsPerMessage 0
    if segments.isEmpty then [String.ofList (chars.take segmentTargetChars)] else segments

theorem segmentsFrom_length_le (chars : List Char) (capped rounds start : Nat) :
    (segmentsFrom chars capped rounds start).length ≤ rounds := by
  induction rounds generalizing start with
  | zero => simp [segmentsFrom]
  | succ rounds inductionHypothesis =>
      simp only [segmentsFrom]
      split
      · split
        · exact (inductionHypothesis _).trans (Nat.le_succ rounds)
        · rw [List.length_cons]
          exact Nat.succ_le_succ (inductionHypothesis _)
      · simp

theorem splitForIndex_length_pos (document : String) : 0 < (splitForIndex document).length := by
  simp only [splitForIndex]
  split
  · simp
  · split
    · simp
    · split
      · simp
      next nonempty =>
        apply List.length_pos_of_ne_nil
        intro empty
        rw [empty] at nonempty
        exact nonempty rfl

/-- The segments of a message fit into the range of segment numbers. -/
theorem splitForIndex_length_le (document : String) :
    (splitForIndex document).length ≤ maxSegmentsPerMessage := by
  simp only [splitForIndex]
  split
  · decide
  · split
    · exact (by decide : 1 ≤ maxSegmentsPerMessage)
    · split
      · exact (by decide : 1 ≤ maxSegmentsPerMessage)
      · exact segmentsFrom_length_le _ _ _ _

/-- A snapped boundary lies in the window around its target. -/
theorem snapBoundary_bounds (chars : List Char) {start target capped : Nat}
    (past : start < target) (inside : target < capped) :
    start < snapBoundary chars start target capped ∧
      snapBoundary chars start target capped ≤ min (target + snapWindow) capped := by
  simp only [snapBoundary]
  split
  · omega
  · split
    next p closest =>
      have member := mem_of_closestTo closest
      simp only [paragraphEnds, List.mem_map, List.mem_filter, mem_offsets_iff] at member
      obtain ⟨i, ⟨bounds, _⟩, rfl⟩ := member
      omega
    · split
      next p closest =>
        have member := mem_of_closestTo closest
        simp only [lineEnds, List.mem_map, List.mem_filter, mem_offsets_iff] at member
        obtain ⟨i, ⟨bounds, _⟩, rfl⟩ := member
        omega
      · split
        next i found =>
          have member := List.mem_of_find?_eq_some found
          rw [List.mem_reverse, mem_offsets_iff] at member
          omega
        · omega

/-- Every round makes progress and stays close to its target. -/
theorem segmentEnd_bounds (chars : List Char) {capped start : Nat} (inside : start < capped) :
    start < segmentEnd chars capped start ∧ segmentEnd chars capped start ≤ capped ∧
      segmentEnd chars capped start ≤ start + segmentTargetChars + snapWindow := by
  have positive : 0 < segmentTargetChars := by decide
  simp only [segmentEnd]
  split
  next last => omega
  next more =>
    have snapped := @snapBoundary_bounds chars start (min (start + segmentTargetChars) capped)
      capped (by omega) (by omega)
    omega

/-- A round before the cap produces a segment. -/
theorem segmentsFrom_cons {chars : List Char} {capped start : Nat} (fits : capped ≤ chars.length)
    (inside : start < capped) (rounds : Nat) :
    segmentsFrom chars capped (rounds + 1) start =
      String.ofList ((chars.drop start).take (segmentEnd chars capped start - start)) ::
        segmentsFrom chars capped rounds (segmentEnd chars capped start) := by
  have bounds := segmentEnd_bounds chars inside
  have nonempty : ((chars.drop start).take (segmentEnd chars capped start - start)).isEmpty =
      false := by
    rw [← Bool.not_eq_true, List.isEmpty_iff_length_eq_zero, List.length_take, List.length_drop]
    omega
  simp only [segmentsFrom, if_pos inside, nonempty]
  rfl

theorem splitForIndex_short {document : String}
    (short : document.toList.length ≤ segmentTargetChars) :
    splitForIndex document = [document] := by
  simp only [splitForIndex]
  split
  next empty => rw [String.toList_eq_nil_iff.mp (List.length_eq_zero_iff.mp empty)]
  next => rfl

/-- A document longer than a segment is split by the loop, which starts with a segment. -/
theorem splitForIndex_long {document : String}
    (long : segmentTargetChars < document.toList.length) :
    splitForIndex document = segmentsFrom document.toList
      (min document.toList.length segmentMaxChars) maxSegmentsPerMessage 0 := by
  have caps : segmentTargetChars < segmentMaxChars := by decide
  have rounds : maxSegmentsPerMessage = 7 + 1 := by decide
  have firstRound := @segmentsFrom_cons document.toList
    (min document.toList.length segmentMaxChars) 0 (Nat.min_le_left _ _) (by omega) 7
  simp only [splitForIndex]
  rw [if_neg (by omega), if_neg (by omega), rounds, firstRound]
  rfl

/-- A document that one segment cannot hold, even snapped outwards, gets several. -/
theorem two_le_splitForIndex_length {document : String}
    (long : segmentTargetChars + snapWindow < document.toList.length) :
    2 ≤ (splitForIndex document).length := by
  have caps : segmentTargetChars + snapWindow < segmentMaxChars := by decide
  have rounds : maxSegmentsPerMessage = 6 + 1 + 1 := by decide
  have fits : min document.toList.length segmentMaxChars ≤ document.toList.length :=
    Nat.min_le_left _ _
  have firstInside : 0 < min document.toList.length segmentMaxChars := by omega
  have bounds := segmentEnd_bounds document.toList firstInside
  have secondInside : segmentEnd document.toList (min document.toList.length segmentMaxChars) 0 <
      min document.toList.length segmentMaxChars := by omega
  rw [splitForIndex_long (by omega), rounds, segmentsFrom_cons fits firstInside,
    segmentsFrom_cons fits secondInside]
  simp

end Segments

end Scryd.Search
