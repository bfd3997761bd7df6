import Scryd.Search.Snippet
import Mathlib.Order.Bounds.Basic

/-!
# Snippets by byte offsets

`snippet::render` as the source computes it.  A slice that is not on character
boundaries is a fault, and so is a loop that is not through after its rounds.
-/

namespace Scryd.Search

open Scryd.Foundation

namespace Bytes

inductive Fault where
  /-- A slice off a character boundary. -/
  | charBoundary
  /-- The loop is not through yet. -/
  | running
  deriving DecidableEq

/-- One `push` of a snippet. -/
inductive Span where
  | ellipsis
  | plain (text : List Char)
  /-- A text between two `**`. -/
  | bold (text : List Char)
  deriving DecidableEq

def Span.text : Span → List Char
  | .ellipsis => [Search.ellipsis]
  | .plain text => text
  | .bold text => '*' :: '*' :: (text ++ ['*', '*'])

/-- `&text[start..stop]`. -/
def slice (text : List Char) (start stop : Nat) : Except Fault (List Char) :=
  match slice? text start stop with
  | some piece => .ok piece
  | none => .error .charBoundary

/-- The inner loop of `find_first_match`, over the offsets still to be tried. -/
def scanFor (body term : List Char) : List Nat → Except Fault (Option Nat)
  | [] => .ok none
  | i :: rest =>
      if ¬ isCharBoundary body i then scanFor body term rest
      else if ¬ isCharBoundary body (i + byteLength term) then scanFor body term rest
      else
        match slice body i (i + byteLength term) with
        | .error fault => .error fault
        | .ok piece =>
            if sameAsciiCaseless piece term then .ok (some i) else scanFor body term rest

/-- The update of `earliest` in `find_first_match`. -/
def earlier (earliest : Option Nat) (i : Nat) : Option Nat :=
  match earliest with
  | none => some i
  | some e => if i < e then some i else some e

/-- The loop of `find_first_match` over the terms. -/
def earliestMatch (body : List Char) : List (List Char) → Option Nat → Except Fault (Option Nat)
  | [], earliest => .ok earliest
  | term :: rest, earliest =>
      if byteLength term = 0 ∨ byteLength body < byteLength term then
        earliestMatch body rest earliest
      else
        match scanFor body term (List.range (byteLength body - byteLength term + 1)) with
        | .error fault => .error fault
        | .ok none => earliestMatch body rest earliest
        | .ok (some i) => earliestMatch body rest (earlier earliest i)

/-- `find_first_match`. -/
def findFirstMatch (body : List Char) (terms : List (List Char)) : Except Fault (Option Nat) :=
  earliestMatch body terms none

/-- `window_around`. -/
def windowAround (body : List Char) (pos maxChars : Nat) : Nat × Nat :=
  let half := maxChars / 2
  let e := min (pos + half) (byteLength body)
  (boundaryDown body (pos - half), boundaryUp body e (byteLength body - e))

/-- `leading_window`. -/
def leadingWindow (body : List Char) (maxChars : Nat) : Nat × Nat :=
  let e := min maxChars (byteLength body)
  (0, boundaryUp body e (byteLength body - e))

/-- `next_char_boundary`. -/
def nextCharBoundary (s : List Char) (i : Nat) : Nat :=
  min (boundaryUp s (i + 1) (byteLength s - (i + 1))) (byteLength s)

/-- The loop of `push_highlighted` for the first term that matches at an offset. -/
def matchedTerm (raw : List Char) (i : Nat) : List (List Char) → Except Fault (Option Nat)
  | [] => .ok none
  | term :: rest =>
      if byteLength term = 0 ∨ byteLength raw < i + byteLength term then matchedTerm raw i rest
      else if ¬ isCharBoundary raw i ∨ ¬ isCharBoundary raw (i + byteLength term) then
        matchedTerm raw i rest
      else
        match slice raw i (i + byteLength term) with
        | .error fault => .error fault
        | .ok piece =>
            if sameAsciiCaseless piece term then .ok (some (byteLength term))
            else matchedTerm raw i rest

/-- The loop of `push_highlighted`, cut off after a number of rounds. -/
def highlightLoop (raw : List Char) (terms : List (List Char)) :
    Nat → List Span → Nat → Except Fault (List Span)
  | 0, out, i => if i < byteLength raw then .error .running else .ok out
  | rounds + 1, out, i =>
      if i < byteLength raw then
        match matchedTerm raw i terms with
        | .error fault => .error fault
        | .ok (some len) =>
            match slice raw i (i + len) with
            | .error fault => .error fault
            | .ok piece => highlightLoop raw terms rounds (out ++ [.bold piece]) (i + len)
        | .ok none =>
            match slice raw i (nextCharBoundary raw i) with
            | .error fault => .error fault
            | .ok piece =>
                highlightLoop raw terms rounds (out ++ [.plain piece]) (nextCharBoundary raw i)
      else
        .ok out

/-- `push_highlighted`. -/
def pushHighlighted (out : List Span) (raw : List Char) (terms : List (List Char)) :
    Except Fault (List Span) :=
  highlightLoop raw terms (byteLength raw) out 0

/-- `snippet::render` after the search for a match. -/
def renderWindow (body : List Char) (terms : List (List Char)) (sliceStart sliceEnd : Nat) :
    Except Fault (List Span) :=
  let out : List Span := if 0 < sliceStart then [.ellipsis] else []
  match slice body sliceStart sliceEnd with
  | .error fault => .error fault
  | .ok raw =>
      match if terms.isEmpty then .ok (out ++ [.plain raw]) else pushHighlighted out raw terms with
      | .error fault => .error fault
      | .ok out => .ok (if sliceEnd < byteLength body then out ++ [.ellipsis] else out)

/-- `snippet::render`, as what it pushes. -/
def render (bodyMd q : String) (maxChars : Nat) : Except Fault (List Span) :=
  let body := bodyMd.toList
  let terms := (splitWhitespace q.toList).filter fun term => !term.isEmpty
  match if terms.isEmpty then .ok none else findFirstMatch body terms with
  | .error fault => .error fault
  | .ok (some pos) =>
      let window := windowAround body pos maxChars
      renderWindow body terms window.1 window.2
  | .ok none =>
      let window := leadingWindow body maxChars
      renderWindow body terms window.1 window.2

example : (render "grüße an alle" "an" 6).toOption.map (·.flatMap Span.text) =
    some "…ße **an** …".toList := by decide

section Matches

/-- Whether a term occurs at an offset, up to ASCII case. -/
def occursAt (text term : List Char) (i : Nat) : Bool :=
  (slice? text i (i + byteLength term)).any fun piece => sameAsciiCaseless piece term

theorem occursAt_iff (text term : List Char) (i : Nat) :
    occursAt text term i = true ↔ ∃ front piece back, text = front ++ (piece ++ back) ∧
      byteLength front = i ∧ sameAsciiCaseless piece term = true := by
  simp only [occursAt, Option.any_eq_true, slice?_eq_some_iff]
  constructor
  · rintro ⟨piece, ⟨front, back, rfl, rfl, _⟩, same⟩
    exact ⟨front, piece, back, rfl, rfl, same⟩
  · rintro ⟨front, piece, back, rfl, rfl, same⟩
    refine ⟨piece, ⟨front, back, rfl, rfl, ?_⟩, same⟩
    rw [byteLength_eq_of_sameAsciiCaseless same]

theorem startsWithTerm_iff (term rest : List Char) :
    startsWithTerm term rest = true ↔
      term ≠ [] ∧ ∃ piece back, rest = piece ++ back ∧ sameAsciiCaseless piece term = true := by
  simp only [startsWithTerm, Bool.and_eq_true, Bool.not_eq_true', List.isEmpty_eq_false_iff,
    beq_iff_eq, sameAsciiCaseless_iff]
  constructor
  · rintro ⟨nonempty, same⟩
    exact ⟨nonempty, rest.take term.length, rest.drop term.length,
      (List.take_append_drop _ _).symm, same⟩
  · rintro ⟨nonempty, piece, back, rfl, same⟩
    have lengths := congrArg List.length same
    rw [List.length_map, List.length_map] at lengths
    refine ⟨nonempty, ?_⟩
    rw [← lengths, List.take_left]
    exact same

/-- A term occurs where the rest of the text starts with it. -/
theorem occursAt_append {term : List Char} (nonempty : term ≠ []) (front rest : List Char) :
    occursAt (front ++ rest) term (byteLength front) = startsWithTerm term rest := by
  rw [Bool.eq_iff_iff, occursAt_iff, startsWithTerm_iff]
  constructor
  · rintro ⟨otherFront, piece, back, split, sameOffset, same⟩
    obtain ⟨rfl, rfl⟩ := append_inj_of_byteLength split sameOffset.symm
    exact ⟨nonempty, piece, back, rfl, same⟩
  · rintro ⟨_, piece, back, rfl, same⟩
    exact ⟨front, piece, back, rfl, rfl, same⟩

/-- Where the checks before a slice fail, the term does not occur. -/
theorem occursAt_eq_false {text term : List Char} {i : Nat}
    (outside : ¬ (isCharBoundary text i = true ∧
      isCharBoundary text (i + byteLength term) = true)) : occursAt text term i = false := by
  have unsliced : slice? text i (i + byteLength term) = none :=
    if_neg fun inRange => outside inRange.2
  rw [occursAt, unsliced, Option.any_none]

/-- Between character boundaries a slice is taken. -/
theorem slice_eq_ok {text term : List Char} {i : Nat} (isStart : isCharBoundary text i = true)
    (isStop : isCharBoundary text (i + byteLength term) = true) :
    ∃ piece, slice text i (i + byteLength term) = .ok piece ∧
      sameAsciiCaseless piece term = occursAt text term i := by
  obtain ⟨front, piece, back, split, start, stop⟩ :=
    slice?_isSome (Nat.le_add_right i (byteLength term)) isStart isStop
  have sliced := (slice?_eq_some_iff text i (i + byteLength term) piece).mpr
    ⟨front, back, split, start, stop⟩
  exact ⟨piece, by rw [slice, sliced], by rw [occursAt, sliced, Option.any_some]⟩

theorem slice_append (front piece back : List Char) :
    slice (front ++ (piece ++ back)) (byteLength front) (byteLength front + byteLength piece) =
      .ok piece := by
  rw [slice, slice?_append]

theorem scanFor_eq (body term : List Char) (is : List Nat) :
    scanFor body term is = .ok (is.find? (occursAt body term)) := by
  induction is with
  | nil => rfl
  | cons i rest inductionHypothesis =>
      rw [scanFor, List.find?_cons]
      split
      next off =>
        rw [occursAt_eq_false fun inRange => off inRange.1]
        exact inductionHypothesis
      next isStart =>
        split
        next off =>
          rw [occursAt_eq_false fun inRange => off inRange.2]
          exact inductionHypothesis
        next isStop =>
          obtain ⟨piece, sliced, same⟩ :=
            slice_eq_ok (not_not.mp isStart) (not_not.mp isStop)
          simp only [sliced, same]
          cases occursAt body term i with
          | true => rfl
          | false => exact inductionHypothesis

/-- The first term in the order of the query that a text starts with. -/
def firstTerm (terms : List (List Char)) (text : List Char) : Option (List Char) :=
  terms.find? fun term => startsWithTerm term text

/-- The first term that matches wins. -/
theorem matchedTerm_eq (front rest : List Char) (terms : List (List Char)) :
    matchedTerm (front ++ rest) (byteLength front) terms =
      .ok ((firstTerm terms rest).map byteLength) := by
  unfold firstTerm
  induction terms with
  | nil => rfl
  | cons term terms inductionHypothesis =>
      rw [matchedTerm, List.find?_cons]
      by_cases empty : term = []
      · subst empty
        rw [if_pos (.inl byteLength_nil)]
        exact inductionHypothesis
      · have positive := byteLength_pos empty
        have occurs := occursAt_append empty front rest
        split
        next tooLong =>
          have beyond : ¬ isCharBoundary (front ++ rest)
              (byteLength front + byteLength term) = true := by
            intro boundary
            have inside := isCharBoundary_le boundary
            omega
          rw [occursAt_eq_false fun inRange => beyond inRange.2] at occurs
          rw [← occurs]
          exact inductionHypothesis
        next fits =>
          split
          next off =>
            rw [← not_and_or] at off
            rw [occursAt_eq_false off] at occurs
            rw [← occurs]
            exact inductionHypothesis
          next boundaries =>
            rw [not_or, not_not, not_not] at boundaries
            obtain ⟨piece, sliced, same⟩ := slice_eq_ok boundaries.1 boundaries.2
            simp only [sliced, same, occurs]
            cases startsWithTerm term rest with
            | true => rfl
            | false => exact inductionHypothesis

/-- The least offset with a property, if there is one. -/
def Earliest (P : Nat → Prop) : Option Nat → Prop
  | none => ∀ i, ¬ P i
  | some p => IsLeast {i | P i} p

theorem Earliest.unique {P : Nat → Prop} {first second : Option Nat} (isFirst : Earliest P first)
    (isSecond : Earliest P second) : first = second := by
  cases first with
  | none =>
      cases second with
      | none => rfl
      | some p => exact absurd isSecond.1 (isFirst p)
  | some p =>
      cases second with
      | none => exact absurd isFirst.1 (isSecond p)
      | some other => rw [IsLeast.unique isFirst isSecond]

/-- The earlier of the earliest offsets with one of two properties. -/
theorem Earliest.or {P Q : Nat → Prop} {earliest : Option Nat} {i : Nat}
    (isEarliest : Earliest P earliest) (isFound : Earliest Q (some i)) :
    Earliest (fun j => P j ∨ Q j) (earlier earliest i) := by
  cases earliest with
  | none =>
      refine ⟨.inr isFound.1, ?_⟩
      rintro j (early | late)
      · exact absurd early (isEarliest j)
      · exact isFound.2 late
  | some e =>
      rw [earlier]
      split
      next before =>
        refine ⟨.inr isFound.1, ?_⟩
        rintro j (early | late)
        · exact Nat.le_trans (Nat.le_of_lt before) (isEarliest.2 early)
        · exact isFound.2 late
      next notBefore =>
        refine ⟨.inl isEarliest.1, ?_⟩
        rintro j (early | late)
        · exact isEarliest.2 early
        · exact Nat.le_trans (Nat.le_of_not_lt notBefore) (isFound.2 late)

theorem Earliest.or_never {P Q : Nat → Prop} {earliest : Option Nat}
    (isEarliest : Earliest P earliest) (never : Earliest Q none) :
    Earliest (fun j => P j ∨ Q j) earliest := by
  have same : (fun j => P j ∨ Q j) = P := by
    funext j
    exact propext (or_iff_left (never j))
  rwa [same]

/-- Searching the offsets in their order finds the earliest one. -/
theorem earliest_find? {P : Nat → Bool} {count : Nat} (inside : ∀ i, P i = true → i < count) :
    Earliest (fun i => P i = true) ((List.range count).find? P) := by
  cases found : (List.range count).find? P with
  | none =>
      intro i holds
      rw [List.find?_eq_none] at found
      exact found i (List.mem_range.mpr (inside i holds)) holds
  | some p =>
      rw [List.find?_range_eq_some] at found
      obtain ⟨holds, _, before⟩ := found
      refine ⟨holds, ?_⟩
      intro i other
      by_contra earlier
      have none_here := before i (Nat.lt_of_not_le earlier)
      rw [show P i = true from other] at none_here
      cases none_here

/-- Whether one of the terms occurs at an offset. -/
def TermAt (terms : List (List Char)) (text : List Char) (i : Nat) : Prop :=
  ∃ term ∈ terms, term ≠ [] ∧ occursAt text term i = true

theorem occursAt_le {text term : List Char} {i : Nat} (occurs : occursAt text term i = true) :
    i + byteLength term ≤ byteLength text := by
  obtain ⟨front, piece, back, rfl, rfl, same⟩ := (occursAt_iff text term i).mp occurs
  rw [← byteLength_eq_of_sameAsciiCaseless same]
  simp only [byteLength_append]
  omega

theorem earliestMatch_spec (body : List Char) (terms : List (List Char)) {earliest : Option Nat}
    {P : Nat → Prop} (isEarliest : Earliest P earliest) :
    ∃ found, earliestMatch body terms earliest = .ok found ∧
      Earliest (fun i => P i ∨ TermAt terms body i) found := by
  induction terms generalizing earliest P with
  | nil => exact ⟨earliest, rfl, by simpa [TermAt] using isEarliest⟩
  | cons term terms inductionHypothesis =>
      rw [earliestMatch]
      split
      next skipped =>
        obtain ⟨found, result, isFound⟩ := inductionHypothesis isEarliest
        refine ⟨found, result, ?_⟩
        have absent : ∀ i, ¬ (term ≠ [] ∧ occursAt body term i = true) := by
          rintro i ⟨nonempty, occurs⟩
          have positive := byteLength_pos nonempty
          have inside := occursAt_le occurs
          omega
        simpa [TermAt, absent] using isFound
      next searched =>
        have nonempty : term ≠ [] := by
          rintro rfl
          exact searched (.inl byteLength_nil)
        have inside : ∀ i, occursAt body term i = true →
            i < byteLength body - byteLength term + 1 := by
          intro i occurs
          have fits := occursAt_le occurs
          omega
        have first := earliest_find? inside
        simp only [scanFor_eq]
        cases scanned : (List.range (byteLength body - byteLength term + 1)).find?
            (occursAt body term) with
        | none =>
            rw [scanned] at first
            obtain ⟨found, result, isFound⟩ := inductionHypothesis (isEarliest.or_never first)
            exact ⟨found, result, by simpa [TermAt, nonempty, or_assoc] using isFound⟩
        | some i =>
            rw [scanned] at first
            obtain ⟨found, result, isFound⟩ := inductionHypothesis (isEarliest.or first)
            exact ⟨found, result, by simpa [TermAt, nonempty, or_assoc] using isFound⟩

theorem findFirstMatch_spec (body : List Char) (terms : List (List Char)) :
    ∃ found, findFirstMatch body terms = .ok found ∧ Earliest (TermAt terms body) found := by
  have nowhere : Earliest (fun _ => False) none := fun _ => not_false
  simpa [findFirstMatch] using earliestMatch_spec body terms nowhere

end Matches

section Windows

variable {body : List Char} {maxChars : Nat}

/-- A window on character boundaries, little wider than asked for. -/
structure IsWindow (body : List Char) (maxChars : Nat) (window : Nat × Nat) : Prop where
  start : isCharBoundary body window.1 = true
  stop : isCharBoundary body window.2 = true
  ordered : window.1 ≤ window.2
  bounded : window.2 - window.1 ≤ maxChars + 6

theorem windowAround_spec (maxChars : Nat) {pos : Nat} (inside : pos ≤ byteLength body) :
    IsWindow body maxChars (windowAround body pos maxChars) ∧
      (windowAround body pos maxChars).1 ≤ pos ∧
      min (pos + maxChars / 2) (byteLength body) ≤ (windowAround body pos maxChars).2 := by
  have left : min (pos + maxChars / 2) (byteLength body) +
      (byteLength body - min (pos + maxChars / 2) (byteLength body)) = byteLength body :=
    Nat.add_sub_cancel' (Nat.min_le_right _ _)
  obtain ⟨isStart, startBelow, _⟩ := boundaryDown_spec body (pos - maxChars / 2)
  obtain ⟨isStop, stopAbove, _⟩ := boundaryUp_spec left
  have startInside : pos - maxChars / 2 ≤ byteLength body := by omega
  have startNear := boundaryDown_near startInside
  have stopNear := boundaryUp_near left
  have before : (windowAround body pos maxChars).1 ≤ pos := Nat.le_trans startBelow (by omega)
  refine ⟨⟨isStart, isStop, ?_, ?_⟩, before, stopAbove⟩
  · simp only [windowAround]
    omega
  · simp only [windowAround]
    omega

theorem leadingWindow_spec (body : List Char) (maxChars : Nat) :
    IsWindow body maxChars (leadingWindow body maxChars) ∧
      (leadingWindow body maxChars).1 = 0 := by
  have left : min maxChars (byteLength body) + (byteLength body - min maxChars (byteLength body)) =
      byteLength body := Nat.add_sub_cancel' (Nat.min_le_right _ _)
  obtain ⟨isStop, _, _⟩ := boundaryUp_spec left
  have stopNear := boundaryUp_near left
  refine ⟨⟨isCharBoundary_byteLength [] body, isStop, Nat.zero_le _, ?_⟩, rfl⟩
  simp only [leadingWindow]
  omega

/-- The next character boundary is after the next character. -/
theorem nextCharBoundary_eq (front : List Char) (c : Char) (rest : List Char) :
    nextCharBoundary (front ++ c :: rest) (byteLength front) =
      byteLength front + byteLength [c] := by
  have positive := c.utf8Size_pos
  have total : byteLength (front ++ c :: rest) =
      byteLength front + (c.utf8Size + byteLength rest) := byteLength_append front (c :: rest)
  have left : byteLength front + 1 +
      (byteLength (front ++ c :: rest) - (byteLength front + 1)) =
        byteLength (front ++ c :: rest) := by omega
  obtain ⟨isBoundary, above, least⟩ := boundaryUp_spec left
  have after : isCharBoundary (front ++ c :: rest) (byteLength front + byteLength [c]) = true := by
    have boundary := isCharBoundary_byteLength (front ++ [c]) rest
    rwa [byteLength_append, List.append_assoc, List.singleton_append] at boundary
  have upper := least _ after (Nat.add_le_add_left positive _)
  obtain ⟨longer, back, split, offset⟩ := (isCharBoundary_iff _ _).mp isBoundary
  obtain ⟨middle, rfl, others⟩ := append_le_of_byteLength split (by omega)
  cases middle with
  | nil =>
      rw [List.append_nil] at offset
      omega
  | cons d middle =>
      rw [List.cons_append, List.cons.injEq] at others
      obtain ⟨rfl, _⟩ := others
      rw [byteLength_append, byteLength] at offset
      rw [nextCharBoundary, byteLength, byteLength, total] at *
      omega

end Windows

section Scanning

variable {terms : List (List Char)}

/-- How a text is divided: from the left, the first term that matches, else one character. -/
inductive Scanned (terms : List (List Char)) : List Char → List Span → Prop where
  | nil : Scanned terms [] []
  | bold {term piece rest : List Char} {spans : List Span}
      (first : firstTerm terms (piece ++ rest) = some term)
      (same : sameAsciiCaseless piece term = true) (later : Scanned terms rest spans) :
      Scanned terms (piece ++ rest) (.bold piece :: spans)
  | plain {c : Char} {rest : List Char} {spans : List Span}
      (unmatched : firstTerm terms (c :: rest) = none) (later : Scanned terms rest spans) :
      Scanned terms (c :: rest) (.plain [c] :: spans)

theorem firstTerm_starts {text term : List Char} (first : firstTerm terms text = some term) :
    startsWithTerm term text = true :=
  List.find?_some (p := fun term => startsWithTerm term text) first

theorem firstTerm_ne_nil {text term : List Char} (first : firstTerm terms text = some term) :
    term ≠ [] := ((startsWithTerm_iff term text).mp (firstTerm_starts first)).1

/-- The first term ends within the text. -/
theorem firstTerm_piece {text term : List Char} (first : firstTerm terms text = some term) :
    ∃ piece rest, text = piece ++ rest ∧ piece ≠ [] ∧ sameAsciiCaseless piece term = true := by
  obtain ⟨nonempty, piece, rest, rfl, same⟩ :=
    (startsWithTerm_iff term text).mp (firstTerm_starts first)
  refine ⟨piece, rest, rfl, ?_, same⟩
  rintro rfl
  have lengths := length_eq_of_sameAsciiCaseless same
  exact nonempty (List.length_eq_zero_iff.mp lengths.symm)

/-- The loop divides the rest of the text, and as many rounds as it has bytes are enough. -/
theorem highlightLoop_spec (terms : List (List Char)) {rounds : Nat} (front rest : List Char)
    (out : List Span) (enough : byteLength rest ≤ rounds) :
    ∃ spans, Scanned terms rest spans ∧
      highlightLoop (front ++ rest) terms rounds out (byteLength front) = .ok (out ++ spans) := by
  induction rounds generalizing front rest out with
  | zero =>
      cases rest with
      | nil =>
          refine ⟨[], .nil, ?_⟩
          rw [highlightLoop, List.append_nil, if_neg (Nat.lt_irrefl _), List.append_nil]
      | cons c rest =>
          have positive := byteLength_pos (List.cons_ne_nil c rest)
          omega
  | succ rounds inductionHypothesis =>
      rw [highlightLoop]
      split
      next inside =>
        rw [matchedTerm_eq]
        cases first : firstTerm terms rest with
        | some term =>
            obtain ⟨piece, later, rfl, nonempty, same⟩ := firstTerm_piece first
            have positive := byteLength_pos nonempty
            rw [byteLength_append] at enough
            obtain ⟨spans, scanned, result⟩ := inductionHypothesis (front ++ piece) later
              (out ++ [.bold piece]) (by omega)
            rw [byteLength_append, List.append_assoc, List.append_assoc,
              List.singleton_append] at result
            refine ⟨.bold piece :: spans, .bold first same scanned, ?_⟩
            simp only [Option.map_some, ← byteLength_eq_of_sameAsciiCaseless same, slice_append]
            exact result
        | none =>
            cases rest with
            | nil =>
                rw [List.append_nil] at inside
                exact absurd inside (Nat.lt_irrefl _)
            | cons c later =>
                have positive := c.utf8Size_pos
                rw [byteLength] at enough
                obtain ⟨spans, scanned, result⟩ := inductionHypothesis (front ++ [c]) later
                  (out ++ [.plain [c]]) (by omega)
                rw [byteLength_append, List.append_assoc, List.append_assoc,
                  List.singleton_append, List.singleton_append] at result
                refine ⟨.plain [c] :: spans, .plain first scanned, ?_⟩
                have sliced := slice_append front [c] later
                rw [List.singleton_append] at sliced
                simp only [Option.map_none, nextCharBoundary_eq, sliced]
                exact result
      next ended =>
        have none_left : rest = [] := by
          by_contra nonempty
          have positive := byteLength_pos nonempty
          rw [byteLength_append] at ended
          omega
        subst none_left
        exact ⟨[], .nil, by rw [List.append_nil]⟩

end Scanning

section Rendering

variable {body : List Char} {terms : List (List Char)} {maxChars : Nat}

/-- What a push copies of the body. -/
def Span.copied : Span → List Char
  | .ellipsis => []
  | .plain text => text
  | .bold text => text

def copied (spans : List Span) : List Char := spans.flatMap Span.copied

@[simp] theorem copied_cons (span : Span) (spans : List Span) :
    copied (span :: spans) = span.copied ++ copied spans := List.flatMap_cons

@[simp] theorem copied_append (first second : List Span) :
    copied (first ++ second) = copied first ++ copied second := List.flatMap_append

theorem Scanned.copied {text : List Char} {spans : List Span} (scanned : Scanned terms text spans) :
    copied spans = text := by
  induction scanned with
  | nil => rfl
  | bold _ _ _ inductionHypothesis => rw [copied_cons, Span.copied, inductionHypothesis]
  | plain _ _ inductionHypothesis =>
      rw [copied_cons, Span.copied, inductionHypothesis, List.singleton_append]

theorem Scanned.ellipsis_notMem {text : List Char} {spans : List Span}
    (scanned : Scanned terms text spans) : .ellipsis ∉ spans := by
  induction scanned with
  | nil => exact List.not_mem_nil
  | bold _ _ _ inductionHypothesis => simpa using inductionHypothesis
  | plain _ _ inductionHypothesis => simpa using inductionHypothesis

/-- The pushes between the ellipses: without terms the text is copied as a whole. -/
inductive Divided (terms : List (List Char)) (raw : List Char) : List Span → Prop where
  | whole (unasked : terms = []) : Divided terms raw [.plain raw]
  | scanned {spans : List Span} (asked : terms ≠ []) (division : Scanned terms raw spans) :
      Divided terms raw spans

/-- A snippet of a window. -/
structure Snippet (body : List Char) (terms : List (List Char)) (window : Nat × Nat)
    (snippet : List Span) (front raw back : List Char) (spans : List Span) : Prop where
  split : body = front ++ (raw ++ back)
  start : byteLength front = window.1
  stop : byteLength front + byteLength raw = window.2
  divided : Divided terms raw spans
  layout : snippet = (if 0 < window.1 then [.ellipsis] else []) ++ spans ++
    (if window.2 < byteLength body then [.ellipsis] else [])

theorem renderWindow_spec (terms : List (List Char)) {window : Nat × Nat}
    (isWindow : IsWindow body maxChars window) :
    ∃ snippet front raw back spans,
      renderWindow body terms window.1 window.2 = .ok snippet ∧
        Snippet body terms window snippet front raw back spans := by
  obtain ⟨front, raw, back, split, start, stop⟩ :=
    slice?_isSome isWindow.ordered isWindow.start isWindow.stop
  have sliced : slice body window.1 window.2 = .ok raw := by
    have inside := slice_append front raw back
    rwa [← split, start, ← start, stop, start] at inside
  by_cases none_given : terms = []
  · refine ⟨_, front, raw, back, [.plain raw], ?_, split, start, stop, .whole none_given, rfl⟩
    simp only [renderWindow, sliced, none_given, List.isEmpty_nil, if_true]
    split <;> simp
  · obtain ⟨spans, scanned, result⟩ := highlightLoop_spec terms [] raw
      (if 0 < window.1 then [.ellipsis] else []) (Nat.le_refl _)
    refine ⟨_, front, raw, back, spans, ?_, split, start, stop,
      .scanned none_given scanned, rfl⟩
    have some_given : terms.isEmpty = false := List.isEmpty_eq_false_iff.mpr none_given
    simp only [renderWindow, sliced, some_given, Bool.false_eq_true, if_false, pushHighlighted]
    rw [List.nil_append, byteLength_nil] at result
    simp only [result]
    split <;> simp

/-- The terms of a query. -/
def queryTerms (q : String) : List (List Char) := splitWhitespace q.toList

theorem ne_nil_of_mem_queryTerms {q : String} {term : List Char} (member : term ∈ queryTerms q) :
    term ≠ [] := ne_nil_of_mem_wordsFrom member

/-- The filter of `render` has nothing to remove. -/
theorem filter_queryTerms (q : String) :
    ((splitWhitespace q.toList).filter fun term => !term.isEmpty) = queryTerms q := by
  apply List.filter_eq_self.mpr
  intro term member
  simpa using ne_nil_of_mem_queryTerms member

/-- The window that `render` takes for the first match. -/
def windowFor (body : List Char) (maxChars : Nat) : Option Nat → Nat × Nat
  | some pos => windowAround body pos maxChars
  | none => leadingWindow body maxChars

theorem windowFor_spec (maxChars : Nat) {found : Option Nat}
    (isFound : Earliest (TermAt terms body) found) :
    IsWindow body maxChars (windowFor body maxChars found) := by
  cases found with
  | none => exact (leadingWindow_spec body maxChars).1
  | some pos =>
      obtain ⟨⟨term, _, _, occurs⟩, _⟩ := isFound
      have inside := occursAt_le occurs
      exact (windowAround_spec maxChars (by omega)).1

/-- A snippet is always rendered: no slice is off a character boundary, and the loop ends. -/
theorem render_spec (bodyMd q : String) (maxChars : Nat) :
    ∃ found snippet front raw back spans,
      Earliest (TermAt (queryTerms q) bodyMd.toList) found ∧
      render bodyMd q maxChars = .ok snippet ∧
      IsWindow bodyMd.toList maxChars (windowFor bodyMd.toList maxChars found) ∧
      Snippet bodyMd.toList (queryTerms q) (windowFor bodyMd.toList maxChars found) snippet front
        raw back spans := by
  have search : ∃ found, (if (queryTerms q).isEmpty then .ok none
      else findFirstMatch bodyMd.toList (queryTerms q)) = .ok found ∧
      Earliest (TermAt (queryTerms q) bodyMd.toList) found := by
    by_cases none_given : queryTerms q = []
    · rw [none_given]
      exact ⟨none, rfl, fun i => by simp [TermAt]⟩
    · rw [if_neg (mt List.isEmpty_iff.mp none_given)]
      exact findFirstMatch_spec _ _
  obtain ⟨found, searched, isFound⟩ := search
  have isWindow := windowFor_spec maxChars isFound
  obtain ⟨snippet, front, raw, back, spans, result, isSnippet⟩ :=
    renderWindow_spec (queryTerms q) isWindow
  refine ⟨found, snippet, front, raw, back, spans, isFound, ?_, isWindow, isSnippet⟩
  simp only [render, filter_queryTerms, searched]
  cases found with
  | none => exact result
  | some pos => exact result

end Rendering

end Bytes

end Scryd.Search
