import Scryd.Search.Render

/-!
# Both models of a snippet

The scan by characters gives the text that the source pushes by byte offsets.
-/

namespace Scryd.Search

open Scryd.Foundation

namespace Bytes

variable {terms : List (List Char)}

/-- A piece is copied before its closing mark. -/
theorem highlighted_pending {piece : List Char} (nonempty : piece ≠ []) (rest : List Char) :
    highlighted terms piece.length (piece ++ rest) =
      piece ++ '*' :: '*' :: highlighted terms 0 rest := by
  induction piece with
  | nil => exact absurd rfl nonempty
  | cons c piece inductionHypothesis =>
      rw [List.length_cons, List.cons_append, highlighted]
      cases piece with
      | nil => rfl
      | cons d piece =>
          rw [if_neg (List.length_pos_of_ne_nil (List.cons_ne_nil d piece)).ne',
            inductionHypothesis (List.cons_ne_nil d piece)]
          rfl

/-- The pushes are the characters of the scan by characters. -/
theorem Scanned.highlighted {text : List Char} {spans : List Span}
    (scanned : Scanned terms text spans) :
    highlighted terms 0 text = spans.flatMap Span.text := by
  induction scanned with
  | nil => rfl
  | @bold term piece rest spans first same _ inductionHypothesis =>
      have lengths := length_eq_of_sameAsciiCaseless same
      cases piece with
      | nil => exact absurd (List.length_eq_zero_iff.mp lengths.symm) (firstTerm_ne_nil first)
      | cons c piece =>
          rw [List.length_cons] at lengths
          rw [firstTerm, List.cons_append] at first
          rw [List.cons_append, Search.highlighted, first]
          simp only [List.flatMap_cons, Span.text, ← inductionHypothesis, ← lengths,
            Nat.add_sub_cancel, Nat.add_eq_right, List.length_eq_zero_iff]
          by_cases single : piece = []
          · simp [single]
          · rw [if_neg single, highlighted_pending single]
            simp
  | @plain c rest spans unmatched _ inductionHypothesis =>
      rw [firstTerm] at unmatched
      rw [Search.highlighted, unmatched, List.flatMap_cons, Span.text, ← inductionHypothesis,
        List.singleton_append]

theorem cutDown_append {bytes : Nat} (front back : List Char) (fits : byteLength front ≤ bytes)
    (next : ∀ c rest, back = c :: rest → bytes < byteLength front + c.utf8Size) :
    cutDown bytes (front ++ back) = front.length := by
  induction front generalizing bytes with
  | nil =>
      cases back with
      | nil => rfl
      | cons c rest =>
          have beyond := next c rest rfl
          rw [byteLength_nil, Nat.zero_add] at beyond
          exact if_neg (Nat.not_le.mpr beyond)
  | cons c front inductionHypothesis =>
      rw [byteLength] at fits
      rw [List.cons_append, cutDown, if_pos (by omega), List.length_cons,
        inductionHypothesis (by omega)]
      intro d rest split
      have beyond := next d rest split
      rw [byteLength] at beyond
      omega

theorem cutUp_append {bytes : Nat} (front back : List Char) (reaches : bytes ≤ byteLength front)
    (last : ∀ start c rest, front = start ++ c :: rest → byteLength start < bytes) :
    cutUp bytes (front ++ back) = front.length := by
  induction front generalizing bytes with
  | nil =>
      rw [byteLength_nil, Nat.le_zero] at reaches
      cases back with
      | nil => rfl
      | cons c rest => exact if_pos reaches
  | cons c front inductionHypothesis =>
      have positive := last [] c front rfl
      rw [byteLength_nil] at positive
      rw [byteLength] at reaches
      rw [List.cons_append, cutUp, if_neg (by omega), List.length_cons,
        inductionHypothesis (by omega)]
      intro start d rest split
      have before := last (c :: start) d rest (by rw [split, List.cons_append])
      rw [byteLength] at before
      omega

/-- Both scans move a left edge to the same place, -/
theorem cutDown_eq {front back : List Char} {bytes : Nat}
    (moved : byteLength front = boundaryDown (front ++ back) bytes) :
    cutDown bytes (front ++ back) = front.length := by
  obtain ⟨_, below, greatest⟩ := boundaryDown_spec (front ++ back) bytes
  apply cutDown_append front back (by omega)
  rintro c rest rfl
  have next := isCharBoundary_byteLength (front ++ [c]) rest
  rw [List.append_assoc, List.singleton_append, byteLength_append] at next
  by_contra fits
  have bound := greatest _ next (by rw [byteLength, byteLength]; omega)
  have positive := c.utf8Size_pos
  rw [byteLength] at bound
  omega

/-- and a right edge. -/
theorem cutUp_eq {front back : List Char} {bytes left : Nat}
    (inside : bytes + left = byteLength (front ++ back))
    (moved : byteLength front = boundaryUp (front ++ back) bytes left) :
    cutUp bytes (front ++ back) = front.length := by
  obtain ⟨_, above, least⟩ := boundaryUp_spec inside
  apply cutUp_append front back (by omega)
  rintro start c rest rfl
  have boundary := isCharBoundary_byteLength start (c :: rest ++ back)
  rw [← List.append_assoc] at boundary
  by_contra reaches
  have bound := least _ boundary (by omega)
  have positive := byteLength_pos (List.cons_ne_nil c rest)
  rw [byteLength_append] at moved
  omega

theorem findTerm_spec (term body : List Char) :
    Earliest (fun n => ∃ front rest, body = front ++ rest ∧ front.length = n ∧
      startsWithTerm term rest = true) (findTerm term body) := by
  induction body with
  | nil =>
      rintro n ⟨front, rest, split, _, starts⟩
      obtain ⟨nonempty, piece, back, others, same⟩ := (startsWithTerm_iff term rest).mp starts
      have none_left : rest = [] := (List.append_eq_nil_iff.mp split.symm).2
      rw [none_left] at others
      have none_taken : piece = [] := (List.append_eq_nil_iff.mp others.symm).1
      subst none_taken
      exact nonempty (List.length_eq_zero_iff.mp (length_eq_of_sameAsciiCaseless same).symm)
  | cons c body inductionHypothesis =>
      rw [findTerm]
      split
      next starts => exact ⟨⟨[], c :: body, rfl, rfl, starts⟩, fun _ _ => Nat.zero_le _⟩
      next notHere =>
        cases found : findTerm term body with
        | none =>
            rw [found] at inductionHypothesis
            rintro n ⟨front, rest, split, sameLength, starts⟩
            cases front with
            | nil =>
                rw [List.nil_append] at split
                exact notHere (split ▸ starts)
            | cons d front =>
                exact inductionHypothesis _
                  ⟨front, rest, (List.cons.inj split).2, rfl, starts⟩
        | some n =>
            rw [found] at inductionHypothesis
            obtain ⟨⟨front, rest, rfl, rfl, starts⟩, least⟩ := inductionHypothesis
            refine ⟨⟨c :: front, rest, rfl, rfl, starts⟩, ?_⟩
            rintro m ⟨otherFront, otherRest, split, rfl, otherStarts⟩
            cases otherFront with
            | nil =>
                rw [List.nil_append] at split
                exact absurd (split ▸ otherStarts) notHere
            | cons d otherFront =>
                exact Nat.succ_le_succ (least
                  ⟨otherFront, otherRest, (List.cons.inj split).2, rfl, otherStarts⟩)

theorem findFirstMatch_chars (body : List Char) (terms : List (List Char)) :
    Earliest (fun n => ∃ term ∈ terms, ∃ front rest, body = front ++ rest ∧ front.length = n ∧
      startsWithTerm term rest = true) (Search.findFirstMatch body terms) := by
  cases found : Search.findFirstMatch body terms with
  | none =>
      rw [Search.findFirstMatch, List.min?_eq_none_iff, List.filterMap_eq_nil_iff] at found
      rintro n ⟨term, member, occurs⟩
      have search := findTerm_spec term body
      rw [found term member] at search
      exact search n occurs
  | some n =>
      rw [Search.findFirstMatch, List.min?_eq_some_iff] at found
      obtain ⟨member, least⟩ := found
      obtain ⟨term, isTerm, found⟩ := List.mem_filterMap.mp member
      have search := findTerm_spec term body
      rw [found] at search
      refine ⟨⟨term, isTerm, search.1⟩, ?_⟩
      rintro m ⟨other, isOther, occurs⟩
      have otherSearch := findTerm_spec other body
      cases otherFound : findTerm other body with
      | none =>
          rw [otherFound] at otherSearch
          exact absurd occurs (otherSearch m)
      | some k =>
          rw [otherFound] at otherSearch
          exact Nat.le_trans (least k (List.mem_filterMap.mpr ⟨other, isOther, otherFound⟩))
            (otherSearch.2 occurs)

/-- Where a term occurs, the rest of the text starts with it. -/
theorem termAt_iff (text : List Char) (i : Nat) :
    TermAt terms text i ↔ ∃ term ∈ terms, ∃ front rest, text = front ++ rest ∧
      byteLength front = i ∧ startsWithTerm term rest = true := by
  constructor
  · rintro ⟨term, member, nonempty, occurs⟩
    obtain ⟨front, piece, back, rfl, rfl, same⟩ := (occursAt_iff text term i).mp occurs
    exact ⟨term, member, front, piece ++ back, rfl, rfl,
      (startsWithTerm_iff term _).mpr ⟨nonempty, piece, back, rfl, same⟩⟩
  · rintro ⟨term, member, front, rest, rfl, rfl, starts⟩
    have nonempty := ((startsWithTerm_iff term rest).mp starts).1
    exact ⟨term, member, nonempty, by rwa [occursAt_append nonempty]⟩

/-- Counted in characters the first match is the same one. -/
theorem findFirstMatch_refines {body : List Char} {found : Option Nat}
    (isFound : Earliest (TermAt terms body) found) :
    found = (Search.findFirstMatch body terms).map fun n => byteLength (body.take n) := by
  have search := findFirstMatch_chars body terms
  cases inChars : Search.findFirstMatch body terms with
  | none =>
      rw [inChars] at search
      cases found with
      | none => rfl
      | some pos =>
          obtain ⟨term, member, front, rest, split, _, starts⟩ :=
            (termAt_iff body pos).mp isFound.1
          exact absurd ⟨term, member, front, rest, split, rfl, starts⟩ (search front.length)
  | some n =>
      rw [inChars] at search
      obtain ⟨⟨term, member, front, rest, rfl, rfl, starts⟩, least⟩ := search
      rw [Option.map_some, List.take_left]
      apply isFound.unique
      refine ⟨(termAt_iff _ _).mpr ⟨term, member, front, rest, rfl, rfl, starts⟩, ?_⟩
      intro i occurs
      obtain ⟨other, isOther, otherFront, otherRest, split, rfl, otherStarts⟩ :=
        (termAt_iff _ i).mp occurs
      have notEarlier := least ⟨other, isOther, otherFront, otherRest, split, rfl, otherStarts⟩
      by_contra earlier
      obtain ⟨middle, rfl, _⟩ :=
        append_le_of_byteLength split.symm (Nat.le_of_lt (Nat.lt_of_not_le earlier))
      rw [List.length_append] at notEarlier
      have none_between : middle = [] := List.length_eq_zero_iff.mp (by omega)
      subst none_between
      simp at earlier

theorem highlighted_unasked (text : List Char) : highlighted [] 0 text = text := by
  induction text with
  | nil => rfl
  | cons c rest inductionHypothesis => simp [Search.highlighted, inductionHypothesis]

theorem Divided.highlighted {raw : List Char} {spans : List Span}
    (divided : Divided terms raw spans) :
    highlighted terms 0 raw = spans.flatMap Span.text := by
  cases divided with
  | whole unasked => rw [unasked, highlighted_unasked, List.flatMap_singleton, Span.text]
  | scanned _ scanned => exact scanned.highlighted

/-- The window of the scan by characters. -/
theorem window_refines {front raw back : List Char} {maxChars : Nat} {found : Option Nat}
    (isFound : Earliest (TermAt terms (front ++ (raw ++ back))) found)
    (start : byteLength front = (windowFor (front ++ (raw ++ back)) maxChars found).1)
    (stop : byteLength front + byteLength raw =
      (windowFor (front ++ (raw ++ back)) maxChars found).2) :
    (Search.findFirstMatch (front ++ (raw ++ back)) terms).elim
      (Search.leadingWindow (front ++ (raw ++ back)) maxChars)
      (fun position => Search.windowAround (front ++ (raw ++ back)) position maxChars) =
        (front.length, (front ++ raw).length) := by
  have inChars := findFirstMatch_refines isFound
  rw [← byteLength_append] at stop
  cases position : Search.findFirstMatch (front ++ (raw ++ back)) terms with
  | none =>
      rw [position, Option.map_none] at inChars
      subst inChars
      have empty : front = [] := by
        by_contra nonempty
        have positive := byteLength_pos nonempty
        rw [windowFor, leadingWindow] at start
        omega
      subst empty
      simp only [windowFor, leadingWindow] at stop
      rw [← List.append_assoc] at stop
      have right := cutUp_eq (Nat.add_sub_cancel' (Nat.min_le_right maxChars _)) stop
      simp only [Option.elim_none, Search.leadingWindow, ← List.append_assoc, right,
        List.length_nil]
  | some n =>
      rw [position, Option.map_some] at inChars
      subst inChars
      simp only [windowFor, windowAround] at start stop
      have left := cutDown_eq start
      rw [← List.append_assoc] at stop
      have right := cutUp_eq (Nat.add_sub_cancel' (Nat.min_le_right _ _)) stop
      rw [List.append_assoc] at right
      simp only [Option.elim_some, Search.windowAround, left, right]

/-- The snippet of the scan by characters is what is pushed here. -/
theorem render_refines (bodyMd q : String) (maxChars : Nat) :
    ∃ snippet, render bodyMd q maxChars = .ok snippet ∧
      renderSnippet bodyMd q maxChars = String.ofList (snippet.flatMap Span.text) := by
  obtain ⟨found, snippet, front, raw, back, spans, isFound, result, _, isSnippet⟩ :=
    render_spec bodyMd q maxChars
  obtain ⟨split, start, stop, divided, layout⟩ := isSnippet
  refine ⟨snippet, result, ?_⟩
  rw [split] at isFound start stop layout
  have window := window_refines isFound start stop
  have leading : 0 < front.length ↔
      0 < (windowFor (front ++ (raw ++ back)) maxChars found).1 := by
    rw [← start]
    cases front with
    | nil => simp
    | cons c rest => simp [byteLength_pos (List.cons_ne_nil c rest)]
  have trailing : (front ++ raw).length < (front ++ (raw ++ back)).length ↔
      (windowFor (front ++ (raw ++ back)) maxChars found).2 <
        byteLength (front ++ (raw ++ back)) := by
    rw [← stop]
    cases back with
    | nil => simp
    | cons c rest =>
        have positive := byteLength_pos (List.cons_ne_nil c rest)
        simp only [List.length_append, byteLength_append, List.length_cons]
        omega
  have content : ((front ++ (raw ++ back)).take (front ++ raw).length).drop front.length = raw := by
    rw [← List.append_assoc, List.take_left, List.drop_left]
  rw [queryTerms] at window divided
  have edge : ∀ cut : Prop, ∀ _ : Decidable cut,
      (if cut then [Search.ellipsis] else []) =
        (if cut then [Span.ellipsis] else []).flatMap Span.text := by
    intro cut _
    split <;> rfl
  cases position : Search.findFirstMatch (front ++ (raw ++ back)) (splitWhitespace q.toList) with
  | none =>
      rw [position, Option.elim_none] at window
      simp only [renderSnippet, split, position, window, content, leading, trailing,
        divided.highlighted, layout, List.flatMap_append, edge]
  | some n =>
      rw [position, Option.elim_some] at window
      simp only [renderSnippet, split, position, window, content, leading, trailing,
        divided.highlighted, layout, List.flatMap_append, edge]

end Bytes

end Scryd.Search
