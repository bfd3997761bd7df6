import Scryd.Search.Render

/-!
# What a snippet shows

A snippet copies a window of the body, and the text between its marks are
occurrences of the terms.  Which occurrences it leaves unmarked depends on how
the window divides, from the left, into first matches and single characters.
-/

namespace Scryd.Search

open Scryd.Foundation

namespace Bytes

section Faithful

variable {terms : List (List Char)}

/-- Whether a push is set in bold. -/
def Span.isBold : Span → Bool
  | .bold _ => true
  | _ => false

/-- Whether a byte of the text that a snippet copies is bold. -/
def boldAt : List Span → Nat → Bool
  | [], _ => false
  | span :: spans, i =>
      if i < byteLength span.copied then span.isBold
      else boldAt spans (i - byteLength span.copied)

theorem boldAt_add (span : Span) (spans : List Span) (i : Nat) :
    boldAt (span :: spans) (byteLength span.copied + i) = boldAt spans i := by
  rw [boldAt, if_neg (by omega), Nat.add_sub_cancel_left]

theorem boldAt_bold {text : List Char} {i : Nat} (inside : i < byteLength text)
    (spans : List Span) : boldAt (.bold text :: spans) i = true := if_pos inside

theorem boldAt_trailing (spans : List Span) (i : Nat) :
    boldAt (spans ++ [.ellipsis]) i = boldAt spans i := by
  induction spans generalizing i with
  | nil => exact if_neg (Nat.not_lt_zero i)
  | cons span spans inductionHypothesis =>
      rw [List.cons_append, boldAt, boldAt, inductionHypothesis]

/-- The ellipses do not shift the text. -/
theorem Snippet.boldAt {body front raw back : List Char} {window : Nat × Nat}
    {snippet spans : List Span} (isSnippet : Snippet body terms window snippet front raw back spans)
    (i : Nat) : boldAt snippet i = boldAt spans i := by
  have leading : ∀ spans, Bytes.boldAt ((if 0 < window.1 then [.ellipsis] else []) ++ spans) i =
      Bytes.boldAt spans i := by
    intro spans
    split
    next => exact if_neg (Nat.not_lt_zero i)
    next => rfl
  rw [isSnippet.layout, List.append_assoc, leading]
  split
  next => exact boldAt_trailing spans i
  next => rw [List.append_nil]

/-- An edge copies nothing. -/
theorem copied_edge (cut : Prop) [Decidable cut] :
    copied (if cut then [Span.ellipsis] else []) = [] := by
  split <;> rfl

theorem eq_ellipsis_of_mem_edge {cut : Prop} [Decidable cut] {span : Span}
    (member : span ∈ if cut then [Span.ellipsis] else []) : span = .ellipsis := by
  split at member
  next => exact List.mem_singleton.mp member
  next => cases member

theorem Snippet.copied {body front raw back : List Char} {window : Nat × Nat}
    {snippet spans : List Span}
    (isSnippet : Snippet body terms window snippet front raw back spans) :
    copied snippet = raw := by
  rw [isSnippet.layout, copied_append, copied_append, copied_edge, copied_edge, List.nil_append,
    List.append_nil]
  cases isSnippet.divided with
  | whole => exact List.append_nil raw
  | scanned _ scanned => exact scanned.copied

theorem occursAt_shift (front rest term : List Char) (i : Nat) :
    occursAt (front ++ rest) term (byteLength front + i) = occursAt rest term i := by
  rw [Bool.eq_iff_iff, occursAt_iff, occursAt_iff]
  constructor
  · rintro ⟨longer, piece, back, split, offset, same⟩
    obtain ⟨middle, rfl, rfl⟩ := append_le_of_byteLength split (by omega)
    rw [byteLength_append] at offset
    exact ⟨middle, piece, back, rfl, by omega, same⟩
  · rintro ⟨middle, piece, back, rfl, rfl, same⟩
    exact ⟨front ++ middle, piece, back, by rw [List.append_assoc], byteLength_append _ _, same⟩

theorem termAt_shift (front rest : List Char) (i : Nat) :
    TermAt terms (front ++ rest) (byteLength front + i) ↔ TermAt terms rest i := by
  simp only [TermAt, occursAt_shift]

/-- No term occurs inside of a character. -/
theorem byteLength_le_of_termAt {c : Char} {rest : List Char} {i : Nat}
    (occurs : TermAt terms (c :: rest) i) (later : 0 < i) : byteLength [c] ≤ i := by
  obtain ⟨term, _, _, occurs⟩ := occurs
  obtain ⟨front, piece, back, split, rfl, _⟩ := (occursAt_iff _ _ _).mp occurs
  cases front with
  | nil => cases later
  | cons d front =>
      obtain ⟨rfl, _⟩ := List.cons.inj split
      exact Nat.add_le_add_left (Nat.zero_le _) _

/-- A term occurs at the beginning where there is a first one. -/
theorem termAt_zero_iff (text : List Char) : TermAt terms text 0 ↔ firstTerm terms text ≠ none := by
  rw [ne_eq, firstTerm, List.find?_eq_none]
  simp only [TermAt, not_forall, not_not]
  constructor
  · rintro ⟨term, member, nonempty, occurs⟩
    exact ⟨term, member, by rwa [← occursAt_append nonempty [] text]⟩
  · rintro ⟨term, member, starts⟩
    have nonempty := ((startsWithTerm_iff term text).mp starts).1
    exact ⟨term, member, nonempty, (occursAt_append nonempty [] text).trans starts⟩

theorem not_termAt_nil (i : Nat) : ¬ TermAt terms [] i := by
  rintro ⟨term, _, nonempty, occurs⟩
  have inside := occursAt_le occurs
  have positive := byteLength_pos nonempty
  rw [byteLength_nil] at inside
  omega

/-- Where a term begins the text is bold. -/
theorem Scanned.boldAt_of_termAt {text : List Char} {spans : List Span}
    (scanned : Scanned terms text spans) {i : Nat} (occurs : TermAt terms text i) :
    boldAt spans i = true := by
  induction scanned generalizing i with
  | nil => exact absurd occurs (not_termAt_nil i)
  | @bold term piece rest spans _ _ _ inductionHypothesis =>
      by_cases inside : i < byteLength piece
      · exact boldAt_bold inside spans
      · obtain ⟨offset, rfl⟩ := Nat.exists_eq_add_of_le (Nat.le_of_not_lt inside)
        exact (boldAt_add (.bold piece) spans offset).trans
          (inductionHypothesis ((termAt_shift piece rest offset).mp occurs))
  | @plain c rest spans unmatched _ inductionHypothesis =>
      rcases Nat.eq_zero_or_pos i with rfl | later
      · exact absurd unmatched ((termAt_zero_iff _).mp occurs)
      · obtain ⟨offset, rfl⟩ := Nat.exists_eq_add_of_le (byteLength_le_of_termAt occurs later)
        exact (boldAt_add (.plain [c]) spans offset).trans
          (inductionHypothesis ((termAt_shift [c] rest offset).mp occurs))

theorem Scanned.same_of_bold {text piece : List Char} {spans : List Span}
    (scanned : Scanned terms text spans) (member : .bold piece ∈ spans) :
    ∃ term ∈ terms, sameAsciiCaseless piece term = true := by
  induction scanned with
  | nil => cases member
  | @bold term _ _ _ first same _ inductionHypothesis =>
      rcases List.mem_cons.mp member with here | later
      · cases here
        exact ⟨term, List.mem_of_find?_eq_some first, same⟩
      · exact inductionHypothesis later
  | plain _ _ inductionHypothesis =>
      rcases List.mem_cons.mp member with here | later
      · cases here
      · exact inductionHypothesis later

/-- Where no term begins before a place and one does there, the first bold text is there. -/
theorem Scanned.first_bold {text front rest : List Char} {spans : List Span}
    (scanned : Scanned terms text spans) (split : text = front ++ rest)
    (free : ∀ i < byteLength front, ¬ TermAt terms text i)
    (occurs : TermAt terms text (byteLength front)) :
    ∃ before piece after, spans = before ++ .bold piece :: after ∧
      (∀ span ∈ before, span.isBold = false) ∧
      byteLength (Bytes.copied before) = byteLength front := by
  induction scanned generalizing front with
  | nil => exact absurd occurs (not_termAt_nil _)
  | @bold term piece later spans first _ _ _ =>
      have here : TermAt terms (piece ++ later) 0 := (termAt_zero_iff _).mpr (by rw [first]; nofun)
      cases front with
      | nil => exact ⟨[], piece, spans, rfl, nofun, rfl⟩
      | cons c front => exact absurd here (free 0 (byteLength_pos (List.cons_ne_nil c front)))
  | @plain c later spans unmatched _ inductionHypothesis =>
      cases front with
      | nil => exact absurd unmatched ((termAt_zero_iff _).mp occurs)
      | cons d front =>
          obtain ⟨rfl, rfl⟩ := List.cons.inj split
          have shifted : ∀ i, TermAt terms ([c] ++ (front ++ rest)) (byteLength [c] + i) ↔
              TermAt terms (front ++ rest) i := termAt_shift [c] (front ++ rest)
          have size : byteLength (c :: front) = byteLength [c] + byteLength front :=
            byteLength_append [c] front
          rw [size] at free occurs
          obtain ⟨before, piece, after, rfl, plain, offset⟩ := inductionHypothesis rfl
            (fun i inside early => free _ (Nat.add_lt_add_left inside _) ((shifted i).mpr early))
            ((shifted _).mp occurs)
          refine ⟨.plain [c] :: before, piece, after, rfl, ?_, ?_⟩
          · exact List.forall_mem_cons.mpr ⟨rfl, plain⟩
          · rw [copied_cons, byteLength_append, offset, size, Span.copied]

/-- What a snippet of a window shows. -/
structure Faithful (body : List Char) (terms : List (List Char)) (maxChars : Nat)
    (window : Nat × Nat) (snippet : List Span) : Prop where
  isWindow : IsWindow body maxChars window
  content : slice? body window.1 window.2 = some (copied snippet)
  edges : ∃ spans, .ellipsis ∉ spans ∧
    snippet = (if 0 < window.1 then [.ellipsis] else []) ++ spans ++
      (if window.2 < byteLength body then [.ellipsis] else [])
  bold : ∀ piece, .bold piece ∈ snippet → ∃ term ∈ terms, sameAsciiCaseless piece term = true
  begins : ∀ i, TermAt terms (copied snippet) i → boldAt snippet i = true
  first : ∀ p, IsLeast {i | TermAt terms body i} p →
    (∃ term ∈ terms, occursAt body term p = true ∧ byteLength term ≤ maxChars / 2) →
      ∃ before piece after, snippet = before ++ .bold piece :: after ∧
        (∀ span ∈ before, span.isBold = false) ∧ window.1 + byteLength (copied before) = p

/-- The first match is found again in its window. -/
theorem Snippet.first {body front raw back : List Char} {snippet spans : List Span}
    {maxChars p : Nat} {term : List Char}
    (isSnippet : Snippet body terms (windowAround body p maxChars) snippet front raw back spans)
    (least : IsLeast {i | TermAt terms body i} p) (member : term ∈ terms) (nonempty : term ≠ [])
    (occurs : occursAt body term p = true) (short : byteLength term ≤ maxChars / 2) :
    ∃ before piece after, snippet = before ++ .bold piece :: after ∧
      (∀ span ∈ before, span.isBold = false) ∧
      (windowAround body p maxChars).1 + byteLength (Bytes.copied before) = p := by
  obtain ⟨split, start, stop, divided, layout⟩ := isSnippet
  have inside := occursAt_le occurs
  have pInside : p ≤ byteLength body := by omega
  obtain ⟨_, left, right⟩ := windowAround_spec maxChars pInside
  have scanned : Scanned terms raw spans := by
    cases divided with
    | whole unasked =>
        rw [unasked] at member
        cases member
    | scanned _ scanned => exact scanned
  obtain ⟨longer, piece, rest, otherSplit, offset, same⟩ := (occursAt_iff body term p).mp occurs
  obtain ⟨middle, rfl, inWindow⟩ :=
    append_le_of_byteLength (split.symm.trans otherSplit) (by omega)
  rw [byteLength_append] at offset
  have size := byteLength_eq_of_sameAsciiCaseless same
  -- The window reaches as far as the occurrence.
  obtain ⟨tail, rfl, _⟩ := append_le_of_byteLength
    (show (middle ++ piece) ++ rest = raw ++ back by rw [List.append_assoc, inWindow])
    (by rw [byteLength_append]; omega)
  have here : TermAt terms (middle ++ piece ++ tail) (byteLength middle) :=
    ⟨term, member, nonempty, (occursAt_iff _ _ _).mpr
      ⟨middle, piece, tail, List.append_assoc _ _ _, rfl, same⟩⟩
  have free : ∀ i < byteLength middle, ¬ TermAt terms (middle ++ piece ++ tail) i := by
    rintro i before ⟨other, isOther, otherNonempty, early⟩
    obtain ⟨otherFront, otherPiece, otherRest, pieces, rfl, otherSame⟩ :=
      (occursAt_iff _ _ _).mp early
    have inBody : TermAt terms body (byteLength front + byteLength otherFront) := by
      refine ⟨other, isOther, otherNonempty, (occursAt_iff _ _ _).mpr
        ⟨front ++ otherFront, otherPiece, otherRest ++ back, ?_, byteLength_append _ _, otherSame⟩⟩
      rw [split, pieces]
      simp only [List.append_assoc]
    have bound : p ≤ byteLength front + byteLength otherFront := least.2 inBody
    omega
  obtain ⟨before, bold, after, rfl, plain, sameOffset⟩ :=
    scanned.first_bold (List.append_assoc middle piece tail) free here
  refine ⟨(if 0 < (windowAround body p maxChars).1 then [.ellipsis] else []) ++ before, bold,
    after ++ (if (windowAround body p maxChars).2 < byteLength body then [.ellipsis] else []),
    ?_, ?_, ?_⟩
  · rw [layout]
    simp only [List.append_assoc, List.cons_append]
  · intro span member
    rcases List.mem_append.mp member with edge | inside
    · rw [eq_ellipsis_of_mem_edge edge]
      rfl
    · exact plain span inside
  · rw [copied_append, copied_edge, List.nil_append, sameOffset]
    omega

/-- Every snippet is a faithful picture of a window of the body. -/
theorem render_faithful (bodyMd q : String) (maxChars : Nat) :
    ∃ snippet window, render bodyMd q maxChars = .ok snippet ∧
      Faithful bodyMd.toList (queryTerms q) maxChars window snippet := by
  obtain ⟨found, snippet, front, raw, back, spans, isFound, result, isWindow, isSnippet⟩ :=
    render_spec bodyMd q maxChars
  refine ⟨snippet, _, result, isWindow, ?_, ?_, ?_, ?_, ?_⟩
  · rw [isSnippet.copied, slice?_eq_some_iff]
    exact ⟨front, back, isSnippet.split, isSnippet.start, isSnippet.stop⟩
  · refine ⟨spans, ?_, isSnippet.layout⟩
    cases isSnippet.divided with
    | whole => simp
    | scanned _ scanned => exact scanned.ellipsis_notMem
  · intro piece member
    have inSpans : .bold piece ∈ spans := by
      rw [isSnippet.layout, List.mem_append, List.mem_append] at member
      rcases member with (leading | inside) | trailing
      · cases eq_ellipsis_of_mem_edge leading
      · exact inside
      · cases eq_ellipsis_of_mem_edge trailing
    cases isSnippet.divided with
    | whole => cases List.mem_singleton.mp inSpans
    | scanned _ scanned => exact scanned.same_of_bold inSpans
  · intro i occurs
    rw [isSnippet.copied] at occurs
    rw [isSnippet.boldAt]
    cases isSnippet.divided with
    | whole unasked =>
        obtain ⟨term, member, _⟩ := occurs
        rw [unasked] at member
        cases member
    | scanned _ scanned => exact scanned.boldAt_of_termAt occurs
  · rintro p least ⟨term, member, occurs, short⟩
    obtain rfl : found = some p := isFound.unique least
    exact isSnippet.first least member (ne_nil_of_mem_queryTerms member) occurs short

end Faithful

section Covering

variable {terms : List (List Char)}

/-- Whether a byte belongs to an occurrence of a term. -/
def Touched (terms : List (List Char)) (text : List Char) (j : Nat) : Prop :=
  ∃ term ∈ terms, ∃ i, occursAt text term i = true ∧ i ≤ j ∧ j < i + byteLength term

/-- A window that divides, after what comes before, into first matches and into characters that
no occurrence touches. -/
inductive Divides (terms : List (List Char)) : List Char → List Char → Prop where
  | done (before : List Char) : Divides terms before []
  | term {before piece rest term : List Char} (first : firstTerm terms (piece ++ rest) = some term)
      (same : sameAsciiCaseless piece term = true) (later : Divides terms (before ++ piece) rest) :
      Divides terms before (piece ++ rest)
  | char {before rest : List Char} {c : Char}
      (untouched : ¬ Touched terms (before ++ c :: rest) (byteLength before))
      (later : Divides terms (before ++ [c]) rest) : Divides terms before (c :: rest)

/-- The text of the rendered window. -/
def windowText (bodyMd q : String) (maxChars : Nat) : List Char :=
  match findFirstMatch bodyMd.toList (queryTerms q) with
  | .ok found =>
      let window := windowFor bodyMd.toList maxChars found
      (slice? bodyMd.toList window.1 window.2).getD []
  | .error _ => []

/-- Every occurrence of a term in the window is bold from its first byte to its last. -/
def HighlightsAll (bodyMd q : String) (maxChars : Nat) : Prop :=
  ∃ snippet, render bodyMd q maxChars = .ok snippet ∧
    ∀ j, Touched (queryTerms q) (windowText bodyMd q maxChars) j → boldAt snippet j = true

theorem touched_of_termAt {text : List Char} {i : Nat} (occurs : TermAt terms text i) :
    Touched terms text i := by
  obtain ⟨term, member, nonempty, occurs⟩ := occurs
  exact ⟨term, member, i, occurs, Nat.le_refl i, Nat.lt_add_of_pos_right (byteLength_pos nonempty)⟩

theorem touched_of_firstTerm {before text term : List Char}
    (first : firstTerm terms text = some term) :
    Touched terms (before ++ text) (byteLength before) := by
  apply touched_of_termAt
  have here : TermAt terms text 0 := (termAt_zero_iff text).mpr (by rw [first]; nofun)
  exact (termAt_shift before text 0).mpr here

/-- An occurrence that touches a character touches its first byte. -/
theorem touched_start {before rest : List Char} {c : Char} {j : Nat}
    (inside : j < byteLength [c])
    (touched : Touched terms (before ++ c :: rest) (byteLength before + j)) :
    Touched terms (before ++ c :: rest) (byteLength before) := by
  obtain ⟨term, member, i, occurs, started, notEnded⟩ := touched
  refine ⟨term, member, i, occurs, ?_, by omega⟩
  obtain ⟨front, piece, back, split, rfl, _⟩ := (occursAt_iff _ _ _).mp occurs
  by_contra beyond
  obtain ⟨middle, rfl, others⟩ := append_le_of_byteLength split (by omega)
  rw [byteLength_append] at started beyond
  cases middle with
  | nil => exact beyond (Nat.le_refl _)
  | cons d middle =>
      obtain ⟨rfl, _⟩ := List.cons.inj others
      have size : byteLength (c :: middle) = byteLength [c] + byteLength middle :=
        byteLength_append [c] middle
      omega

theorem divides_of_first {before piece rest term : List Char}
    (first : firstTerm terms (piece ++ rest) = some term)
    (same : sameAsciiCaseless piece term = true) :
    Divides terms before (piece ++ rest) ↔ Divides terms (before ++ piece) rest := by
  constructor
  · intro divides
    generalize split : piece ++ rest = text at divides
    cases divides with
    | done =>
        rw [split] at first
        have here : TermAt terms [] 0 := (termAt_zero_iff []).mpr (by rw [first]; nofun)
        exact absurd here (not_termAt_nil 0)
    | @term _ otherPiece otherRest other otherFirst otherSame later =>
        rw [← split, first, Option.some.injEq] at otherFirst
        subst otherFirst
        have lengths := (length_eq_of_sameAsciiCaseless same).trans
          (length_eq_of_sameAsciiCaseless otherSame).symm
        obtain ⟨rfl, rfl⟩ := List.append_inj split lengths
        exact later
    | char untouched _ =>
        rw [split] at first
        exact absurd (touched_of_firstTerm first) untouched
  · exact .term first same

theorem divides_of_unmatched {before rest : List Char} {c : Char}
    (unmatched : firstTerm terms (c :: rest) = none) :
    Divides terms before (c :: rest) ↔
      ¬ Touched terms (before ++ c :: rest) (byteLength before) ∧
        Divides terms (before ++ [c]) rest := by
  constructor
  · intro divides
    generalize split : c :: rest = text at divides
    cases divides with
    | done => cases split
    | term first _ _ =>
        rw [← split, unmatched] at first
        cases first
    | char untouched later =>
        cases split
        exact ⟨untouched, later⟩
  · rintro ⟨untouched, later⟩
    exact .char untouched later

/-- A division exists exactly where the scan leaves nothing unmarked that an occurrence
touches. -/
theorem divides_iff {before text : List Char} {spans : List Span}
    (scanned : Scanned terms text spans) :
    Divides terms before text ↔
      ∀ j < byteLength text, Touched terms (before ++ text) (byteLength before + j) →
        boldAt spans j = true := by
  induction scanned generalizing before with
  | nil =>
      refine iff_of_true (.done before) fun j inside => ?_
      cases inside
  | @bold term piece rest spans first same _ inductionHypothesis =>
      rw [divides_of_first first same, inductionHypothesis, byteLength_append, byteLength_append,
        List.append_assoc]
      constructor
      · intro rest_bold j inside touched
        by_cases here : j < byteLength piece
        · exact boldAt_bold here spans
        · obtain ⟨offset, rfl⟩ := Nat.exists_eq_add_of_le (Nat.le_of_not_lt here)
          rw [← Nat.add_assoc] at touched
          exact (boldAt_add (.bold piece) spans offset).trans
            (rest_bold offset (by omega) touched)
      · intro all_bold offset inside touched
        rw [Nat.add_assoc] at touched
        exact (boldAt_add (.bold piece) spans offset).symm.trans
          (all_bold _ (Nat.add_lt_add_left inside (byteLength piece)) touched)
  | @plain c rest spans unmatched _ inductionHypothesis =>
      have size : byteLength (c :: rest) = byteLength [c] + byteLength rest :=
        byteLength_append [c] rest
      rw [divides_of_unmatched unmatched, inductionHypothesis, byteLength_append, size,
        List.append_assoc, List.singleton_append]
      constructor
      · rintro ⟨untouched, rest_bold⟩ j inside touched
        by_cases here : j < byteLength [c]
        · exact absurd (touched_start here touched) untouched
        · obtain ⟨offset, rfl⟩ := Nat.exists_eq_add_of_le (Nat.le_of_not_lt here)
          rw [← Nat.add_assoc] at touched
          exact (boldAt_add (.plain [c]) spans offset).trans
            (rest_bold offset (by omega) touched)
      · intro all_bold
        have positive := byteLength_pos (List.cons_ne_nil c [])
        refine ⟨fun touched => ?_, fun offset inside touched => ?_⟩
        · have bold := all_bold 0 (by omega) touched
          have here : boldAt (.plain [c] :: spans) 0 = false := if_pos positive
          rw [here] at bold
          cases bold
        · rw [Nat.add_assoc] at touched
          exact (boldAt_add (.plain [c]) spans offset).symm.trans
            (all_bold _ (Nat.add_lt_add_left inside (byteLength [c])) touched)

theorem touched_lt {text : List Char} {j : Nat} (touched : Touched terms text j) :
    j < byteLength text := by
  obtain ⟨term, _, i, occurs, _, notEnded⟩ := touched
  exact Nat.lt_of_lt_of_le notEnded (occursAt_le occurs)

/-- Without terms nothing is touched. -/
theorem divides_unasked (before text : List Char) : Divides [] before text := by
  induction text generalizing before with
  | nil => exact .done before
  | cons c rest inductionHypothesis =>
      apply Divides.char
      · rintro ⟨term, member, _⟩
        cases member
      · exact inductionHypothesis _

/-- Every occurrence in the window is marked exactly when the window divides into first matches
and untouched characters. -/
theorem highlightsAll_iff (bodyMd q : String) (maxChars : Nat) :
    HighlightsAll bodyMd q maxChars ↔
      Divides (queryTerms q) [] (windowText bodyMd q maxChars) := by
  obtain ⟨found, snippet, front, raw, back, spans, isFound, result, _, isSnippet⟩ :=
    render_spec bodyMd q maxChars
  have window : windowText bodyMd q maxChars = raw := by
    obtain ⟨searched, search, isSearched⟩ := findFirstMatch_spec bodyMd.toList (queryTerms q)
    obtain rfl := isFound.unique isSearched
    have sliced := (slice?_eq_some_iff bodyMd.toList _ _ raw).mpr
      ⟨front, back, isSnippet.split, isSnippet.start, isSnippet.stop⟩
    simp only [windowText, search, sliced, Option.getD_some]
  have highlights : HighlightsAll bodyMd q maxChars ↔
      ∀ j, Touched (queryTerms q) raw j → boldAt spans j = true := by
    simp only [HighlightsAll, result, Except.ok.injEq, window, exists_eq_left',
      isSnippet.boldAt]
  rw [highlights, window]
  cases isSnippet.divided with
  | whole unasked =>
      rw [unasked]
      refine iff_of_true ?_ (divides_unasked [] raw)
      rintro j ⟨term, member, _⟩
      cases member
  | scanned _ scanned =>
      rw [divides_iff scanned]
      simp only [List.nil_append, byteLength_nil, Nat.zero_add]
      exact ⟨fun all j _ => all j, fun all j touched => all j (touched_lt touched) touched⟩

/-- A second term that begins within the first one's match is left unmarked. -/
theorem overlap_not_highlighted : ¬ HighlightsAll "abc" "ab bc" 240 := by
  rintro ⟨snippet, result, all⟩
  have rendered : render "abc" "ab bc" 240 = .ok [.bold ['a', 'b'], .plain ['c']] := by decide
  rw [rendered, Except.ok.injEq] at result
  subst result
  have bold := all 2 ⟨['b', 'c'], by decide, 1, by decide, by decide, by decide⟩
  revert bold
  decide

end Covering

end Bytes

end Scryd.Search
