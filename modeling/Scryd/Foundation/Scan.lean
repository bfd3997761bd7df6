import Scryd.Foundation.Pattern

/-!
# What a search takes

The search behind `removeAll` as a relation.  From the left, a character stays
where no match begins; elsewhere the match that the matcher prefers is taken, and
the search goes on behind it.  A match that a search has left was not together in
the text it read.
-/

namespace Scryd.Foundation

universe u

section Scanning

variable {α : Type u} (read : α → Char) (isWord : Char → Bool) (pattern : Pattern)

/-- A match begins where a text does. -/
def Begins (text : List α) : Prop :=
  ∃ piece after, text = piece ++ after ∧
    Matches isWord pattern.items none (piece.map read) (after.map read)

/-- The preferred match where a text begins. -/
def Takes (piece rest : List α) : Prop :=
  matchItems isWord pattern.items none ((piece ++ rest).map read) = some piece.length

/-- A search of a text, with what it keeps and the pieces it takes. -/
inductive Scan : List α → List α → List (List α) → Prop
  | done : Scan [] [] []
  | keep {a : α} {rest kept : List α} {taken : List (List α)}
      (stays : ¬ Begins read isWord pattern (a :: rest)) (later : Scan rest kept taken) :
      Scan (a :: rest) (a :: kept) taken
  | take {piece rest kept : List α} {taken : List (List α)}
      (takes : Takes read isWord pattern piece rest) (later : Scan rest kept taken) :
      Scan (piece ++ rest) kept (piece :: taken)

variable {read isWord pattern} {piece rest text kept : List α} {taken : List (List α)}

theorem begins_iff :
    Begins read isWord pattern text ↔
      matchItems isWord pattern.items none (text.map read) ≠ none := by
  have decides := decides_matchItems isWord pattern.items
  constructor
  · rintro ⟨piece, after, rfl, isMatch⟩
    rw [List.map_append]
    exact decides.complete isMatch
  · intro found
    obtain ⟨n, found⟩ := Option.ne_none_iff_exists'.mp found
    obtain ⟨piece, after, split, _, isMatch⟩ := decides.sound found
    obtain ⟨front, back, rfl, rfl, rfl⟩ := List.map_eq_append_iff.mp split
    exact ⟨front, back, rfl, isMatch⟩

theorem Takes.matches (takes : Takes read isWord pattern piece rest) :
    Matches isWord pattern.items none (piece.map read) (rest.map read) := by
  obtain ⟨front, back, split, length, isMatch⟩ :=
    (decides_matchItems isWord pattern.items).sound takes
  rw [List.map_append] at split
  obtain ⟨rfl, rfl⟩ := List.append_inj split (by rw [length, List.length_map])
  exact isMatch

theorem Takes.ne_nil (takes : Takes read isWord pattern piece rest) : piece ≠ [] := by
  rintro rfl
  obtain ⟨c, tail, split, _⟩ := takes.matches
  cases split

/-- A search keeps what `removeAll` leaves. -/
theorem Scan.kept_eq (scan : Scan read isWord pattern text kept taken) :
    kept = removeAll read isWord pattern text := by
  induction scan with
  | done => rfl
  | keep stays later inductionHypothesis =>
      rw [begins_iff, not_not] at stays
      rw [removeAll_keep stays, ← inductionHypothesis]
  | take takes later inductionHypothesis => rw [removeAll_match takes, ← inductionHypothesis]

/-- Every text can be searched. -/
theorem exists_scan (read : α → Char) (isWord : Char → Bool) (pattern : Pattern)
    (text : List α) :
    ∃ taken, Scan read isWord pattern text (removeAll read isWord pattern text) taken := by
  induction length : text.length using Nat.strongRecOn generalizing text with
  | ind n inductionHypothesis =>
      subst length
      cases text with
      | nil => exact ⟨[], .done⟩
      | cons a rest =>
          cases found : matchItems isWord pattern.items none ((a :: rest).map read) with
          | none =>
              obtain ⟨taken, later⟩ := inductionHypothesis rest.length (Nat.lt_succ_self _) rest rfl
              rw [removeAll_keep found]
              exact ⟨taken, .keep (by rw [begins_iff, not_not]; exact found) later⟩
          | some n =>
              obtain ⟨front, back, split, rfl, _⟩ :=
                (decides_matchItems isWord pattern.items).sound found
              obtain ⟨piece, left, parts, rfl, rfl⟩ := List.map_eq_append_iff.mp split
              rw [parts, List.length_map] at found
              have takes : Takes read isWord pattern piece left := found
              have shorter : left.length < (a :: rest).length := by
                have positive := List.length_pos_of_ne_nil takes.ne_nil
                rw [parts, List.length_append]
                omega
              obtain ⟨taken, later⟩ := inductionHypothesis left.length shorter left rfl
              rw [parts, removeAll_match takes]
              exact ⟨piece :: taken, .take takes later⟩

theorem Scan.sublist (scan : Scan read isWord pattern text kept taken) : kept.Sublist text := by
  rw [scan.kept_eq]
  exact removeAll_sublist text

/-- A character at which a match begins is not kept. -/
theorem Scan.notMem_kept {before : List α} {a : α}
    (scan : Scan read isWord pattern text kept taken) (split : text = before ++ a :: rest)
    (apart : text.Nodup) (begins : Begins read isWord pattern (a :: rest)) : a ∉ kept := by
  induction scan generalizing before with
  | done => simp at split
  | @keep b tail kept taken stays later inductionHypothesis =>
      cases before with
      | nil =>
          rw [List.nil_append] at split
          rw [split] at stays
          exact absurd begins stays
      | cons c before =>
          obtain ⟨rfl, rfl⟩ := List.cons.inj split
          rw [List.nodup_cons] at apart
          rw [List.mem_cons, not_or]
          refine ⟨fun same => apart.1 ?_, inductionHypothesis rfl apart.2⟩
          rw [← same]
          exact List.mem_append_right before List.mem_cons_self
  | @take piece tail kept taken takes later inductionHypothesis =>
      rw [List.nodup_append] at apart
      rcases List.append_eq_append_iff.mp split with ⟨gap, rfl, behind⟩ | ⟨gap, isPiece, behind⟩
      · exact inductionHypothesis behind apart.2.1
      · cases gap with
        | nil => exact @inductionHypothesis [] behind.symm apart.2.1
        | cons c gap =>
            obtain ⟨rfl, rfl⟩ := List.cons.inj behind
            intro member
            refine apart.2.2 a ?_ a (later.sublist.subset member) rfl
            rw [isPiece]
            exact List.mem_append_right before List.mem_cons_self

/-- The characters that a filter looks for all stay exactly when no piece that is taken has
one. -/
theorem Scan.filter_eq_iff (scan : Scan read isWord pattern text kept taken) (marked : α → Bool) :
    kept.filter marked = text.filter marked ↔
      ∀ piece ∈ taken, ∀ a ∈ piece, marked a = false := by
  induction scan with
  | done => simp
  | @keep a rest kept taken stays later inductionHypothesis =>
      rw [← inductionHypothesis, List.filter_cons, List.filter_cons]
      split
      next => rw [List.cons.injEq, and_iff_right rfl]
      next => rfl
  | @take piece rest kept taken takes later inductionHypothesis =>
      rw [List.forall_mem_cons, ← inductionHypothesis, List.filter_append]
      have fewer := (later.sublist.filter marked).length_le
      constructor
      · intro same
        have lengths := congrArg List.length same
        rw [List.length_append] at lengths
        have none_marked : piece.filter marked = [] :=
          List.eq_nil_of_length_eq_zero (by omega)
        refine ⟨fun a member => ?_, by rwa [none_marked] at same⟩
        exact Bool.eq_false_iff.mpr (List.filter_eq_nil_iff.mp none_marked a member)
      · rintro ⟨unmarked, same⟩
        have none_marked : piece.filter marked = [] := by
          rw [List.filter_eq_nil_iff]
          exact fun a member => Bool.eq_false_iff.mp (unmarked a member)
        rw [same, none_marked, List.nil_append]

end Scanning

section Closed

/-- A pattern that ends with a character of its own looks at nothing behind a match. -/
def Pattern.Closed (pattern : Pattern) : Prop :=
  ∃ items test, pattern.items = items ++ [.one test]

variable {isWord : Char → Bool} {items : List Item} {test : Char → Bool} {prev : Option Char}
  {piece after : List Char}

theorem ne_nil_of_matches_closed
    (isMatch : Matches isWord (items ++ [.one test]) prev piece after) : piece ≠ [] := by
  obtain ⟨front, back, rfl, _, c, _, rfl, _⟩ := (matches_append isWord items [.one test]).mp isMatch
  simp

theorem Single.imp {test : Char → Bool}
    {Follows : Option Char → List Char → List Char → Prop} {behind : List Char}
    (moves : ∀ {prev piece}, Follows prev piece after → Follows prev piece behind)
    (single : Single test Follows piece after) : Single test Follows piece behind := by
  obtain ⟨c, tail, rfl, isPassing, next⟩ := single
  exact ⟨c, tail, rfl, isPassing, moves next⟩

theorem Repeated.imp {test : Char → Bool}
    {Follows : Option Char → List Char → List Char → Prop} {behind : List Char}
    (moves : ∀ {prev piece}, Follows prev piece after → Follows prev piece behind)
    (repeated : Repeated test Follows prev piece after) :
    Repeated test Follows prev piece behind := by
  obtain ⟨run, tail, rfl, arePassing, next⟩ := repeated
  exact ⟨run, tail, rfl, arePassing, moves next⟩

theorem matches_closed (isMatch : Matches isWord (items ++ [.one test]) prev piece after)
    (behind : List Char) : Matches isWord (items ++ [.one test]) prev piece behind := by
  induction items generalizing prev piece with
  | nil => exact isMatch
  | cons item items inductionHypothesis =>
      cases item with
      | one passes => exact Single.imp inductionHypothesis isMatch
      | opt passes => exact isMatch.imp (Single.imp inductionHypothesis) inductionHypothesis
      | greedy passes => exact Repeated.imp inductionHypothesis isMatch
      | lazy passes => exact Repeated.imp inductionHypothesis isMatch
      | boundary =>
          obtain ⟨edge, later⟩ := isMatch
          obtain ⟨c, tail, rfl⟩ := List.exists_cons_of_ne_nil (ne_nil_of_matches_closed later)
          exact ⟨edge, inductionHypothesis later⟩

/-- Behind a match only the next character counts. -/
theorem matches_head {behind : List Char} (same : after.head? = behind.head?)
    (isMatch : Matches isWord items prev piece after) :
    Matches isWord items prev piece behind := by
  induction items generalizing prev piece with
  | nil => exact isMatch
  | cons item items inductionHypothesis =>
      cases item with
      | one passes => exact Single.imp inductionHypothesis isMatch
      | opt passes => exact isMatch.imp (Single.imp inductionHypothesis) inductionHypothesis
      | greedy passes => exact Repeated.imp inductionHypothesis isMatch
      | lazy passes => exact Repeated.imp inductionHypothesis isMatch
      | boundary =>
          obtain ⟨edge, later⟩ := isMatch
          refine ⟨?_, inductionHypothesis later⟩
          rw [wordEdge, List.head?_append] at edge ⊢
          rwa [← same]

/-- Such a pattern matches a piece wherever it stands. -/
theorem Pattern.Closed.matches_anywhere {pattern : Pattern} (closed : pattern.Closed)
    (isMatch : Matches isWord pattern.items prev piece after) (elsewhere : Option Char)
    (behind : List Char) : Matches isWord pattern.items elsewhere piece behind := by
  obtain ⟨items, test, same⟩ := closed
  -- The first item takes a character, whatever stands before it.
  have moved : Matches isWord pattern.items elsewhere piece after := isMatch
  rw [same] at moved ⊢
  exact matches_closed moved behind

end Closed

section Infixes

variable {α : Type u}

/-- A part of a text of which everything is still there was together in between. -/
theorem infix_of_sublist {piece between text : List α} (apart : text.Nodup)
    (together : piece <:+: text) (fewer : between.Sublist text) (stays : piece.Sublist between) :
    piece <:+: between := by
  classical
  obtain ⟨front, back, rfl⟩ := together
  obtain ⟨rest, newBack, rfl, sub, subBack⟩ := List.sublist_append_iff.mp fewer
  obtain ⟨newFront, middle, rfl, subFront, subMiddle⟩ := List.sublist_append_iff.mp sub
  simp only [List.nodup_append, List.mem_append] at apart
  obtain ⟨⟨_, _, before⟩, _, behind⟩ := apart
  -- What stands around the part has none of its characters.
  have frontOther : newFront.filter (· ∈ piece) = [] := by
    rw [List.filter_eq_nil_iff]
    intro a member inPiece
    exact before a (subFront.subset member) a (of_decide_eq_true inPiece) rfl
  have backOther : newBack.filter (· ∈ piece) = [] := by
    rw [List.filter_eq_nil_iff]
    intro a member inPiece
    exact behind a (.inr (of_decide_eq_true inPiece)) a (subBack.subset member) rfl
  have own : piece.filter (· ∈ piece) = piece := by
    rw [List.filter_eq_self]
    exact fun a member => decide_eq_true member
  have still : piece.Sublist middle := by
    have filtered := stays.filter (· ∈ piece)
    rw [own, List.filter_append, List.filter_append, frontOther, backOther, List.nil_append,
      List.append_nil] at filtered
    exact filtered.trans List.filter_sublist
  rw [still.antisymm subMiddle]
  exact ⟨newFront, newBack, rfl⟩

end Infixes

end Scryd.Foundation
