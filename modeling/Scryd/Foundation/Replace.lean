import Scryd.Foundation.Pattern

/-!
# Replacing matches

Replacing works from the left: a match is replaced as a whole and the search
goes on behind it.  Where a pattern matches in one way at most, this is a
relation between texts that does not mention the matcher.
-/

namespace Scryd.Foundation

variable (isWord : Char → Bool) (pattern : Pattern) (render : List Char → List Char)

/-- `Regex::replace_all`, with the number of characters left of a match and the character
before. -/
def replaceFrom : Nat → Option Char → List Char → List Char
  | _, _, [] => []
  | skip + 1, _, c :: rest => replaceFrom skip (some c) rest
  | 0, prev, c :: rest =>
      match matchItems isWord pattern.items prev (c :: rest) with
      | some (n + 1) => render ((c :: rest).take (n + 1)) ++ replaceFrom n (some c) rest
      | _ => c :: replaceFrom 0 (some c) rest

def replaceAll (text : List Char) : List Char :=
  replaceFrom isWord pattern render 0 none text

/-- From the left: characters at which nothing matches stay, matches are replaced. -/
inductive Replaced : Option Char → List Char → List Char → Prop where
  | done (prev : Option Char) : Replaced prev [] []
  | keep {prev : Option Char} {c : Char} {rest out : List Char}
      (unmatched : ∀ piece after, c :: rest = piece ++ after →
        ¬ Matches isWord pattern.items prev piece after)
      (later : Replaced (some c) rest out) : Replaced prev (c :: rest) (c :: out)
  | replace {prev : Option Char} {piece after out : List Char}
      (isMatch : Matches isWord pattern.items prev piece after)
      (later : Replaced (lastOr prev piece) after out) :
      Replaced prev (piece ++ after) (render piece ++ out)

/-- At one position the pattern matches in one way at most. -/
def Unambiguous : Prop :=
  ∀ {prev piece after other otherAfter}, piece ++ after = other ++ otherAfter →
    Matches isWord pattern.items prev piece after →
    Matches isWord pattern.items prev other otherAfter → piece = other

variable {isWord pattern render} {prev : Option Char}

theorem replaceFrom_skip (piece after : List Char) (prev : Option Char) :
    replaceFrom isWord pattern render piece.length prev (piece ++ after) =
      replaceFrom isWord pattern render 0 (lastOr prev piece) after := by
  induction piece generalizing prev with
  | nil => rfl
  | cons c piece inductionHypothesis =>
      rw [lastOr_cons]
      exact inductionHypothesis (some c)

theorem Pattern.ne_nil_of_matches {piece after : List Char}
    (isMatch : Matches isWord pattern.items prev piece after) : piece ≠ [] := by
  obtain ⟨c, tail, rfl, _⟩ := isMatch
  exact List.cons_ne_nil c tail

theorem replaceFrom_match {piece after : List Char}
    (found : matchItems isWord pattern.items prev (piece ++ after) = some piece.length)
    (isMatch : Matches isWord pattern.items prev piece after) :
    replaceFrom isWord pattern render 0 prev (piece ++ after) =
      render piece ++ replaceFrom isWord pattern render 0 (lastOr prev piece) after := by
  obtain ⟨c, rest, rfl⟩ := List.exists_cons_of_ne_nil (Pattern.ne_nil_of_matches isMatch)
  rw [List.cons_append, List.length_cons] at found
  rw [List.cons_append, replaceFrom, found, lastOr_cons, ← replaceFrom_skip rest after (some c)]
  simp only [List.take_succ_cons, List.take_left']

/-- What replacing yields is related to the text. -/
theorem replaced_replaceFrom (prev : Option Char) (text : List Char) :
    Replaced isWord pattern render prev text (replaceFrom isWord pattern render 0 prev text) := by
  induction length : text.length using Nat.strongRecOn generalizing prev text with
  | ind n inductionHypothesis =>
      subst length
      cases text with
      | nil => exact .done prev
      | cons c rest =>
          cases found : matchItems isWord pattern.items prev (c :: rest) with
          | none =>
              rw [replaceFrom, found]
              refine .keep ?_ (inductionHypothesis _ (Nat.lt_succ_self _) (some c) rest rfl)
              intro piece after split isMatch
              rw [split] at found
              exact (decides_matchItems isWord pattern.items).complete isMatch found
          | some n =>
              obtain ⟨piece, after, split, rfl, isMatch⟩ :=
                (decides_matchItems isWord pattern.items).sound found
              have positive := List.length_pos_of_ne_nil (Pattern.ne_nil_of_matches isMatch)
              have shorter : after.length < (c :: rest).length := by
                rw [split, List.length_append]
                omega
              rw [split] at found ⊢
              rw [replaceFrom_match found isMatch]
              exact .replace isMatch (inductionHypothesis _ shorter _ after rfl)

/-- An unambiguous pattern leaves one way to replace. -/
theorem Replaced.unique (unambiguous : Unambiguous isWord pattern) {text out : List Char}
    (replaced : Replaced isWord pattern render prev text out) {other : List Char}
    (also : Replaced isWord pattern render prev text other) : out = other := by
  induction replaced generalizing other with
  | done =>
      generalize empty : [] = text at also
      cases also with
      | done => rfl
      | keep => cases empty
      | replace isMatch =>
          exact absurd (List.append_eq_nil_iff.mp empty.symm).1 (Pattern.ne_nil_of_matches isMatch)
  | @keep prev c rest out unmatched later inductionHypothesis =>
      generalize split : c :: rest = text at also
      cases also with
      | done => cases split
      | keep _ alsoLater =>
          cases split
          rw [inductionHypothesis alsoLater]
      | replace isMatch => exact absurd isMatch (unmatched _ _ split)
  | @replace prev piece after out isMatch later inductionHypothesis =>
      generalize split : piece ++ after = text at also
      cases also with
      | done =>
          exact absurd (List.append_eq_nil_iff.mp split).1 (Pattern.ne_nil_of_matches isMatch)
      | keep unmatched => exact absurd isMatch (unmatched _ _ split.symm)
      | replace alsoMatch alsoLater =>
          obtain rfl := unambiguous split isMatch alsoMatch
          obtain rfl := List.append_cancel_left split
          rw [inductionHypothesis alsoLater]

theorem replaced_iff (unambiguous : Unambiguous isWord pattern) (text out : List Char) :
    Replaced isWord pattern render none text out ↔ replaceAll isWord pattern render text = out := by
  constructor
  · exact fun replaced => (replaced_replaceFrom none text).unique unambiguous replaced
  · rintro rfl
    exact replaced_replaceFrom none text

end Scryd.Foundation
