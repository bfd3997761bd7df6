import Mathlib.Data.List.DropRight
import Scryd.Search.Retry

/-!
# Sanitized errors

What `sanitize_error` keeps of an indexer's error: one line of bounded length,
with the words of the error in their order.
-/

namespace Scryd.Search

open Scryd.Foundation

/-- A character that `sanitize_error` does not just drop. -/
def readable (ch : Char) : Bool := isWhitespace ch || !isControl ch

/-- The words of an error without its control characters, a space between any two. -/
def remaining (raw : List Char) : List Char :=
  [' '].intercalate (splitWhitespace (raw.filter readable))

/-- One line, in which a space follows a character that is none. -/
structure Clean (text : List Char) : Prop where
  printable : ∀ c ∈ text, isControl c = false
  spaces : ∀ c ∈ text, isWhitespace c = true → c = ' '
  start : text.head? ≠ some ' '
  single : ¬ [' ', ' '] <:+: text

section Loop

variable {ch : Char} {out : List Char} {prevSpace : Bool}

theorem collapseWhitespace_space (space : isWhitespace ch = true) (some_output : out ≠ [])
    (rest : List Char) :
    collapseWhitespace out false (ch :: rest) = collapseWhitespace (out ++ [' ']) true rest := by
  simp [collapseWhitespace, space, some_output]

theorem collapseWhitespace_skip (space : isWhitespace ch = true)
    (skipped : prevSpace = true ∨ out = []) (rest : List Char) :
    collapseWhitespace out prevSpace (ch :: rest) = collapseWhitespace out prevSpace rest := by
  rcases skipped with rfl | rfl
  · simp [collapseWhitespace, space]
  · simp [collapseWhitespace, space]

theorem collapseWhitespace_drop (dropped : readable ch = false) (rest : List Char) :
    collapseWhitespace out prevSpace (ch :: rest) = collapseWhitespace out prevSpace rest := by
  simp only [readable, Bool.or_eq_false_iff, Bool.not_eq_false'] at dropped
  simp [collapseWhitespace, dropped]

theorem collapseWhitespace_push (solid : isWhitespace ch = false) (printed : isControl ch = false)
    (rest : List Char) :
    collapseWhitespace out prevSpace (ch :: rest) =
      collapseWhitespace (out ++ [ch]) false rest := by
  simp [collapseWhitespace, solid, printed]

/-- What the loop may meet: white space, a character to drop, or one to push. -/
theorem char_cases (ch : Char) :
    (isWhitespace ch = true ∧ readable ch = true) ∨ readable ch = false ∨
      (isWhitespace ch = false ∧ isControl ch = false ∧ readable ch = true) := by
  simp only [readable]
  cases isWhitespace ch <;> cases isControl ch <;> simp

end Loop

section Words

/-- Words with a space before each. -/
def spaced (words : List (List Char)) : List Char := words.flatMap fun word => ' ' :: word

theorem intercalate_eq_append_spaced (word : List Char) (words : List (List Char)) :
    [' '].intercalate (word :: words) = word ++ spaced words := by
  induction words generalizing word with
  | nil => rw [List.intercalate_singleton, spaced, List.flatMap_nil, List.append_nil]
  | cons next rest inductionHypothesis =>
      rw [List.intercalate_cons_cons, inductionHypothesis, spaced, spaced, List.flatMap_cons]
      simp only [List.append_assoc, List.cons_append, List.nil_append]

/-- A word that has been started is one of the words. -/
theorem spaced_wordsFrom {word : List Char} (started : word ≠ []) (chars : List Char) :
    spaced (wordsFrom word chars) = ' ' :: [' '].intercalate (wordsFrom word chars) := by
  obtain ⟨first, rest, words⟩ := List.exists_cons_of_ne_nil (wordsFrom_ne_nil started chars)
  rw [words, intercalate_eq_append_spaced]
  rfl

theorem trimEnd_of_word (front : List Char) {word : List Char} (started : word ≠ [])
    (solid : ∀ c ∈ word, isWhitespace c = false) : trimEnd (front ++ word) = front ++ word := by
  refine List.rdropWhile_eq_self_iff.mpr fun some_char => ?_
  rw [List.getLast_append_of_ne_nil some_char started]
  simpa using solid _ (List.getLast_mem started)

theorem filter_intercalate (words : List (List Char)) :
    ([' '].intercalate words).filter (fun c => !isWhitespace c) =
      words.flatten.filter fun c => !isWhitespace c := by
  cases words with
  | nil => rfl
  | cons word rest =>
      have spaces_dropped : (spaced rest).filter (fun c => !isWhitespace c) =
          rest.flatten.filter fun c => !isWhitespace c := by
        induction rest with
        | nil => rfl
        | cons next later inductionHypothesis =>
            rw [spaced, List.flatMap_cons, List.filter_append, ← spaced, inductionHypothesis,
              List.flatten_cons, List.filter_append, List.filter_cons_of_neg (by decide)]
      rw [intercalate_eq_append_spaced, List.filter_append, spaces_dropped, List.flatten_cons,
        List.filter_append]

/-- Spaces apart, an error is left with its characters that are neither white space nor control
characters, in their order. -/
theorem filter_remaining (raw : List Char) :
    (remaining raw).filter (fun c => !isWhitespace c) =
      raw.filter fun c => !isWhitespace c && !isControl c := by
  rw [remaining, filter_intercalate, splitWhitespace, flatten_wordsFrom, List.nil_append,
    List.filter_filter, List.filter_filter]
  refine List.filter_congr fun c _ => ?_
  simp only [readable]
  cases isWhitespace c <;> cases isControl c <;> rfl

/-- The loop of `sanitize_error` in a word and behind the space after one. -/
theorem collapseWhitespace_spec (chars : List Char) :
    (∀ front word : List Char, word ≠ [] → (∀ c ∈ word, isWhitespace c = false) →
        trimEnd (collapseWhitespace (front ++ word) false chars) =
          front ++ [' '].intercalate (wordsFrom word (chars.filter readable))) ∧
      ∀ front word : List Char, word ≠ [] → (∀ c ∈ word, isWhitespace c = false) →
        trimEnd (collapseWhitespace (front ++ word ++ [' ']) true chars) =
          front ++ word ++ spaced (wordsFrom [] (chars.filter readable)) := by
  induction chars with
  | nil =>
      constructor
      · intro front word started solid
        rw [collapseWhitespace, trimEnd_of_word front started solid]
        simp [wordsFrom, started]
      · intro front word started solid
        have dropped : trimEnd (front ++ word ++ [' ']) = trimEnd (front ++ word) :=
          List.rdropWhile_concat_pos _ _ _ rfl
        rw [collapseWhitespace, dropped, trimEnd_of_word front started solid]
        simp [wordsFrom, spaced]
  | cons ch rest inductionHypothesis =>
      obtain ⟨inWord, behindWord⟩ := inductionHypothesis
      rcases char_cases ch with ⟨space, read⟩ | dropped | ⟨solidChar, printed, read⟩
      · constructor
        · intro front word started solid
          rw [collapseWhitespace_space space (by simp [started]),
            behindWord front word started solid, List.filter_cons_of_pos read,
            wordsFrom_close started space, intercalate_eq_append_spaced, List.append_assoc]
        · intro front word started solid
          rw [collapseWhitespace_skip space (.inl rfl), behindWord front word started solid,
            List.filter_cons_of_pos read, wordsFrom_skip space]
      · have unread : ¬ readable ch = true := by simp [dropped]
        constructor
        · intro front word started solid
          rw [collapseWhitespace_drop dropped, inWord front word started solid,
            List.filter_cons_of_neg unread]
        · intro front word started solid
          rw [collapseWhitespace_drop dropped, behindWord front word started solid,
            List.filter_cons_of_neg unread]
      · constructor
        · intro front word started solid
          have longer : ∀ c ∈ word ++ [ch], isWhitespace c = false := by
            simpa [or_imp, forall_and] using ⟨solid, solidChar⟩
          rw [collapseWhitespace_push solidChar printed, List.append_assoc,
            inWord front (word ++ [ch]) (by simp) longer, List.filter_cons_of_pos read,
            wordsFrom_push word solidChar]
        · intro front word started solid
          have newWord := inWord (front ++ word ++ [' ']) [ch] (List.cons_ne_nil ch [])
            (by simpa using solidChar)
          rw [collapseWhitespace_push solidChar printed, newWord, List.filter_cons_of_pos read,
            wordsFrom_push [] solidChar, List.nil_append,
            spaced_wordsFrom (List.cons_ne_nil ch []), List.append_assoc, List.singleton_append]

/-- What the loop leaves, its trailing space apart. -/
theorem trimEnd_collapseWhitespace (chars : List Char) :
    trimEnd (collapseWhitespace [] false chars) = remaining chars := by
  induction chars with
  | nil => rfl
  | cons ch rest inductionHypothesis =>
      rw [remaining, splitWhitespace] at inductionHypothesis ⊢
      rcases char_cases ch with ⟨space, read⟩ | dropped | ⟨solidChar, printed, read⟩
      · rw [collapseWhitespace_skip space (.inr rfl), inductionHypothesis,
          List.filter_cons_of_pos read, wordsFrom_skip space]
      · rw [collapseWhitespace_drop dropped, inductionHypothesis,
          List.filter_cons_of_neg (by simp [dropped])]
      · have firstWord := (collapseWhitespace_spec rest).1 [] [ch] (List.cons_ne_nil ch [])
          (by simpa using solidChar)
        rw [collapseWhitespace_push solidChar printed, List.filter_cons_of_pos read,
          wordsFrom_push [] solidChar]
        exact firstWord

end Words

section Clean

variable {text : List Char}

theorem Clean.nil : Clean [] where
  printable := List.forall_mem_nil _
  spaces := List.forall_mem_nil _
  start := (Option.some_ne_none ' ').symm
  single := by simp

theorem Clean.front {front : List Char} (clean : Clean text) (isPrefix : front <+: text) :
    Clean front where
  printable c member := clean.printable c (isPrefix.subset member)
  spaces c member := clean.spaces c (isPrefix.subset member)
  start := by
    intro leading
    cases front with
    | nil => cases leading
    | cons first rest =>
        obtain ⟨tail, rfl⟩ := isPrefix
        exact clean.start leading
  single doubled := clean.single (doubled.trans isPrefix.isInfix)

/-- A space may follow any character but a space. -/
theorem Clean.concat (clean : Clean text) {c : Char} (printed : isControl c = false)
    (spacing : isWhitespace c = true → c = ' ' ∧ text ≠ [] ∧ text.getLast? ≠ some ' ') :
    Clean (text ++ [c]) where
  printable := by simpa [or_imp, forall_and] using ⟨clean.printable, printed⟩
  spaces := by
    simpa [or_imp, forall_and] using ⟨clean.spaces, fun space => (spacing space).1⟩
  start := by
    cases text with
    | cons first rest => exact clean.start
    | nil =>
        intro leading
        cases leading
        exact (spacing rfl).2.1 rfl
  single doubled := by
    rcases List.infix_concat_iff.mp doubled with last | earlier
    · obtain ⟨front, split⟩ := last
      obtain ⟨rfl, isSpace⟩ := List.append_inj'
        ((List.append_assoc front [' '] [' ']).trans split) rfl
      cases isSpace
      exact (spacing rfl).2.2 (by simp)
    · exact clean.single earlier

/-- The loop keeps its output clean while its flag tells whether that ends in a space. -/
theorem clean_collapseWhitespace (chars : List Char) {out : List Char} {prevSpace : Bool}
    (clean : Clean out) (flagged : prevSpace = false → out.getLast? ≠ some ' ') :
    Clean (collapseWhitespace out prevSpace chars) := by
  induction chars generalizing out prevSpace with
  | nil => exact clean
  | cons ch rest inductionHypothesis =>
      rcases char_cases ch with ⟨space, _⟩ | dropped | ⟨solid, printed, _⟩
      · by_cases skipped : prevSpace = true ∨ out = []
        · rw [collapseWhitespace_skip space skipped]
          exact inductionHypothesis clean flagged
        · obtain ⟨notBehind, some_output⟩ := not_or.mp skipped
          obtain rfl := Bool.eq_false_of_not_eq_true notBehind
          rw [collapseWhitespace_space space some_output]
          have longer := clean.concat rfl fun _ => ⟨rfl, some_output, flagged rfl⟩
          exact inductionHypothesis longer nofun
      · rw [collapseWhitespace_drop dropped]
        exact inductionHypothesis clean flagged
      · rw [collapseWhitespace_push solid printed]
        refine inductionHypothesis (clean.concat printed fun space => ?_) fun _ last => ?_
        · rw [solid] at space
          cases space
        · rw [List.getLast?_concat, Option.some.injEq] at last
          rw [last] at solid
          cases solid

/-- The loop leaves clean text as it is. -/
theorem collapseWhitespace_of_clean {chars out : List Char} {prevSpace : Bool}
    (clean : Clean (out ++ chars)) (flagged : prevSpace = true → out.getLast? = some ' ') :
    collapseWhitespace out prevSpace chars = out ++ chars := by
  induction chars generalizing out prevSpace with
  | nil => rw [collapseWhitespace, List.append_nil]
  | cons ch rest inductionHypothesis =>
      have shifted : out ++ ch :: rest = (out ++ [ch]) ++ rest := by simp
      have member : ch ∈ out ++ ch :: rest := by simp
      cases solid : isWhitespace ch with
      | false =>
          rw [collapseWhitespace_push solid (clean.printable ch member), shifted]
          exact inductionHypothesis (shifted ▸ clean) nofun
      | true =>
          have isSpace := clean.spaces ch member solid
          subst isSpace
          have some_output : out ≠ [] := by
            rintro rfl
            exact clean.start rfl
          have notBehind : prevSpace = false := by
            refine Bool.eq_false_of_not_eq_true fun behind => clean.single ?_
            obtain ⟨front, rfl⟩ := List.getLast?_eq_some_iff.mp (flagged behind)
            exact ⟨front, rest, by simp⟩
          rw [notBehind, collapseWhitespace_space solid some_output, shifted]
          exact inductionHypothesis (shifted ▸ clean) fun _ => List.getLast?_concat

theorem clean_remaining (raw : List Char) : Clean (remaining raw) := by
  rw [← trimEnd_collapseWhitespace]
  exact (clean_collapseWhitespace raw Clean.nil nofun).front (List.rdropWhile_prefix _ _)

theorem trimEnd_remaining (raw : List Char) : trimEnd (remaining raw) = remaining raw := by
  rw [← trimEnd_collapseWhitespace]
  exact List.rdropWhile_idempotent _ _

theorem remaining_of_clean (clean : Clean text) (trimmed : trimEnd text = text) :
    remaining text = text := by
  have kept := @collapseWhitespace_of_clean text [] false clean nofun
  rw [← trimEnd_collapseWhitespace, kept, List.nil_append, trimmed]

end Clean

/-- `sanitize_error` cuts what remains of the error. -/
theorem sanitizeError_eq (raw : String) :
    sanitizeError raw =
      if maxErrorLen < (remaining raw.toList).length then
        String.ofList ((remaining raw.toList).take maxErrorLen ++ ['…'])
      else String.ofList (remaining raw.toList) := by
  rw [sanitizeError, trimEnd_collapseWhitespace]

/-- Clean text without a trailing space is only cut. -/
theorem sanitizeError_of_clean {text : List Char} (clean : Clean text)
    (trimmed : trimEnd text = text) :
    sanitizeError (String.ofList text) =
      if maxErrorLen < text.length then String.ofList (text.take maxErrorLen ++ ['…'])
      else String.ofList text := by
  rw [sanitizeError_eq, String.toList_ofList, remaining_of_clean clean trimmed]

/-- A sanitized error is one bounded line, a prefix of what remains of the raw one and an ellipsis
where that is longer, and stays as it is when it is sanitized again. -/
structure Sanitized (raw sanitized : String) : Prop where
  bounded : sanitized.toList.length ≤ maxErrorLen + 1
  clean : Clean sanitized.toList
  ordered : ∃ body, body <+: remaining raw.toList ∧
    (body.filter fun c => !isWhitespace c) <+:
      (raw.toList.filter fun c => !isWhitespace c && !isControl c) ∧
    sanitized.toList = body ++ if body = remaining raw.toList then [] else ['…']
  idempotent : sanitizeError sanitized = sanitized

theorem sanitizeError_sanitized (raw : String) : Sanitized raw (sanitizeError raw) := by
  have clean := clean_remaining raw.toList
  have ordered : ∀ body, body <+: remaining raw.toList →
      (body.filter fun c => !isWhitespace c) <+:
        (raw.toList.filter fun c => !isWhitespace c && !isControl c) := by
    intro body isPrefix
    rw [← filter_remaining]
    exact isPrefix.filter _
  rw [sanitizeError_eq]
  split
  next long =>
    have isPrefix := List.take_prefix maxErrorLen (remaining raw.toList)
    have bodyLength : ((remaining raw.toList).take maxErrorLen).length = maxErrorLen :=
      List.length_take_of_le (Nat.le_of_lt long)
    have shorter : (remaining raw.toList).take maxErrorLen ≠ remaining raw.toList := by
      intro whole
      rw [whole] at bodyLength
      omega
    have cutClean := (clean.front isPrefix).concat (c := '…') rfl nofun
    have cutTrimmed : trimEnd ((remaining raw.toList).take maxErrorLen ++ ['…']) =
        (remaining raw.toList).take maxErrorLen ++ ['…'] :=
      List.rdropWhile_concat_neg _ _ _ nofun
    refine ⟨?_, ?_, ⟨_, isPrefix, ordered _ isPrefix, ?_⟩, ?_⟩
    · simp [bodyLength]
    · rwa [String.toList_ofList]
    · rw [if_neg shorter, String.toList_ofList]
    · have stillLong : maxErrorLen < ((remaining raw.toList).take maxErrorLen ++ ['…']).length := by
        simp [bodyLength]
      rw [sanitizeError_of_clean cutClean cutTrimmed, if_pos stillLong,
        List.take_left' bodyLength]
  next short =>
    have isPrefix := List.prefix_rfl (l := remaining raw.toList)
    refine ⟨?_, ?_, ⟨_, isPrefix, ordered _ isPrefix, ?_⟩, ?_⟩
    · rw [String.toList_ofList]
      omega
    · rwa [String.toList_ofList]
    · rw [if_pos rfl, String.toList_ofList, List.append_nil]
    · rw [sanitizeError_of_clean clean (trimEnd_remaining raw.toList), if_neg short]

end Scryd.Search
