import Scryd.Foundation.Trim
import Scryd.Mime.References

/-!
# Normal forms of Message-IDs

`normalize_message_id` strips one layer of brackets and the white space on both
sides of it.  What it leaves is a normal form unless another bracket stood
behind that white space.
-/

namespace Scryd.Mime

open Scryd.Foundation

/-- A Message-ID as the threading lookup compares it. -/
structure NormalForm (id : List Char) : Prop where
  separated : '@' ∈ id
  noOpen : id.head? ≠ some '<'
  noClose : id.getLast? ≠ some '>'
  noLeading : ∀ c, id.head? = some c → isWhitespace c = false
  noTrailing : ∀ c, id.getLast? = some c → isWhitespace c = false

/-- What surrounds an id: white space and the bracket of its side. -/
def surrounds (mark c : Char) : Bool := isWhitespace c || c == mark

/-- The id in a header, without any brackets and white space around it. -/
def bare (raw : List Char) : List Char := (raw.dropWhile (surrounds '<')).rdropWhile (surrounds '>')

/-- A bracket behind white space behind brackets, at the start of a text. -/
def BracketsTwice (mark : Char) (chars : List Char) : Prop :=
  ∃ padding brackets gap rest, chars = padding ++ (brackets ++ (gap ++ mark :: rest)) ∧
    (∀ c ∈ padding, isWhitespace c = true) ∧ brackets ≠ [] ∧ (∀ c ∈ brackets, c = mark) ∧
    gap ≠ [] ∧ ∀ c ∈ gap, isWhitespace c = true

/-- An id with at most one layer of brackets. -/
def Flat (raw : List Char) : Prop :=
  '@' ∈ raw → ¬ BracketsTwice '<' raw ∧ ¬ BracketsTwice '>' raw.reverse

section Trim

/-- The start of a text as `normalize_message_id` trims it. -/
def unwrap (mark : Char) (chars : List Char) : List Char :=
  trimStart (trimStartMatches mark (trimStart chars))

/-- The three layers that are trimmed. -/
theorem unwrap_split (mark : Char) (chars : List Char) :
    chars.takeWhile isWhitespace ++ (((trimStart chars).takeWhile fun c => c == mark) ++
      ((trimStartMatches mark (trimStart chars)).takeWhile isWhitespace ++
        unwrap mark chars)) = chars := by
  have inGap : (trimStartMatches mark (trimStart chars)).takeWhile isWhitespace ++
      unwrap mark chars = trimStartMatches mark (trimStart chars) :=
    List.takeWhile_append_dropWhile
  have inBrackets : ((trimStart chars).takeWhile fun c => c == mark) ++
      trimStartMatches mark (trimStart chars) = trimStart chars :=
    List.takeWhile_append_dropWhile
  rw [inGap, inBrackets]
  exact List.takeWhile_append_dropWhile

/-- Brackets stand twice exactly when trimming the start leaves one. -/
theorem bracketsTwice_iff {mark : Char} (solid : isWhitespace mark = false) (chars : List Char) :
    BracketsTwice mark chars ↔ (unwrap mark chars).head? = some mark := by
  constructor
  · rintro ⟨padding, brackets, gap, rest, rfl, spaces, some_bracket, marks, some_gap, gapSpaces⟩
    obtain ⟨bracket, others, rfl⟩ := List.exists_cons_of_ne_nil some_bracket
    obtain ⟨space, more, rfl⟩ := List.exists_cons_of_ne_nil some_gap
    obtain rfl := marks bracket List.mem_cons_self
    have spacing := gapSpaces space List.mem_cons_self
    have apart : (space == bracket) = false := by
      refine beq_eq_false_iff_ne.mpr ?_
      rintro rfl
      rw [solid] at spacing
      cases spacing
    have atBrackets : trimStart (padding ++ (bracket :: others ++
        (space :: more ++ bracket :: rest))) =
          bracket :: others ++ (space :: more ++ bracket :: rest) :=
      dropWhile_append_eq spaces (by simpa using solid)
    have atGap : trimStartMatches bracket (bracket :: others ++
        (space :: more ++ bracket :: rest)) = space :: more ++ bracket :: rest :=
      dropWhile_append_eq (by simpa using marks) (by simpa using apart)
    have behindGap : trimStart (space :: more ++ bracket :: rest) = bracket :: rest :=
      dropWhile_append_eq gapSpaces (by simpa using solid)
    rw [unwrap, atBrackets, atGap, behindGap, List.head?_cons]
  · intro first
    obtain ⟨rest, unwrapped⟩ := List.head?_eq_some_iff.mp first
    refine ⟨chars.takeWhile isWhitespace, (trimStart chars).takeWhile fun c => c == mark,
      (trimStartMatches mark (trimStart chars)).takeWhile isWhitespace, rest, ?_, ?_, ?_, ?_, ?_,
      ?_⟩
    · rw [← unwrapped, unwrap_split]
    · exact fun c member => List.mem_takeWhile_imp member
    · intro none_taken
      have untrimmed := dropWhile_eq_self_of_takeWhile none_taken
      have trimmed : trimStart chars = mark :: rest := by
        rw [← unwrapped, unwrap, trimStartMatches, untrimmed]
        exact (List.dropWhile_idempotent _ _).symm
      rw [trimmed] at none_taken
      simp at none_taken
    · exact fun c member => by simpa using List.mem_takeWhile_imp member
    · intro none_taken
      have untrimmed := dropWhile_eq_self_of_takeWhile none_taken
      have marked : (trimStartMatches mark (trimStart chars)).head? = some mark := by
        rw [← untrimmed]
        exact first
      exact absurd (not_of_head?_dropWhile marked) (by simp)
    · exact fun c member => List.mem_takeWhile_imp member

/-- Otherwise everything that surrounds the id is trimmed. -/
theorem unwrap_eq_dropWhile {mark : Char} {chars : List Char}
    (flat : (unwrap mark chars).head? ≠ some mark) :
    unwrap mark chars = chars.dropWhile (surrounds mark) := by
  have spaces : ∀ text : List Char, ∀ c ∈ text.takeWhile isWhitespace, surrounds mark c = true :=
    fun text c member => Bool.or_eq_true_iff.mpr (.inl (List.mem_takeWhile_imp member))
  have brackets : ∀ c ∈ (trimStart chars).takeWhile (fun c => c == mark),
      surrounds mark c = true := by
    intro c member
    have isMark : (c == mark) = true :=
      List.mem_takeWhile_imp (p := fun c => c == mark) member
    exact Bool.or_eq_true_iff.mpr (.inr isMark)
  have stops : ∀ c, (unwrap mark chars).head? = some c → surrounds mark c = false := by
    intro c first
    have solid : isWhitespace c = false := not_of_head?_dropWhile first
    have notMark : c ≠ mark := by
      rintro rfl
      exact flat first
    simp [surrounds, solid, notMark]
  conv_rhs => rw [← unwrap_split mark chars]
  rw [List.dropWhile_append_of_pos (spaces _), List.dropWhile_append_of_pos brackets,
    dropWhile_append_eq (spaces _) stops]

/-- What `normalize_message_id` leaves before it lowercases. -/
def trimmedId (raw : List Char) : List Char :=
  trim (trimEndMatches '>' (trimStartMatches '<' (trim raw)))

/-- A separator is between what is trimmed at the start and at the end. -/
theorem trimmedId_split (front back : List Char) :
    trimmedId (front ++ '@' :: back) =
      unwrap '<' front ++ '@' :: (unwrap '>' back.reverse).reverse := by
  have trims : ∀ front back : List Char,
      trim (front ++ '@' :: back) = trimStart front ++ '@' :: back.rdropWhile isWhitespace := by
    intro front back
    have atStart := @dropWhile_append_stop _ isWhitespace '@' rfl front back
    have atEnd := @rdropWhile_append_stop _ isWhitespace '@' rfl (trimStart front) back
    rw [← atEnd, trimStart, ← atStart]
    rfl
  have opened : ∀ front back : List Char,
      trimStartMatches '<' (front ++ '@' :: back) = trimStartMatches '<' front ++ '@' :: back :=
    dropWhile_append_stop rfl
  have closed : ∀ front back : List Char, trimEndMatches '>' (front ++ '@' :: back) =
      front ++ '@' :: back.rdropWhile fun c => c == '>' :=
    rdropWhile_append_stop rfl
  rw [trimmedId, trims, opened, closed, trims, unwrap, unwrap]
  simp only [List.rdropWhile, List.reverse_reverse, trimStart, trimStartMatches]

theorem bare_split (front back : List Char) :
    bare (front ++ '@' :: back) =
      front.dropWhile (surrounds '<') ++ '@' :: back.rdropWhile (surrounds '>') := by
  rw [bare, dropWhile_append_stop (by decide), rdropWhile_append_stop (by decide)]

theorem bracketsTwice_append_iff {mark : Char} (solid : isWhitespace mark = false)
    (other : '@' ≠ mark) (front back : List Char) :
    BracketsTwice mark (front ++ '@' :: back) ↔ (unwrap mark front).head? = some mark := by
  have split : unwrap mark (front ++ '@' :: back) = unwrap mark front ++ '@' :: back := by
    have stops : ('@' == mark) = false := beq_eq_false_iff_ne.mpr other
    simp only [unwrap, trimStart, trimStartMatches, @dropWhile_append_stop _ isWhitespace '@' rfl,
      @dropWhile_append_stop _ (fun c => c == mark) '@' stops]
  rw [bracketsTwice_iff solid, split, List.head?_append]
  cases (unwrap mark front).head? with
  | none => simpa using other
  | some c => rfl

theorem flat_iff (front back : List Char) :
    Flat (front ++ '@' :: back) ↔
      (unwrap '<' front).head? ≠ some '<' ∧ (unwrap '>' back.reverse).head? ≠ some '>' := by
  have reversed : (front ++ '@' :: back).reverse = back.reverse ++ '@' :: front.reverse := by
    simp
  have separated : '@' ∈ front ++ '@' :: back := by simp
  rw [Flat, reversed, bracketsTwice_append_iff rfl (by decide),
    bracketsTwice_append_iff rfl (by decide)]
  exact imp_iff_right separated

/-- Without white space there is no gap between brackets. -/
theorem flat_of_solid {raw : List Char} (solid : ∀ c ∈ raw, isWhitespace c = false) : Flat raw := by
  have once : ∀ (mark : Char) (chars : List Char), (∀ c ∈ chars, isWhitespace c = false) →
      ¬ BracketsTwice mark chars := by
    rintro mark chars noSpace ⟨padding, brackets, gap, rest, rfl, _, _, _, some_gap, spaces⟩
    obtain ⟨c, member⟩ := List.exists_mem_of_ne_nil gap some_gap
    have apart := noSpace c (by simp [member])
    rw [spaces c member] at apart
    cases apart
  exact fun _ => ⟨once '<' raw solid, once '>' raw.reverse fun c member =>
    solid c (List.mem_reverse.mp member)⟩

theorem trimmedId_of_flat {raw : List Char} (separated : '@' ∈ raw) (flat : Flat raw) :
    trimmedId raw = bare raw := by
  obtain ⟨front, back, rfl⟩ := List.append_of_mem separated
  obtain ⟨openFlat, closeFlat⟩ := (flat_iff front back).mp flat
  rw [trimmedId_split, bare_split, unwrap_eq_dropWhile openFlat, unwrap_eq_dropWhile closeFlat,
    List.rdropWhile]

theorem separator_mem_trimmedId_iff (raw : List Char) : '@' ∈ trimmedId raw ↔ '@' ∈ raw := by
  have trims : ∀ text, (trim text).Sublist text := fun text =>
    (List.rdropWhile_prefix _ _).sublist.trans (List.dropWhile_sublist _)
  constructor
  · intro member
    have opened := (List.dropWhile_sublist fun c => c == '<').trans (trims raw)
    have closed := (List.rdropWhile_prefix (fun c => c == '>') _).sublist.trans opened
    exact ((trims _).trans closed).subset member
  · intro separated
    obtain ⟨front, back, rfl⟩ := List.append_of_mem separated
    rw [trimmedId_split]
    exact List.mem_append_right _ List.mem_cons_self

theorem separator_mem_bare_iff (raw : List Char) : '@' ∈ bare raw ↔ '@' ∈ raw := by
  constructor
  · intro member
    exact (List.dropWhile_sublist _).subset ((List.rdropWhile_prefix _ _).subset member)
  · intro separated
    obtain ⟨front, back, rfl⟩ := List.append_of_mem separated
    rw [bare_split]
    exact List.mem_append_right _ List.mem_cons_self

theorem not_surrounds_of_getLast?_bare {raw : List Char} {c : Char}
    (last : (bare raw).getLast? = some c) : surrounds '>' c = false :=
  not_of_getLast?_rdropWhile last

theorem not_surrounds_of_head?_bare {raw : List Char} (separated : '@' ∈ raw) {c : Char}
    (first : (bare raw).head? = some c) : surrounds '<' c = false := by
  obtain ⟨front, back, rfl⟩ := List.append_of_mem separated
  rw [bare_split, ← dropWhile_append_stop (by decide)] at first
  exact not_of_head?_dropWhile first

/-- Ids are rejected that have no separator. -/
theorem normalizeMessageId_eq (toLowercase : String → String) (raw : String) :
    normalizeMessageId toLowercase raw =
      if '@' ∈ raw.toList then some (toLowercase (String.ofList (trimmedId raw.toList)))
      else none := by
  rw [normalizeMessageId, ← trimmedId]
  by_cases separated : '@' ∈ raw.toList
  · have kept := (separator_mem_trimmedId_iff raw.toList).mpr separated
    have some_char : (trimmedId raw.toList).isEmpty = false := by
      simpa using List.ne_nil_of_mem kept
    rw [if_pos separated, some_char, List.contains_iff_mem.mpr kept]
    rfl
  · have lost := mt (separator_mem_trimmedId_iff raw.toList).mp separated
    rw [if_neg separated, if_pos]
    simp [lost]

end Trim

section Lowercased

/-- A character by which ids are trimmed or recognised. -/
def IsSeparator (c : Char) : Prop := isWhitespace c = true ∨ c ∈ ['<', '>', '@']

instance (c : Char) : Decidable (IsSeparator c) :=
  inferInstanceAs (Decidable (isWhitespace c = true ∨ c ∈ ['<', '>', '@']))

/-- Lowercasing makes no separator of another character. -/
def KeepsSeparators (table : LowercaseTable) : Prop :=
  ∀ c, ∀ d ∈ table.lower c, IsSeparator d → d = c

variable {table : LowercaseTable}

theorem eq_of_mem_lowerBetween (keeps : KeepsSeparators table) {before after : List Char}
    {c d : Char} (separator : IsSeparator d) (mapped : d ∈ table.lowerBetween before c after) :
    d = c := by
  unfold LowercaseTable.lowerBetween at mapped
  split at mapped
  · rw [List.mem_singleton] at mapped
    split at mapped
    · subst mapped
      exact absurd separator (by decide)
    · subst mapped
      exact absurd separator (by decide)
  · exact keeps c d mapped separator

/-- The ASCII separators are their own lowercase. -/
theorem lowerBetween_separator {mark : Char} (isMark : mark ∈ ['<', '>', '@'])
    (before after : List Char) : table.lowerBetween before mark after = [mark] := by
  simp only [List.mem_cons, List.not_mem_nil, or_false] at isMark
  rcases isMark with rfl | rfl | rfl
  · exact table.ascii '<' (by decide)
  · exact table.ascii '>' (by decide)
  · exact table.ascii '@' (by decide)

theorem head?_of_head?_toLowercase (keeps : KeepsSeparators table) {d : Char}
    (separator : IsSeparator d) {text : List Char}
    (first : (toLowercase table text).head? = some d) : text.head? = some d := by
  cases text with
  | nil => cases first
  | cons c rest =>
      rw [toLowercase, lowercaseFrom,
        List.head?_append_of_ne_nil _ (table.lowerBetween_ne_nil _ _ _)] at first
      rw [eq_of_mem_lowerBetween keeps separator (List.mem_of_head? first), List.head?_cons]

theorem getLast?_of_getLast?_toLowercase (keeps : KeepsSeparators table) {d : Char}
    (separator : IsSeparator d) {text : List Char}
    (last : (toLowercase table text).getLast? = some d) : text.getLast? = some d := by
  rcases List.eq_nil_or_concat' text with rfl | ⟨rest, c, rfl⟩
  · cases last
  · obtain ⟨front, earlier, split⟩ := @lowercaseFrom_concat table [] rest c
    rw [toLowercase, split,
      List.getLast?_append_of_ne_nil _ (table.lowerBetween_ne_nil _ _ _)] at last
    rw [eq_of_mem_lowerBetween keeps separator (List.mem_of_getLast? last), List.getLast?_concat]

theorem head?_toLowercase_separator {mark : Char} (isMark : mark ∈ ['<', '>', '@'])
    (rest : List Char) : (toLowercase table (mark :: rest)).head? = some mark := by
  rw [toLowercase, lowercaseFrom, lowerBetween_separator isMark, List.singleton_append,
    List.head?_cons]

theorem getLast?_toLowercase_separator {mark : Char} (isMark : mark ∈ ['<', '>', '@'])
    (text : List Char) : (toLowercase table (text ++ [mark])).getLast? = some mark := by
  obtain ⟨front, earlier, split⟩ := @lowercaseFrom_concat table [] text mark
  rw [toLowercase, split, lowerBetween_separator isMark, List.getLast?_concat]

theorem separator_mem_toLowercase_iff (keeps : KeepsSeparators table) (text : List Char) :
    '@' ∈ toLowercase table text ↔ '@' ∈ text := by
  constructor
  · intro member
    obtain ⟨_, c, inText, _, mapped⟩ := mem_lowercaseFrom member
    rwa [eq_of_mem_lowerBetween keeps (.inr (by decide)) mapped]
  · rw [toLowercase]
    generalize [] = before
    induction text generalizing before with
    | nil => exact id
    | cons c rest inductionHypothesis =>
        intro member
        rw [lowercaseFrom, List.mem_append]
        rcases List.mem_cons.mp member with rfl | later
        · left
          rw [lowerBetween_separator (by decide)]
          exact List.mem_singleton_self _
        · exact .inr (inductionHypothesis _ later)

end Lowercased

/-- Every id that `normalize_message_id` makes of a header is a normal form and stays as it is. -/
def Normalizes (table : LowercaseTable) (raw : String) : Prop :=
  ∀ id, normalizeMessageId table.apply raw = some id →
    NormalForm id.toList ∧ normalizeMessageId table.apply id = some id

/-- A text that mentions the id of a header, in any case, brackets and white space. -/
def Mentions (table : LowercaseTable) (mention header : String) : Prop :=
  toLowercase table (bare mention.toList) = toLowercase table (bare header.toList)

/-- A header and a text have normal forms, the same one if the text mentions the header's id. -/
structure OneKey (table : LowercaseTable) (header mention : String) : Prop where
  ofHeader : Normalizes table header
  ofMention : Normalizes table mention
  same : Mentions table mention header →
    normalizeMessageId table.apply mention = normalizeMessageId table.apply header

section Keys

variable {table : LowercaseTable}

/-- A flat header is normalized to the lowercase of its bare id. -/
theorem normalizeMessageId_of_flat {raw : String} (separated : '@' ∈ raw.toList)
    (flat : Flat raw.toList) :
    normalizeMessageId table.apply raw =
      some (String.ofList (toLowercase table (bare raw.toList))) := by
  rw [normalizeMessageId_eq, if_pos separated, trimmedId_of_flat separated flat,
    LowercaseTable.apply, String.toList_ofList]

theorem NormalForm.trimmedId_eq {id : List Char} (normal : NormalForm id) : trimmedId id = id := by
  have started : trimStart id = id := dropWhile_eq_self normal.noLeading
  have trimmed : trim id = id := by
    rw [trim, started]
    exact rdropWhile_eq_self normal.noTrailing
  have opened : trimStartMatches '<' id = id := by
    refine dropWhile_eq_self fun c first => beq_eq_false_iff_ne.mpr ?_
    rintro rfl
    exact normal.noOpen first
  have closed : trimEndMatches '>' id = id := by
    refine rdropWhile_eq_self fun c last => beq_eq_false_iff_ne.mpr ?_
    rintro rfl
    exact normal.noClose last
  rw [trimmedId, trimmed, opened, closed, trimmed]

/-- The lowercase of a bare id is a normal form. -/
theorem normalForm_bare (keeps : KeepsSeparators table) {raw : List Char}
    (separated : '@' ∈ raw) : NormalForm (toLowercase table (bare raw)) where
  separated :=
    (separator_mem_toLowercase_iff keeps _).mpr ((separator_mem_bare_iff raw).mpr separated)
  noOpen first := by
    have bareFirst := head?_of_head?_toLowercase keeps (.inr (by decide)) first
    exact absurd (not_surrounds_of_head?_bare separated bareFirst) (by decide)
  noClose last := by
    have bareLast := getLast?_of_getLast?_toLowercase keeps (.inr (by decide)) last
    exact absurd (not_surrounds_of_getLast?_bare bareLast) (by decide)
  noLeading c first := by
    by_contra space
    have spacing := Bool.eq_true_of_not_eq_false space
    have bareFirst := head?_of_head?_toLowercase keeps (.inl spacing) first
    have apart := not_surrounds_of_head?_bare separated bareFirst
    simp [surrounds, spacing] at apart
  noTrailing c last := by
    by_contra space
    have spacing := Bool.eq_true_of_not_eq_false space
    have bareLast := getLast?_of_getLast?_toLowercase keeps (.inl spacing) last
    have apart := not_surrounds_of_getLast?_bare bareLast
    simp [surrounds, spacing] at apart

/-- One bracket too many at the start or the end of what is trimmed is still there in the id. -/
theorem flat_of_normalForm {raw : List Char}
    (normal : '@' ∈ raw → NormalForm (toLowercase table (trimmedId raw))) : Flat raw := by
  by_cases separated : '@' ∈ raw
  · have isNormal := normal separated
    obtain ⟨front, back, rfl⟩ := List.append_of_mem separated
    rw [trimmedId_split] at isNormal
    refine (flat_iff front back).mpr ⟨fun first => ?_, fun last => ?_⟩
    · obtain ⟨rest, opened⟩ := List.head?_eq_some_iff.mp first
      rw [opened] at isNormal
      exact isNormal.noOpen (head?_toLowercase_separator (by decide) _)
    · obtain ⟨rest, closed⟩ := List.head?_eq_some_iff.mp last
      rw [closed, List.reverse_cons, ← List.cons_append, ← List.append_assoc] at isNormal
      exact isNormal.noClose (getLast?_toLowercase_separator (by decide) _)
  · exact fun member => absurd member separated

theorem normalizes_iff (stable : table.Stable) (keeps : KeepsSeparators table) (raw : String) :
    Normalizes table raw ↔ Flat raw.toList := by
  constructor
  · intro normalizes
    apply flat_of_normalForm
    intro separated
    have normalized := normalizeMessageId_eq table.apply raw
    rw [if_pos separated] at normalized
    have normal := (normalizes _ normalized).1
    rwa [LowercaseTable.apply, String.toList_ofList, String.toList_ofList] at normal
  · intro flat id normalized
    by_cases separated : '@' ∈ raw.toList
    · rw [normalizeMessageId_of_flat separated flat] at normalized
      cases normalized
      have normal := normalForm_bare keeps separated
      rw [String.toList_ofList]
      refine ⟨normal, ?_⟩
      rw [normalizeMessageId_eq, String.toList_ofList, if_pos normal.separated,
        normal.trimmedId_eq, LowercaseTable.apply, String.toList_ofList,
        toLowercase_toLowercase stable]
    · rw [normalizeMessageId_eq, if_neg separated] at normalized
      cases normalized

/-- Header and mention have one normal form exactly when each has at most one layer of brackets. -/
theorem oneKey_iff (stable : table.Stable) (keeps : KeepsSeparators table)
    (header mention : String) :
    OneKey table header mention ↔ Flat header.toList ∧ Flat mention.toList := by
  constructor
  · intro oneKey
    exact ⟨(normalizes_iff stable keeps header).mp oneKey.ofHeader,
      (normalizes_iff stable keeps mention).mp oneKey.ofMention⟩
  · rintro ⟨headerFlat, mentionFlat⟩
    refine ⟨(normalizes_iff stable keeps header).mpr headerFlat,
      (normalizes_iff stable keeps mention).mpr mentionFlat, fun mentions => ?_⟩
    have sameSeparator : '@' ∈ mention.toList ↔ '@' ∈ header.toList := by
      rw [← separator_mem_bare_iff mention.toList, ← separator_mem_toLowercase_iff keeps,
        mentions, separator_mem_toLowercase_iff keeps, separator_mem_bare_iff]
    by_cases separated : '@' ∈ header.toList
    · rw [normalizeMessageId_of_flat separated headerFlat,
        normalizeMessageId_of_flat (sameSeparator.mpr separated) mentionFlat, mentions]
    · rw [normalizeMessageId_eq, normalizeMessageId_eq, if_neg separated,
        if_neg (mt sameSeparator.mp separated)]

/-- White space has no place in a token of a references header, so its ids are normal forms. -/
theorem normalizes_of_mem_normalizeReferences (stable : table.Stable)
    (keeps : KeepsSeparators table) {raw id : String}
    (listed : id ∈ normalizeReferences table.apply raw) :
    NormalForm id.toList ∧ normalizeMessageId table.apply id = some id := by
  obtain ⟨token, isToken, normalized⟩ := List.mem_filterMap.mp listed
  have solid : ∀ c ∈ (String.ofList token).toList, isWhitespace c = false := by
    rw [String.toList_ofList]
    exact solid_of_mem_wordsFrom (List.forall_mem_nil _) isToken
  exact (normalizes_iff stable keeps (String.ofList token)).mpr (flat_of_solid solid) id normalized

end Keys

section Sample

/-- The mappings of the ASCII characters. -/
def asciiTable : LowercaseTable where
  lower c := if c = 'Σ' then ['σ'] else [asciiLower c]
  finalSigma _ _ := false
  nonempty c := by
    split <;> exact List.cons_ne_nil _ _
  ascii c below := by
    apply if_neg
    rintro rfl
    exact absurd below (by decide)
  sigma := rfl

theorem asciiTable_stable : asciiTable.Stable where
  finalSigma := rfl
  once c d member := by
    simp only [asciiTable] at member ⊢
    split at member
    · rw [List.mem_singleton.mp member]
      rfl
    next other =>
      rw [List.mem_singleton.mp member]
      by_cases ascii : c.toNat < 0x80
      · obtain ⟨below, folded⟩ := asciiLower_ascii ascii
        rw [if_neg, folded]
        intro isSigma
        rw [isSigma] at below
        exact absurd below (by decide)
      · rw [asciiLower_of_not_ascii (Nat.le_of_not_lt ascii), if_neg other,
          asciiLower_of_not_ascii (Nat.le_of_not_lt ascii)]

/-- No separator is a letter. -/
theorem IsSeparator.not_letter {c : Char} (separator : IsSeparator c) :
    ¬ ('a' ≤ c ∧ c ≤ 'z') := by
  rintro ⟨fromLow, upTo⟩
  have low : 0x61 ≤ c.toNat := fromLow
  have high : c.toNat ≤ 0x7A := upTo
  rcases separator with space | marks
  · simp only [isWhitespace, Bool.or_eq_true, Bool.and_eq_true, decide_eq_true_eq,
      beq_iff_eq] at space
    omega
  · simp only [List.mem_cons, List.not_mem_nil, or_false] at marks
    rcases marks with rfl | rfl | rfl <;> exact absurd low (by decide)

theorem asciiTable_keepsSeparators : KeepsSeparators asciiTable := by
  intro c d member separator
  simp only [asciiTable] at member
  split at member
  · rw [List.mem_singleton.mp member] at separator
    exact absurd separator (by decide)
  · exact (eq_of_asciiLower (List.mem_singleton.mp member).symm separator.not_letter).symm

theorem oneKey_bracketed : OneKey asciiTable "<A@b>" " < a@B > " := by
  refine (oneKey_iff asciiTable_stable asciiTable_keepsSeparators _ _).mpr
    ⟨fun _ => ?_, fun _ => ?_⟩
  · rw [bracketsTwice_iff rfl, bracketsTwice_iff rfl]
    decide
  · rw [bracketsTwice_iff rfl, bracketsTwice_iff rfl]
    decide

/-- A bracket behind a gap stays on the id, which then is another key. -/
theorem bracket_behind_gap_kept : ¬ OneKey asciiTable "a@b" "< <a@b>" := by
  intro oneKey
  exact absurd (oneKey.same rfl) (by decide)

end Sample

end Scryd.Mime
