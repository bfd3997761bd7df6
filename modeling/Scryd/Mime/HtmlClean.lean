import Scryd.Foundation.Scan
import Scryd.Foundation.Text
import Mathlib.Data.List.Nodup
import Mathlib.Logic.Function.Iterate

/-!
# The pass over HTML before it becomes Markdown

`pre_clean` removes the matches of eight patterns, one pattern after the other.
Each removal may join the text around a match into another one.
-/

namespace Scryd.Mime

open Scryd.Foundation

/-- Which characters are word characters: Unicode's `\w`. -/
structure WordTable where
  isWord : Char → Bool
  ascii : ∀ c, c.toNat < 0x80 → isWord c = (c.isAlphanum || c == '_')

section Patterns

/-- A literal character of a case-insensitive pattern.  The long s folds to an s. -/
def letter (c : Char) : Item :=
  .one fun d => asciiLower d == c || (c == 's' && d == Char.ofNat 0x17F)

def literal (text : String) : List Item := text.toList.map letter

/-- `\s*` -/
def spaces : Item := .greedy isWhitespace

/-- `[^>]*` -/
def insideTag : Item := .greedy fun c => c != '>'

/-- `["']?` -/
def maybeQuote : Item := .opt fun c => c == '"' || c == '\''

def openAngle (c : Char) : Bool := c == '<'

/-- `SCRIPT_BLOCK`, `STYLE_BLOCK` and `HEAD_BLOCK`: an element with its content. -/
def elementBlock (name : String) : Pattern where
  first := openAngle
  rest := literal name ++ [.boundary, insideTag] ++ literal ">" ++ [.lazy fun _ => true] ++
    literal "</" ++ literal name ++ [spaces] ++ literal ">"

def scriptBlock : Pattern := elementBlock "script"

def styleBlock : Pattern := elementBlock "style"

def headBlock : Pattern := elementBlock "head"

/-- `COMMENT` -/
def comment : Pattern where
  first := openAngle
  rest := literal "!--" ++ [.lazy fun _ => true] ++ literal "-->"

/-- `\s*=\s*["']?[01]["']?` after the name of an attribute. -/
def tinySize (name : String) : List Item :=
  literal name ++ [spaces] ++ literal "=" ++
    [spaces, maybeQuote, .one fun c => c == '0' || c == '1', maybeQuote]

/-- `TINY_IMG_WH` and `TINY_IMG_HW`. -/
def tinyImage (earlier later : String) : Pattern where
  first := openAngle
  rest := literal "img" ++ [.boundary, insideTag, .boundary] ++ tinySize earlier ++
    [insideTag, .boundary] ++ tinySize later ++
    [insideTag, .opt fun c => c == '/', spaces] ++ literal ">"

def tinyImgWh : Pattern := tinyImage "width" "height"

def tinyImgHw : Pattern := tinyImage "height" "width"

/-- `STYLE_ATTR_DQ` and `STYLE_ATTR_SQ`. -/
def styleAttr (quote : Char) : Pattern where
  first := isWhitespace
  rest := [spaces] ++ literal "style" ++ [spaces] ++ literal "=" ++
    [spaces, .one fun c => c == quote, .greedy fun c => c != quote, .one fun c => c == quote]

def styleAttrDq : Pattern := styleAttr '"'

def styleAttrSq : Pattern := styleAttr '\''

def blockPatterns : List Pattern := [scriptBlock, styleBlock, headBlock, comment]

def tinyPatterns : List Pattern := [tinyImgWh, tinyImgHw]

def stylePatterns : List Pattern := [styleAttrDq, styleAttrSq]

end Patterns

section Cleaning

universe u

variable {α : Type u} (read : α → Char) (words : WordTable)

/-- The removals of several patterns, one after the other. -/
def removeEach (patterns : List Pattern) (text : List α) : List α :=
  patterns.foldl (fun s pattern => removeAll read words.isWord pattern s) text

def cleanPatterns : List Pattern := blockPatterns ++ tinyPatterns ++ stylePatterns

/-- `pre_clean`. -/
def preClean (html : String) : String :=
  String.ofList (removeEach id words cleanPatterns html.toList)

variable {read words}

theorem removeEach_append (first second : List Pattern) (text : List α) :
    removeEach read words (first ++ second) text =
      removeEach read words second (removeEach read words first text) := List.foldl_append

theorem removeEach_sublist (read : α → Char) (words : WordTable) (patterns : List Pattern)
    (text : List α) :
    (removeEach read words patterns text).Sublist text := by
  induction patterns generalizing text with
  | nil => exact List.Sublist.refl text
  | cons pattern patterns inductionHypothesis =>
      exact (inductionHypothesis _).trans (removeAll_sublist text)

/-- What is removed depends on the characters only. -/
theorem removeEach_map (patterns : List Pattern) (text : List α) :
    (removeEach read words patterns text).map read =
      removeEach id words patterns (text.map read) := by
  induction patterns generalizing text with
  | nil => rfl
  | cons pattern patterns inductionHypothesis =>
      rw [removeEach, removeEach, List.foldl_cons, List.foldl_cons]
      unfold removeEach at inductionHypothesis
      rw [inductionHypothesis, removeAll_map, Function.id_comp]

/-- Nothing is removed exactly when no pattern matches. -/
theorem removeEach_eq_iff (read : α → Char) (words : WordTable) (patterns : List Pattern)
    (text : List α) :
    removeEach read words patterns text = text ↔
      ∀ pattern ∈ patterns, ¬ MatchIn words.isWord pattern none (text.map read) := by
  induction patterns generalizing text with
  | nil => simp [removeEach]
  | cons pattern patterns inductionHypothesis =>
      have step : removeEach read words (pattern :: patterns) text =
          removeEach read words patterns (removeAll read words.isWord pattern text) := rfl
      rw [List.forall_mem_cons, ← removeAll_eq_iff, step]
      constructor
      · intro same
        -- Later removals do not put back what the first one takes.
        have kept : removeAll read words.isWord pattern text = text := by
          apply (removeAll_sublist text).eq_of_length_le
          have later := (removeEach_sublist read words patterns
            (removeAll read words.isWord pattern text)).length_le
          rwa [same] at later
        rw [kept] at same
        exact ⟨kept, (inductionHypothesis text).mp same⟩
      · rintro ⟨kept, later⟩
        rw [kept]
        exact (inductionHypothesis text).mpr later

/-- One search after the other, each of what the one before has kept. -/
def Searches (read : α → Char) (words : WordTable) : List Pattern → List α → List α → Prop
  | [], text, left => left = text
  | pattern :: patterns, text, left =>
      ∃ kept taken, Scan read words.isWord pattern text kept taken ∧
        Searches read words patterns kept left

theorem searches_iff {patterns : List Pattern} {text left : List α} :
    Searches read words patterns text left ↔ left = removeEach read words patterns text := by
  induction patterns generalizing text with
  | nil => exact Iff.rfl
  | cons pattern patterns inductionHypothesis =>
      constructor
      · rintro ⟨kept, taken, scan, later⟩
        rw [inductionHypothesis.mp later, scan.kept_eq]
        rfl
      · intro same
        obtain ⟨taken, scan⟩ := exists_scan read words.isWord pattern text
        exact ⟨_, taken, scan, inductionHypothesis.mpr same⟩

theorem closed_of_bracket {pattern : Pattern} {items : List Item}
    (ends : pattern.rest = items ++ literal ">") : pattern.Closed := by
  refine ⟨.one pattern.first :: items, fun d => asciiLower d == '>' || ('>' == 's' &&
    d == Char.ofNat 0x17F), ?_⟩
  rw [Pattern.items, ends]
  rfl

theorem elementBlock_closed (name : String) : (elementBlock name).Closed := closed_of_bracket rfl

theorem tinyImage_closed (earlier later : String) : (tinyImage earlier later).Closed :=
  closed_of_bracket rfl

theorem comment_closed : comment.Closed := by
  have dashes : literal "-->" = literal "--" ++ literal ">" := rfl
  apply closed_of_bracket
  rw [comment, dashes, ← List.append_assoc]

theorem styleAttr_closed (quote : Char) : (styleAttr quote).Closed := by
  refine ⟨.one isWhitespace :: ([spaces] ++ literal "style" ++ [spaces] ++ literal "=" ++
    [spaces, .one fun c => c == quote, .greedy fun c => c != quote]), fun c => c == quote, ?_⟩
  simp only [Pattern.items, styleAttr, List.append_assoc, List.cons_append, List.nil_append]

theorem cleanPatterns_closed : ∀ pattern ∈ cleanPatterns, pattern.Closed := by
  intro pattern member
  simp only [cleanPatterns, blockPatterns, tinyPatterns, stylePatterns, List.cons_append,
    List.nil_append, List.mem_cons, List.not_mem_nil, or_false] at member
  rcases member with rfl | rfl | rfl | rfl | rfl | rfl | rfl | rfl
  · exact elementBlock_closed "script"
  · exact elementBlock_closed "style"
  · exact elementBlock_closed "head"
  · exact comment_closed
  · exact tinyImage_closed "width" "height"
  · exact tinyImage_closed "height" "width"
  · exact styleAttr_closed '"'
  · exact styleAttr_closed '\''

/-- A match that the searches have left was not together in the text. -/
theorem not_infix_of_left {patterns : List Pattern} (closed : ∀ pattern ∈ patterns, pattern.Closed)
    {text : List α} (apart : text.Nodup) {front piece back : List α}
    (left : removeEach read words patterns text = front ++ (piece ++ back)) {pattern : Pattern}
    (isPattern : pattern ∈ patterns) {prev : Option Char} {behind : List Char}
    (isMatch : Matches words.isWord pattern.items prev (piece.map read) behind) :
    ¬ piece <:+: text := by
  intro together
  have stays : piece.Sublist (removeEach read words patterns text) := by
    rw [left]
    exact (List.sublist_append_left piece back).trans (List.sublist_append_right front _)
  clear left
  induction patterns generalizing text with
  | nil => cases isPattern
  | cons first patterns inductionHypothesis =>
      obtain ⟨taken, scan⟩ := exists_scan read words.isWord first text
      have later : piece.Sublist (removeAll read words.isWord first text) :=
        stays.trans (removeEach_sublist read words patterns _)
      rw [List.forall_mem_cons] at closed
      rcases List.mem_cons.mp isPattern with rfl | inRest
      · -- Its own search would have taken its first character.
        obtain ⟨before, after, rfl⟩ := together
        obtain ⟨a, tail, rfl⟩ : ∃ a tail, piece = a :: tail := by
          obtain ⟨c, chars, split, _⟩ := isMatch
          obtain ⟨a, tail, rfl, _⟩ := List.map_eq_cons_iff.mp split
          exact ⟨a, tail, rfl⟩
        have split : before ++ (a :: tail) ++ after = before ++ a :: (tail ++ after) := by simp
        have begins : Begins read words.isWord pattern (a :: (tail ++ after)) :=
          ⟨a :: tail, after, rfl, closed.1.matches_anywhere isMatch none _⟩
        exact scan.notMem_kept split apart begins (later.subset List.mem_cons_self)
      · exact inductionHypothesis closed.2 (scan.sublist.nodup apart)
          inRest (infix_of_sublist apart together scan.sublist later) stays

end Cleaning

section Passes

variable (words : WordTable)

/-- No pattern matches anywhere in a text. -/
def Clean (html : String) : Prop :=
  ∀ pattern ∈ cleanPatterns, ¬ MatchIn words.isWord pattern none html.toList

/-- One pass reaches a clean text, and another one changes nothing. -/
def OnePass (html : String) : Prop :=
  Clean words (preClean words html) ∧ preClean words (preClean words html) = preClean words html

/-- The places of a text that a pass leaves, with their characters. -/
def leftPlaces (html : String) : List (Char × Nat) :=
  removeEach Prod.fst words cleanPatterns html.toList.zipIdx

/-- Every match that a pass leaves has been joined: its places were not together in the text. -/
def OnlyJoined (html : String) : Prop :=
  ∀ pattern ∈ cleanPatterns, ∀ front piece back, leftPlaces words html = front ++ (piece ++ back) →
    Matches words.isWord pattern.items (lastOr none (front.map Prod.fst)) (piece.map Prod.fst)
      (back.map Prod.fst) → ¬ piece <:+: html.toList.zipIdx

variable {words}

theorem preClean_eq_iff (html : String) : preClean words html = html ↔ Clean words html := by
  have text := removeEach_eq_iff id words cleanPatterns html.toList
  rw [List.map_id] at text
  rw [Clean, ← text, preClean]
  constructor
  · intro same
    have sameChars := congrArg String.toList same
    rwa [String.toList_ofList] at sameChars
  · intro same
    rw [same, String.ofList_toList]

theorem preClean_length_lt {html : String} (unclean : ¬ Clean words html) :
    (preClean words html).length < html.length := by
  rw [← preClean_eq_iff] at unclean
  have shorter := removeEach_sublist id words cleanPatterns html.toList
  rw [← String.length_toList, ← String.length_toList, preClean, String.toList_ofList]
  apply Nat.lt_of_le_of_ne shorter.length_le
  intro same
  apply unclean
  rw [preClean, shorter.eq_of_length same, String.ofList_toList]

/-- What shrinks until it is done is done after as many rounds as it is long. -/
theorem exists_iterate_done {β : Type} {round : β → β} {size : β → Nat} {Done : β → Prop}
    (shrinks : ∀ value, ¬ Done value → size (round value) < size value) (value : β) :
    ∃ rounds ≤ size value, Done (round^[rounds] value) := by
  induction length : size value using Nat.strong_induction_on generalizing value with
  | _ n inductionHypothesis =>
      subst length
      by_cases done : Done value
      · exact ⟨0, Nat.zero_le _, done⟩
      · have shorter := shrinks value done
        obtain ⟨rounds, few, later⟩ := inductionHypothesis _ shorter (round value) rfl
        exact ⟨rounds + 1, by omega, by rwa [Function.iterate_succ_apply]⟩

/-- The left places hold the output. -/
theorem leftPlaces_map (html : String) :
    (leftPlaces words html).map Prod.fst = (preClean words html).toList := by
  rw [leftPlaces, removeEach_map, List.zipIdx_map_fst, preClean, String.toList_ofList]

theorem onlyJoined (words : WordTable) (html : String) : OnlyJoined words html := by
  intro pattern isPattern front piece back left isMatch
  have apart : html.toList.zipIdx.Nodup := by
    apply List.Nodup.of_map Prod.snd
    rw [List.zipIdx_map_snd]
    exact List.nodup_range'
  exact not_infix_of_left cleanPatterns_closed apart left isPattern isMatch

/-- Passes in a row reach a clean text. -/
theorem exists_passes_clean (html : String) :
    ∃ rounds ≤ html.length, Clean words ((preClean words)^[rounds] html) ∧
      ∀ more, (preClean words)^[more + rounds] html = (preClean words)^[rounds] html := by
  have shrinks : ∀ html, ¬ Clean words html → (preClean words html).length < html.length :=
    fun html => preClean_length_lt
  obtain ⟨rounds, few, clean⟩ := exists_iterate_done shrinks html
  refine ⟨rounds, few, clean, fun more => ?_⟩
  rw [Function.iterate_add_apply]
  exact Function.iterate_fixed ((preClean_eq_iff _).mpr clean) more

/-- What a pass leaves is what its eight searches keep. -/
theorem searches_iff_preClean {html left : String} :
    Searches id words cleanPatterns html.toList left.toList ↔ left = preClean words html := by
  rw [searches_iff, preClean]
  constructor
  · intro same
    rw [← same, String.ofList_toList]
  · rintro rfl
    rw [String.toList_ofList]

/-- The word characters of ASCII. -/
def asciiWords : WordTable where
  isWord c := c.isAlphanum || c == '_'
  ascii _ _ := rfl

end Passes

end Scryd.Mime
