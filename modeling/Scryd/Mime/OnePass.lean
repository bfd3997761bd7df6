import Scryd.Mime.Nodes
import Mathlib.Data.List.Infix

/-!
# Documents that one pass cleans

The searches for style attributes work inside the tags.  Where every tag closes
the attributes it opens, and plays no new part without them, a document of
characters and tags is clean after one pass.
-/

namespace Scryd.Mime

open Scryd.Foundation

section Attributes

variable {words : WordTable} {quote : Char} {prev : Option Char}
  {piece after lead : List Char}

/-- `\s+style\s*=\s*` -/
def styleLead : List Item :=
  .one isWhitespace :: ([spaces] ++ literal "style" ++ [spaces] ++ literal "=" ++ [spaces])

/-- A style attribute up to its first quote. -/
def styleOpening (quote : Char) : Pattern where
  first := isWhitespace
  rest := [spaces] ++ literal "style" ++ [spaces] ++ literal "=" ++
    [spaces, .one fun c => c == quote]

def IsQuote (c : Char) : Prop := c = '"' ∨ c = '\''

/-- The beginning of a style attribute, before its quote. -/
def IsStyleLead (words : WordTable) (quote : Char) (lead : List Char) : Prop :=
  Matches words.isWord styleLead none lead [quote]

theorem styleOpening_items (quote : Char) :
    (styleOpening quote).items = styleLead ++ [.one fun c => c == quote] := by
  simp only [Pattern.items, styleOpening, styleLead, List.append_assoc, List.cons_append,
    List.nil_append]

theorem styleAttr_items (quote : Char) :
    (styleAttr quote).items = styleLead ++ ([.one fun c => c == quote] ++
      ([.greedy fun c => c != quote] ++ [.one fun c => c == quote])) := by
  simp only [Pattern.items, styleAttr, styleLead, List.append_assoc, List.cons_append,
    List.nil_append]

theorem matches_quote :
    Matches words.isWord [.one fun c => c == quote] prev piece after ↔ piece = [quote] := by
  simp [matches_one]

theorem matches_styleLead :
    Matches words.isWord styleLead prev lead (quote :: after) ↔ IsStyleLead words quote lead := by
  have anywhere : Matches words.isWord styleLead prev lead (quote :: after) ↔
    Matches words.isWord styleLead none lead (quote :: after) := Iff.rfl
  rw [anywhere]
  exact ⟨matches_head (by rfl), matches_head (by rfl)⟩

theorem matches_styleOpening :
    Matches words.isWord (styleOpening quote).items prev piece after ↔
      ∃ lead, piece = lead ++ [quote] ∧ IsStyleLead words quote lead := by
  rw [styleOpening_items, matches_append]
  simp only [matches_quote]
  constructor
  · rintro ⟨lead, _, rfl, isLead, rfl⟩
    exact ⟨lead, rfl, matches_styleLead.mp isLead⟩
  · rintro ⟨lead, rfl, isLead⟩
    exact ⟨lead, [quote], rfl, matches_styleLead.mpr isLead, rfl⟩

theorem matches_styleAttr :
    Matches words.isWord (styleAttr quote).items prev piece after ↔
      ∃ lead value, piece = lead ++ quote :: (value ++ [quote]) ∧ quote ∉ value ∧
        IsStyleLead words quote lead := by
  have isValue : ∀ {prev piece after},
      Matches words.isWord [.greedy fun c => c != quote] prev piece after ↔ quote ∉ piece := by
    intro prev piece after
    simp only [matches_greedy, bne_iff_ne, ne_eq]
    exact ⟨fun other member => other _ member rfl, fun absent c member same =>
      absent (same ▸ member)⟩
  rw [styleAttr_items]
  simp only [matches_append, matches_quote, isValue]
  constructor
  · rintro ⟨lead, _, rfl, isLead, _, _, rfl, rfl, value, _, rfl, closed, rfl⟩
    exact ⟨lead, value, by simp, closed, matches_styleLead.mp isLead⟩
  · rintro ⟨lead, value, rfl, closed, isLead⟩
    exact ⟨lead, _, rfl, matches_styleLead.mpr isLead, [quote], _, rfl, rfl, value, [quote], rfl,
      closed, rfl⟩

theorem IsStyleLead.notMem (isLead : IsStyleLead words quote lead) {c : Char}
    (rejects : ∀ item ∈ styleLead, item.rejects c = true) : c ∉ lead :=
  notMem_of_rejects words.isWord rejects isLead

/-- It begins with white space, -/
theorem IsStyleLead.starts (isLead : IsStyleLead words quote lead) :
    ∃ c tail, lead = c :: tail ∧ isWhitespace c = true := by
  obtain ⟨c, tail, rfl, space, _⟩ := isLead
  exact ⟨c, tail, rfl, space⟩

/-- and ends with an equals sign and maybe white space. -/
theorem IsStyleLead.ends (isLead : IsStyleLead words quote lead) :
    ∃ front gap, lead = front ++ '=' :: gap ∧ ∀ c ∈ gap, isWhitespace c = true := by
  have split : styleLead = (.one isWhitespace :: ([spaces] ++ literal "style" ++ [spaces])) ++
    (literal "=" ++ [spaces]) := rfl
  have equals : ∀ {prev piece after}, Matches words.isWord (literal "=") prev piece after ↔
      piece = ['='] := matches_symbol rfl (by decide)
  rw [IsStyleLead, split, matches_append] at isLead
  simp only [matches_append, equals, spaces, matches_greedy] at isLead
  obtain ⟨front, _, rfl, _, _, gap, rfl, rfl, spaced⟩ := isLead
  exact ⟨front, gap, rfl, spaced⟩

theorem IsQuote.notMem_lead (isQuote : IsQuote quote) (isLead : IsStyleLead words quote lead) :
    quote ∉ lead := by
  rcases isQuote with rfl | rfl
  · exact isLead.notMem (by decide)
  · exact isLead.notMem (by decide)

/-- An opening quote, and what stands before it, belong to a text that goes on behind a closing
bracket only if they stand before that. -/
theorem IsStyleLead.before_close (isQuote : IsQuote quote) (isLead : IsStyleLead words quote lead)
    {here rest behind : List Char} (split : here ++ '>' :: rest = lead ++ quote :: behind) :
    ∃ gap, here = lead ++ quote :: gap ∧ behind = gap ++ '>' :: rest := by
  have free : '>' ∉ lead ++ [quote] := by
    rw [List.mem_append, List.mem_singleton, not_or]
    refine ⟨isLead.notMem (by decide), ?_⟩
    rcases isQuote with rfl | rfl <;> decide
  rw [List.append_cons lead] at split
  obtain ⟨gap, rfl, isBehind⟩ := append_mark_split free split.symm
  exact ⟨gap, by simp, isBehind⟩

end Attributes

section Tags

variable {words : WordTable} {quote : Char}

/-- The search for style attributes with one kind of quote. -/
def dropStyle (words : WordTable) (quote : Char) (text : List Char) : List Char :=
  removeAll id words.isWord (styleAttr quote) text

/-- Where a text opens a style attribute, there is a whole one. -/
def StylesClosed (words : WordTable) (quote : Char) (text : List Char) : Prop :=
  ∀ here, here <:+ text → Begins id words.isWord (styleOpening quote) here →
    Begins id words.isWord (styleAttr quote) here

/-- A style attribute ends at the first quote behind the one that opens it. -/
theorem matchItems_styleAttr (isQuote : IsQuote quote) {piece after : List Char}
    (isMatch : Matches words.isWord (styleAttr quote).items none piece after) :
    matchItems words.isWord (styleAttr quote).items none (piece ++ after) =
      some piece.length := by
  have decides := decides_matchItems words.isWord (styleAttr quote).items
  obtain ⟨n, found⟩ := Option.ne_none_iff_exists'.mp (decides.complete isMatch)
  obtain ⟨other, behind, split, rfl, isOther⟩ := decides.sound found
  obtain ⟨lead, value, rfl, free, isLead⟩ := matches_styleAttr.mp isMatch
  obtain ⟨otherLead, otherValue, rfl, otherFree, isOtherLead⟩ := matches_styleAttr.mp isOther
  simp only [List.append_assoc, List.cons_append, List.nil_append] at split
  obtain ⟨rfl, values⟩ := append_mark_inj (isQuote.notMem_lead isLead)
    (isQuote.notMem_lead isOtherLead) split
  obtain ⟨rfl, _⟩ := append_mark_inj free otherFree values
  exact found

/-- A text that closes its attributes is searched alike before a closing bracket. -/
theorem matchItems_before_close (isQuote : IsQuote quote) {here : List Char}
    (closed : Begins id words.isWord (styleOpening quote) here →
      Begins id words.isWord (styleAttr quote) here) (rest : List Char) :
    matchItems words.isWord (styleAttr quote).items none (here ++ '>' :: rest) =
      matchItems words.isWord (styleAttr quote).items none here := by
  by_cases begins : Begins id words.isWord (styleAttr quote) here
  · obtain ⟨piece, after, rfl, isMatch⟩ := begins
    rw [List.map_id, List.map_id] at isMatch
    have longer := (styleAttr_closed quote).matches_anywhere isMatch none (after ++ '>' :: rest)
    rw [matchItems_styleAttr isQuote isMatch, List.append_assoc,
      matchItems_styleAttr isQuote longer]
  · have none_here := begins
    rw [begins_iff, not_not, List.map_id] at none_here
    rw [none_here]
    by_contra found
    obtain ⟨n, found⟩ := Option.ne_none_iff_exists'.mp found
    obtain ⟨piece, after, split, _, isMatch⟩ :=
      (decides_matchItems words.isWord (styleAttr quote).items).sound found
    obtain ⟨lead, value, rfl, _, isLead⟩ := matches_styleAttr.mp isMatch
    simp only [List.append_assoc, List.cons_append, List.nil_append] at split
    obtain ⟨gap, rfl, _⟩ := isLead.before_close isQuote split
    refine begins (closed ⟨lead ++ [quote], gap, by simp, ?_⟩)
    exact matches_styleOpening.mpr ⟨lead, by simp, isLead⟩

/-- Where no white space is a search for style attributes takes nothing. -/
theorem dropStyle_keep {c : Char} (solid : isWhitespace c = false) (rest : List Char) :
    dropStyle words quote (c :: rest) = c :: dropStyle words quote rest := by
  apply removeAll_keep
  rw [Pattern.items, List.map_cons, matchItems, matchOne, if_neg]
  exact Bool.eq_false_iff.mp solid

/-- A tag that closes its attributes is searched on its own. -/
theorem dropStyle_tag (isQuote : IsQuote quote) {body : List Char}
    (closed : StylesClosed words quote body) (rest : List Char) :
    dropStyle words quote ('<' :: (body ++ '>' :: rest)) =
      '<' :: (dropStyle words quote body ++ '>' :: dropStyle words quote rest) := by
  have inside : dropStyle words quote (body ++ '>' :: rest) =
      dropStyle words quote body ++ dropStyle words quote ('>' :: rest) := by
    apply removeAll_append
    rintro before here rfl _
    rw [List.map_id, List.map_id]
    exact matchItems_before_close isQuote (closed here (List.suffix_append before here)) rest
  rw [dropStyle_keep (by decide), inside, dropStyle_keep (by decide)]

theorem dropStyle_sublist (words : WordTable) (quote : Char) (text : List Char) :
    (dropStyle words quote text).Sublist text := removeAll_sublist text

end Tags

section Documents

variable {words : WordTable} {quote : Char} {body : List Char} {nodes : List Node}

/-- In a plain text no style attribute is opened: its quote would stand behind an equals sign. -/
theorem PlainNext.no_quote (isQuote : IsQuote quote) (next : PlainNext nodes)
    {gap behind : List Char} (spaced : ∀ c ∈ gap, isWhitespace c = true) :
    source nodes ≠ gap ++ quote :: behind := by
  induction nodes generalizing gap with
  | nil => exact next.elim
  | cons node nodes inductionHypothesis =>
      cases node with
      | tag body plain => exact next.elim
      | char c plain =>
          intro split
          rw [source_char] at split
          unfold PlainNext at next
          cases gap with
          | nil =>
              obtain ⟨rfl, _⟩ := List.cons.inj split
              have solid : isWhitespace c = false := by
                rcases isQuote with rfl | rfl <;> decide
              rw [if_neg (by simp [solid])] at next
              exact isQuote.elim next.1 next.2
          | cons d gap =>
              rw [List.forall_mem_cons] at spaced
              obtain ⟨rfl, later⟩ := List.cons.inj split
              rw [if_pos spaced.1] at next
              exact inductionHypothesis next spaced.2 later

theorem PlainText.no_lead (isQuote : IsQuote quote) (text : PlainText nodes)
    {lead behind : List Char} (isLead : IsStyleLead words quote lead) :
    source nodes ≠ lead ++ quote :: behind := by
  have noOpen : '<' ∉ lead := isLead.notMem (by decide)
  obtain ⟨front, gap, rfl, spaced⟩ := isLead.ends
  clear isLead
  induction front generalizing nodes with
  | nil =>
      intro split
      cases nodes with
      | nil => cases split
      | cons node nodes =>
          cases node with
          | tag body plain =>
              rw [source_tag] at split
              cases (List.cons.inj split).1
          | char c plain =>
              obtain ⟨rfl, later⟩ := List.cons.inj split
              exact (text.1 rfl).no_quote isQuote spaced later
  | cons d front inductionHypothesis =>
      intro split
      rw [List.cons_append, List.mem_cons, not_or] at noOpen
      cases nodes with
      | nil => cases split
      | cons node nodes =>
          cases node with
          | tag body plain =>
              rw [source_tag] at split
              exact noOpen.1 (List.cons.inj split).1
          | char c plain =>
              exact inductionHypothesis text.2 noOpen.2 (List.cons.inj split).2

/-- A node without its style attributes. -/
def Node.dropStyle (words : WordTable) (quote : Char) : Node → Node
  | .char c plain => .char c plain
  | .tag body plain => .tag (Mime.dropStyle words quote body)
      ⟨fun member => plain.1 ((dropStyle_sublist words quote body).subset member),
        fun member => plain.2 ((dropStyle_sublist words quote body).subset member)⟩

theorem plainNext_dropStyle (nodes : List Node) :
    PlainNext (nodes.map (Node.dropStyle words quote)) ↔ PlainNext nodes := by
  induction nodes with
  | nil => exact Iff.rfl
  | cons node nodes inductionHypothesis =>
      cases node with
      | tag body plain => exact Iff.rfl
      | char c plain =>
          simp only [List.map_cons, Node.dropStyle, PlainNext, inductionHypothesis]

theorem plainText_dropStyle (nodes : List Node) :
    PlainText (nodes.map (Node.dropStyle words quote)) ↔ PlainText nodes := by
  induction nodes with
  | nil => exact Iff.rfl
  | cons node nodes inductionHypothesis =>
      cases node with
      | tag body plain => exact inductionHypothesis
      | char c plain =>
          simp only [List.map_cons, Node.dropStyle, PlainText, inductionHypothesis,
            plainNext_dropStyle]

/-- The search works tag by tag. -/
theorem dropStyle_source (isQuote : IsQuote quote) (text : PlainText nodes)
    (closed : ∀ node ∈ nodes, node.IfTag (StylesClosed words quote)) :
    dropStyle words quote (source nodes) = source (nodes.map (Node.dropStyle words quote)) := by
  induction nodes with
  | nil => rfl
  | cons node nodes inductionHypothesis =>
      rw [List.forall_mem_cons] at closed
      cases node with
      | tag body plain =>
          have later := inductionHypothesis text closed.2
          rw [source_tag, dropStyle_tag isQuote closed.1, later, List.map_cons,
            Node.dropStyle, source_tag]
      | char c plain =>
          have later := inductionHypothesis text.2 closed.2
          have none_found : matchItems words.isWord (styleAttr quote).items none
              ((c :: source nodes).map id) = none := by
            by_contra found
            obtain ⟨piece, after, split, isMatch⟩ := begins_iff.mpr found
            rw [List.map_id, List.map_id] at isMatch
            obtain ⟨lead, value, rfl, _, isLead⟩ := matches_styleAttr.mp isMatch
            rw [List.append_assoc, List.cons_append] at split
            exact PlainText.no_lead isQuote text isLead split
          rw [source_char, dropStyle, removeAll_keep none_found]
          exact congrArg (c :: ·) later

/-- Where neither the text nor a tag opens a style attribute, there is none. -/
theorem not_matchIn_styles (isQuote : IsQuote quote) (text : PlainText nodes)
    (clear : ∀ node ∈ nodes,
      node.IfTag fun body => ¬ MatchIn words.isWord (styleOpening quote) none body) :
    ¬ MatchIn words.isWord (styleAttr quote) none (source nodes) := by
  rintro ⟨front, piece, after, split, isMatch⟩
  obtain ⟨lead, value, rfl, _, isLead⟩ := matches_styleAttr.mp isMatch
  clear isMatch
  obtain ⟨c, tail, starts, space⟩ := isLead.starts
  rw [List.append_assoc, List.cons_append] at split
  induction nodes generalizing front with
  | nil => simp at split
  | cons node nodes inductionHypothesis =>
      rw [List.forall_mem_cons] at clear
      cases node with
      | char d plain =>
          cases front with
          | nil => exact PlainText.no_lead isQuote text isLead split
          | cons e front =>
              exact inductionHypothesis text.2 clear.2 front (List.cons.inj split).2
      | tag body plain =>
          rw [source_tag] at split
          cases front with
          | nil =>
              rw [starts] at split
              obtain ⟨rfl, _⟩ := List.cons.inj split
              revert space
              decide
          | cons e front =>
              rcases List.append_eq_append_iff.mp (List.cons.inj split).2 with
                ⟨gap, _, later⟩ | ⟨gap, rfl, inside⟩
              · cases gap with
                | nil =>
                    rw [starts] at later
                    obtain ⟨rfl, _⟩ := List.cons.inj later
                    revert space
                    decide
                | cons d gap =>
                    exact inductionHypothesis text clear.2 gap (List.cons.inj later).2
              · obtain ⟨behind, rfl, _⟩ := isLead.before_close isQuote inside.symm
                refine clear.1 ⟨front, lead ++ [quote], behind, by simp, ?_⟩
                exact matches_styleOpening.mpr ⟨lead, rfl, isLead⟩

/-- A text without its style attributes. -/
def dropStyles (words : WordTable) (text : List Char) : List Char :=
  dropStyle words '\'' (dropStyle words '"' text)

/-- A part that a tag plays without its style attributes, it plays with them. -/
structure Roles.Keeps (roles : Roles) (words : WordTable) (body : List Char) : Prop where
  opens : roles.opens (dropStyles words body) → roles.opens body
  closes : roles.closes (dropStyles words body) → roles.closes body
  whole : roles.whole (dropStyles words body) → roles.whole body

/-- A tag that closes the style attributes it opens, and without them opens no other one and plays
no new part. -/
structure SoundTag (words : WordTable) (body : List Char) : Prop where
  doubleClosed : StylesClosed words '"' body
  singleClosed : StylesClosed words '\'' (dropStyle words '"' body)
  clear : ∀ quote, IsQuote quote →
    ¬ MatchIn words.isWord (styleOpening quote) none (dropStyles words body)
  roles : ∀ part ∈ nodeParts words, part.2.Keeps words body

/-- Where no style attribute is opened, there is none to drop. -/
theorem dropStyle_eq_self {text : List Char}
    (clear : ¬ MatchIn words.isWord (styleOpening quote) none text) :
    dropStyle words quote text = text := by
  rw [dropStyle, removeAll_eq_iff, List.map_id]
  rintro ⟨front, piece, after, rfl, isMatch⟩
  obtain ⟨lead, value, rfl, _, isLead⟩ := matches_styleAttr.mp isMatch
  refine clear ⟨front, lead ++ [quote], value ++ [quote] ++ after, by simp, ?_⟩
  exact matches_styleOpening.mpr ⟨lead, rfl, isLead⟩

theorem stylesClosed_of_clear {text : List Char}
    (clear : ¬ MatchIn words.isWord (styleOpening quote) none text) :
    StylesClosed words quote text := by
  rintro here ⟨front, rfl⟩ ⟨piece, after, rfl, isMatch⟩
  rw [List.map_id, List.map_id] at isMatch
  exact absurd ⟨front, piece, after, rfl, isMatch⟩ clear

/-- A tag that opens no style attribute is sound. -/
theorem SoundTag.of_clear
    (clear : ∀ quote, IsQuote quote → ¬ MatchIn words.isWord (styleOpening quote) none body) :
    SoundTag words body := by
  have double : dropStyle words '"' body = body := dropStyle_eq_self (clear _ (.inl rfl))
  have single : dropStyle words '\'' body = body := dropStyle_eq_self (clear _ (.inr rfl))
  have both : dropStyles words body = body := by rw [dropStyles, double, single]
  refine ⟨stylesClosed_of_clear (clear _ (.inl rfl)), ?_, ?_, fun part _ => ?_⟩
  · rw [double]
    exact stylesClosed_of_clear (clear _ (.inr rfl))
  · rwa [both]
  · exact ⟨fun opens => both ▸ opens, fun closes => both ▸ closes, fun whole => both ▸ whole⟩

/-- A tag that does not begin like the tags of the patterns, nor ends like a comment. -/
def IsOrdinary (body : List Char) : Prop :=
  (∃ c rest, body = c :: rest ∧ asciiLower c ∉ "shi!/".toList ∧ c ≠ Char.ofNat 0x17F) ∧
    ¬ "--".toList <:+ body

theorem IsOrdinary.not_matches (ordinary : IsOrdinary body) {c : Char}
    (first : c ∈ "shi!/".toList) {items : List Item} {prev : Option Char} {after : List Char} :
    ¬ Matches words.isWord (letter c :: items) prev body after := by
  obtain ⟨⟨d, rest, rfl, other, notLong⟩, _⟩ := ordinary
  rintro ⟨_, _, split, passes, _⟩
  obtain ⟨rfl, _⟩ := List.cons.inj split
  rcases Bool.or_eq_true_iff.mp passes with same | long
  · exact other (beq_iff_eq.mp same ▸ first)
  · exact notLong (beq_iff_eq.mp (Bool.and_eq_true_iff.mp long).2)

theorem IsOrdinary.keeps_element (ordinary : IsOrdinary (dropStyles words body)) {name : String}
    {c : Char} {letters : List Char} (spelled : name.toList = c :: letters)
    (first : c ∈ "shi!/".toList) : (elementRoles words name).Keeps words body := by
  have starts : openTag name = letter c :: (letters.map letter ++ [.boundary, insideTag]) := by
    rw [openTag, literal, spelled, List.map_cons, List.cons_append]
  have ends : closeTag name = letter '/' :: (literal name ++ [spaces]) := rfl
  refine ⟨fun opens => ?_, fun closes => ?_, False.elim⟩
  · have isMatch : Matches words.isWord (openTag name) (some '<') (dropStyles words body) ['>'] :=
      opens
    rw [starts] at isMatch
    exact absurd isMatch (ordinary.not_matches first)
  · have isMatch : Matches words.isWord (closeTag name) (some '<') (dropStyles words body) ['>'] :=
      closes
    rw [ends] at isMatch
    exact absurd isMatch (ordinary.not_matches (by decide))

theorem IsOrdinary.keeps_comment (ordinary : IsOrdinary (dropStyles words body)) :
    commentRoles.Keeps words body := by
  obtain ⟨⟨d, rest, isBody, other, _⟩, noDashes⟩ := ordinary
  have notOpen : ∀ tail, dropStyles words body ≠ "!--".toList ++ tail := by
    intro tail split
    rw [isBody] at split
    obtain ⟨rfl, _⟩ := List.cons.inj split
    exact other (by decide)
  refine ⟨?_, ?_, ?_⟩
  · rintro ⟨tail, split⟩
    exact absurd split (notOpen tail)
  · rintro ⟨front, split⟩
    exact absurd ⟨front, split.symm⟩ noDashes
  · rintro ⟨inner, split⟩
    rw [List.append_assoc] at split
    exact absurd split (notOpen _)

theorem IsOrdinary.keeps_image (ordinary : IsOrdinary (dropStyles words body))
    (earlier later : String) : (imageRoles words earlier later).Keeps words body := by
  obtain ⟨⟨d, rest, isBody, other, _⟩, _⟩ := ordinary
  refine ⟨False.elim, False.elim, ?_⟩
  rintro ⟨name, more, split, isImg, _⟩
  obtain ⟨e, letters, rfl, first, _⟩ := List.map_eq_cons_iff.mp isImg
  rw [isBody] at split
  obtain ⟨rfl, _⟩ := List.cons.inj split
  rw [first] at other
  exact absurd (by decide) other

/-- An ordinary tag plays no part. -/
theorem IsOrdinary.keeps (ordinary : IsOrdinary (dropStyles words body)) :
    ∀ part ∈ nodeParts words, part.2.Keeps words body := by
  simp only [nodeParts, List.forall_mem_cons]
  exact ⟨ordinary.keeps_element rfl (by decide), ordinary.keeps_element rfl (by decide),
    ordinary.keeps_element rfl (by decide), ordinary.keeps_comment, ordinary.keeps_image _ _,
    ordinary.keeps_image _ _, fun _ member => absurd member List.not_mem_nil⟩

/-- A document of plain text and sound tags. -/
structure PlainDocument (words : WordTable) (nodes : List Node) : Prop where
  text : PlainText nodes
  tags : ∀ node ∈ nodes, node.IfTag (SoundTag words)

def Node.dropStyles (words : WordTable) (node : Node) : Node :=
  (node.dropStyle words '"').dropStyle words '\''

/-- Without style attributes no nodes make a match that made none with them. -/
theorem Roles.Free.dropStyles {roles : Roles} (free : roles.Free nodes)
    (keeps : ∀ node ∈ nodes, node.IfTag (roles.Keeps words)) :
    roles.Free (nodes.map (Node.dropStyles words)) where
  whole := by
    intro node member isWhole
    obtain ⟨original, inNodes, rfl⟩ := List.mem_map.mp member
    cases original with
    | char c plain => exact isWhole
    | tag body plain => exact free.whole _ inNodes ((keeps _ inNodes).whole isWhole)
  blocks := by
    rw [List.pairwise_map]
    refine free.blocks.imp_of_mem fun {first last} firstMember lastMember apart opens closes => ?_
    cases first with
    | char c plain => exact opens
    | tag body plain =>
        cases last with
        | char c otherPlain => exact closes
        | tag other otherPlain =>
            exact apart ((keeps _ firstMember).opens opens) ((keeps _ lastMember).closes closes)

/-- The style passes over a plain document work tag by tag. -/
theorem PlainDocument.dropStyles_source (document : PlainDocument words nodes) :
    removeEach id words stylePatterns (source nodes) =
      source (nodes.map (Node.dropStyles words)) := by
  have double : ∀ node ∈ nodes, node.IfTag (StylesClosed words '"') := by
    intro node member
    have sound := document.tags node member
    cases node with
    | char c plain => trivial
    | tag body plain => exact sound.doubleClosed
  have single : ∀ node ∈ nodes.map (Node.dropStyle words '"'),
      node.IfTag (StylesClosed words '\'') := by
    intro node member
    obtain ⟨original, inNodes, rfl⟩ := List.mem_map.mp member
    have sound := document.tags original inNodes
    cases original with
    | char c plain => trivial
    | tag body plain => exact sound.singleClosed
  have first := dropStyle_source (.inl rfl) document.text double
  have second := dropStyle_source (.inr rfl) ((plainText_dropStyle nodes).mpr document.text) single
  rw [List.map_map] at second
  rw [← first] at second
  exact second

theorem PlainDocument.thinned {left : List Node} (document : PlainDocument words nodes)
    (thinned : Thinned nodes left) : PlainDocument words left :=
  ⟨thinned.text document.text, fun node member =>
    document.tags node (thinned.sublist.subset member)⟩

/-- One pass cleans a plain document. -/
theorem PlainDocument.onePass (document : PlainDocument words nodes) :
    OnePass words (String.ofList (source nodes)) := by
  obtain ⟨left, removed, thinned, free⟩ := removeEach_source (nodeParts_read words) nodes
  have leftPlain := document.thinned thinned
  have output : (preClean words (String.ofList (source nodes))).toList =
      source (left.map (Node.dropStyles words)) := by
    rw [preClean, String.toList_ofList, String.toList_ofList, cleanPatterns, removeEach_append,
      ← nodeParts_patterns words, removed, leftPlain.dropStyles_source]
  have clean : Clean words (preClean words (String.ofList (source nodes))) := by
    intro pattern member
    rw [output]
    rcases List.mem_append.mp member with inParts | inStyles
    · rw [← nodeParts_patterns words] at inParts
      obtain ⟨part, isPart, rfl⟩ := List.mem_map.mp inParts
      refine (nodeParts_read words part isPart).not_matchIn ((free part isPart).dropStyles ?_)
      intro node inLeft
      have sound := leftPlain.tags node inLeft
      cases node with
      | char c plain => trivial
      | tag body plain => exact sound.roles part isPart
    · have text : PlainText (left.map (Node.dropStyles words)) := by
        have double : PlainText (left.map (Node.dropStyle words '"')) :=
          (plainText_dropStyle left).mpr leftPlain.text
        have single : PlainText ((left.map (Node.dropStyle words '"')).map
            (Node.dropStyle words '\'')) := (plainText_dropStyle _).mpr double
        rwa [List.map_map] at single
      have clear : ∀ quote, IsQuote quote → ∀ node ∈ left.map (Node.dropStyles words),
          node.IfTag fun body => ¬ MatchIn words.isWord (styleOpening quote) none body := by
        intro quote isQuote node inLeft
        obtain ⟨original, inNodes, rfl⟩ := List.mem_map.mp inLeft
        have sound := leftPlain.tags original inNodes
        cases original with
        | char c plain => trivial
        | tag body plain => exact sound.clear quote isQuote
      rcases List.mem_pair.mp inStyles with rfl | rfl
      · exact not_matchIn_styles (.inl rfl) text (clear _ (.inl rfl))
      · exact not_matchIn_styles (.inr rfl) text (clear _ (.inr rfl))
  exact ⟨clean, (preClean_eq_iff _).mpr clean⟩

/-- A styled paragraph. -/
example : PlainDocument asciiWords
    [.tag "p style=\"x\"".toList (by decide), .char 'a' (by decide),
      .tag "/p".toList (by decide)] where
  text := ⟨by simp, trivial⟩
  tags := by
    have clear : ∀ {text : List Char} {quote : Char},
        removeAll id asciiWords.isWord (styleOpening quote) text = text →
          ¬ MatchIn asciiWords.isWord (styleOpening quote) none text := by
      intro text quote same
      rwa [removeAll_eq_iff, List.map_id] at same
    have unstyled : dropStyles asciiWords "p style=\"x\"".toList = ['p'] := by decide
    have closed : ∀ here ∈ "p style=\"x\"".toList.tails,
        matchItems asciiWords.isWord (styleOpening '"').items none (here.map id) ≠ none →
        matchItems asciiWords.isWord (styleAttr '"').items none (here.map id) ≠ none := by decide
    simp only [List.forall_mem_cons]
    refine ⟨⟨?_, stylesClosed_of_clear (clear (by decide)), ?_, ?_⟩, trivial, ?_, nofun⟩
    · intro here ends begins
      exact begins_iff.mpr (closed here ((List.mem_tails _ _).mpr ends) (begins_iff.mp begins))
    · rw [unstyled]
      rintro quote (rfl | rfl) <;> exact clear (by decide)
    · apply IsOrdinary.keeps
      rw [unstyled]
      exact ⟨⟨'p', [], rfl, by decide⟩, by decide⟩
    · apply SoundTag.of_clear
      rintro quote (rfl | rfl) <;> exact clear (by decide)

end Documents

end Scryd.Mime
