import Scryd.Mime.HtmlClean

/-!
# The patterns for tracking pixels

Both look for an image with a width and a height that begin with a zero or a
one, up to the next closing bracket.
-/

namespace Scryd.Mime

open Scryd.Foundation

section Sizes

variable {words : WordTable} {prev : Option Char} {piece after : List Char}

/-- Nothing or a quote. -/
def MaybeQuote (text : List Char) : Prop := text = [] ∨ text = ['"'] ∨ text = ['\'']

/-- `name\s*=\s*["']?[01]` -/
def IsTinySize (name : String) (mark : List Char) : Prop :=
  ∃ letters gap otherGap quote digit, mark = letters ++ gap ++ '=' :: otherGap ++ quote ++ [digit] ∧
    letters.map asciiLower = name.toList ∧ (∀ c ∈ gap, isWhitespace c = true) ∧
    (∀ c ∈ otherGap, isWhitespace c = true) ∧ MaybeQuote quote ∧ (digit = '0' ∨ digit = '1')

/-- A text that does not end within a word. -/
def EndsOutside (words : WordTable) (text : List Char) : Prop :=
  text.getLast?.any (fun c => !words.isWord c) = true

/-- A text that does not begin within a word. -/
def StartsOutside (words : WordTable) (text : List Char) : Prop :=
  text.head?.any (fun c => !words.isWord c) = true

theorem EndsOutside.ne_nil {text : List Char} (outside : EndsOutside words text) : text ≠ [] := by
  rintro rfl
  cases outside

/-- Two tiny sizes, each at the beginning of a word, one after the other. -/
def TinySizes (words : WordTable) (earlier later : String) (text : List Char) : Prop :=
  ∃ before first between second rest, text = before ++ first ++ between ++ second ++ rest ∧
    EndsOutside words before ∧ IsTinySize earlier first ∧
    EndsOutside words between ∧ IsTinySize later second

/-- The names the patterns look for. -/
def SizeName (name : String) : Prop := name = "width" ∨ name = "height"

theorem letter_test_iff {c d : Char} (notS : c ≠ 's') :
    (asciiLower d == c || (c == 's' && d == Char.ofNat 0x17F)) = true ↔ asciiLower d = c := by
  simp [notS]

theorem matches_letters {text : List Char} (noS : 's' ∉ text) :
    Matches words.isWord (text.map letter) prev piece after ↔ piece.map asciiLower = text := by
  induction text generalizing prev piece with
  | nil => simp
  | cons c text inductionHypothesis =>
      rw [List.mem_cons, not_or] at noS
      have test := fun d => letter_test_iff (d := d) (Ne.symm noS.1)
      rw [List.map_cons, matches_cons]
      simp only [letter, matches_one, inductionHypothesis noS.2, test]
      constructor
      · rintro ⟨_, back, rfl, ⟨d, rfl, same⟩, rest⟩
        rw [List.singleton_append, List.map_cons, same, rest]
      · intro same
        obtain ⟨d, back, rfl, first, rest⟩ := List.map_eq_cons_iff.mp same
        exact ⟨[d], back, rfl, ⟨d, rfl, first⟩, rest⟩

theorem matches_literal {text : String} (noS : 's' ∉ text.toList) :
    Matches words.isWord (literal text) prev piece after ↔ piece.map asciiLower = text.toList :=
  matches_letters noS

theorem matches_symbol {symbol : Char} (folded : asciiLower symbol = symbol)
    (noLetter : ¬ ('a' ≤ symbol ∧ symbol ≤ 'z')) :
    Matches words.isWord [letter symbol] prev piece after ↔ piece = [symbol] := by
  have notS : symbol ≠ 's' := by
    rintro rfl
    exact noLetter (by decide)
  simp only [letter, matches_one, letter_test_iff notS]
  constructor
  · rintro ⟨d, rfl, same⟩
    rw [eq_of_asciiLower same noLetter]
  · rintro rfl
    exact ⟨symbol, rfl, folded⟩

theorem matches_maybeQuote :
    Matches words.isWord [maybeQuote] prev piece after ↔ MaybeQuote piece := by
  simp only [maybeQuote, matches_opt, MaybeQuote, Bool.or_eq_true, beq_iff_eq]
  constructor
  · rintro (none_taken | ⟨_, rfl, rfl | rfl⟩)
    · exact .inl none_taken
    · exact .inr (.inl rfl)
    · exact .inr (.inr rfl)
  · rintro (none_taken | rfl | rfl)
    · exact .inl none_taken
    · exact .inr ⟨'"', rfl, .inl rfl⟩
    · exact .inr ⟨'\'', rfl, .inr rfl⟩

/-- A size of the pattern is a tiny size and maybe a quote. -/
theorem matches_tinySize {name : String} (isName : SizeName name) :
    Matches words.isWord (tinySize name) prev piece after ↔
      ∃ mark quote, piece = mark ++ quote ∧ IsTinySize name mark ∧ MaybeQuote quote := by
  have noS : 's' ∉ name.toList := by
    rcases isName with rfl | rfl
    · decide
    · decide
  have equals : ∀ {prev piece after}, Matches words.isWord (literal "=") prev piece after ↔
      piece = ['='] := matches_symbol rfl (by decide)
  have digitTest : ∀ {prev piece after},
      Matches words.isWord [.one fun c => c == '0' || c == '1'] prev piece after ↔
        ∃ digit, piece = [digit] ∧ (digit = '0' ∨ digit = '1') := by
    simp only [matches_one, Bool.or_eq_true, beq_iff_eq, implies_true]
  simp only [tinySize, matches_append, matches_literal noS, equals, spaces, matches_greedy]
  constructor
  · rintro ⟨_, back, rfl, ⟨_, _, rfl, ⟨letters, gap, rfl, named, spaced⟩, rfl⟩, later⟩
    obtain ⟨otherGap, back, rfl, otherSpaced, later⟩ := (matches_cons _ _ _).mp later
    obtain ⟨quote, back, rfl, isQuote, later⟩ := (matches_cons _ _ _).mp later
    obtain ⟨_, closing, rfl, isDigit, isClosing⟩ := (matches_cons _ _ _).mp later
    obtain ⟨digit, rfl, tiny⟩ := digitTest.mp isDigit
    refine ⟨letters ++ gap ++ '=' :: otherGap ++ quote ++ [digit], closing, ?_,
      ⟨letters, gap, otherGap, quote, digit, rfl, named, spaced,
        (matches_greedy _).mp otherSpaced, matches_maybeQuote.mp isQuote, tiny⟩,
      matches_maybeQuote.mp isClosing⟩
    simp only [List.append_assoc, List.cons_append, List.nil_append]
  · rintro ⟨_, closing, rfl, ⟨letters, gap, otherGap, quote, digit, rfl, named, spaced, otherSpaced,
      isQuote, tiny⟩, isClosing⟩
    refine ⟨letters ++ gap ++ ['='], otherGap ++ (quote ++ ([digit] ++ closing)), ?_,
      ⟨letters ++ gap, ['='], rfl, ⟨letters, gap, rfl, named, spaced⟩, rfl⟩, ?_⟩
    · simp only [List.append_assoc, List.cons_append, List.nil_append]
    · apply (matches_cons _ _ _).mpr
      refine ⟨otherGap, quote ++ ([digit] ++ closing), rfl, (matches_greedy _).mpr otherSpaced, ?_⟩
      apply (matches_cons _ _ _).mpr
      refine ⟨quote, [digit] ++ closing, rfl, matches_maybeQuote.mpr isQuote, ?_⟩
      apply (matches_cons _ _ _).mpr
      exact ⟨[digit], closing, rfl, digitTest.mpr ⟨digit, rfl, tiny⟩,
        matches_maybeQuote.mpr isClosing⟩

/-- The first letter of a name belongs to a word, and so does the last digit of a size. -/
theorem IsTinySize.edges (words : WordTable) {name : String} (isName : SizeName name)
    {mark : List Char} (tiny : IsTinySize name mark) :
    (∃ first tail, mark = first :: tail ∧ words.isWord first = true) ∧
      ∃ init last, mark = init ++ [last] ∧ words.isWord last = true := by
  obtain ⟨letters, gap, otherGap, quote, digit, rfl, named, _, _, _, zeroOne⟩ := tiny
  constructor
  · have starts : ∃ first tail, letters = first :: tail ∧
        (asciiLower first = 'w' ∨ asciiLower first = 'h') := by
      rcases isName with rfl | rfl
      · obtain ⟨first, tail, rfl, lower, _⟩ := List.map_eq_cons_iff.mp named
        exact ⟨first, tail, rfl, .inl lower⟩
      · obtain ⟨first, tail, rfl, lower, _⟩ := List.map_eq_cons_iff.mp named
        exact ⟨first, tail, rfl, .inr lower⟩
    obtain ⟨first, tail, rfl, lower⟩ := starts
    refine ⟨first, _, by simp only [List.cons_append]; rfl, ?_⟩
    have ascii : first.toNat < 0x80 := by
      by_contra beyond
      rw [asciiLower_of_not_ascii (Nat.le_of_not_lt beyond)] at lower
      rcases lower with rfl | rfl
      · exact beyond (by decide)
      · exact beyond (by decide)
    rw [words.ascii first ascii]
    exact forall_ascii (P := fun c => asciiLower c = 'w' ∨ asciiLower c = 'h' →
      (c.isAlphanum || c == '_') = true) (by decide) ascii lower
  · refine ⟨_, digit, rfl, ?_⟩
    rcases zeroOne with rfl | rfl
    · exact words.ascii _ (by decide)
    · exact words.ascii _ (by decide)

/-- Before a word, the edge is at the end of what precedes it. -/
theorem wordEdge_iff {before rest : List Char} {c : Char}
    (inside : prev.any words.isWord = true) (isWord : words.isWord c = true) :
    wordEdge words.isWord (lastOr prev before) (c :: rest) = true ↔ EndsOutside words before := by
  simp only [wordEdge, List.head?_cons, Option.any_some, isWord, EndsOutside, lastOr]
  cases before.getLast? with
  | none => simp [inside]
  | some d => simp

end Sizes

section Images

variable {words : WordTable} {prev : Option Char} {piece after name rest more : List Char}
  {earlier later : String}

/-- A tag name that folds to `img`. -/
def IsImg (name : List Char) : Prop := name.map asciiLower = "img".toList

theorem IsImg.ends_in_word (isImg : IsImg name) : (lastOr prev name).any words.isWord = true := by
  obtain ⟨i, _, rfl, _, others⟩ := List.map_eq_cons_iff.mp isImg
  obtain ⟨m, _, rfl, _, others⟩ := List.map_eq_cons_iff.mp others
  obtain ⟨g, _, rfl, lower, others⟩ := List.map_eq_cons_iff.mp others
  obtain rfl := List.map_eq_nil_iff.mp others
  have ascii : g.toNat < 0x80 := by
    by_contra beyond
    rw [asciiLower_of_not_ascii (Nat.le_of_not_lt beyond)] at lower
    rw [lower] at beyond
    exact beyond (by decide)
  simp only [lastOr_cons, lastOr_nil, Option.any_some, words.ascii g ascii]
  exact forall_ascii (P := fun c => asciiLower c = 'g' → (c.isAlphanum || c == '_') = true)
    (by decide) ascii lower

theorem IsImg.notMem {name : List Char} (isImg : IsImg name) {c : Char}
    (noLetter : asciiLower c ∉ "img".toList) : c ∉ name := by
  intro member
  have folded : asciiLower c ∈ name.map asciiLower := List.mem_map_of_mem member
  rw [isImg] at folded
  exact noLetter folded

/-- The patterns up to the closing bracket. -/
def openImage (earlier later : String) : List Item :=
  literal "img" ++ [.boundary, insideTag, .boundary] ++ tinySize earlier ++
    [insideTag, .boundary] ++ tinySize later ++ [insideTag, .opt fun c => c == '/', spaces]

theorem tinyImage_items (earlier later : String) :
    (tinyImage earlier later).items =
      (.one openAngle :: openImage earlier later) ++ [letter '>'] := rfl

/-- A match is one tag, up to its first closing bracket. -/
theorem tinyImage_opens (isEarlier : SizeName earlier) (isLater : SizeName later)
    (isMatch : Matches words.isWord (tinyImage earlier later).items prev piece after) :
    ∃ inner, piece = '<' :: (inner ++ ['>']) ∧ '>' ∉ inner ∧
      Matches words.isWord (openImage earlier later) (some '<') inner ('>' :: after) := by
  rw [tinyImage_items, matches_append] at isMatch
  obtain ⟨front, _, rfl, opened, closed⟩ := isMatch
  obtain rfl := (matches_symbol rfl (by decide)).mp closed
  obtain ⟨c, inner, rfl, isOpen, isOpened⟩ := opened
  obtain rfl : c = '<' := beq_iff_eq.mp isOpen
  refine ⟨inner, rfl, ?_, isOpened⟩
  refine notMem_of_rejects words.isWord ?_ isOpened
  rcases isEarlier with rfl | rfl
  · rcases isLater with rfl | rfl
    · decide
    · decide
  · rcases isLater with rfl | rfl
    · decide
    · decide

theorem matches_insideTag :
    Matches words.isWord [insideTag] prev piece after ↔ '>' ∉ piece := by
  simp only [insideTag, matches_greedy, bne_iff_ne, ne_eq]
  exact ⟨fun other member => other _ member rfl, fun absent c member same => absent (same ▸ member)⟩

theorem matches_gap :
    Matches words.isWord [insideTag, .boundary] prev piece after ↔
      '>' ∉ piece ∧ wordEdge words.isWord (lastOr prev piece) after = true := by
  rw [matches_cons]
  simp only [matches_insideTag, matches_boundary]
  constructor
  · rintro ⟨front, _, rfl, closed, rfl, edge⟩
    rw [List.append_nil]
    exact ⟨closed, edge⟩
  · rintro ⟨closed, edge⟩
    exact ⟨piece, [], (List.append_nil piece).symm, closed, rfl, edge⟩

/-- A size stands after the end of a word, if the text before that was in a word. -/
theorem size_edge_iff {size : String} {before mark tail : List Char} (isName : SizeName size)
    (tiny : IsTinySize size mark) (inside : prev.any words.isWord = true) :
    wordEdge words.isWord (lastOr prev before) (mark ++ tail) = true ↔
      EndsOutside words before := by
  obtain ⟨⟨c, others, rfl, isWord⟩, _⟩ := tiny.edges words isName
  exact wordEdge_iff inside isWord

theorem IsTinySize.ends_in_word {size : String} {mark : List Char} (isName : SizeName size)
    (tiny : IsTinySize size mark) (prev : Option Char) :
    (lastOr prev mark).any words.isWord = true := by
  obtain ⟨_, init, last, rfl, isWord⟩ := tiny.edges words isName
  rw [lastOr_append, lastOr_cons, lastOr_nil, Option.any_some]
  exact isWord

theorem EndsOutside.append_left {front back : List Char} (outside : EndsOutside words back) :
    EndsOutside words (front ++ back) := by
  unfold EndsOutside at outside ⊢
  rw [List.getLast?_append]
  cases last : back.getLast? with
  | none =>
      rw [last] at outside
      cases outside
  | some c =>
      rw [last] at outside
      exact outside

/-- Behind its opening bracket, an image with two tiny sizes. -/
def TinyImage (words : WordTable) (earlier later : String) (body : List Char) : Prop :=
  ∃ name rest, body = name ++ rest ∧ IsImg name ∧ StartsOutside words rest ∧
    TinySizes words earlier later rest

theorem TinySizes.append_left {back : List Char} (sizes : TinySizes words earlier later back)
    (front : List Char) : TinySizes words earlier later (front ++ back) := by
  obtain ⟨before, first, between, second, more, rfl, outside, parts⟩ := sizes
  refine ⟨front ++ before, first, between, second, more, ?_, outside.append_left, parts⟩
  simp only [List.append_assoc]

/-- What matches up to the closing bracket is a tiny image, -/
theorem tinyImage_of_matches (isEarlier : SizeName earlier) (isLater : SizeName later)
    (isMatch : Matches words.isWord (openImage earlier later) prev piece after) :
    TinyImage words earlier later piece := by
  have img : ∀ {prev piece after}, Matches words.isWord (literal "img") prev piece after ↔
      IsImg piece := matches_literal (by decide)
  simp only [openImage, matches_append, img, matches_tinySize isEarlier,
    matches_tinySize isLater] at isMatch
  obtain ⟨_, remaining, rfl, ⟨_, _, rfl, ⟨_, gap, rfl, ⟨_, _, rfl, ⟨name, opening, rfl,
    isImg, opened⟩, first, quote, rfl, isFirst, _⟩, spaced⟩, second, otherQuote, rfl,
    isSecond, _⟩, _⟩ := isMatch
  obtain ⟨_, before, rfl, started, opened⟩ := (matches_cons _ _ _).mp opened
  obtain ⟨rfl, edge⟩ := (matches_boundary _).mp started
  have outside : EndsOutside words before := by
    rw [List.append_assoc first] at opened
    exact (size_edge_iff isEarlier isFirst isImg.ends_in_word).mp (matches_gap.mp opened).2
  have between : EndsOutside words (quote ++ gap) := by
    rw [List.append_assoc second] at spaced
    have edge := (matches_gap.mp spaced).2
    simp only [lastOr_append] at edge
    rw [← lastOr_append _ quote gap] at edge
    exact (size_edge_iff isLater isSecond (isFirst.ends_in_word isEarlier _)).mp edge
  refine ⟨name, before ++ first ++ (quote ++ gap) ++ second ++ (otherQuote ++ remaining), ?_, isImg,
    ?_, before, first, quote ++ gap, second, otherQuote ++ remaining, rfl, outside, isFirst,
    between, isSecond⟩
  · simp only [List.nil_append, List.append_assoc]
  · obtain ⟨c, tail, rfl⟩ := List.exists_cons_of_ne_nil outside.ne_nil
    simpa [StartsOutside, wordEdge, isImg.ends_in_word] using edge

/-- and a tiny image without a closing bracket matches. -/
theorem matches_of_tinyImage (isEarlier : SizeName earlier) (isLater : SizeName later)
    (closed : '>' ∉ piece) (tiny : TinyImage words earlier later piece) :
    Matches words.isWord (openImage earlier later) prev piece after := by
  have img : ∀ {prev piece after}, Matches words.isWord (literal "img") prev piece after ↔
      IsImg piece := matches_literal (by decide)
  obtain ⟨name, _, rfl, isImg, starts, before, first, between, second, remaining, rfl,
    beforeOutside, isFirst, betweenOutside, isSecond⟩ := tiny
  have started : ∀ more, wordEdge words.isWord (lastOr prev name)
      ((before ++ first ++ between ++ second ++ remaining) ++ more) = true := by
    intro more
    obtain ⟨c, tail, rfl⟩ := List.exists_cons_of_ne_nil beforeOutside.ne_nil
    simpa [StartsOutside, wordEdge, isImg.ends_in_word] using starts
  simp only [List.mem_append, not_or] at closed
  simp only [openImage, matches_append, img, matches_tinySize isEarlier, matches_tinySize isLater]
  refine ⟨name ++ before ++ first ++ between ++ second, remaining, ?_, ⟨name ++ before ++ first ++
    between, second, rfl, ⟨name ++ before ++ first, between, rfl, ⟨name ++ before, first, rfl,
      ⟨name, before, rfl, isImg, ?_⟩, first, [], (List.append_nil first).symm, isFirst, .inl rfl⟩,
      ?_⟩, second, [], (List.append_nil second).symm, isSecond, .inl rfl⟩, ?_⟩
  · simp only [List.append_assoc]
  · apply (matches_cons _ _ _).mpr
    refine ⟨[], before, rfl, (matches_boundary _).mpr ⟨rfl, ?_⟩, ?_⟩
    · simpa only [List.append_assoc] using started after
    · apply matches_gap.mpr
      exact ⟨closed.2.1.1.1.1, (size_edge_iff isEarlier isFirst isImg.ends_in_word).mpr
        beforeOutside⟩
  · apply matches_gap.mpr
    refine ⟨closed.2.1.1.2, ?_⟩
    rw [lastOr_append]
    exact (size_edge_iff isLater isSecond (isFirst.ends_in_word isEarlier _)).mpr betweenOutside
  · apply (matches_cons _ _ _).mpr
    refine ⟨remaining, [], (List.append_nil _).symm, matches_insideTag.mpr closed.2.2, ?_⟩
    exact .inr (.stop rfl)

/-- At an opening bracket there is no match, or a tiny image up to the first closing bracket. -/
theorem matchItems_image (words : WordTable) (more : List Char)
    (isEarlier : SizeName earlier) (isLater : SizeName later)
    {body : List Char} (closed : '>' ∉ body) :
    matchItems words.isWord (tinyImage earlier later).items none ('<' :: (body ++ '>' :: more)) =
        none ∧ ¬ TinyImage words earlier later body ∨
      matchItems words.isWord (tinyImage earlier later).items none
          ('<' :: (body ++ '>' :: more)) = some (body.length + 2) ∧
        TinyImage words earlier later body := by
  have decides := decides_matchItems words.isWord (tinyImage earlier later).items
  cases found : matchItems words.isWord (tinyImage earlier later).items none
      ('<' :: (body ++ '>' :: more)) with
  | none =>
      refine .inl ⟨rfl, fun tiny => ?_⟩
      have opened : Matches words.isWord (openImage earlier later) (some '<') body
          (['>'] ++ more) := matches_of_tinyImage isEarlier isLater closed tiny
      have whole : Matches words.isWord (tinyImage earlier later).items none
          ('<' :: body ++ ['>']) more := by
        rw [tinyImage_items, matches_append]
        exact ⟨'<' :: body, ['>'], rfl, ⟨'<', body, rfl, rfl, opened⟩,
          (matches_symbol rfl (by decide)).mpr rfl⟩
      have complete := decides.complete whole
      rw [List.append_assoc, List.cons_append, List.singleton_append, found] at complete
      exact complete rfl
  | some n =>
      obtain ⟨piece, after, split, rfl, isMatch⟩ := decides.sound found
      obtain ⟨inner, rfl, innerClosed, opened⟩ := tinyImage_opens isEarlier isLater isMatch
      rw [List.cons_append, List.cons.injEq, List.append_assoc, List.singleton_append] at split
      obtain ⟨rfl, rfl⟩ := append_mark_inj closed innerClosed split.2
      exact .inr ⟨by simp, tinyImage_of_matches isEarlier isLater opened⟩

theorem matchItems_not_open {c : Char} (notOpen : c ≠ '<') :
    matchItems words.isWord (tinyImage earlier later).items none (c :: rest) = none := by
  rw [Pattern.items, matchItems, matchOne, if_neg]
  exact fun isOpen => notOpen (beq_iff_eq.mp isOpen)

/-- A text with a match has a tiny image, from an opening bracket to the next closing one. -/
theorem tinyImage_of_matchIn (isEarlier : SizeName earlier) (isLater : SizeName later)
    {text : List Char} (found : MatchIn words.isWord (tinyImage earlier later) prev text) :
    ∃ before body more, text = before ++ '<' :: (body ++ '>' :: more) ∧ '>' ∉ body ∧
      TinyImage words earlier later body := by
  obtain ⟨before, piece, more, rfl, isMatch⟩ := found
  obtain ⟨body, rfl, closed, opened⟩ := tinyImage_opens isEarlier isLater isMatch
  refine ⟨before, body, more, ?_, closed, tinyImage_of_matches isEarlier isLater opened⟩
  simp only [List.cons_append, List.append_assoc, List.nil_append]

theorem opens_of_matchIn (isEarlier : SizeName earlier) (isLater : SizeName later)
    {text : List Char} (found : MatchIn words.isWord (tinyImage earlier later) prev text) :
    '<' ∈ text := by
  obtain ⟨before, body, more, rfl, _⟩ := tinyImage_of_matchIn isEarlier isLater found
  simp

theorem matchItems_unclosed (isEarlier : SizeName earlier) (isLater : SizeName later)
    {text : List Char} (unclosed : '>' ∉ text) :
    matchItems words.isWord (tinyImage earlier later).items none text = none := by
  cases found : matchItems words.isWord (tinyImage earlier later).items none text with
  | none => rfl
  | some n =>
      obtain ⟨piece, more, rfl, _, isMatch⟩ :=
        (decides_matchItems words.isWord (tinyImage earlier later).items).sound found
      obtain ⟨inner, rfl, _⟩ := tinyImage_opens isEarlier isLater isMatch
      exact absurd (by simp) unclosed

end Images

section Passes

universe u

variable {α : Type u} {read : α → Char} {words : WordTable} {earlier later : String}

/-- The pass of one pattern. -/
def dropTiny (read : α → Char) (words : WordTable) (earlier later : String) (text : List α) :
    List α :=
  removeAll read words.isWord (tinyImage earlier later) text

/-- Every bracket that a text opens is closed in it. -/
def Shut (text : List Char) : Prop := ∀ before body, text = before ++ '<' :: body → '>' ∈ body

/-- No bracket that a text leaves open begins a tiny image that goes on for a piece. -/
def Apart (words : WordTable) (earlier later : String) (text piece : List Char) : Prop :=
  ∀ before body, text = before ++ '<' :: body → '>' ∉ body →
    ¬ TinyImage words earlier later (body ++ piece)

theorem Shut.apart {text : List Char} (shut : Shut text) (piece : List Char) :
    Apart words earlier later text piece :=
  fun before body split unclosed => absurd (shut before body split) unclosed

theorem shut_concat (text : List Char) : Shut (text ++ ['>']) := by
  intro before body split
  have last : (before ++ '<' :: body).getLast? = some '>' := by
    rw [← split, List.getLast?_concat]
  rw [List.getLast?_append_cons] at last
  exact (List.mem_cons.mp (List.mem_of_getLast? last)).resolve_left (by decide)

/-- A pass changes nothing in a text in which no bracket opens, -/
theorem dropTiny_plain (isEarlier : SizeName earlier) (isLater : SizeName later) {text : List α}
    (plain : '<' ∉ text.map read) : dropTiny read words earlier later text = text := by
  apply (removeAll_eq_iff text).mpr
  exact fun found => plain (opens_of_matchIn isEarlier isLater found)

/-- or none closes. -/
theorem dropTiny_unclosed (isEarlier : SizeName earlier) (isLater : SizeName later)
    {text : List α} (unclosed : '>' ∉ text.map read) :
    dropTiny read words earlier later text = text := by
  apply (removeAll_eq_iff text).mpr
  intro found
  obtain ⟨before, body, more, split, _⟩ := tinyImage_of_matchIn isEarlier isLater found
  rw [split] at unclosed
  exact unclosed (by simp)

/-- It takes two texts apart, if no image goes on from the first one to the second one. -/
theorem dropTiny_append (isEarlier : SizeName earlier) (isLater : SizeName later)
    {front rest : List α}
    (apart : ∀ piece more, rest.map read = piece ++ '>' :: more → '>' ∉ piece →
      Apart words earlier later (front.map read) piece) :
    dropTiny read words earlier later (front ++ rest) =
      dropTiny read words earlier later front ++ dropTiny read words earlier later rest := by
  apply removeAll_append
  rintro before here rfl nonempty
  obtain ⟨a, body, rfl⟩ := List.exists_cons_of_ne_nil nonempty
  by_cases opens : read a = '<'
  · rw [List.cons_append, List.map_cons, List.map_cons, opens, List.map_append]
    by_cases closes : '>' ∈ body.map read
    · -- The first closing bracket decides, whatever comes after it.
      obtain ⟨inner, more, split, closed⟩ := List.eq_append_cons_of_mem closes
      rw [split, List.append_assoc, List.cons_append]
      rcases matchItems_image words (more ++ rest.map read) isEarlier isLater closed with
        ⟨none_found, notTiny⟩ | ⟨found, tiny⟩
      · rcases matchItems_image words more isEarlier isLater closed with
          ⟨none_alone, _⟩ | ⟨_, tiny⟩
        · rw [none_found, none_alone]
        · exact absurd tiny notTiny
      · rcases matchItems_image words more isEarlier isLater closed with
          ⟨_, notTiny⟩ | ⟨found_alone, _⟩
        · exact absurd tiny notTiny
        · rw [found, found_alone]
    · have alone : '>' ∉ '<' :: body.map read := by
        rw [List.mem_cons, not_or]
        exact ⟨by decide, closes⟩
      rw [matchItems_unclosed isEarlier isLater alone]
      by_cases later_closes : '>' ∈ rest.map read
      · obtain ⟨piece, more, split, closed⟩ := List.eq_append_cons_of_mem later_closes
        have whole : '>' ∉ body.map read ++ piece := by
          rw [List.mem_append, not_or]
          exact ⟨closes, closed⟩
        rw [split, ← List.append_assoc]
        rcases matchItems_image words more isEarlier isLater whole with
          ⟨none_found, _⟩ | ⟨_, tiny⟩
        · exact none_found
        · refine absurd tiny (apart piece more split closed (before.map read) _ ?_ closes)
          rw [List.map_append, List.map_cons, opens]
      · apply matchItems_unclosed isEarlier isLater
        rw [← List.cons_append, List.mem_append, not_or]
        exact ⟨alone, later_closes⟩
  · rw [List.cons_append, List.map_cons, List.map_cons, matchItems_not_open opens,
      matchItems_not_open opens]

/-- It takes out a tiny image, up to its first closing bracket. -/
theorem dropTiny_image (isEarlier : SizeName earlier) (isLater : SizeName later)
    {opening : List α} {body : List Char} (shape : opening.map read = '<' :: (body ++ ['>']))
    (closed : '>' ∉ body) (tiny : TinyImage words earlier later body) (rest : List α) :
    dropTiny read words earlier later (opening ++ rest) =
      dropTiny read words earlier later rest := by
  have length : opening.length = body.length + 2 := by
    have same := congrArg List.length shape
    simpa using same
  have chars : (opening ++ rest).map read = '<' :: (body ++ '>' :: rest.map read) := by
    rw [List.map_append, shape, List.cons_append, List.append_assoc, List.singleton_append]
  rcases matchItems_image words (rest.map read) isEarlier isLater closed with
    ⟨_, notTiny⟩ | ⟨found, _⟩
  · exact absurd tiny notTiny
  · rw [← chars, ← length] at found
    exact removeAll_match found

/-- An image that looks tiny up to the end of a tag that has not closed yet: the tag itself, or
one that was left open before it. -/
def Reaches (words : WordTable) (earlier later : String) (front tag : List Char) : Prop :=
  ∃ before body, front ++ '<' :: tag = before ++ '<' :: body ∧ '>' ∉ body ∧
    TinyImage words earlier later body

/-- The beginning of a tag: the name and what else stands before a closing bracket. -/
def IsTag (words : WordTable) (tag : List Char) : Prop :=
  '>' ∉ tag ∧ ∃ name rest, tag = name ++ rest ∧ IsImg name ∧ StartsOutside words rest

/-- If an image within a tag looks tiny, the tag does. -/
theorem IsTag.tiny_of_inner {tag before body : List Char} (isTag : IsTag words tag)
    (inner : tag = before ++ '<' :: body) (tiny : TinyImage words earlier later body) :
    TinyImage words earlier later tag := by
  obtain ⟨_, name, rest, rfl, isImg, starts⟩ := isTag
  obtain ⟨innerName, innerRest, rfl, _, _, sizes⟩ := tiny
  have within : ∃ gap, rest = gap ++ '<' :: (innerName ++ innerRest) := by
    rcases List.append_eq_append_iff.mp inner with ⟨gap, _, split⟩ | ⟨tail, named, split⟩
    · exact ⟨gap, split⟩
    · cases tail with
      | nil => exact ⟨[], split.symm⟩
      | cons c tail =>
          obtain ⟨rfl, _⟩ := List.cons.inj split
          exact absurd (by rw [named]; simp) (isImg.notMem (c := '<') (by decide))
  obtain ⟨gap, rfl⟩ := within
  refine ⟨name, _, rfl, isImg, starts, ?_⟩
  have moved := sizes.append_left (gap ++ '<' :: innerName)
  rwa [List.append_assoc, List.cons_append] at moved

/-- The first image that reaches into a tag begins behind `stays`. -/
structure Leftmost (words : WordTable) (earlier later : String)
    (front tag stays cut : List Char) : Prop where
  split : front = stays ++ cut
  opened : cut = [] ∨ ∃ inner, cut = '<' :: inner ∧ '>' ∉ inner
  tiny : ∃ body, cut ++ '<' :: tag = '<' :: body ∧ '>' ∉ body ∧
    TinyImage words earlier later body
  apart : Apart words earlier later stays (cut ++ '<' :: tag)

theorem apart_nil (piece : List Char) : Apart words earlier later [] piece := by
  intro before body split
  simp at split

theorem Reaches.exists_leftmost {front tag : List Char} (isTag : IsTag words tag)
    (reaches : Reaches words earlier later front tag) :
    ∃ stays cut, Leftmost words earlier later front tag stays cut := by
  induction front with
  | nil =>
      obtain ⟨before, body, split, closed, tiny⟩ := reaches
      have whole : TinyImage words earlier later tag := by
        cases before with
        | nil =>
            obtain ⟨_, rfl⟩ := List.cons.inj split
            exact tiny
        | cons c before =>
            obtain ⟨_, inner⟩ := List.cons.inj split
            exact isTag.tiny_of_inner inner tiny
      exact ⟨[], [], rfl, .inl rfl, ⟨tag, rfl, isTag.1, whole⟩, apart_nil _⟩
  | cons c front inductionHypothesis =>
      by_cases head : c = '<' ∧ '>' ∉ front ∧ TinyImage words earlier later (front ++ '<' :: tag)
      · obtain ⟨rfl, unclosed, tiny⟩ := head
        refine ⟨[], '<' :: front, rfl, .inr ⟨front, rfl, unclosed⟩,
          ⟨front ++ '<' :: tag, rfl, ?_, tiny⟩, apart_nil _⟩
        rw [List.mem_append, List.mem_cons, not_or, not_or]
        exact ⟨unclosed, by decide, isTag.1⟩
      · have later_reaches : Reaches words earlier later front tag := by
          obtain ⟨before, body, split, closed, tiny⟩ := reaches
          cases before with
          | nil =>
              obtain ⟨isOpen, rfl⟩ := List.cons.inj split
              refine absurd ⟨isOpen, fun member => ?_, tiny⟩ head
              exact closed (List.mem_append_left _ member)
          | cons d before => exact ⟨before, body, (List.cons.inj split).2, closed, tiny⟩
        obtain ⟨stays, cut, leftmost⟩ := inductionHypothesis later_reaches
        refine ⟨c :: stays, cut, congrArg (c :: ·) leftmost.split, leftmost.opened,
          leftmost.tiny, ?_⟩
        intro before body split unclosed tiny
        cases before with
        | nil =>
            obtain ⟨isOpen, rfl⟩ := List.cons.inj split
            have cutUnclosed : '>' ∉ cut := by
              rcases leftmost.opened with rfl | ⟨inner, rfl, unclosedInner⟩
              · exact List.not_mem_nil
              · rw [List.mem_cons, not_or]
                exact ⟨by decide, unclosedInner⟩
            refine head ⟨isOpen, ?_, ?_⟩
            · rw [leftmost.split, List.mem_append, not_or]
              exact ⟨unclosed, cutUnclosed⟩
            · rwa [leftmost.split, List.append_assoc]
        | cons d before =>
            exact leftmost.apart before body (List.cons.inj split).2 unclosed tiny

/-- If a pass leaves no bracket open before a tag, only the tag itself reaches into it. -/
theorem Leftmost.eq_front (isEarlier : SizeName earlier) (isLater : SizeName later)
    {tag : List Char} {stays cut : List α}
    (leftmost : Leftmost words earlier later ((stays ++ cut).map read) tag (stays.map read)
      (cut.map read))
    (shut : Shut ((dropTiny read words earlier later (stays ++ cut)).map read)) :
    stays = stays ++ cut := by
  rcases leftmost.opened with empty | ⟨inner, isInner, unclosed⟩
  · rw [List.map_eq_nil_iff.mp empty, List.append_nil]
  · have cutUnclosed : '>' ∉ cut.map read := by
      rw [isInner, List.mem_cons, not_or]
      exact ⟨by decide, unclosed⟩
    have parts : dropTiny read words earlier later (stays ++ cut) =
        dropTiny read words earlier later stays ++ cut := by
      rw [dropTiny_append isEarlier isLater, dropTiny_unclosed isEarlier isLater cutUnclosed]
      intro piece more closes
      exact absurd (by rw [closes]; simp) cutUnclosed
    rw [parts, List.map_append, isInner] at shut
    exact absurd (shut _ inner rfl) unclosed

/-- A pass takes out the first image that reaches into a tag. -/
theorem dropTiny_leftmost (isEarlier : SizeName earlier) (isLater : SizeName later)
    {tag : List Char} {stays cut opening : List α}
    (shape : opening.map read = '<' :: (tag ++ ['>']))
    (leftmost : Leftmost words earlier later ((stays ++ cut).map read) tag (stays.map read)
      (cut.map read)) (rest : List α) :
    dropTiny read words earlier later ((stays ++ cut) ++ (opening ++ rest)) =
      dropTiny read words earlier later stays ++ dropTiny read words earlier later rest := by
  obtain ⟨body, starts, bodyClosed, tiny⟩ := leftmost.tiny
  have shapeCut : (cut ++ opening).map read = '<' :: (body ++ ['>']) := by
    rw [List.map_append, shape, ← List.cons_append, ← List.cons_append, ← starts,
      List.append_assoc]
  rw [List.append_assoc, ← List.append_assoc cut, dropTiny_append isEarlier isLater,
    dropTiny_image isEarlier isLater shapeCut bodyClosed tiny]
  intro piece more pieces pieceClosed
  rw [List.map_append, shapeCut, ← List.cons_append, ← starts, List.append_assoc,
    List.singleton_append] at pieces
  have wholeClosed : '>' ∉ cut.map read ++ '<' :: tag := by
    rw [starts, List.mem_cons, not_or]
    exact ⟨by decide, bodyClosed⟩
  obtain ⟨rfl, _⟩ := append_mark_inj wholeClosed pieceClosed pieces
  exact leftmost.apart

/-- A pass leaves a tag in which no image looks tiny. -/
theorem dropTiny_opening (isEarlier : SizeName earlier) (isLater : SizeName later)
    {tag : List Char} (closed : '>' ∉ '<' :: tag) {opening : List α}
    (shape : opening.map read = '<' :: (tag ++ ['>']))
    (unreached : ¬ Reaches words earlier later [] tag) :
    dropTiny read words earlier later opening = opening := by
  apply (removeAll_eq_iff opening).mpr
  intro found
  obtain ⟨before, body, more, split, bodyClosed, tiny⟩ :=
    tinyImage_of_matchIn isEarlier isLater found
  rw [shape, ← List.cons_append] at split
  -- The match ends at the only closing bracket, which is the last character.
  rcases List.eq_nil_or_concat more with rfl | ⟨more, c, rfl⟩
  · rw [← List.cons_append, ← List.append_assoc] at split
    obtain ⟨same, _⟩ := List.append_inj' split rfl
    exact unreached ⟨before, body, same, bodyClosed, tiny⟩
  · rw [List.concat_eq_append, ← List.cons_append, ← List.append_assoc, ← List.cons_append,
      ← List.append_assoc] at split
    obtain ⟨same, _⟩ := List.append_inj' split rfl
    exact closed (by rw [same]; simp)

/-- A pass leaves a tag that no tiny image reaches into. -/
theorem dropTiny_unreached (isEarlier : SizeName earlier) (isLater : SizeName later)
    {tag : List Char} (closed : '>' ∉ '<' :: tag) {opening : List α}
    (shape : opening.map read = '<' :: (tag ++ ['>'])) {front : List α}
    (unreached : ¬ Reaches words earlier later (front.map read) tag) (rest : List α) :
    dropTiny read words earlier later (front ++ (opening ++ rest)) =
      dropTiny read words earlier later front ++
        (opening ++ dropTiny read words earlier later rest) := by
  have alone : ¬ Reaches words earlier later [] tag := by
    rintro ⟨before, body, split, unclosed, tiny⟩
    refine unreached ⟨front.map read ++ before, body, ?_, unclosed, tiny⟩
    rw [List.append_assoc, ← split, List.nil_append]
  rw [dropTiny_append isEarlier isLater, dropTiny_append isEarlier isLater,
    dropTiny_opening isEarlier isLater closed shape alone]
  · intro piece more _ _
    rw [shape, ← List.cons_append]
    exact (shut_concat _).apart piece
  · intro piece more pieces pieceClosed
    rw [List.map_append, shape, ← List.cons_append, List.append_assoc,
      List.singleton_append] at pieces
    obtain ⟨rfl, _⟩ := append_mark_inj closed pieceClosed pieces
    intro before body split unclosed tiny
    refine unreached ⟨before, body ++ '<' :: tag, ?_, ?_, tiny⟩
    · rw [split, List.append_assoc, List.cons_append]
    · rw [List.mem_append, not_or]
      exact ⟨unclosed, closed⟩

/-- A pass takes a tag out up to its first closing bracket, with what was left open before it, or
leaves it there. -/
theorem dropTiny_tag (isEarlier : SizeName earlier) (isLater : SizeName later) {tag : List Char}
    (isTag : IsTag words tag) {opening : List α}
    (shape : opening.map read = '<' :: (tag ++ ['>'])) (front rest : List α) :
    (¬ Reaches words earlier later (front.map read) tag ∧
      dropTiny read words earlier later (front ++ (opening ++ rest)) =
        dropTiny read words earlier later front ++
          (opening ++ dropTiny read words earlier later rest)) ∨
    (Reaches words earlier later (front.map read) tag ∧ ∃ stays cut, front = stays ++ cut ∧
      (Shut ((dropTiny read words earlier later front).map read) → stays = front) ∧
      dropTiny read words earlier later (front ++ (opening ++ rest)) =
        dropTiny read words earlier later stays ++ dropTiny read words earlier later rest) := by
  by_cases reaches : Reaches words earlier later (front.map read) tag
  · obtain ⟨staysChars, cutChars, leftmost⟩ := reaches.exists_leftmost isTag
    obtain ⟨stays, cut, rfl, rfl, rfl⟩ := List.map_eq_append_iff.mp leftmost.split
    exact .inr ⟨reaches, stays, cut, rfl, leftmost.eq_front isEarlier isLater,
      dropTiny_leftmost isEarlier isLater shape leftmost rest⟩
  · have closed : '>' ∉ '<' :: tag := by
      rw [List.mem_cons, not_or]
      exact ⟨by decide, isTag.1⟩
    exact .inl ⟨reaches, dropTiny_unreached isEarlier isLater closed shape reaches rest⟩

end Passes

end Scryd.Mime
