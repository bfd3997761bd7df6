import Scryd.Mime.TinyImage
import Mathlib.Data.List.TakeWhile

/-!
# Which images are dropped

What the patterns for tracking pixels see of a tag is not what its attributes
say.
-/

namespace Scryd.Mime

open Scryd.Foundation

section Tags

def htmlSpace (c : Char) : Bool :=
  c == ' ' || c == '\t' || c == '\n' || c == '\r' || c == '\x0c'

def separator (c : Char) : Bool := htmlSpace c || c == '/'

def nameChar (c : Char) : Bool :=
  !separator c && c != '>' && c != '=' && c != '"' && c != '\''

def bareChar (c : Char) : Bool :=
  !htmlSpace c && c != '>' && c != '<' && c != '=' && c != '"' && c != '\'' && c != Char.ofNat 0x60

/-- The value of an attribute, quoted or not. -/
structure AttributeValue where
  gap : List Char
  otherGap : List Char
  quote : Option Char
  text : List Char
  spaced : ∀ c ∈ gap ++ otherGap, htmlSpace c = true
  quoted : ∀ q ∈ quote, (q = '"' ∨ q = '\'') ∧ q ∉ text
  bare : quote = none → text ≠ [] ∧ ∀ c ∈ text, bareChar c = true

structure Attribute where
  lead : List Char
  name : List Char
  value : Option AttributeValue
  separated : lead ≠ [] ∧ ∀ c ∈ lead, separator c = true
  named : name ≠ [] ∧ ∀ c ∈ name, nameChar c = true

def AttributeValue.source (value : AttributeValue) : List Char :=
  value.gap ++ '=' :: value.otherGap ++ value.quote.toList ++ value.text ++ value.quote.toList

def Attribute.source (attr : Attribute) : List Char :=
  attr.lead ++ attr.name ++ (attr.value.map AttributeValue.source).getD []

def Attribute.IsNamed (attr : Attribute) (name : String) : Prop :=
  attr.name.map asciiLower = name.toList

/-- An integer as a value has it: white space, a sign, digits and white space. -/
def IsInteger (text : List Char) (n : Int) : Prop :=
  ∃ pad sign digits otherPad, text = pad ++ sign ++ digits ++ otherPad ∧
    (∀ c ∈ pad ++ otherPad, htmlSpace c = true) ∧ digits ≠ [] ∧
    (∀ c ∈ digits, c.isDigit = true) ∧
    ((sign = [] ∨ sign = ['+']) ∧ n = Nat.ofDigitChars 10 digits 0 ∨
      sign = ['-'] ∧ n = -(Nat.ofDigitChars 10 digits 0 : Int))

/-- An attribute with a name and an integer. -/
def Attribute.IsSize (attr : Attribute) (name : String) (size : Int) : Prop :=
  attr.IsNamed name ∧ ∃ value, attr.value = some value ∧ IsInteger value.text size

/-- An attribute whose value, if it has one, consists of digits. -/
def Attribute.IsDigits (attr : Attribute) : Prop :=
  ∀ value, attr.value = some value → ∀ c ∈ value.text, c.isDigit = true

/-- An image with an integer width and height, in any order among its attributes. -/
structure ImgTag where
  name : List Char
  attrs : List Attribute
  close : List Char
  width : Int
  height : Int
  isImg : IsImg name
  closing : ∀ c ∈ close, separator c = true
  hasWidth : ∃ attr ∈ attrs, attr.IsSize "width" width
  hasHeight : ∃ attr ∈ attrs, attr.IsSize "height" height
  oneWidth : ∀ attr ∈ attrs, attr.IsNamed "width" → attr.IsSize "width" width
  oneHeight : ∀ attr ∈ attrs, attr.IsNamed "height" → attr.IsSize "height" height
  unstyled : ∀ attr ∈ attrs, ¬ attr.IsNamed "style"

namespace ImgTag

variable (img : ImgTag)

/-- What stands between the name of the tag and its closing bracket. -/
def body : List Char := img.attrs.flatMap Attribute.source ++ img.close

def source : List Char := '<' :: (img.name ++ (img.body ++ ['>']))

def notClose (c : Char) : Bool := c != '>'

/-- What the patterns see of it: up to the first closing bracket. -/
def shown : List Char := img.body.takeWhile notClose

/-- What is behind the first closing bracket. -/
def hidden : List Char := ((img.body ++ ['>']).dropWhile notClose).tail

/-- Both sides are at most one pixel long. -/
def IsPixel : Prop := img.width ≤ 1 ∧ img.height ≤ 1

/-- The patterns see two tiny sizes. -/
def LooksTiny (words : WordTable) : Prop :=
  TinySizes words "width" "height" img.shown ∨ TinySizes words "height" "width" img.shown

variable {img}

theorem shown_hidden (img : ImgTag) : img.body ++ ['>'] = img.shown ++ '>' :: img.hidden := by
  rw [shown, hidden]
  induction img.body with
  | nil => rfl
  | cons c rest inductionHypothesis =>
      rw [List.cons_append]
      by_cases other : notClose c = true
      · rw [List.takeWhile_cons_of_pos other, List.dropWhile_cons_of_pos other, List.cons_append]
        exact congrArg (c :: ·) inductionHypothesis
      · rw [List.takeWhile_cons_of_neg other, List.dropWhile_cons_of_neg other]
        obtain rfl : c = '>' := by simpa [notClose] using other
        rfl

theorem gt_notMem_shown : '>' ∉ img.shown := by
  intro member
  have passes : notClose '>' = true := List.mem_takeWhile_imp member
  cases passes

theorem shown_eq_body (single : '>' ∉ img.body) : img.shown = img.body := by
  rw [shown, List.takeWhile_eq_self_iff]
  exact fun c member => bne_iff_ne.mpr fun same => single (same ▸ member)

theorem hidden_eq_nil_iff (img : ImgTag) : img.hidden = [] ↔ '>' ∉ img.body := by
  have split := img.shown_hidden
  constructor
  · intro empty
    rw [empty] at split
    rw [List.append_cancel_right split]
    exact gt_notMem_shown
  · intro single
    rw [shown_eq_body single, List.append_cancel_left_eq] at split
    exact (List.cons.inj split).2.symm

/-- Of two members of a list one comes first. -/
theorem exists_split_pair {β : Type} {items : List β} {first second : β} (isFirst : first ∈ items)
    (isSecond : second ∈ items) (different : first ≠ second) :
    ∃ before between after, items = before ++ first :: between ++ second :: after ∨
      items = before ++ second :: between ++ first :: after := by
  obtain ⟨front, back, rfl⟩ := List.append_of_mem isFirst
  rcases List.mem_append.mp isSecond with inFront | inBack
  · obtain ⟨before, between, rfl⟩ := List.append_of_mem inFront
    exact ⟨before, between, back, .inr rfl⟩
  · rcases List.mem_cons.mp inBack with same | later
    · exact absurd same.symm different
    · obtain ⟨between, after, rfl⟩ := List.append_of_mem later
      exact ⟨front, between, after, .inl (by simp)⟩

theorem isWhitespace_of_htmlSpace {c : Char} (space : htmlSpace c = true) :
    isWhitespace c = true := by
  simp only [htmlSpace, Bool.or_eq_true, beq_iff_eq] at space
  rcases space with (((rfl | rfl) | rfl) | rfl) | rfl <;> decide

theorem separator_not_word (words : WordTable) {c : Char} (isSeparator : separator c = true) :
    words.isWord c = false := by
  simp only [separator, htmlSpace, Bool.or_eq_true, beq_iff_eq] at isSeparator
  rcases isSeparator with ((((rfl | rfl) | rfl) | rfl) | rfl) | rfl <;>
    exact words.ascii _ (by decide)

/-- A number up to one begins with a zero or a one. -/
theorem tiny_digit {c : Char} {digits : List Char} (isDigit : c.isDigit = true)
    (small : Nat.ofDigitChars 10 (c :: digits) 0 ≤ 1) : c = '0' ∨ c = '1' := by
  rw [Nat.ofDigitChars_cons, Nat.mul_zero, Nat.zero_add,
    Nat.ofDigitChars_eq_ofDigitChars_zero] at small
  have positive : 0 < 10 ^ digits.length := Nat.pow_pos (by decide)
  have first : c.toNat - '0'.toNat ≤ 1 :=
    Nat.le_trans (Nat.le_mul_of_pos_left _ positive) (Nat.le_trans (Nat.le_add_right _ _) small)
  have ascii : c.toNat < 0x80 := by
    rw [Char.isDigit, Bool.and_eq_true, decide_eq_true_eq, decide_eq_true_eq] at isDigit
    exact Nat.lt_of_le_of_lt (show c.toNat ≤ 57 from isDigit.2) (by decide)
  exact forall_ascii (P := fun c => c.isDigit = true → c.toNat - '0'.toNat ≤ 1 →
    c = '0' ∨ c = '1') (by decide) ascii isDigit first

/-- Digits alone are their own number. -/
theorem number_of_digits {text : List Char} {n : Int} (isInteger : IsInteger text n)
    (digits : ∀ c ∈ text, c.isDigit = true) :
    text ≠ [] ∧ n = Nat.ofDigitChars 10 text 0 := by
  obtain ⟨pad, sign, number, otherPad, rfl, spaced, nonempty, _, value⟩ := isInteger
  have no_space : ∀ c ∈ pad ++ otherPad, c.isDigit = false := by
    intro c member
    have space := spaced c member
    simp only [htmlSpace, Bool.or_eq_true, beq_iff_eq] at space
    rcases space with (((rfl | rfl) | rfl) | rfl) | rfl <;> decide
  have unpadded : pad ++ otherPad = [] := by
    rw [List.eq_nil_iff_forall_not_mem]
    intro c member
    have isDigit := digits c (by
      rcases List.mem_append.mp member with left | right
      · simp [left]
      · simp [right])
    rw [no_space c member] at isDigit
    cases isDigit
  obtain ⟨rfl, rfl⟩ := List.append_eq_nil_iff.mp unpadded
  simp only [List.nil_append, List.append_nil] at digits ⊢
  rcases value with ⟨rfl | rfl, same⟩ | ⟨rfl, _⟩
  · exact ⟨nonempty, same⟩
  · exact absurd (digits '+' (by simp)) (by decide)
  · exact absurd (digits '-' (by simp)) (by decide)

/-- An attribute whose digits are at most one is a tiny size. -/
theorem tinySize_of_isSize {attr : Attribute} {name : String} {size : Int}
    (isSize : attr.IsSize name size) (isDigits : attr.IsDigits) (small : size ≤ 1) :
    ∃ mark rest, attr.source = attr.lead ++ mark ++ rest ∧ IsTinySize name mark := by
  obtain ⟨isNamed, value, hasValue, isInteger⟩ := isSize
  have digits := isDigits value hasValue
  obtain ⟨nonempty, rfl⟩ := number_of_digits isInteger digits
  obtain ⟨digit, others, text⟩ := List.exists_cons_of_ne_nil nonempty
  rw [text] at digits small
  have smallNumber : Nat.ofDigitChars 10 (digit :: others) 0 ≤ 1 := by exact_mod_cast small
  have spaced := fun c member => isWhitespace_of_htmlSpace (value.spaced c member)
  have quote : MaybeQuote value.quote.toList := by
    cases kind : value.quote with
    | none => exact .inl rfl
    | some q =>
        rcases (value.quoted q kind).1 with rfl | rfl
        · exact .inr (.inl rfl)
        · exact .inr (.inr rfl)
  refine ⟨attr.name ++ value.gap ++ '=' :: value.otherGap ++ value.quote.toList ++ [digit],
    others ++ value.quote.toList, ?_, attr.name, value.gap, value.otherGap, value.quote.toList,
    digit, rfl, isNamed, fun c member => spaced c (List.mem_append_left _ member),
    fun c member => spaced c (List.mem_append_right _ member), quote,
    tiny_digit (digits digit List.mem_cons_self) smallNumber⟩
  simp [Attribute.source, hasValue, AttributeValue.source, text]

theorem lead_endsOutside (words : WordTable) (attr : Attribute) :
    EndsOutside words attr.lead := by
  rw [EndsOutside, List.getLast?_eq_some_getLast attr.separated.1, Option.any_some,
    separator_not_word words (attr.separated.2 _ (List.getLast_mem attr.separated.1))]
  rfl

/-- Two attributes with numbers up to one are two tiny sizes. -/
theorem tinySizes_of_attributes (words : WordTable) {earlier later : String}
    {before between after : List Attribute} {first second : Attribute} {size otherSize : Int}
    (isFirst : first.IsSize earlier size) (firstDigits : first.IsDigits) (small : size ≤ 1)
    (isSecond : second.IsSize later otherSize) (secondDigits : second.IsDigits)
    (otherSmall : otherSize ≤ 1) (close : List Char) :
    TinySizes words earlier later
      ((before ++ first :: between ++ second :: after).flatMap Attribute.source ++ close) := by
  obtain ⟨mark, rest, source, isTiny⟩ := tinySize_of_isSize isFirst firstDigits small
  obtain ⟨otherMark, otherRest, otherSource, isOtherTiny⟩ :=
    tinySize_of_isSize isSecond secondDigits otherSmall
  refine ⟨before.flatMap Attribute.source ++ first.lead, mark,
    rest ++ between.flatMap Attribute.source ++ second.lead, otherMark,
    otherRest ++ after.flatMap Attribute.source ++ close, ?_,
    (lead_endsOutside words first).append_left, isTiny,
    (lead_endsOutside words second).append_left, isOtherTiny⟩
  simp only [List.flatMap_append, List.flatMap_cons, source, otherSource, List.append_assoc]

/-- The patterns see a pixel with plain numbers, unless a closing bracket in a value hides it. -/
theorem looksTiny_of_isPixel {img : ImgTag} (words : WordTable) (single : '>' ∉ img.body)
    (digits : ∀ attr ∈ img.attrs, attr.IsNamed "width" ∨ attr.IsNamed "height" → attr.IsDigits)
    (pixel : img.IsPixel) : img.LooksTiny words := by
  obtain ⟨first, isFirst, firstSize⟩ := img.hasWidth
  obtain ⟨second, isSecond, secondSize⟩ := img.hasHeight
  have firstDigits := digits first isFirst (.inl firstSize.1)
  have secondDigits := digits second isSecond (.inr secondSize.1)
  have different : first ≠ second := by
    rintro rfl
    have sameName := firstSize.1.symm.trans secondSize.1
    revert sameName
    decide
  rw [LooksTiny, shown_eq_body single, body]
  obtain ⟨before, between, after, split | split⟩ := exists_split_pair isFirst isSecond different
  · rw [split]
    exact .inl (tinySizes_of_attributes words firstSize firstDigits pixel.1 secondSize
      secondDigits pixel.2 _)
  · rw [split]
    exact .inr (tinySizes_of_attributes words secondSize secondDigits pixel.2 firstSize
      firstDigits pixel.1 _)

end ImgTag

end Tags

section Outcome

variable {words : WordTable}

/-- A document whose characters know whether they belong to a tag. -/
def tracked (before tag after : List Char) : List (Char × Bool) :=
  before.map (·, false) ++ (tag.map (·, true) ++ after.map (·, false))

/-- What is left of the tag. -/
def tagChars (text : List (Char × Bool)) : List Char := (text.filter (·.2)).map (·.1)

theorem tagChars_tracked (before tag after : List Char) :
    tagChars (tracked before tag after) = tag := by
  have outside : ∀ text : List Char, (text.map (·, false)).filter (·.2) = [] := by
    intro text
    rw [List.filter_eq_nil_iff]
    intro entry member
    obtain ⟨c, _, rfl⟩ := List.mem_map.mp member
    exact Bool.false_ne_true
  have inside : (tag.map (·, true)).filter (·.2) = tag.map (·, true) := by
    rw [List.filter_eq_self]
    intro entry member
    obtain ⟨c, _, rfl⟩ := List.mem_map.mp member
    rfl
  rw [tagChars, tracked, List.filter_append, List.filter_append, outside, outside, inside,
    List.nil_append, List.append_nil, List.map_map]
  exact List.map_id tag

theorem tagChars_sublist {part text : List (Char × Bool)} (sublist : part.Sublist text) :
    (tagChars part).Sublist (tagChars text) := (sublist.filter _).map _

/-- The patterns read the characters only: the tracked pass is the pass. -/
theorem preClean_tracked (before tag after : List Char) :
    (removeEach Prod.fst words cleanPatterns (tracked before tag after)).map Prod.fst =
      (preClean words (String.ofList (before ++ tag ++ after))).toList := by
  have chars : (tracked before tag after).map Prod.fst = before ++ tag ++ after := by
    simp [tracked, Function.comp_def]
  rw [removeEach_map, chars, preClean, String.toList_ofList, String.toList_ofList]

/-- What `pre_clean` leaves of a tag. -/
def leftOf (words : WordTable) (before : List Char) (img : ImgTag) (after : List Char) :
    List Char :=
  tagChars (removeEach Prod.fst words cleanPatterns (tracked before img.source after))

/-- No piece that the searches of the patterns take, one after the other, has a character of the
tag. -/
def Spares (words : WordTable) : List Pattern → List (Char × Bool) → Prop
  | [], _ => True
  | pattern :: patterns, text =>
      (∀ kept taken, Scan Prod.fst words.isWord pattern text kept taken →
        ∀ piece ∈ taken, ∀ entry ∈ piece, entry.2 = false) ∧
      Spares words patterns (removeAll Prod.fst words.isWord pattern text)

theorem tagChars_eq_iff {part text : List (Char × Bool)} (sublist : part.Sublist text) :
    tagChars part = tagChars text ↔ part.filter (·.2) = text.filter (·.2) := by
  constructor
  · intro same
    have lengths := congrArg List.length same
    rw [tagChars, tagChars, List.length_map, List.length_map] at lengths
    exact (sublist.filter _).eq_of_length lengths
  · intro same
    rw [tagChars, same, tagChars]

/-- Such searches leave the tag whole, and others do not. -/
theorem spares_iff {patterns : List Pattern} {text : List (Char × Bool)} :
    Spares words patterns text ↔
      tagChars (removeEach Prod.fst words patterns text) = tagChars text := by
  induction patterns generalizing text with
  | nil => exact iff_of_true trivial rfl
  | cons pattern patterns inductionHypothesis =>
      obtain ⟨taken, scan⟩ := exists_scan Prod.fst words.isWord pattern text
      have later := removeEach_sublist Prod.fst words patterns
        (removeAll Prod.fst words.isWord pattern text)
      have step : removeEach Prod.fst words (pattern :: patterns) text =
        removeEach Prod.fst words patterns (removeAll Prod.fst words.isWord pattern text) := rfl
      rw [Spares, inductionHypothesis, step]
      constructor
      · rintro ⟨spared, same⟩
        rw [same, tagChars_eq_iff scan.sublist, scan.filter_eq_iff]
        exact spared _ _ scan
      · intro same
        have first : tagChars (removeAll Prod.fst words.isWord pattern text) = tagChars text := by
          apply (tagChars_sublist scan.sublist).antisymm
          rw [← same]
          exact tagChars_sublist later
        refine ⟨fun kept taken other => ?_, same.trans first.symm⟩
        rw [← other.filter_eq_iff, other.kept_eq, ← tagChars_eq_iff scan.sublist]
        exact first

/-- What is left of a document of which the tag is left. -/
theorem exists_tracked {before tag after : List Char} {left : List (Char × Bool)}
    (sublist : left.Sublist (tracked before tag after)) (whole : tagChars left = tag) :
    ∃ front back, left = tracked front tag back := by
  obtain ⟨first, rest, rfl, subFirst, subRest⟩ := List.sublist_append_iff.mp sublist
  obtain ⟨middle, last, rfl, subMiddle, subLast⟩ := List.sublist_append_iff.mp subRest
  obtain ⟨front, _, rfl⟩ := List.sublist_map_iff.mp subFirst
  obtain ⟨inner, _, rfl⟩ := List.sublist_map_iff.mp subMiddle
  obtain ⟨back, _, rfl⟩ := List.sublist_map_iff.mp subLast
  refine ⟨front, back, ?_⟩
  have inside : tagChars (tracked front inner back) = tag := whole
  rw [tagChars_tracked] at inside
  rw [inside]
  rfl

/-- What stands before the tag. -/
def frontOf (text : List (Char × Bool)) : List Char :=
  (text.takeWhile fun entry => !entry.2).map Prod.fst

theorem frontOf_tracked {tag : List Char} (nonempty : tag ≠ []) (front back : List Char) :
    frontOf (tracked front tag back) = front := by
  obtain ⟨c, others, rfl⟩ := List.exists_cons_of_ne_nil nonempty
  have passes : ∀ entry ∈ front.map (·, false), (!entry.2) = true := by
    intro entry member
    obtain ⟨d, _, rfl⟩ := List.mem_map.mp member
    rfl
  rw [frontOf, tracked, List.map_cons, List.cons_append,
    List.takeWhile_append_of_pos passes, List.takeWhile_cons_of_neg (by simp), List.append_nil,
    List.map_map]
  exact List.map_id front

/-- A tag is dropped if it is a pixel, and kept otherwise. -/
def DropsOnlyPixels (words : WordTable) (before : List Char) (img : ImgTag) (after : List Char) :
    Prop :=
  (img.IsPixel → leftOf words before img after = []) ∧
    (¬ img.IsPixel → leftOf words before img after = img.source)

theorem isWidth : SizeName "width" := .inl rfl

theorem isHeight : SizeName "height" := .inr rfl

namespace ImgTag

variable {img : ImgTag}

/-- What stands behind the opening bracket of the tag, up to a closing one. -/
def tag (img : ImgTag) : List Char := img.name ++ img.shown

/-- The tag up to its first closing bracket. -/
def opening (img : ImgTag) : List Char := '<' :: (img.tag ++ ['>'])

theorem source_eq (img : ImgTag) : img.source = img.opening ++ img.hidden := by
  rw [source, opening, shown_hidden, tag]
  simp only [List.cons_append, List.append_assoc, List.nil_append]

theorem hidden_length_lt (img : ImgTag) : img.hidden.length < img.source.length := by
  rw [source_eq, List.length_append, opening, List.length_cons]
  omega

theorem shut_hidden (img : ImgTag) : Shut img.hidden := by
  rcases List.eq_nil_or_concat img.hidden with empty | ⟨init, c, split⟩
  · intro before body opens
    rw [empty] at opens
    simp at opens
  · have ends := img.shown_hidden
    rw [split, List.concat_eq_append, ← List.cons_append, ← List.append_assoc] at ends
    obtain ⟨_, same⟩ := List.append_inj' ends rfl
    rw [split, List.concat_eq_append, ← same]
    exact shut_concat init

theorem shown_starts (words : WordTable) (img : ImgTag) : StartsOutside words img.shown := by
  obtain ⟨attr, member, _⟩ := img.hasWidth
  obtain ⟨first, others, attrs⟩ := List.exists_cons_of_ne_nil (List.ne_nil_of_mem member)
  obtain ⟨c, lead, isLead⟩ := List.exists_cons_of_ne_nil first.separated.1
  have isSeparator : separator c = true :=
    first.separated.2 c (by rw [isLead]; exact List.mem_cons_self)
  have passes : notClose c = true := by
    rw [notClose, bne_iff_ne]
    rintro rfl
    cases isSeparator
  have starts : ∃ tail, img.body = c :: tail := by
    rw [body, attrs, List.flatMap_cons, Attribute.source, isLead]
    exact ⟨_, rfl⟩
  obtain ⟨tail, starts⟩ := starts
  rw [StartsOutside, shown, starts, List.takeWhile_cons_of_pos passes, List.head?_cons,
    Option.any_some, separator_not_word words isSeparator]
  rfl

theorem isTag (words : WordTable) (img : ImgTag) : IsTag words img.tag := by
  refine ⟨?_, img.name, img.shown, rfl, img.isImg, img.shown_starts words⟩
  rw [tag, List.mem_append, not_or]
  exact ⟨img.isImg.notMem (by decide), gt_notMem_shown⟩

/-- A tag that shows two tiny sizes is an image that reaches into itself. -/
theorem reaches_of_tinySizes {earlier later : String}
    (sizes : TinySizes words earlier later img.shown) (front : List Char) :
    Reaches words earlier later front img.tag :=
  ⟨front, img.tag, rfl, (img.isTag words).1, img.name, img.shown, rfl, img.isImg,
    img.shown_starts words, sizes⟩

/-- Behind closed brackets it is the only one. -/
theorem reaches_iff_tinySizes {earlier later : String} {front : List Char} (shut : Shut front) :
    Reaches words earlier later front img.tag ↔ TinySizes words earlier later img.shown := by
  refine ⟨?_, fun sizes => reaches_of_tinySizes sizes front⟩
  rintro ⟨before, body, split, closed, tiny⟩
  have whole : TinyImage words earlier later img.tag := by
    rcases List.append_eq_append_iff.mp split with ⟨gap, _, inner⟩ | ⟨opened, isFront, inner⟩
    · cases gap with
      | nil =>
          obtain ⟨_, rfl⟩ := List.cons.inj inner
          exact tiny
      | cons c gap => exact (img.isTag words).tiny_of_inner (List.cons.inj inner).2 tiny
    · cases opened with
      | nil =>
          obtain ⟨_, rfl⟩ := List.cons.inj inner
          exact tiny
      | cons c opened =>
          obtain ⟨rfl, rfl⟩ := List.cons.inj inner
          exact absurd (List.mem_append_left _ (shut before opened isFront)) closed
  obtain ⟨name, rest, isTag, isImg, _, sizes⟩ := whole
  have lengths : img.name.length = name.length := by
    have same := congrArg List.length (img.isImg.trans isImg.symm)
    rwa [List.length_map, List.length_map] at same
  rw [(List.append_inj isTag lengths).2]
  exact sizes

/-- Neither pattern finds a tiny image that reaches into the tag, nor one behind its first closing
bracket. -/
structure Unseen (words : WordTable) (front : List Char) (img : ImgTag) : Prop where
  widthFirst : ¬ Reaches words "width" "height" front img.tag
  heightFirst : ¬ Reaches words "height" "width" (dropTiny id words "width" "height" front) img.tag
  behind : ∀ pattern ∈ tinyPatterns, ¬ MatchIn words.isWord pattern none img.hidden

/-- Where all brackets are closed before the tag and none opens behind its first closing one, a
tag is unseen exactly when it does not look tiny itself. -/
theorem unseen_iff {front : List Char} (shut : Shut front)
    (staysShut : Shut (dropTiny id words "width" "height" front)) (plain : '<' ∉ img.hidden) :
    img.Unseen words front ↔ ¬ img.LooksTiny words := by
  constructor
  · rintro unseen (widthFirst | heightFirst)
    · exact unseen.widthFirst (reaches_of_tinySizes widthFirst front)
    · exact unseen.heightFirst (reaches_of_tinySizes heightFirst _)
  · intro notTiny
    rw [LooksTiny, not_or] at notTiny
    refine ⟨mt (reaches_iff_tinySizes shut).mp notTiny.1,
      mt (reaches_iff_tinySizes staysShut).mp notTiny.2, fun pattern member found => ?_⟩
    rcases List.mem_pair.mp member with rfl | rfl
    · exact plain (opens_of_matchIn isWidth isHeight found)
    · exact plain (opens_of_matchIn isHeight isWidth found)

end ImgTag

variable {earlier later : String} {img : ImgTag} {front back : List Char}

theorem dropTiny_marked (mark : Bool) (text : List Char) :
    dropTiny Prod.fst words earlier later (text.map (·, mark)) =
      (dropTiny id words earlier later text).map (·, mark) := removeAll_map _ text

theorem map_fst_marked (mark : Bool) (text : List Char) :
    (text.map (·, mark)).map Prod.fst = text := by
  rw [List.map_map]
  exact List.map_id text

/-- Behind closed brackets the parts of a document are cleaned one by one. -/
theorem dropTiny_parts (isEarlier : SizeName earlier) (isLater : SizeName later)
    {piece : List Char} (frontShut : Shut front) (pieceShut : Shut piece) :
    dropTiny Prod.fst words earlier later (tracked front piece back) =
      tracked (dropTiny id words earlier later front) (dropTiny id words earlier later piece)
        (dropTiny id words earlier later back) := by
  rw [tracked, dropTiny_append isEarlier isLater, dropTiny_append isEarlier isLater,
    dropTiny_marked, dropTiny_marked, dropTiny_marked, tracked]
  · intro inner _ _ _
    rw [map_fst_marked]
    exact pieceShut.apart inner
  · intro inner _ _ _
    rw [map_fst_marked]
    exact frontShut.apart inner

/-- A pass leaves the tag and looks behind its first closing bracket, or takes it out up to
there. -/
theorem dropTiny_tracked (isEarlier : SizeName earlier) (isLater : SizeName later)
    (words : WordTable) (img : ImgTag) (front back : List Char) :
    (¬ Reaches words earlier later front img.tag ∧
      dropTiny Prod.fst words earlier later (tracked front img.source back) =
        tracked (dropTiny id words earlier later front)
          (img.opening ++ dropTiny id words earlier later img.hidden)
          (dropTiny id words earlier later back)) ∨
    (Reaches words earlier later front img.tag ∧ ∃ stays,
      (Shut (dropTiny id words earlier later front) → stays = front) ∧
      dropTiny Prod.fst words earlier later (tracked front img.source back) =
        tracked (dropTiny id words earlier later stays)
          (dropTiny id words earlier later img.hidden)
          (dropTiny id words earlier later back)) := by
  have behind : dropTiny Prod.fst words earlier later
      (img.hidden.map (·, true) ++ back.map (·, false)) =
        (dropTiny id words earlier later img.hidden).map (·, true) ++
          (dropTiny id words earlier later back).map (·, false) := by
    rw [dropTiny_append isEarlier isLater, dropTiny_marked, dropTiny_marked]
    intro inner _ _ _
    rw [map_fst_marked]
    exact img.shut_hidden.apart inner
  have parts : tracked front img.source back = front.map (·, false) ++
      (img.opening.map (·, true) ++ (img.hidden.map (·, true) ++ back.map (·, false))) := by
    rw [tracked, img.source_eq, List.map_append, List.append_assoc]
  have cases := dropTiny_tag isEarlier isLater (img.isTag words)
    (map_fst_marked true img.opening) (front.map (·, false))
    (img.hidden.map (·, true) ++ back.map (·, false))
  rw [map_fst_marked, behind, ← parts] at cases
  rcases cases with ⟨unreached, kept⟩ | ⟨reached, marked, cut, split, whole, dropped⟩
  · refine .inl ⟨unreached, ?_⟩
    rw [kept, dropTiny_marked, tracked, List.map_append, List.append_assoc]
  · obtain ⟨stays, _, rfl, rfl, _⟩ := List.map_eq_append_iff.mp split
    refine .inr ⟨reached, stays, fun shut => ?_, ?_⟩
    · rw [dropTiny_marked, map_fst_marked] at whole
      have same := congrArg (List.map Prod.fst) (whole shut)
      rwa [map_fst_marked, map_fst_marked] at same
    · rw [dropped, dropTiny_marked, tracked]

/-- A pass takes characters of the tag out and puts none in. -/
theorem tagChars_dropTiny (words : WordTable) (earlier later : String)
    (front piece back : List Char) :
    (tagChars (dropTiny Prod.fst words earlier later (tracked front piece back))).Sublist
      piece := by
  have less : (tagChars (dropTiny Prod.fst words earlier later (tracked front piece back))).Sublist
      (tagChars (tracked front piece back)) := tagChars_sublist (removeAll_sublist _)
  rwa [tagChars_tracked] at less

theorem tinyPasses_eq (text : List (Char × Bool)) :
    removeEach Prod.fst words tinyPatterns text =
      dropTiny Prod.fst words "height" "width" (dropTiny Prod.fst words "width" "height" text) :=
  rfl

/-- Nothing is left of a tag or all of it, if no value of it has a closing bracket. -/
theorem left_eq_nil_or_source (words : WordTable) (single : '>' ∉ img.body)
    (front back : List Char) :
    tagChars (removeEach Prod.fst words tinyPatterns (tracked front img.source back)) = [] ∨
      tagChars (removeEach Prod.fst words tinyPatterns (tracked front img.source back)) =
        img.source := by
  have noneHidden := img.hidden_eq_nil_iff.mpr single
  have dropNil : ∀ earlier later, dropTiny id words earlier later [] = [] := fun _ _ => rfl
  have onlyOpening : img.opening = img.source := by
    rw [img.source_eq, noneHidden, List.append_nil]
  rw [tinyPasses_eq]
  rcases dropTiny_tracked isWidth isHeight words img front back with
    ⟨_, first⟩ | ⟨_, stays, _, first⟩
  · rw [first, noneHidden, dropNil, List.append_nil, onlyOpening]
    rcases dropTiny_tracked isHeight isWidth words img (dropTiny id words "width" "height" front)
      (dropTiny id words "width" "height" back) with
      ⟨_, second⟩ | ⟨_, laterStays, _, second⟩
    · rw [second, tagChars_tracked, noneHidden, dropNil, List.append_nil, onlyOpening]
      exact .inr rfl
    · rw [second, tagChars_tracked, noneHidden, dropNil]
      exact .inl rfl
  · rw [first, noneHidden, dropNil]
    exact .inl (List.sublist_nil.mp (tagChars_dropTiny _ _ _ _ [] _))

/-- A whole tag is left exactly when the patterns find no tiny image that reaches into it or lies
behind its first closing bracket. -/
theorem left_eq_source_iff (words : WordTable) (img : ImgTag) (front back : List Char) :
    tagChars (removeEach Prod.fst words tinyPatterns (tracked front img.source back)) =
        img.source ↔ img.Unseen words front := by
  rw [tinyPasses_eq]
  have shorter : ∀ {left : List Char}, left.Sublist img.hidden → left ≠ img.source := by
    rintro left sublist rfl
    exact Nat.lt_irrefl _ (Nat.lt_of_le_of_lt sublist.length_le img.hidden_length_lt)
  have untouched : ∀ {earlier later : String},
      dropTiny id words earlier later img.hidden = img.hidden ↔
        ¬ MatchIn words.isWord (tinyImage earlier later) none img.hidden := by
    intro earlier later
    rw [dropTiny, removeAll_eq_iff, List.map_id]
  rcases dropTiny_tracked isWidth isHeight words img front back with
    ⟨unreached, first⟩ | ⟨reached, stays, _, first⟩
  · rw [first]
    by_cases whole : dropTiny id words "width" "height" img.hidden = img.hidden
    · rw [whole, ← img.source_eq]
      rcases dropTiny_tracked isHeight isWidth words img
        (dropTiny id words "width" "height" front) (dropTiny id words "width" "height" back) with
        ⟨unreachedToo, second⟩ | ⟨reached, laterStays, _, second⟩
      · rw [second, tagChars_tracked, img.source_eq, List.append_cancel_left_eq, untouched]
        constructor
        · intro none_behind
          refine ⟨unreached, unreachedToo, fun pattern member => ?_⟩
          rcases List.mem_pair.mp member with rfl | rfl
          · exact untouched.mp whole
          · exact none_behind
        · exact fun unseen => unseen.behind tinyImgHw (by simp [tinyPatterns])
      · rw [second, tagChars_tracked]
        refine iff_of_false (shorter (removeAll_sublist _)) ?_
        exact fun unseen => unseen.heightFirst reached
    · refine iff_of_false (fun same => ?_) (fun unseen => whole (untouched.mpr ?_))
      · have less := tagChars_dropTiny words "height" "width"
          (dropTiny id words "width" "height" front)
          (img.opening ++ dropTiny id words "width" "height" img.hidden)
          (dropTiny id words "width" "height" back)
        rw [same, img.source_eq, List.append_sublist_append_left] at less
        exact whole ((removeAll_sublist _).antisymm less)
      · exact unseen.behind tinyImgWh (by simp [tinyPatterns])
  · rw [first]
    refine iff_of_false (shorter ?_) (fun unseen => unseen.widthFirst reached)
    exact (tagChars_dropTiny _ _ _ _ _ _).trans (removeAll_sublist _)

/-- Something is left of a tag with a closing bracket in a value, if no bracket opens behind that
one and those before the tag are closed. -/
theorem left_ne_nil_of_hidden (words : WordTable) (back : List Char)
    (some_hidden : img.hidden ≠ []) (plain : '<' ∉ img.hidden)
    (shut : Shut (dropTiny id words "width" "height" front)) :
    tagChars (removeEach Prod.fst words tinyPatterns (tracked front img.source back)) ≠ [] := by
  have kept : ∀ {earlier later : String}, SizeName earlier → SizeName later →
      dropTiny id words earlier later img.hidden = img.hidden := by
    intro earlier later isEarlier isLater
    exact dropTiny_plain isEarlier isLater (by rwa [List.map_id])
  rw [tinyPasses_eq]
  rcases dropTiny_tracked isWidth isHeight words img front back with
    ⟨_, first⟩ | ⟨_, stays, whole, first⟩
  · rw [first, kept isWidth isHeight, ← img.source_eq]
    rcases dropTiny_tracked isHeight isWidth words img
      (dropTiny id words "width" "height" front) (dropTiny id words "width" "height" back) with
      ⟨_, second⟩ | ⟨_, laterStays, _, second⟩
    · rw [second, tagChars_tracked]
      exact List.cons_ne_nil _ _
    · rwa [second, tagChars_tracked, kept isHeight isWidth]
  · obtain rfl := whole shut
    rwa [first, kept isWidth isHeight, dropTiny_parts isHeight isWidth shut img.shut_hidden,
      tagChars_tracked, kept isHeight isWidth]

section Documents

variable (words : WordTable) (before : List Char) (img : ImgTag) (after : List Char)

/-- The document without scripts, styles, heads and comments. -/
def withoutBlocks : List (Char × Bool) :=
  removeEach Prod.fst words blockPatterns (tracked before img.source after)

/-- The document without tiny images either. -/
def withoutImages : List (Char × Bool) :=
  removeEach Prod.fst words tinyPatterns (withoutBlocks words before img after)

/-- The searches for scripts, styles, heads and comments take nothing of the tag.  For a pixel, no
value has a closing bracket, and an image pattern sees two tiny sizes up to the one of the tag; for
another tag none does, and the searches for style attributes take nothing of it. -/
structure ImgTag.RightlySeen : Prop where
  blocks : Spares words blockPatterns (tracked before img.source after)
  pixel : img.IsPixel → '>' ∉ img.body ∧
    ¬ img.Unseen words (frontOf (withoutBlocks words before img after))
  other : ¬ img.IsPixel → img.Unseen words (frontOf (withoutBlocks words before img after)) ∧
    Spares words stylePatterns (withoutImages words before img after)

/-- No search but those for tiny images takes anything of the tag; and if a value has a closing
bracket, none opens behind it, and those before the tag are closed. -/
structure ImgTag.Standing : Prop where
  blocks : Spares words blockPatterns (tracked before img.source after)
  styles : Spares words stylePatterns (withoutImages words before img after)
  hidden : '>' ∈ img.body → '<' ∉ img.hidden ∧ Shut (dropTiny id words "width" "height"
    (frontOf (withoutBlocks words before img after)))

end Documents

theorem ImgTag.source_ne_nil (img : ImgTag) : img.source ≠ [] := List.cons_ne_nil _ _

section Drops

variable {before after : List Char}

theorem leftOf_eq (words : WordTable) (before : List Char) (img : ImgTag) (after : List Char) :
    leftOf words before img after =
      tagChars (removeEach Prod.fst words stylePatterns
        (withoutImages words before img after)) := by
  rw [leftOf, cleanPatterns, removeEach_append, removeEach_append, withoutImages, withoutBlocks]

/-- Nothing more is left of the tag than before the searches for style attributes. -/
theorem leftOf_sublist (words : WordTable) (before : List Char) (img : ImgTag)
    (after : List Char) :
    (leftOf words before img after).Sublist (tagChars (withoutImages words before img after)) := by
  rw [leftOf_eq]
  exact tagChars_sublist (removeEach_sublist _ _ _ _)

/-- If the tag is spared by the searches for blocks, the ones for tiny images read it whole. -/
theorem Spares.withoutImages_eq
    (spared : Spares words blockPatterns (tracked before img.source after)) :
    ∃ back, withoutImages words before img after = removeEach Prod.fst words tinyPatterns
      (tracked (frontOf (withoutBlocks words before img after)) img.source back) := by
  rw [spares_iff, tagChars_tracked] at spared
  obtain ⟨front, back, same⟩ := exists_tracked (removeEach_sublist _ _ _ _) spared
  have isFront : frontOf (withoutBlocks words before img after) = front := by
    rw [withoutBlocks, same, frontOf_tracked img.source_ne_nil]
  refine ⟨back, ?_⟩
  rw [isFront, withoutImages, withoutBlocks, same]

/-- A tag of which everything is left was spared by all searches. -/
theorem spared_of_left (whole : leftOf words before img after = img.source) :
    Spares words blockPatterns (tracked before img.source after) ∧
      tagChars (withoutImages words before img after) = img.source ∧
      Spares words stylePatterns (withoutImages words before img after) := by
  have fewer : (tagChars (withoutImages words before img after)).Sublist
      (tagChars (withoutBlocks words before img after)) :=
    tagChars_sublist (removeEach_sublist _ _ _ _)
  have blocks : (tagChars (withoutBlocks words before img after)).Sublist img.source := by
    have sublist := tagChars_sublist (removeEach_sublist Prod.fst words blockPatterns
      (tracked before img.source after))
    rwa [tagChars_tracked] at sublist
  have last := leftOf_sublist words before img after
  rw [whole] at last
  have images := (fewer.trans blocks).antisymm last
  refine ⟨?_, images, ?_⟩
  · rw [spares_iff, tagChars_tracked]
    exact blocks.antisymm (last.trans fewer)
  · rw [spares_iff, images, ← leftOf_eq, whole]

/-- Of a pixel with plain numbers the image patterns see enough, if no value has a closing
bracket. -/
theorem ImgTag.RightlySeen.of_digits
    (spared : Spares words blockPatterns (tracked before img.source after))
    (single : '>' ∉ img.body)
    (digits : ∀ attr ∈ img.attrs, attr.IsNamed "width" ∨ attr.IsNamed "height" → attr.IsDigits)
    (pixel : img.IsPixel) : img.RightlySeen words before after := by
  refine ⟨spared, fun _ => ⟨single, fun unseen => ?_⟩, fun other => absurd pixel other⟩
  rcases ImgTag.looksTiny_of_isPixel words single digits pixel with widthFirst | heightFirst
  · exact unseen.widthFirst (ImgTag.reaches_of_tinySizes widthFirst _)
  · exact unseen.heightFirst (ImgTag.reaches_of_tinySizes heightFirst _)

end Drops

end Outcome

section Sample

private def sizeOf (name digits : List Char)
    (isName : name ≠ [] ∧ ∀ c ∈ name, nameChar c = true)
    (isNumber : ∀ c ∈ digits, c.isDigit = true) : Attribute where
  lead := [' ']
  name := name
  value := some
    { gap := []
      otherGap := []
      quote := some '"'
      text := digits
      spaced := nofun
      quoted := by
        intro q isQuote
        obtain rfl := Option.mem_some_iff.mp isQuote
        exact ⟨.inl rfl, fun member => absurd (isNumber '"' member) (by decide)⟩
      bare := nofun }
  separated := ⟨by decide, List.all_eq_true.mp rfl⟩
  named := isName

private theorem sizeOf_isSize {name : String} {digits : List Char}
    {isName : name.toList ≠ [] ∧ ∀ c ∈ name.toList, nameChar c = true}
    (isNumber : ∀ c ∈ digits, c.isDigit = true) (nonempty : digits ≠ [])
    (lower : name.toList.map asciiLower = name.toList) :
    (sizeOf name.toList digits isName isNumber).IsSize name
      (Nat.ofDigitChars 10 digits 0 : Nat) :=
  ⟨lower, _, rfl, [], [], digits, [], by rw [List.append_nil]; rfl, nofun, nonempty, isNumber,
    .inl ⟨.inl rfl, rfl⟩⟩

private theorem other_name {name other : String} {digits : List Char}
    {isName : name.toList ≠ [] ∧ ∀ c ∈ name.toList, nameChar c = true}
    {isNumber : ∀ c ∈ digits, c.isDigit = true}
    (different : name.toList.map asciiLower ≠ other.toList) :
    ¬ (sizeOf name.toList digits isName isNumber).IsNamed other := different

/-- `<img width="n" height="n">` -/
def squareImage (digits : List Char) (isNumber : ∀ c ∈ digits, c.isDigit = true)
    (nonempty : digits ≠ []) : ImgTag :=
  let width := sizeOf "width".toList digits ⟨by decide, List.all_eq_true.mp rfl⟩ isNumber
  let height := sizeOf "height".toList digits ⟨by decide, List.all_eq_true.mp rfl⟩ isNumber
  { name := "img".toList
    attrs := [width, height]
    close := []
    width := (Nat.ofDigitChars 10 digits 0 : Nat)
    height := (Nat.ofDigitChars 10 digits 0 : Nat)
    isImg := rfl
    closing := nofun
    hasWidth := ⟨width, by simp, sizeOf_isSize isNumber nonempty rfl⟩
    hasHeight := ⟨height, by simp, sizeOf_isSize isNumber nonempty rfl⟩
    oneWidth := by
      intro attr member isNamed
      rcases List.mem_pair.mp member with rfl | rfl
      · exact sizeOf_isSize isNumber nonempty rfl
      · exact absurd isNamed (other_name (by decide))
    oneHeight := by
      intro attr member isNamed
      rcases List.mem_pair.mp member with rfl | rfl
      · exact absurd isNamed (other_name (by decide))
      · exact sizeOf_isSize isNumber nonempty rfl
    unstyled := by
      intro attr member
      rcases List.mem_pair.mp member with rfl | rfl
      · exact other_name (by decide)
      · exact other_name (by decide) }

def thumbnail : ImgTag := squareImage "100".toList (List.all_eq_true.mp rfl) (by decide)

def pixel : ImgTag := squareImage "1".toList (List.all_eq_true.mp rfl) (by decide)

example : thumbnail.source = "<img width=\"100\" height=\"100\">".toList := by decide

end Sample

end Scryd.Mime
