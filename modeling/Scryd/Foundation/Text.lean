import Mathlib.Data.String.Basic

/-!
# Text

The operations of Rust's `char` and `str` that the model uses, on characters.
-/

namespace Scryd.Foundation

def asciiLower (c : Char) : Char :=
  if 'A' ≤ c ∧ c ≤ 'Z' then Char.ofNat (c.toNat + 32) else c

/-- `str::eq_ignore_ascii_case`. -/
def eqIgnoreAsciiCase (left right : String) : Bool :=
  left.toList.map asciiLower == right.toList.map asciiLower

/-- `char::is_whitespace`: the Unicode property `White_Space`. -/
def isWhitespace (c : Char) : Bool :=
  let code := c.toNat
  (0x9 ≤ code && code ≤ 0xD) || code == 0x20 || code == 0x85 || code == 0xA0 ||
    code == 0x1680 || (0x2000 ≤ code && code ≤ 0x200A) || code == 0x2028 || code == 0x2029 ||
    code == 0x202F || code == 0x205F || code == 0x3000

def trimStart (chars : List Char) : List Char := chars.dropWhile isWhitespace

/-- `str::trim`. -/
def trim (chars : List Char) : List Char := (trimStart (trimStart chars).reverse).reverse

/-- `str::trim_end`. -/
def trimEnd (chars : List Char) : List Char := (trimStart chars.reverse).reverse

/-- `char::is_control`: the Unicode category `Cc`. -/
def isControl (c : Char) : Bool :=
  c.toNat < 0x20 || (0x7F ≤ c.toNat && c.toNat ≤ 0x9F)

/-- The words of a text, with the word being read in `current`. -/
def wordsFrom (current : List Char) : List Char → List (List Char)
  | [] => if current.isEmpty then [] else [current]
  | c :: rest =>
      if isWhitespace c then
        if current.isEmpty then wordsFrom [] rest else current :: wordsFrom [] rest
      else
        wordsFrom (current ++ [c]) rest

/-- `str::split_whitespace`. -/
def splitWhitespace (chars : List Char) : List (List Char) := wordsFrom [] chars

theorem wordsFrom_skip {c : Char} (space : isWhitespace c = true) (rest : List Char) :
    wordsFrom [] (c :: rest) = wordsFrom [] rest := by
  simp [wordsFrom, space]

theorem wordsFrom_close {current : List Char} (started : current ≠ []) {c : Char}
    (space : isWhitespace c = true) (rest : List Char) :
    wordsFrom current (c :: rest) = current :: wordsFrom [] rest := by
  simp [wordsFrom, space, started]

theorem wordsFrom_push (current : List Char) {c : Char} (solid : isWhitespace c = false)
    (rest : List Char) : wordsFrom current (c :: rest) = wordsFrom (current ++ [c]) rest := by
  simp [wordsFrom, solid]

theorem wordsFrom_ne_nil {current : List Char} (started : current ≠ []) (chars : List Char) :
    wordsFrom current chars ≠ [] := by
  fun_induction wordsFrom current chars with
  | case1 current empty => exact absurd (List.isEmpty_iff.mp empty) started
  | case2 current some_char => exact List.cons_ne_nil current []
  | case3 current c rest space empty inductionHypothesis =>
      exact absurd (List.isEmpty_iff.mp empty) started
  | case4 current c rest space some_char inductionHypothesis => exact List.cons_ne_nil _ _
  | case5 current c rest notSpace inductionHypothesis => exact inductionHypothesis (by simp)

theorem ne_nil_of_mem_wordsFrom {current chars word : List Char}
    (member : word ∈ wordsFrom current chars) : word ≠ [] := by
  fun_induction wordsFrom current chars with
  | case1 current empty => cases member
  | case2 current some_char =>
      rw [List.mem_singleton.mp member]
      simpa using some_char
  | case3 current c rest space empty inductionHypothesis => exact inductionHypothesis member
  | case4 current c rest space some_char inductionHypothesis =>
      rcases List.mem_cons.mp member with rfl | later
      · simpa using some_char
      · exact inductionHypothesis later
  | case5 current c rest notSpace inductionHypothesis => exact inductionHypothesis member

/-- No word has white space in it. -/
theorem solid_of_mem_wordsFrom {current chars word : List Char}
    (solid : ∀ c ∈ current, isWhitespace c = false) (member : word ∈ wordsFrom current chars) :
    ∀ c ∈ word, isWhitespace c = false := by
  fun_induction wordsFrom current chars with
  | case1 current empty => cases member
  | case2 current some_char => exact List.mem_singleton.mp member ▸ solid
  | case3 current c rest space empty inductionHypothesis =>
      exact inductionHypothesis (List.forall_mem_nil _) member
  | case4 current c rest space some_char inductionHypothesis =>
      rcases List.mem_cons.mp member with rfl | later
      · exact solid
      · exact inductionHypothesis (List.forall_mem_nil _) later
  | case5 current c rest notSpace inductionHypothesis =>
      have longer : ∀ d ∈ current ++ [c], isWhitespace d = false := by
        simpa [or_imp, forall_and] using And.intro solid (Bool.eq_false_of_not_eq_true notSpace)
      exact inductionHypothesis longer member

/-- The words together are the text without its white space. -/
theorem flatten_wordsFrom (current chars : List Char) :
    (wordsFrom current chars).flatten = current ++ chars.filter fun c => !isWhitespace c := by
  fun_induction wordsFrom current chars with
  | case1 current empty => simpa using empty
  | case2 current some_char => simp
  | case3 current c rest space empty inductionHypothesis =>
      rw [inductionHypothesis, List.filter_cons_of_neg (by simp [space]),
        List.isEmpty_iff.mp empty]
  | case4 current c rest space some_char inductionHypothesis =>
      rw [List.flatten_cons, inductionHypothesis, List.filter_cons_of_neg (by simp [space]),
        List.nil_append]
  | case5 current c rest notSpace inductionHypothesis =>
      rw [inductionHypothesis, List.filter_cons_of_pos (by simpa using notSpace),
        List.append_assoc, List.singleton_append]

/-- `str::contains`. -/
def contains (needle : List Char) : List Char → Bool
  | [] => needle.isEmpty
  | c :: rest => needle.isPrefixOf (c :: rest) || contains needle rest

theorem contains_iff_infix (needle text : List Char) :
    contains needle text = true ↔ needle <:+: text := by
  induction text with
  | nil =>
      rw [contains, List.isEmpty_iff, List.infix_nil]
  | cons c rest inductionHypothesis =>
      rw [contains, Bool.or_eq_true, List.isPrefixOf_iff_prefix, inductionHypothesis,
        List.infix_cons_iff]

example : splitWhitespace " a  bc ".toList = [['a'], ['b', 'c']] := by decide

/-- The first mark in a text splits it in one way only. -/
theorem append_mark_inj {mark : Char} {left right leftRest rightRest : List Char}
    (leftFree : mark ∉ left) (rightFree : mark ∉ right)
    (same : left ++ mark :: leftRest = right ++ mark :: rightRest) :
    left = right ∧ leftRest = rightRest := by
  induction left generalizing right with
  | nil =>
      cases right with
      | nil => exact ⟨rfl, (List.cons.inj same).2⟩
      | cons d tail =>
          rw [(List.cons.inj same).1] at rightFree
          exact absurd List.mem_cons_self rightFree
  | cons c rest inductionHypothesis =>
      cases right with
      | nil =>
          rw [← (List.cons.inj same).1] at leftFree
          exact absurd List.mem_cons_self leftFree
      | cons d tail =>
          obtain ⟨sameHead, sameTail⟩ := List.cons.inj same
          obtain ⟨sameFirst, sameRest⟩ := inductionHypothesis
            (fun member => leftFree (List.mem_cons_of_mem c member))
            (fun member => rightFree (List.mem_cons_of_mem d member)) sameTail
          exact ⟨by rw [sameHead, sameFirst], sameRest⟩

/-- A part of a text without a mark stands before every mark of the text behind it. -/
theorem append_mark_split {mark : Char} {front rest left behind : List Char}
    (free : mark ∉ front) (same : front ++ rest = left ++ mark :: behind) :
    ∃ gap, left = front ++ gap ∧ rest = gap ++ mark :: behind := by
  rcases List.append_eq_append_iff.mp same with ⟨gap, isLeft, isRest⟩ | ⟨gap, isFront, isBehind⟩
  · exact ⟨gap, isLeft, isRest⟩
  · cases gap with
    | nil => exact ⟨[], by simpa using isFront.symm, isBehind.symm⟩
    | cons c gap =>
        obtain ⟨rfl, _⟩ := List.cons.inj isBehind
        exact absurd (by simp [isFront]) free

/-- The last mark in a text splits it in one way only. -/
theorem append_last_mark_inj {mark : Char} {left right leftRest rightRest : List Char}
    (leftFree : mark ∉ leftRest) (rightFree : mark ∉ rightRest)
    (same : left ++ mark :: leftRest = right ++ mark :: rightRest) :
    left = right ∧ leftRest = rightRest := by
  have reversed := congrArg List.reverse same
  simp only [List.reverse_append, List.reverse_cons, List.append_assoc,
    List.singleton_append] at reversed
  obtain ⟨sameRest, sameStart⟩ := append_mark_inj (mt List.mem_reverse.mp leftFree)
    (mt List.mem_reverse.mp rightFree) reversed
  exact ⟨List.reverse_injective sameStart, List.reverse_injective sameRest⟩

theorem toString_nat_injective : Function.Injective (toString : Nat → String) := by
  intro left right same
  have digits := congrArg String.toList same
  simp only [Nat.toString_eq_repr, Nat.toList_repr] at digits
  have values := congrArg (fun chars => Nat.ofDigitChars 10 chars 0) digits
  simpa only [Nat.ofDigitChars_ten_toDigits] using values

theorem isDigit_of_mem_toString {n : Nat} {c : Char} (member : c ∈ (toString n).toList) :
    c.isDigit = true := by
  rw [Nat.toString_eq_repr, Nat.toList_repr] at member
  exact Nat.isDigit_of_mem_toDigits (by decide) (by decide) member

section Lowercase

/-- Unicode's lowercase mappings as the standard library has them: one for each character, and
the rule by which a capital sigma between two texts becomes a final one. -/
structure LowercaseTable where
  lower : Char → List Char
  finalSigma : List Char → List Char → Bool
  nonempty : ∀ c, lower c ≠ []
  ascii : ∀ c, c.toNat < 0x80 → lower c = [asciiLower c]
  sigma : lower 'Σ' = ['σ']

variable (table : LowercaseTable)

/-- The mapping of one character between two texts. -/
def LowercaseTable.lowerBetween (before : List Char) (c : Char) (after : List Char) : List Char :=
  if c = 'Σ' then [if table.finalSigma before after then 'ς' else 'σ'] else table.lower c

def lowercaseFrom (before : List Char) : List Char → List Char
  | [] => []
  | c :: rest => table.lowerBetween before c rest ++ lowercaseFrom (before ++ [c]) rest

/-- `str::to_lowercase`. -/
def toLowercase (text : List Char) : List Char := lowercaseFrom table [] text

theorem asciiLower_of_not_ascii {c : Char} (beyond : 0x80 ≤ c.toNat) : asciiLower c = c := by
  apply if_neg
  rintro ⟨_, upTo⟩
  have bound : c.toNat ≤ 'Z'.toNat := upTo
  have code : 'Z'.toNat = 0x5A := rfl
  omega

/-- A property of every ASCII character, by its code. -/
theorem forall_ascii {P : Char → Prop} (table : ∀ code < 0x80, P (Char.ofNat code)) {c : Char}
    (ascii : c.toNat < 0x80) : P c := by
  have entry := table c.toNat ascii
  rwa [Char.ofNat_toNat] at entry

/-- ASCII case is folded within ASCII, and once. -/
theorem asciiLower_ascii {c : Char} (ascii : c.toNat < 0x80) :
    (asciiLower c).toNat < 0x80 ∧ asciiLower (asciiLower c) = asciiLower c :=
  forall_ascii (P := fun c => (asciiLower c).toNat < 0x80 ∧
    asciiLower (asciiLower c) = asciiLower c) (by decide) ascii

/-- Only letters become letters. -/
theorem eq_of_asciiLower {c d : Char} (same : asciiLower d = c) (symbol : ¬ ('a' ≤ c ∧ c ≤ 'z')) :
    d = c := by
  have kept : asciiLower d = d ∨ ('a' ≤ asciiLower d ∧ asciiLower d ≤ 'z') := by
    by_cases ascii : d.toNat < 0x80
    · exact forall_ascii (P := fun d => asciiLower d = d ∨
        ('a' ≤ asciiLower d ∧ asciiLower d ≤ 'z')) (by decide) ascii
    · exact .inl (asciiLower_of_not_ascii (Nat.le_of_not_lt ascii))
  rw [same] at kept
  exact (kept.resolve_right symbol).symm

/-- What lowercasing makes of a character outside ASCII, up to ASCII case, is another one. -/
theorem eq_of_asciiLower_eq {c d : Char} (beyond : 0x80 ≤ c.toNat)
    (same : asciiLower c = asciiLower d) : d = c := by
  rw [asciiLower_of_not_ascii beyond] at same
  by_cases ascii : d.toNat < 0x80
  · have below := (asciiLower_ascii ascii).1
    rw [← same] at below
    omega
  · rw [same, asciiLower_of_not_ascii (Nat.le_of_not_lt ascii)]

theorem LowercaseTable.lowerBetween_ne_nil (before : List Char) (c : Char) (after : List Char) :
    table.lowerBetween before c after ≠ [] := by
  unfold LowercaseTable.lowerBetween
  split
  · exact List.cons_ne_nil _ _
  · exact table.nonempty c

/-- Up to ASCII case a character stays the same exactly when it is ASCII or its own lowercase. -/
theorem LowercaseTable.lowerBetween_eq_iff (before : List Char) (c : Char) (after : List Char) :
    (table.lowerBetween before c after).map asciiLower = [asciiLower c] ↔
      (0x80 ≤ c.toNat → table.lower c = [c]) := by
  by_cases ascii : c.toNat < 0x80
  · have notSigma : c ≠ 'Σ' := by
      rintro rfl
      exact absurd ascii (by decide)
    refine iff_of_true ?_ fun beyond => absurd ascii (Nat.not_lt.mpr beyond)
    rw [LowercaseTable.lowerBetween, if_neg notSigma, table.ascii c ascii, List.map_singleton,
      (asciiLower_ascii ascii).2]
  · have beyond := Nat.le_of_not_lt ascii
    have lifted : (table.lowerBetween before c after).map asciiLower = [asciiLower c] ↔
        table.lowerBetween before c after = [c] := by
      constructor
      · intro same
        obtain ⟨d, mapped, isLower⟩ := List.map_eq_singleton_iff.mp same
        rw [mapped, eq_of_asciiLower_eq beyond isLower.symm]
      · intro same
        rw [same, List.map_singleton]
    rw [lifted]
    simp only [beyond, true_imp_iff, LowercaseTable.lowerBetween]
    split
    next isSigma =>
      subst isSigma
      rw [table.sigma]
      refine iff_of_false ?_ (by decide)
      cases table.finalSigma before after
      · decide
      · decide
    next => rfl

theorem length_le_lowercaseFrom (before text : List Char) :
    text.length ≤ (lowercaseFrom table before text).length := by
  induction text generalizing before with
  | nil => exact Nat.le_refl 0
  | cons c rest inductionHypothesis =>
      have some_char := List.length_pos_of_ne_nil
        (table.lowerBetween_ne_nil before c rest)
      have later := inductionHypothesis (before ++ [c])
      rw [lowercaseFrom, List.length_append, List.length_cons]
      omega

variable {table}

theorem lowercaseFrom_eq_iff (before text : List Char) :
    (lowercaseFrom table before text).map asciiLower = text.map asciiLower ↔
      ∀ c ∈ text, 0x80 ≤ c.toNat → table.lower c = [c] := by
  induction text generalizing before with
  | nil => simp [lowercaseFrom]
  | cons c rest inductionHypothesis =>
      rw [List.forall_mem_cons, ← inductionHypothesis (before ++ [c]),
        ← table.lowerBetween_eq_iff before c rest, lowercaseFrom, List.map_append,
        List.map_cons]
      constructor
      · intro same
        -- No mapping is empty, so each is one character long when the lengths agree.
        have lengths := congrArg List.length same
        have first := List.length_pos_of_ne_nil
          (table.lowerBetween_ne_nil before c rest)
        have later := length_le_lowercaseFrom table (before ++ [c]) rest
        simp only [List.length_append, List.length_map, List.length_cons] at lengths
        have single : ((table.lowerBetween before c rest).map asciiLower).length =
            [asciiLower c].length := by
          rw [List.length_map, List.length_singleton]
          omega
        exact List.append_inj same single
      · rintro ⟨sameFirst, sameRest⟩
        rw [sameFirst, sameRest]
        rfl

/-- Lowercasing changes nothing but ASCII case exactly when every other character of the text is
its own lowercase. -/
theorem eqIgnoreAsciiCase_toLowercase_iff (text : List Char) :
    eqIgnoreAsciiCase (String.ofList text) (String.ofList (toLowercase table text)) = true ↔
      ∀ c ∈ text, 0x80 ≤ c.toNat → table.lower c = [c] := by
  rw [eqIgnoreAsciiCase, beq_iff_eq, String.toList_ofList, String.toList_ofList, toLowercase,
    eq_comm, lowercaseFrom_eq_iff]

/-- Mappings to characters that are lowercase themselves. -/
structure LowercaseTable.Stable (table : LowercaseTable) : Prop where
  once : ∀ c, ∀ d ∈ table.lower c, table.lower d = [d]
  finalSigma : table.lower 'ς' = ['ς']

theorem LowercaseTable.Stable.lower_eq (stable : table.Stable) {before after : List Char}
    {c d : Char} (member : d ∈ table.lowerBetween before c after) : table.lower d = [d] := by
  unfold LowercaseTable.lowerBetween at member
  split at member
  · rw [List.mem_singleton] at member
    split at member
    · exact member ▸ stable.finalSigma
    · exact member ▸ stable.once 'Σ' 'σ' (by rw [table.sigma]; exact List.mem_singleton_self _)
  · exact stable.once c d member

theorem mem_lowercaseFrom {before text : List Char} {d : Char}
    (member : d ∈ lowercaseFrom table before text) :
    ∃ earlier, ∃ c ∈ text, ∃ later, d ∈ table.lowerBetween earlier c later := by
  induction text generalizing before with
  | nil => cases member
  | cons c rest inductionHypothesis =>
      rcases List.mem_append.mp member with first | behind
      · exact ⟨before, c, List.mem_cons_self, rest, first⟩
      · obtain ⟨earlier, other, inRest, later, mapped⟩ := inductionHypothesis behind
        exact ⟨earlier, other, List.mem_cons_of_mem c inRest, later, mapped⟩

theorem lowercaseFrom_eq_self {text : List Char} (lowered : ∀ d ∈ text, table.lower d = [d])
    (before : List Char) : lowercaseFrom table before text = text := by
  induction text generalizing before with
  | nil => rfl
  | cons c rest inductionHypothesis =>
      have notSigma : c ≠ 'Σ' := by
        rintro rfl
        have same := lowered 'Σ' List.mem_cons_self
        rw [table.sigma] at same
        exact absurd same (by decide)
      rw [lowercaseFrom, LowercaseTable.lowerBetween, if_neg notSigma,
        lowered c List.mem_cons_self, List.singleton_append,
        inductionHypothesis fun d member => lowered d (List.mem_cons_of_mem c member)]

/-- Lowercasing twice is lowercasing once. -/
theorem toLowercase_toLowercase (stable : table.Stable) (text : List Char) :
    toLowercase table (toLowercase table text) = toLowercase table text := by
  apply lowercaseFrom_eq_self
  intro d member
  obtain ⟨_, _, _, _, mapped⟩ := mem_lowercaseFrom member
  exact stable.lower_eq mapped

/-- The last character of a text is mapped behind all others. -/
theorem lowercaseFrom_concat (before text : List Char) (c : Char) :
    ∃ front earlier, lowercaseFrom table before (text ++ [c]) =
      front ++ table.lowerBetween earlier c [] := by
  induction text generalizing before with
  | nil => exact ⟨[], before, List.append_nil _⟩
  | cons first rest inductionHypothesis =>
      obtain ⟨front, earlier, split⟩ := inductionHypothesis (before ++ [first])
      refine ⟨table.lowerBetween before first (rest ++ [c]) ++ front, earlier, ?_⟩
      rw [List.cons_append, lowercaseFrom, split, List.append_assoc]

/-- The mappings on strings. -/
def LowercaseTable.apply (table : LowercaseTable) (text : String) : String :=
  String.ofList (toLowercase table text.toList)

end Lowercase

/-- Characters as the digits of a number. -/
def textRank : List Char → Nat
  | [] => 0
  | c :: rest => c.toNat + 1 + (2 ^ 32 + 1) * textRank rest

theorem textRank_injective : Function.Injective textRank := by
  intro left
  induction left with
  | nil =>
      intro right same
      cases right with
      | nil => rfl
      | cons d tail =>
          simp only [textRank] at same
          omega
  | cons c rest inductionHypothesis =>
      intro right same
      cases right with
      | nil =>
          simp only [textRank] at same
          omega
      | cons d tail =>
          have cBound := c.val.toNat_lt
          have dBound := d.val.toNat_lt
          simp only [textRank, Char.toNat] at same
          have sameDigit : c.val.toNat = d.val.toNat := by omega
          have sameRest : textRank rest = textRank tail := by omega
          rw [Char.ext (UInt32.toNat_inj.mp sameDigit), inductionHypothesis sameRest]

theorem textRank_toList_injective :
    Function.Injective fun text : String => textRank text.toList :=
  fun _ _ same => String.toList_injective (textRank_injective same)

end Scryd.Foundation
