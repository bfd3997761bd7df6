import Scryd.Foundation.Text
import Mathlib.Data.List.Infix

/-!
# Byte offsets

Texts are lists of characters.  An offset into the UTF-8 encoding of a text is a
character boundary where it splits the text between two characters.
-/

namespace Scryd.Foundation

/-- `str::len`. -/
def byteLength : List Char → Nat
  | [] => 0
  | c :: rest => c.utf8Size + byteLength rest

@[simp] theorem byteLength_nil : byteLength [] = 0 := rfl

@[simp] theorem byteLength_append (front back : List Char) :
    byteLength (front ++ back) = byteLength front + byteLength back := by
  induction front with
  | nil => simp
  | cons c rest inductionHypothesis =>
      rw [List.cons_append, byteLength, byteLength, inductionHypothesis, Nat.add_assoc]

theorem byteLength_pos {text : List Char} (nonempty : text ≠ []) : 0 < byteLength text := by
  cases text with
  | nil => exact absurd rfl nonempty
  | cons c rest => exact Nat.add_pos_left c.utf8Size_pos _

/-- Two splits of a text are the same where their offsets are. -/
theorem append_inj_of_byteLength {front back otherFront otherBack : List Char}
    (same : front ++ back = otherFront ++ otherBack)
    (sameOffset : byteLength front = byteLength otherFront) :
    front = otherFront ∧ back = otherBack := by
  rcases List.append_eq_append_iff.mp same with ⟨middle, rfl, rfl⟩ | ⟨middle, rfl, rfl⟩
  all_goals
    rw [byteLength_append] at sameOffset
    have none_between : middle = [] := by
      by_contra nonempty
      have positive := byteLength_pos nonempty
      omega
    simp [none_between]

/-- The later of two splits continues the earlier one. -/
theorem append_le_of_byteLength {front back otherFront otherBack : List Char}
    (same : front ++ back = otherFront ++ otherBack)
    (earlier : byteLength front ≤ byteLength otherFront) :
    ∃ middle, otherFront = front ++ middle ∧ back = middle ++ otherBack := by
  rcases List.append_eq_append_iff.mp same with ⟨middle, rfl, rfl⟩ | ⟨middle, rfl, rfl⟩
  · exact ⟨middle, rfl, rfl⟩
  · rw [byteLength_append] at earlier
    have none_between : middle = [] := by
      by_contra nonempty
      have positive := byteLength_pos nonempty
      omega
    exact ⟨[], by simp [none_between], by simp [none_between]⟩

section Boundaries

/-- `str::is_char_boundary`. -/
def isCharBoundary : List Char → Nat → Bool
  | [], offset => offset == 0
  | c :: rest, offset =>
      offset == 0 ||
        (decide (c.utf8Size ≤ offset) && isCharBoundary rest (offset - c.utf8Size))

theorem isCharBoundary_iff (text : List Char) (offset : Nat) :
    isCharBoundary text offset = true ↔
      ∃ front back, text = front ++ back ∧ byteLength front = offset := by
  induction text generalizing offset with
  | nil =>
      simp only [isCharBoundary, beq_iff_eq]
      constructor
      · rintro rfl
        exact ⟨[], [], rfl, rfl⟩
      · rintro ⟨front, back, split, rfl⟩
        rw [(List.append_eq_nil_iff.mp split.symm).1, byteLength]
  | cons c rest inductionHypothesis =>
      simp only [isCharBoundary, Bool.or_eq_true, beq_iff_eq, Bool.and_eq_true,
        decide_eq_true_eq, inductionHypothesis]
      constructor
      · rintro (rfl | ⟨fits, front, back, rfl, sameOffset⟩)
        · exact ⟨[], c :: rest, rfl, rfl⟩
        · exact ⟨c :: front, back, rfl, by rw [byteLength]; omega⟩
      · rintro ⟨front, back, split, rfl⟩
        cases front with
        | nil => exact .inl rfl
        | cons first front =>
            rw [List.cons_append, List.cons.injEq] at split
            obtain ⟨rfl, rfl⟩ := split
            refine .inr ⟨Nat.le_add_right _ _, front, back, rfl, ?_⟩
            rw [byteLength, Nat.add_sub_cancel_left]

theorem isCharBoundary_byteLength (front back : List Char) :
    isCharBoundary (front ++ back) (byteLength front) = true :=
  (isCharBoundary_iff _ _).mpr ⟨front, back, rfl, rfl⟩

theorem isCharBoundary_le {text : List Char} {offset : Nat}
    (boundary : isCharBoundary text offset = true) : offset ≤ byteLength text := by
  obtain ⟨front, back, rfl, rfl⟩ := (isCharBoundary_iff text offset).mp boundary
  rw [byteLength_append]
  exact Nat.le_add_right _ _

/-- Every offset lies in a character, which has at most four bytes, or at the end. -/
theorem exists_boundaries_near {text : List Char} {offset : Nat}
    (inside : offset ≤ byteLength text) :
    ∃ before after, isCharBoundary text before = true ∧ isCharBoundary text after = true ∧
      before ≤ offset ∧ offset ≤ before + 3 ∧ offset ≤ after ∧ after ≤ offset + 3 := by
  induction text generalizing offset with
  | nil =>
      rw [byteLength, Nat.le_zero] at inside
      subst inside
      exact ⟨0, 0, rfl, rfl, by omega⟩
  | cons c rest inductionHypothesis =>
      have size := c.utf8Size_le_four
      have here : isCharBoundary (c :: rest) 0 = true := isCharBoundary_byteLength [] (c :: rest)
      have next : isCharBoundary (c :: rest) c.utf8Size = true :=
        isCharBoundary_byteLength [c] rest
      by_cases first : offset < c.utf8Size
      · by_cases start : offset = 0
        · exact ⟨0, 0, here, here, by omega⟩
        · exact ⟨0, c.utf8Size, here, next, by omega⟩
      · rw [byteLength] at inside
        have later : offset - c.utf8Size ≤ byteLength rest := by omega
        obtain ⟨before, after, isBefore, isAfter, bounds⟩ := inductionHypothesis later
        refine ⟨c.utf8Size + before, c.utf8Size + after, ?_, ?_, by omega⟩
        · simp [isCharBoundary, isBefore]
        · simp [isCharBoundary, isAfter]

/-- Moving an offset down to a character boundary: `while s > 0 && !text.is_char_boundary(s)`. -/
def boundaryDown (text : List Char) : Nat → Nat
  | 0 => 0
  | offset + 1 =>
      if isCharBoundary text (offset + 1) then offset + 1 else boundaryDown text offset

/-- Moving an offset up to a character boundary, `while e < text.len() &&
!text.is_char_boundary(e)`, with the number of bytes left. -/
def boundaryUp (text : List Char) (offset : Nat) : Nat → Nat
  | 0 => offset
  | left + 1 =>
      if isCharBoundary text offset then offset else boundaryUp text (offset + 1) left

/-- The greatest boundary up to an offset. -/
theorem boundaryDown_spec (text : List Char) (offset : Nat) :
    isCharBoundary text (boundaryDown text offset) = true ∧ boundaryDown text offset ≤ offset ∧
      ∀ boundary, isCharBoundary text boundary = true → boundary ≤ offset →
        boundary ≤ boundaryDown text offset := by
  induction offset with
  | zero =>
      exact ⟨isCharBoundary_byteLength [] text, Nat.le_refl 0, fun _ _ below => below⟩
  | succ offset inductionHypothesis =>
      rw [boundaryDown]
      split
      next here => exact ⟨here, Nat.le_refl _, fun _ _ below => below⟩
      next inside =>
        obtain ⟨isBoundary, below, greatest⟩ := inductionHypothesis
        refine ⟨isBoundary, Nat.le_succ_of_le below, ?_⟩
        intro boundary other upTo
        rcases Nat.lt_or_eq_of_le upTo with less | rfl
        · exact greatest boundary other (Nat.le_of_lt_succ less)
        · exact absurd other inside

/-- The least boundary from an offset on. -/
theorem boundaryUp_spec {text : List Char} {offset left : Nat}
    (inside : offset + left = byteLength text) :
    isCharBoundary text (boundaryUp text offset left) = true ∧
      offset ≤ boundaryUp text offset left ∧
      ∀ boundary, isCharBoundary text boundary = true → offset ≤ boundary →
        boundaryUp text offset left ≤ boundary := by
  induction left generalizing offset with
  | zero =>
      rw [Nat.add_zero] at inside
      subst inside
      refine ⟨?_, Nat.le_refl _, fun _ _ above => above⟩
      rw [boundaryUp]
      simpa using isCharBoundary_byteLength text []
  | succ left inductionHypothesis =>
      rw [boundaryUp]
      split
      next here => exact ⟨here, Nat.le_refl _, fun _ _ above => above⟩
      next notHere =>
        have next : offset + 1 + left = byteLength text := by omega
        obtain ⟨isBoundary, above, least⟩ := inductionHypothesis next
        refine ⟨isBoundary, by omega, ?_⟩
        intro boundary other from_
        rcases Nat.lt_or_eq_of_le from_ with greater | rfl
        · exact least boundary other greater
        · exact absurd other notHere

theorem boundaryDown_near {text : List Char} {offset : Nat} (inside : offset ≤ byteLength text) :
    offset ≤ boundaryDown text offset + 3 := by
  obtain ⟨before, _, isBefore, _, below, near, _⟩ := exists_boundaries_near inside
  have greatest := (boundaryDown_spec text offset).2.2 before isBefore below
  omega

theorem boundaryUp_near {text : List Char} {offset left : Nat}
    (inside : offset + left = byteLength text) : boundaryUp text offset left ≤ offset + 3 := by
  have upTo : offset ≤ byteLength text := by omega
  obtain ⟨_, after, _, isAfter, _, _, above, near⟩ := exists_boundaries_near upTo
  exact Nat.le_trans ((boundaryUp_spec inside).2.2 after isAfter above) near

end Boundaries

section Slices

def dropBytes : Nat → List Char → List Char
  | _, [] => []
  | bytes, c :: rest => if bytes = 0 then c :: rest else dropBytes (bytes - c.utf8Size) rest

def takeBytes : Nat → List Char → List Char
  | _, [] => []
  | bytes, c :: rest => if bytes = 0 then [] else c :: takeBytes (bytes - c.utf8Size) rest

theorem dropBytes_append (front back : List Char) :
    dropBytes (byteLength front) (front ++ back) = back := by
  induction front with
  | nil => cases back <;> rfl
  | cons c rest inductionHypothesis =>
      have positive := c.utf8Size_pos
      rw [byteLength, List.cons_append, dropBytes, if_neg (by omega), Nat.add_sub_cancel_left,
        inductionHypothesis]

theorem takeBytes_append (front back : List Char) :
    takeBytes (byteLength front) (front ++ back) = front := by
  induction front with
  | nil => cases back <;> rfl
  | cons c rest inductionHypothesis =>
      have positive := c.utf8Size_pos
      rw [byteLength, List.cons_append, takeBytes, if_neg (by omega), Nat.add_sub_cancel_left,
        inductionHypothesis]

/-- `&text[start..stop]`, which is defined between character boundaries. -/
def slice? (text : List Char) (start stop : Nat) : Option (List Char) :=
  if start ≤ stop ∧ isCharBoundary text start = true ∧ isCharBoundary text stop = true then
    some (takeBytes (stop - start) (dropBytes start text))
  else
    none

theorem slice?_append (front piece back : List Char) :
    slice? (front ++ (piece ++ back)) (byteLength front) (byteLength front + byteLength piece) =
      some piece := by
  have start := isCharBoundary_byteLength front (piece ++ back)
  have stop := isCharBoundary_byteLength (front ++ piece) back
  rw [List.append_assoc, byteLength_append] at stop
  rw [slice?, if_pos ⟨Nat.le_add_right _ _, start, stop⟩, dropBytes_append,
    Nat.add_sub_cancel_left, takeBytes_append]

theorem slice?_isSome {text : List Char} {start stop : Nat} (ordered : start ≤ stop)
    (isStart : isCharBoundary text start = true) (isStop : isCharBoundary text stop = true) :
    ∃ front piece back, text = front ++ (piece ++ back) ∧ byteLength front = start ∧
      byteLength front + byteLength piece = stop := by
  obtain ⟨front, rest, split, rfl⟩ := (isCharBoundary_iff text start).mp isStart
  obtain ⟨longer, back, otherSplit, rfl⟩ := (isCharBoundary_iff text stop).mp isStop
  obtain ⟨piece, rfl, rfl⟩ := append_le_of_byteLength (split.symm.trans otherSplit) ordered
  exact ⟨front, piece, back, split, rfl, (byteLength_append front piece).symm⟩

theorem slice?_eq_some_iff (text : List Char) (start stop : Nat) (piece : List Char) :
    slice? text start stop = some piece ↔
      ∃ front back, text = front ++ (piece ++ back) ∧ byteLength front = start ∧
        byteLength front + byteLength piece = stop := by
  constructor
  · intro sliced
    have inRange : start ≤ stop ∧ isCharBoundary text start = true ∧
        isCharBoundary text stop = true := by
      by_contra outside
      rw [slice?, if_neg outside] at sliced
      cases sliced
    obtain ⟨front, middle, back, rfl, rfl, rfl⟩ :=
      slice?_isSome inRange.1 inRange.2.1 inRange.2.2
    rw [slice?_append, Option.some.injEq] at sliced
    subst sliced
    exact ⟨front, back, rfl, rfl, rfl⟩
  · rintro ⟨front, back, rfl, rfl, rfl⟩
    exact slice?_append front piece back

end Slices

section AsciiCase

/-- `str::eq_ignore_ascii_case` on characters. -/
def sameAsciiCaseless (left right : List Char) : Bool :=
  left.map asciiLower == right.map asciiLower

/-- ASCII case folding keeps the number of bytes of a character. -/
theorem utf8Size_asciiLower (c : Char) : (asciiLower c).utf8Size = c.utf8Size := by
  by_cases ascii : c.toNat < 0x80
  · exact forall_ascii (P := fun c => (asciiLower c).utf8Size = c.utf8Size) (by decide) ascii
  · rw [asciiLower_of_not_ascii (Nat.le_of_not_lt ascii)]

theorem byteLength_map_asciiLower (text : List Char) :
    byteLength (text.map asciiLower) = byteLength text := by
  induction text with
  | nil => rfl
  | cons c rest inductionHypothesis =>
      rw [List.map_cons, byteLength, byteLength, utf8Size_asciiLower, inductionHypothesis]

theorem sameAsciiCaseless_iff (left right : List Char) :
    sameAsciiCaseless left right = true ↔ left.map asciiLower = right.map asciiLower :=
  beq_iff_eq

theorem byteLength_eq_of_sameAsciiCaseless {left right : List Char}
    (same : sameAsciiCaseless left right = true) : byteLength left = byteLength right := by
  rw [← byteLength_map_asciiLower left, (sameAsciiCaseless_iff left right).mp same,
    byteLength_map_asciiLower]

theorem length_eq_of_sameAsciiCaseless {left right : List Char}
    (same : sameAsciiCaseless left right = true) : left.length = right.length := by
  have lengths := congrArg List.length ((sameAsciiCaseless_iff left right).mp same)
  rwa [List.length_map, List.length_map] at lengths

end AsciiCase

end Scryd.Foundation
