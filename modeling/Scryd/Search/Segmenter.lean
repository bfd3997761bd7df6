import Scryd.Search.Coverage
import Scryd.Search.Witchcraft

/-!
# The segmenter's loop

`split_for_index` with everything that could go wrong in it: an index out of
range, an empty segment, and a loop that has not ended.  None of it happens, and
the segments are bounded pieces of the document.
-/

namespace Scryd.Search

open Scryd.Foundation

namespace Checked

inductive Fault where
  | indexOutOfRange
  /-- The `debug_assert` that a segment is not empty. -/
  | assertion
  /-- The loop is not through yet. -/
  | running
  deriving DecidableEq

/-- `chars[i]`. -/
def charAt (chars : List Char) (i : Nat) : Except Fault Char :=
  match chars[i]? with
  | some c => .ok c
  | none => .error .indexOutOfRange

/-- `chars[start..stop]`. -/
def slice (chars : List Char) (start stop : Nat) : Except Fault (List Char) :=
  if start ≤ stop ∧ stop ≤ chars.length then .ok ((chars.drop start).take (stop - start))
  else .error .indexOutOfRange

/-- `chars[i] == '\n' && chars[i + 1] == '\n'`. -/
def paragraphAt (chars : List Char) (i : Nat) : Except Fault Bool :=
  match charAt chars i with
  | .error fault => .error fault
  | .ok c =>
      if c == '\n' then
        match charAt chars (i + 1) with
        | .error fault => .error fault
        | .ok next => .ok (next == '\n')
      else
        .ok false

/-- `chars[i] == '\n'`. -/
def newlineAt (chars : List Char) (i : Nat) : Except Fault Bool :=
  match charAt chars i with
  | .error fault => .error fault
  | .ok c => .ok (c == '\n')

/-- The loop for the closest break, with the best one so far and its distance. -/
def closestBreak (breakAt : Nat → Except Fault Bool) (shift target : Nat) :
    List Nat → Option Nat → Nat → Except Fault (Option Nat)
  | [], best, _ => .ok best
  | i :: rest, best, bestDist =>
      match breakAt i with
      | .error fault => .error fault
      | .ok true =>
          let splitAt := i + shift
          let dist := absDiff splitAt target
          if dist < bestDist then closestBreak breakAt shift target rest (some splitAt) dist
          else closestBreak breakAt shift target rest best bestDist
      | .ok false => closestBreak breakAt shift target rest best bestDist

/-- The loop for the last whitespace. -/
def lastBlank (chars : List Char) : List Nat → Except Fault (Option Nat)
  | [] => .ok none
  | i :: rest =>
      match charAt chars i with
      | .error fault => .error fault
      | .ok c => if isWhitespace c then .ok (some i) else lastBlank chars rest

/-- `snap_boundary`. -/
def snapBoundary (chars : List Char) (start target capped : Nat) : Except Fault Nat :=
  let windowStart := max (target - snapWindow) (start + 1)
  let windowEnd := min (target + snapWindow) capped
  if windowEnd ≤ windowStart then .ok target
  else
    match closestBreak (paragraphAt chars) 2 target (offsets windowStart (windowEnd - 1)) none
        usizeMax with
    | .error fault => .error fault
    | .ok (some p) => .ok (min p capped)
    | .ok none =>
        match closestBreak (newlineAt chars) 1 target (offsets windowStart windowEnd) none
            usizeMax with
        | .error fault => .error fault
        | .ok (some p) => .ok (min p capped)
        | .ok none =>
            match lastBlank chars (offsets windowStart target).reverse with
            | .error fault => .error fault
            | .ok (some i) => .ok (min (i + 1) capped)
            | .ok none => .ok target

/-- `segments.push(segment)`, unless the segment is empty. -/
def push (segments : List String) (segment : List Char) : List String :=
  if segment.isEmpty then segments else segments ++ [String.ofList segment]

/-- The loop of `split_for_index`, cut off after a number of rounds. -/
def segmentLoop (chars : List Char) (capped : Nat) :
    Nat → List String → Nat → Except Fault (List String)
  | 0, segments, start =>
      if start < capped ∧ segments.length < maxSegmentsPerMessage then .error .running
      else .ok segments
  | rounds + 1, segments, start =>
      if start < capped ∧ segments.length < maxSegmentsPerMessage then
        let target := min (start + segmentTargetChars) capped
        match if capped ≤ target then .ok capped else snapBoundary chars start target capped with
        | .error fault => .error fault
        | .ok stop =>
            if stop ≤ start then .error .assertion
            else
              match slice chars start stop with
              | .error fault => .error fault
              | .ok segment => segmentLoop chars capped rounds (push segments segment) stop
      else
        .ok segments

/-- `split_for_index`, with a number of rounds for its loop. -/
def splitForIndex (rounds : Nat) (document : String) : Except Fault (List String) :=
  let chars := document.toList
  let total := chars.length
  if total = 0 then .ok [""]
  else if total ≤ segmentTargetChars then .ok [document]
  else
    match segmentLoop chars (min total segmentMaxChars) rounds [] 0 with
    | .error fault => .error fault
    | .ok segments =>
        .ok (if segments.isEmpty then [String.ofList (chars.take segmentTargetChars)]
          else segments)

section InRange

variable {chars : List Char} {target capped : Nat}

theorem charAt_ok {i : Nat} (inside : i < chars.length) :
    charAt chars i = .ok chars[i] := by
  simp [charAt, inside]

theorem paragraphAt_ok {i : Nat} (inside : i + 1 < chars.length) :
    paragraphAt chars i = .ok (chars[i]? == some '\n' && chars[i + 1]? == some '\n') := by
  have here : i < chars.length := Nat.lt_of_succ_lt inside
  simp only [paragraphAt, charAt_ok here, charAt_ok inside, List.getElem?_eq_getElem here,
    List.getElem?_eq_getElem inside, Option.some_beq_some]
  cases chars[i] == '\n' <;> rfl

theorem newlineAt_ok {i : Nat} (inside : i < chars.length) :
    newlineAt chars i = .ok (chars[i]? == some '\n') := by
  simp [newlineAt, charAt_ok inside, inside]

/-- The distance the loop starts from, and goes on with. -/
def bestDist (target : Nat) : Option Nat → Nat
  | none => usizeMax
  | some kept => absDiff kept target

/-- In range, and with distances that fit a `usize`, the loop finds the closest break. -/
theorem closestBreak_ok {breakAt : Nat → Except Fault Bool} {isBreak : Nat → Bool} {shift : Nat}
    {places : List Nat} (inRange : ∀ i ∈ places, breakAt i = .ok (isBreak i))
    (near : ∀ i ∈ places, absDiff (i + shift) target < usizeMax) (best : Option Nat) :
    closestBreak breakAt shift target places best (bestDist target best) =
      .ok (((places.filter isBreak).map (· + shift)).foldl (fun best offset =>
        match best with
        | none => some offset
        | some kept =>
            if absDiff offset target < absDiff kept target then some offset else some kept)
        best) := by
  induction places generalizing best with
  | nil => rfl
  | cons i rest inductionHypothesis =>
      have later := inductionHypothesis (fun j member => inRange j (List.mem_cons_of_mem i member))
        fun j member => near j (List.mem_cons_of_mem i member)
      have fits := near i List.mem_cons_self
      simp only [closestBreak, inRange i List.mem_cons_self]
      cases here : isBreak i with
      | false =>
          rw [List.filter_cons_of_neg (by simp [here])]
          exact later best
      | true =>
          rw [List.filter_cons_of_pos here, List.map_cons, List.foldl_cons]
          cases best with
          | none =>
              rw [bestDist, if_pos fits]
              exact later (some (i + shift))
          | some kept =>
              dsimp only [bestDist]
              by_cases closer : absDiff (i + shift) target < absDiff kept target
              · simp only [closer, if_true]
                exact later (some (i + shift))
              · simp only [closer, if_false]
                exact later (some kept)

theorem lastBlank_ok {places : List Nat} (inRange : ∀ i ∈ places, i < chars.length) :
    lastBlank chars places =
      .ok (places.find? fun i => (chars[i]?.map isWhitespace).getD false) := by
  induction places with
  | nil => rfl
  | cons i rest inductionHypothesis =>
      have here := inRange i List.mem_cons_self
      have later := inductionHypothesis fun j member => inRange j (List.mem_cons_of_mem i member)
      simp only [lastBlank, charAt_ok here, List.find?_cons, List.getElem?_eq_getElem here,
        Option.map_some, Option.getD_some, later]
      cases isWhitespace chars[i] <;> rfl

theorem snapBoundary_ok (start : Nat) (fits : capped ≤ chars.length) (inside : target < capped)
    (bounded : capped ≤ segmentMaxChars) :
    snapBoundary chars start target capped =
      .ok (Search.snapBoundary chars start target capped) := by
  have sizes : segmentMaxChars + 2 < usizeMax := by decide
  simp only [snapBoundary, Search.snapBoundary]
  split
  · rfl
  · have paragraphs := @closestBreak_ok target (paragraphAt chars) _ 2
      (offsets (max (target - snapWindow) (start + 1)) (min (target + snapWindow) capped - 1))
      (fun i member => paragraphAt_ok (by rw [mem_offsets_iff] at member; omega))
      (fun i member => by rw [mem_offsets_iff] at member; unfold absDiff; omega) none
    have lines := @closestBreak_ok target (newlineAt chars) _ 1
      (offsets (max (target - snapWindow) (start + 1)) (min (target + snapWindow) capped))
      (fun i member => newlineAt_ok (by rw [mem_offsets_iff] at member; omega))
      (fun i member => by rw [mem_offsets_iff] at member; unfold absDiff; omega) none
    have blanks := @lastBlank_ok chars
      (offsets (max (target - snapWindow) (start + 1)) target).reverse
      (fun i member => by rw [List.mem_reverse, mem_offsets_iff] at member; omega)
    change _ = Except.ok (closestTo target (paragraphEnds chars _ _)) at paragraphs
    change _ = Except.ok (closestTo target (lineEnds chars _ _)) at lines
    rw [bestDist] at paragraphs lines
    rw [paragraphs]
    cases closestTo target (paragraphEnds chars (max (target - snapWindow) (start + 1))
      (min (target + snapWindow) capped)) with
    | some p => rfl
    | none =>
        dsimp only
        rw [lines]
        cases closestTo target (lineEnds chars (max (target - snapWindow) (start + 1))
          (min (target + snapWindow) capped)) with
        | some p => rfl
        | none =>
            dsimp only
            rw [blanks]
            cases List.find? _ (offsets (max (target - snapWindow) (start + 1)) target).reverse with
            | some i => rfl
            | none => rfl

/-- One round: it stays in range, its segment is not empty, and it goes on behind it. -/
theorem segmentLoop_succ (rounds : Nat) (segments : List String) {start : Nat}
    (fits : capped ≤ chars.length) (bounded : capped ≤ segmentMaxChars) (more : start < capped)
    (room : segments.length < maxSegmentsPerMessage) :
    segmentLoop chars capped (rounds + 1) segments start =
      segmentLoop chars capped rounds (segments ++ [String.ofList
        ((chars.drop start).take (segmentEnd chars capped start - start))])
        (segmentEnd chars capped start) := by
  have bounds := segmentEnd_bounds chars more
  have stops : (if capped ≤ min (start + segmentTargetChars) capped then .ok capped
      else snapBoundary chars start (min (start + segmentTargetChars) capped) capped) =
      (.ok (segmentEnd chars capped start) : Except Fault Nat) := by
    simp only [segmentEnd]
    split
    · rfl
    next inside => exact snapBoundary_ok start fits (Nat.lt_of_not_le inside) bounded
  have sliced : slice chars start (segmentEnd chars capped start) =
      .ok ((chars.drop start).take (segmentEnd chars capped start - start)) :=
    if_pos ⟨bounds.1.le, bounds.2.1.trans fits⟩
  have nonempty : ((chars.drop start).take (segmentEnd chars capped start - start)).isEmpty =
      false := by
    rw [← Bool.not_eq_true, List.isEmpty_iff_length_eq_zero, List.length_take, List.length_drop]
    omega
  simp only [segmentLoop]
  rw [if_pos ⟨more, room⟩, stops]
  dsimp only
  rw [if_neg (Nat.not_le.mpr bounds.1), sliced]
  dsimp only
  rw [push, nonempty, if_neg Bool.false_ne_true]

/-- As many rounds as segments may still come are enough for the loop. -/
theorem segmentLoop_ok (rounds : Nat) (segments : List String) {start : Nat}
    (fits : capped ≤ chars.length) (bounded : capped ≤ segmentMaxChars) (inside : start ≤ capped)
    (enough : maxSegmentsPerMessage ≤ segments.length + rounds) :
    segmentLoop chars capped rounds segments start =
      .ok (segments ++ segmentsFrom chars capped (maxSegmentsPerMessage - segments.length)
        start) := by
  induction rounds generalizing segments start with
  | zero =>
      have full : maxSegmentsPerMessage - segments.length = 0 := by omega
      rw [segmentLoop, if_neg (by omega), full, segmentsFrom, List.append_nil]
  | succ rounds inductionHypothesis =>
      by_cases goesOn : start < capped ∧ segments.length < maxSegmentsPerMessage
      · obtain ⟨more, room⟩ := goesOn
        have bounds := segmentEnd_bounds chars more
        have next : maxSegmentsPerMessage - segments.length =
            maxSegmentsPerMessage - (segments.length + 1) + 1 := by omega
        rw [segmentLoop_succ rounds segments fits bounded more room,
          inductionHypothesis _ bounds.2.1
            (by rw [List.length_append, List.length_singleton]; omega),
          List.length_append, List.length_singleton, next, segmentsFrom_cons fits more]
        simp
      · rw [segmentLoop, if_neg goesOn]
        rcases not_and_or.mp goesOn with atEnd | full
        · cases maxSegmentsPerMessage - segments.length with
          | zero => simp [segmentsFrom]
          | succ left => simp [segmentsFrom, atEnd]
        · have none_left : maxSegmentsPerMessage - segments.length = 0 := by omega
          rw [none_left, segmentsFrom, List.append_nil]

end InRange

/-- The segmenter ends without a fault, after at most as many rounds as it may return segments. -/
theorem splitForIndex_ok (extra : Nat) (document : String) :
    splitForIndex (maxSegmentsPerMessage + extra) document =
      .ok (Search.splitForIndex document) := by
  simp only [splitForIndex, Search.splitForIndex]
  split
  · rfl
  · split
    · rfl
    · rw [segmentLoop_ok _ [] (Nat.min_le_left _ _) (Nat.min_le_right _ _) (Nat.zero_le _)
        (by simp)]
      rfl

end Checked

section Sizes

variable {chars : List Char} {capped : Nat}

/-- Segments are not empty and not longer than a target and a window; where another one
follows, a segment is at most a window short of the target. -/
theorem segmentsFrom_sizes (fits : capped ≤ chars.length) (rounds : Nat) {start : Nat} :
    (∀ segment ∈ segmentsFrom chars capped rounds start,
      0 < segment.toList.length ∧ segment.toList.length ≤ segmentTargetChars + snapWindow) ∧
    ∀ segment ∈ (segmentsFrom chars capped rounds start).dropLast,
      segmentTargetChars - snapWindow + 1 ≤ segment.toList.length := by
  induction rounds generalizing start with
  | zero => simp [segmentsFrom]
  | succ rounds inductionHypothesis =>
      by_cases more : start < capped
      · have bounds := segmentEnd_bounds chars more
        have advances := ((segmentEnd_eq_iff chars capped start _).mp rfl).advances
        have size : (String.ofList ((chars.drop start).take
            (segmentEnd chars capped start - start))).toList.length =
              segmentEnd chars capped start - start := by
          rw [String.toList_ofList, List.length_take, List.length_drop]
          omega
        obtain ⟨sizes, lower⟩ := @inductionHypothesis (segmentEnd chars capped start)
        rw [segmentsFrom_cons fits more]
        constructor
        · intro segment member
          rcases List.mem_cons.mp member with rfl | later
          · omega
          · exact sizes segment later
        · intro segment member
          cases follows : segmentsFrom chars capped rounds (segmentEnd chars capped start) with
          | nil =>
              rw [follows] at member
              cases member
          | cons next rest =>
              rw [follows, List.dropLast_cons_of_ne_nil (List.cons_ne_nil _ _), ← follows] at member
              rcases List.mem_cons.mp member with rfl | later
              · have goesOn : segmentEnd chars capped start < capped := by
                  by_contra ended
                  cases rounds with
                  | zero => cases follows
                  | succ rounds =>
                      rw [segmentsFrom, if_neg ended] at follows
                      cases follows
                omega
              · exact lower segment later
      · simp [segmentsFrom, more]

end Sizes

/-- The segmenter ends with at least one and at most eight segments.  They are consecutive
pieces of the document from its start on, of bounded size. -/
theorem splitForIndex_bounds (document : String) :
    ∃ segments,
      (∀ extra, Checked.splitForIndex (maxSegmentsPerMessage + extra) document = .ok segments) ∧
      1 ≤ segments.length ∧ segments.length ≤ maxSegmentsPerMessage ∧
      segments.flatMap String.toList <+: document.toList ∧
      (document.toList ≠ [] → ∀ segment ∈ segments,
        segment.toList ≠ [] ∧ segment.toList.length ≤ segmentTargetChars + snapWindow) ∧
      ∀ segment ∈ segments.dropLast,
        segmentTargetChars - snapWindow + 1 ≤ segment.toList.length := by
  refine ⟨splitForIndex document, fun extra => Checked.splitForIndex_ok extra document,
    splitForIndex_length_pos document, splitForIndex_length_le document, ?_, ?_⟩
  · rw [← String.toList_join]
    by_cases short : document.toList.length ≤ segmentTargetChars
    · exact ⟨[], by rw [List.append_nil, join_splitForIndex_short short]⟩
    · rw [join_splitForIndex (Nat.lt_of_not_le short)]
      exact List.take_prefix _ _
  · by_cases short : document.toList.length ≤ segmentTargetChars
    · rw [splitForIndex_short short]
      refine ⟨fun nonempty segment member => ?_, by simp⟩
      rw [List.mem_singleton.mp member]
      exact ⟨nonempty, short.trans (Nat.le_add_right _ _)⟩
    · have fits : min document.toList.length segmentMaxChars ≤ document.toList.length :=
        Nat.min_le_left _ _
      obtain ⟨sizes, lower⟩ := @segmentsFrom_sizes document.toList _ fits maxSegmentsPerMessage 0
      rw [splitForIndex_long (Nat.lt_of_not_le short)]
      refine ⟨fun _ segment member => ?_, lower⟩
      have size := sizes segment member
      exact ⟨List.ne_nil_of_length_pos size.1, size.2⟩

end Scryd.Search
