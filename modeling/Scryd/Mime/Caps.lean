import Scryd.Mime.Message
import Mathlib.Algebra.GroupWithZero.Nat
import Mathlib.Data.List.Basic

/-!
# The caps on a message tree

`check_caps` bounds the parts that a message lists itself.  A part that embeds a
message counts as one part, whatever the embedded message lists.
-/

namespace Scryd.Mime

def maxPartDepth : Nat := 8

def maxParts : Nat := 1000

def maxHeaderBytesPerPart : Nat := 65536

/-- `mail_parser::Header`, with the fields that the caps read. -/
structure Header where
  name : String
  offsetField : Nat
  offsetEnd : Nat

mutual

/-- `mail_parser::Message`. -/
inductive Message where
  | mk (parts : List MessagePart)

inductive MessagePart where
  | mk (headers : List Header) (body : PartType)

/-- `mail_parser::PartType`, without the content of its leaves. -/
inductive PartType where
  | text
  | html
  | binary
  | inlineBinary
  | message (message : Message)
  | multipart (children : List Nat)

end

def Message.parts : Message → List MessagePart
  | .mk parts => parts

def MessagePart.headers : MessagePart → List Header
  | .mk headers _ => headers

def MessagePart.body : MessagePart → PartType
  | .mk _ body => body

/-- The children of a multipart. -/
def MessagePart.children (part : MessagePart) : List Nat :=
  match part.body with
  | .multipart children => children
  | _ => []

def MessagePart.embedded? (part : MessagePart) : Option Message :=
  match part.body with
  | .message inner => some inner
  | _ => none

/-- The child indices form a finite tree. -/
structure FiniteTree (parts : List MessagePart) where
  rank : Nat → Nat
  descends : ∀ idx part, parts[idx]? = some part → ∀ c ∈ part.children,
    c < parts.length ∧ rank c < rank idx

/-- `h.name.as_str().len() + h.offset_end.saturating_sub(h.offset_field)`. -/
def Header.bytes (h : Header) : Nat := h.name.utf8ByteSize + (h.offsetEnd - h.offsetField)

def MessagePart.headerBytes (part : MessagePart) : Nat := (part.headers.map Header.bytes).sum

/-- `walk`. -/
def walk (parts : List MessagePart) (tree : FiniteTree parts) (idx depth : Nat) : Nat :=
  match found : parts[idx]? with
  | none => depth
  | some part =>
      part.children.attach.foldl
        (fun maxD c => max maxD (walk parts tree c.1 (depth + 1))) depth
termination_by tree.rank idx
decreasing_by exact (tree.descends idx part found c.1 c.2).2

/-- `part_depth`. -/
def partDepth (message : Message) (tree : FiniteTree message.parts) : Nat :=
  if message.parts.isEmpty then 0 else walk message.parts tree 0 1

/-- `check_caps`. -/
def checkCaps (message : Message) (tree : FiniteTree message.parts) : Except ParseFault Unit :=
  if maxParts < message.parts.length then .error (.parseCapExceeded "part-count")
  else if message.parts.any fun part => maxHeaderBytesPerPart < part.headerBytes then
    .error (.parseCapExceeded "header-bytes-per-part")
  else if maxPartDepth < partDepth message tree then .error (.parseCapExceeded "part-depth")
  else .ok ()

section Depth

variable {parts : List MessagePart}

/-- A part, by its index, and its depth under a part at some depth. -/
inductive PartAt (parts : List MessagePart) : Nat → Nat → Nat → Nat → Prop where
  | here (idx depth : Nat) : PartAt parts idx depth idx depth
  | under {idx depth c below deep : Nat} {part : MessagePart} (found : parts[idx]? = some part)
      (child : c ∈ part.children) (later : PartAt parts c (depth + 1) below deep) :
      PartAt parts idx depth below deep

theorem foldl_max_le_iff {α : Type} (value : α → Nat) (items : List α) (start bound : Nat) :
    items.foldl (fun greatest item => max greatest (value item)) start ≤ bound ↔
      start ≤ bound ∧ ∀ item ∈ items, value item ≤ bound := by
  induction items generalizing start with
  | nil => simp
  | cons item items inductionHypothesis =>
      rw [List.foldl_cons, inductionHypothesis, Nat.max_le, List.forall_mem_cons, and_assoc]

/-- The walk finds the greatest depth. -/
theorem walk_le_iff (tree : FiniteTree parts) (idx depth bound : Nat) :
    walk parts tree idx depth ≤ bound ↔
      ∀ below deep, PartAt parts idx depth below deep → deep ≤ bound := by
  induction rank : tree.rank idx using Nat.strong_induction_on generalizing idx depth with
  | _ n inductionHypothesis =>
      subst rank
      rw [walk]
      split
      next absent =>
        constructor
        · intro bounded below deep at_
          cases at_ with
          | here => exact bounded
          | under found _ _ =>
              rw [absent] at found
              cases found
        · intro all
          exact all idx depth (.here idx depth)
      next part found =>
        rw [foldl_max_le_iff fun c : { c // c ∈ part.children } =>
          walk parts tree c.1 (depth + 1)]
        constructor
        · rintro ⟨bounded, children⟩ below deep at_
          cases at_ with
          | here => exact bounded
          | @under _ _ c _ _ other otherFound child later =>
              rw [found, Option.some.injEq] at otherFound
              subst otherFound
              exact (inductionHypothesis _ (tree.descends idx part found c child).2 c _ rfl).mp
                (children ⟨c, child⟩ (List.mem_attach _ _)) below deep later
        · intro all
          refine ⟨all idx depth (.here idx depth), ?_⟩
          rintro ⟨c, child⟩ _
          apply (inductionHypothesis _ (tree.descends idx part found c child).2 c _ rfl).mpr
          intro below deep later
          exact all below deep (.under found child later)

/-- From the root only parts are reached. -/
theorem PartAt.inside (tree : FiniteTree parts) {idx depth below deep : Nat}
    (at_ : PartAt parts idx depth below deep) (start : idx < parts.length) :
    below < parts.length := by
  induction at_ with
  | here => exact start
  | under found child _ inductionHypothesis =>
      exact inductionHypothesis (tree.descends _ _ found _ child).1

theorem partDepth_le_iff {message : Message} (tree : FiniteTree message.parts) (bound : Nat) :
    partDepth message tree ≤ bound ↔
      ∀ idx deep, idx < message.parts.length → PartAt message.parts 0 1 idx deep →
        deep ≤ bound := by
  rw [partDepth]
  split
  next empty =>
    rw [List.isEmpty_iff] at empty
    simp [empty]
  next nonempty =>
    have start : 0 < message.parts.length :=
      List.length_pos_of_ne_nil (mt List.isEmpty_iff.mpr nonempty)
    rw [walk_le_iff]
    exact ⟨fun all idx deep _ at_ => all idx deep at_,
      fun all idx deep at_ => all idx deep (at_.inside tree start) at_⟩

end Depth

section Levels

mutual

/-- The parts of a message at all levels. -/
def Message.totalParts : Message → Nat
  | .mk parts => parts.length + embeddedParts parts

/-- The parts of the messages that a list of parts embeds. -/
def embeddedParts : List MessagePart → Nat
  | [] => 0
  | part :: rest => part.embeddedParts + embeddedParts rest

def MessagePart.embeddedParts : MessagePart → Nat
  | .mk _ body => body.embeddedParts

def PartType.embeddedParts : PartType → Nat
  | .message inner => inner.totalParts
  | _ => 0

end

/-- A part of a message at some level. -/
inductive HasPart : Message → MessagePart → Prop where
  | own {message : Message} {part : MessagePart} (member : part ∈ message.parts) :
      HasPart message part
  | embedded {message inner : Message} {outer part : MessagePart}
      (member : outer ∈ message.parts) (embeds : outer.embedded? = some inner)
      (later : HasPart inner part) : HasPart message part

/-- A depth of some part of a message, counted through multiparts and embedded messages. -/
inductive NestedAt : Message → Nat → Prop where
  | own {message : Message} {idx deep : Nat} (inside : idx < message.parts.length)
      (at_ : PartAt message.parts 0 1 idx deep) : NestedAt message deep
  | embedded {message inner : Message} {outer : MessagePart} {idx deep more : Nat}
      (at_ : PartAt message.parts 0 1 idx deep) (found : message.parts[idx]? = some outer)
      (embeds : outer.embedded? = some inner) (later : NestedAt inner more) :
      NestedAt message (deep + more)

/-- The whole tree is within the caps. -/
structure WithinCaps (message : Message) : Prop where
  depth : ∀ deep, NestedAt message deep → deep ≤ maxPartDepth
  count : message.totalParts ≤ maxParts
  headers : ∀ part, HasPart message part → part.headerBytes ≤ maxHeaderBytesPerPart

/-- The parts that a message lists itself exceed a cap. -/
def OuterExceeds (message : Message) : Prop :=
  maxParts < message.parts.length ∨
    (∃ part ∈ message.parts, maxHeaderBytesPerPart < part.headerBytes) ∨
    ∃ idx deep, idx < message.parts.length ∧ PartAt message.parts 0 1 idx deep ∧
      maxPartDepth < deep

/-- What the embedded messages add stays within the caps. -/
structure EmbeddedFit (message : Message) : Prop where
  depth : ∀ idx deep outer inner more, PartAt message.parts 0 1 idx deep →
    message.parts[idx]? = some outer → outer.embedded? = some inner → NestedAt inner more →
      deep + more ≤ maxPartDepth
  count : message.parts.length + embeddedParts message.parts ≤ maxParts
  headers : ∀ outer ∈ message.parts, ∀ inner, outer.embedded? = some inner →
    ∀ part, HasPart inner part → part.headerBytes ≤ maxHeaderBytesPerPart

theorem checkCaps_ok_iff {message : Message} (tree : FiniteTree message.parts) :
    checkCaps message tree = .ok () ↔ ¬ OuterExceeds message := by
  simp only [OuterExceeds, not_or, not_exists, not_and, Nat.not_lt]
  rw [← partDepth_le_iff tree]
  unfold checkCaps
  split
  next tooMany =>
    refine iff_of_false nofun fun within => ?_
    exact absurd within.1 (Nat.not_le.mpr tooMany)
  next fewParts =>
    split
    next tooLong =>
      obtain ⟨part, member, exceeds⟩ := List.any_eq_true.mp tooLong
      refine iff_of_false nofun fun within => ?_
      exact absurd (within.2.1 part member) (Nat.not_le.mpr (of_decide_eq_true exceeds))
    next fit =>
      have short : ∀ part ∈ message.parts, part.headerBytes ≤ maxHeaderBytesPerPart := by
        intro part member
        by_contra exceeds
        exact fit (List.any_eq_true.mpr
          ⟨part, member, decide_eq_true (Nat.lt_of_not_le exceeds)⟩)
      split
      next tooDeep =>
        refine iff_of_false nofun fun within => ?_
        exact absurd within.2.2 (Nat.not_le.mpr tooDeep)
      next shallow =>
        exact iff_of_true rfl ⟨Nat.le_of_not_lt fewParts, short, Nat.le_of_not_lt shallow⟩

theorem totalParts_eq (message : Message) :
    message.totalParts = message.parts.length + embeddedParts message.parts := by
  cases message with
  | mk parts => rw [Message.totalParts, Message.parts]

/-- The whole tree is within the caps when the outer parts and what they embed are. -/
theorem withinCaps_iff (message : Message) :
    WithinCaps message ↔ ¬ OuterExceeds message ∧ EmbeddedFit message := by
  constructor
  · intro within
    have count := within.count
    rw [totalParts_eq] at count
    refine ⟨?_, ?_, count, ?_⟩
    · rintro (tooMany | ⟨part, member, exceeds⟩ | ⟨idx, deep, inside, at_, exceeds⟩)
      · omega
      · exact absurd (within.headers part (.own member)) (Nat.not_le.mpr exceeds)
      · exact absurd (within.depth deep (.own inside at_)) (Nat.not_le.mpr exceeds)
    · intro idx deep outer inner more at_ found embeds later
      exact within.depth _ (.embedded at_ found embeds later)
    · intro outer member inner embeds part later
      exact within.headers part (.embedded member embeds later)
  · rintro ⟨outer, fit⟩
    simp only [OuterExceeds, not_or, not_exists, not_and, Nat.not_lt] at outer
    obtain ⟨_, headers, depth⟩ := outer
    refine ⟨?_, by rw [totalParts_eq]; exact fit.count, ?_⟩
    · intro deep nested
      cases nested with
      | own inside at_ => exact depth _ deep inside at_
      | embedded at_ found embeds later => exact fit.depth _ _ _ _ _ at_ found embeds later
    · intro part has
      cases has with
      | own member => exact headers part member
      | embedded member embeds later => exact fit.headers _ member _ embeds part later

/-- The check bounds the whole tree exactly when the outer parts exceed a cap already or the
embedded messages stay within what is left. -/
theorem checkCaps_bounds_iff (message : Message) (tree : FiniteTree message.parts) :
    (checkCaps message tree = .ok () → WithinCaps message) ↔
      OuterExceeds message ∨ EmbeddedFit message := by
  rw [checkCaps_ok_iff, withinCaps_iff]
  constructor
  · intro bounds
    by_cases exceeds : OuterExceeds message
    · exact .inl exceeds
    · exact .inr (bounds exceeds).2
  · rintro (exceeds | fit) within
    · exact absurd exceeds within
    · exact ⟨within, fit⟩

/-- A message that was forwarded as an attachment a number of times. -/
def forwarded : Nat → Message
  | 0 => .mk [.mk [] .text]
  | times + 1 => .mk [.mk [] (.message (forwarded times))]

theorem forwarded_nested (times : Nat) : NestedAt (forwarded times) (times + 1) := by
  induction times with
  | zero => exact .own Nat.one_pos (.here 0 1)
  | succ times inductionHypothesis =>
      have nested : NestedAt (forwarded (times + 1)) (1 + (times + 1)) :=
        .embedded (.here 0 1) rfl rfl inductionHypothesis
      rwa [Nat.add_comm 1] at nested

/-- It lists one part, which is no multipart. -/
theorem forwarded_parts (times : Nat) : ∃ part, (forwarded times).parts = [part] ∧
    part.children = [] ∧ part.headerBytes = 0 := by
  cases times with
  | zero => exact ⟨_, rfl, rfl, rfl⟩
  | succ times => exact ⟨_, rfl, rfl, rfl⟩

theorem forwarded_childless {times idx : Nat} {part : MessagePart}
    (found : (forwarded times).parts[idx]? = some part) : part.children = [] := by
  obtain ⟨only, parts, childless, _⟩ := forwarded_parts times
  have member := List.mem_of_getElem? found
  rw [parts, List.mem_singleton] at member
  rw [member, childless]

def forwardedTree (times : Nat) : FiniteTree (forwarded times).parts where
  rank _ := 0
  descends := by
    intro idx part found c child
    rw [forwarded_childless found] at child
    cases child

theorem forwarded_accepted (times : Nat) :
    checkCaps (forwarded times) (forwardedTree times) = .ok () := by
  obtain ⟨only, parts, _, bytes⟩ := forwarded_parts times
  rw [checkCaps_ok_iff]
  rintro (tooMany | ⟨part, member, exceeds⟩ | ⟨idx, deep, _, at_, exceeds⟩)
  · rw [parts, List.length_singleton] at tooMany
    exact absurd tooMany (by decide)
  · rw [parts, List.mem_singleton] at member
    rw [member, bytes] at exceeds
    exact absurd exceeds (by decide)
  · cases at_ with
    | here => exact absurd exceeds (by decide)
    | under found child _ =>
        rw [forwarded_childless found] at child
        cases child

/-- Eight embedded messages are accepted, and the last part is at depth nine. -/
theorem eight_embedded_not_bounded :
    ¬ (checkCaps (forwarded 8) (forwardedTree 8) = .ok () → WithinCaps (forwarded 8)) := by
  intro bounds
  have depth := (bounds (forwarded_accepted 8)).depth 9 (forwarded_nested 8)
  exact absurd depth (by decide)

end Levels

end Scryd.Mime
