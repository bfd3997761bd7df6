import Scryd.Mime.TinyImage

/-!
# Documents whose brackets alternate

Such a document is a sequence of characters and tags.  What the patterns for
blocks, comments and images take of it are whole nodes, and afterwards no match
is left: taking nodes away makes no tag.
-/

namespace Scryd.Mime

open Scryd.Foundation

section Nodes

/-- A character of the text, or a tag without its brackets. -/
inductive Node where
  | char (c : Char) (plain : c ≠ '<' ∧ c ≠ '>')
  | tag (body : List Char) (plain : '<' ∉ body ∧ '>' ∉ body)

def Node.source : Node → List Char
  | .char c _ => [c]
  | .tag body _ => '<' :: (body ++ ['>'])

def source (nodes : List Node) : List Char := nodes.flatMap Node.source

/-- A tag that plays a part. -/
def Node.Is (part : List Char → Prop) : Node → Prop
  | .char _ _ => False
  | .tag body _ => part body

/-- A character, or a tag with a property. -/
def Node.IfTag (property : List Char → Prop) : Node → Prop
  | .char _ _ => True
  | .tag body _ => property body

@[simp] theorem source_nil : source [] = [] := rfl

@[simp] theorem source_char (c : Char) (plain : c ≠ '<' ∧ c ≠ '>') (nodes : List Node) :
    source (.char c plain :: nodes) = c :: source nodes := rfl

@[simp] theorem source_tag (body : List Char) (plain : '<' ∉ body ∧ '>' ∉ body)
    (nodes : List Node) :
    source (.tag body plain :: nodes) = '<' :: (body ++ '>' :: source nodes) := by
  simp [source, Node.source]

@[simp] theorem source_append (first second : List Node) :
    source (first ++ second) = source first ++ source second := List.flatMap_append

/-- An opening bracket is the one of a tag. -/
theorem source_split_open {nodes : List Node} {front behind : List Char}
    (split : source nodes = front ++ '<' :: behind) :
    ∃ before body plain after, nodes = before ++ .tag body plain :: after ∧
      front = source before ∧ behind = body ++ '>' :: source after := by
  induction nodes generalizing front with
  | nil => simp at split
  | cons node nodes inductionHypothesis =>
      cases node with
      | char c plain =>
          rw [source_char] at split
          cases front with
          | nil => exact absurd (List.cons.inj split).1 plain.1
          | cons d front =>
              obtain ⟨rfl, later⟩ := List.cons.inj split
              obtain ⟨before, body, plainBody, after, rfl, rfl, rfl⟩ := inductionHypothesis later
              exact ⟨.char c plain :: before, body, plainBody, after, rfl, rfl, rfl⟩
      | tag body plain =>
          rw [source_tag] at split
          cases front with
          | nil => exact ⟨[], body, plain, nodes, rfl, rfl, (List.cons.inj split).2.symm⟩
          | cons d front =>
              obtain ⟨rfl, inner⟩ := List.cons.inj split
              -- The tag has no other opening bracket, so that one is behind it.
              have inTag : '<' ∉ body ++ ['>'] := by simpa using plain.1
              rw [List.append_cons] at inner
              obtain ⟨gap, rfl, rest⟩ := append_mark_split inTag inner
              obtain ⟨before, other, plainOther, after, rfl, rfl, rfl⟩ := inductionHypothesis rest
              exact ⟨.tag body plain :: before, other, plainOther, after, rfl, by simp, rfl⟩

/-- A document that begins with an opening bracket begins with a tag. -/
theorem source_head {nodes : List Node} {behind rest : List Char}
    (split : source nodes = ('<' :: behind) ++ rest) :
    ∃ body plain after, nodes = .tag body plain :: after ∧
      behind ++ rest = body ++ '>' :: source after := by
  cases nodes with
  | nil => cases split
  | cons node nodes =>
      cases node with
      | char c plain => exact absurd (List.cons.inj split).1 plain.1
      | tag body plain =>
          rw [source_tag] at split
          exact ⟨body, plain, nodes, rfl, (List.cons.inj split).2.symm⟩

/-- A closing bracket is the one of a tag. -/
theorem source_split_close {nodes : List Node} {front behind : List Char}
    (split : source nodes = front ++ '>' :: behind) :
    ∃ before body plain after, nodes = before ++ .tag body plain :: after ∧
      front = source before ++ '<' :: body ∧ behind = source after := by
  induction nodes generalizing front with
  | nil => simp at split
  | cons node nodes inductionHypothesis =>
      cases node with
      | char c plain =>
          rw [source_char] at split
          cases front with
          | nil => exact absurd (List.cons.inj split).1 plain.2
          | cons d front =>
              obtain ⟨rfl, later⟩ := List.cons.inj split
              obtain ⟨before, body, plainBody, after, rfl, rfl, rfl⟩ := inductionHypothesis later
              exact ⟨.char c plain :: before, body, plainBody, after, rfl, rfl, rfl⟩
      | tag body plain =>
          rw [source_tag, ← List.cons_append] at split
          have inTag : '>' ∉ '<' :: body := by simpa using plain.2
          obtain ⟨gap, rfl, closes⟩ := append_mark_split inTag split
          cases gap with
          | nil =>
              obtain ⟨_, rfl⟩ := List.cons.inj closes
              exact ⟨[], body, plain, nodes, rfl, by simp, rfl⟩
          | cons c gap =>
              obtain ⟨rfl, later⟩ := List.cons.inj closes
              obtain ⟨before, other, plainOther, after, rfl, rfl, rfl⟩ := inductionHypothesis later
              exact ⟨.tag body plain :: before, other, plainOther, after, rfl, by simp, rfl⟩

end Nodes

section Matches

/-- The tags that a match begins and ends with, and those that are one on their own. -/
structure Roles where
  opens : List Char → Prop
  closes : List Char → Prop
  whole : List Char → Prop

/-- The nodes of a match. -/
inductive Roles.Spans (roles : Roles) : List Node → Prop
  | whole {body : List Char} {plain : '<' ∉ body ∧ '>' ∉ body} (isWhole : roles.whole body) :
      Spans roles [.tag body plain]
  | block {first last : List Char} {plain : '<' ∉ first ∧ '>' ∉ first}
      {otherPlain : '<' ∉ last ∧ '>' ∉ last} {inner : List Node} (opens : roles.opens first)
      (closes : roles.closes last) :
      Spans roles (.tag first plain :: (inner ++ [.tag last otherPlain]))

/-- The matches of a pattern in a document are whole nodes with these roles. -/
structure Reads (words : WordTable) (pattern : Pattern) (roles : Roles) : Prop where
  opens : ∀ c, pattern.first c = true → c = '<'
  spans : ∀ {nodes : List Node} {piece after : List Char}, source nodes = piece ++ after →
    Matches words.isWord pattern.items none piece after →
      ∃ taken rest, nodes = taken ++ rest ∧ piece = source taken ∧ roles.Spans taken
  complete : ∀ {taken : List Node} (rest : List Node), roles.Spans taken →
    Matches words.isWord pattern.items none (source taken) (source rest)

/-- No nodes make a match. -/
structure Roles.Free (roles : Roles) (nodes : List Node) : Prop where
  whole : ∀ node ∈ nodes, ¬ node.Is roles.whole
  blocks : nodes.Pairwise fun first last => first.Is roles.opens → ¬ last.Is roles.closes

variable {words : WordTable} {pattern : Pattern} {roles : Roles} {nodes : List Node}

theorem Roles.Free.sublist {fewer : List Node} (free : roles.Free nodes)
    (sublist : fewer.Sublist nodes) : roles.Free fewer :=
  ⟨fun node member => free.whole node (sublist.subset member), free.blocks.sublist sublist⟩

theorem Roles.Free.not_spans (free : roles.Free nodes) : ¬ roles.Spans nodes := by
  intro spans
  cases spans with
  | whole isWhole => exact free.whole _ List.mem_cons_self isWhole
  | @block first last plain otherPlain inner opens closes =>
      have last_member : Node.tag last otherPlain ∈ inner ++ [.tag last otherPlain] := by simp
      exact (List.pairwise_cons.mp free.blocks).1 _ last_member opens closes

/-- A document without nodes that make a match has none. -/
theorem Reads.not_matchIn (reads : Reads words pattern roles) (free : roles.Free nodes) :
    ¬ MatchIn words.isWord pattern none (source nodes) := by
  rintro ⟨front, piece, after, split, isMatch⟩
  have anywhere : Matches words.isWord pattern.items none piece after := isMatch
  obtain ⟨c, tail, rfl, isFirst, _⟩ := isMatch
  obtain rfl := reads.opens c isFirst
  obtain ⟨before, body, plain, behind, rfl, rfl, same⟩ := source_split_open split
  have here : source (.tag body plain :: behind) = ('<' :: tail) ++ after := by
    rw [source_tag, ← same]
    rfl
  obtain ⟨taken, rest, parts, _, spans⟩ := reads.spans here anywhere
  rw [parts] at free
  exact (free.sublist ((List.sublist_append_left taken rest).trans
    (List.sublist_append_right before _))).not_spans spans

/-- Where no bracket opens a search takes nothing. -/
theorem Reads.removeAll_plain (reads : Reads words pattern roles) {front : List Char}
    (plain : '<' ∉ front) (rest : List Char) :
    removeAll id words.isWord pattern (front ++ rest) =
      front ++ removeAll id words.isWord pattern rest := by
  induction front with
  | nil => rfl
  | cons c front inductionHypothesis =>
      rw [List.mem_cons, not_or] at plain
      have none_found : matchItems words.isWord pattern.items none
          ((c :: (front ++ rest)).map id) = none := by
        rw [Pattern.items, List.map_cons, matchItems, matchOne, if_neg]
        exact fun isFirst => plain.1 (reads.opens c isFirst).symm
      rw [List.cons_append, removeAll_keep none_found, inductionHypothesis plain.2,
        List.cons_append]

end Matches

section Text

/-- What stands behind an equals sign in the text: white space and a character that is no
quote. -/
def PlainNext : List Node → Prop
  | [] => False
  | .char c _ :: rest => if isWhitespace c then PlainNext rest else c ≠ '"' ∧ c ≠ '\''
  | .tag _ _ :: _ => False

/-- In the text no value begins behind an equals sign. -/
def PlainText : List Node → Prop
  | [] => True
  | .char c _ :: rest => (c = '=' → PlainNext rest) ∧ PlainText rest
  | .tag _ _ :: rest => PlainText rest

/-- A document from which a search has taken nodes. -/
structure Thinned (nodes left : List Node) : Prop where
  sublist : left.Sublist nodes
  text : PlainText nodes → PlainText left
  next : PlainNext nodes → PlainNext left

theorem PlainText.behind {front nodes : List Node} (plain : PlainText (front ++ nodes)) :
    PlainText nodes := by
  induction front with
  | nil => exact plain
  | cons node front inductionHypothesis =>
      cases node with
      | char c isPlain => exact inductionHypothesis plain.2
      | tag body isPlain => exact inductionHypothesis plain

theorem Thinned.refl (nodes : List Node) : Thinned nodes nodes := ⟨.refl nodes, id, id⟩

theorem Thinned.trans {nodes between left : List Node} (first : Thinned nodes between)
    (second : Thinned between left) : Thinned nodes left :=
  ⟨second.sublist.trans first.sublist, second.text ∘ first.text, second.next ∘ first.next⟩

theorem Thinned.cons {nodes left : List Node} (thinned : Thinned nodes left) (node : Node) :
    Thinned (node :: nodes) (node :: left) where
  sublist := thinned.sublist.cons_cons node
  text := by
    cases node with
    | char c plain => exact fun text => ⟨thinned.next ∘ text.1, thinned.text text.2⟩
    | tag body plain => exact thinned.text
  next := by
    cases node with
    | char c plain =>
        intro next
        unfold PlainNext at next ⊢
        split at next
        next space => rw [if_pos space]; exact thinned.next next
        next solid => rwa [if_neg solid]
    | tag body plain => exact id

/-- Matches begin with a tag, so taking them changes nothing behind an equals sign. -/
theorem Thinned.take {roles : Roles} {taken nodes left : List Node} (thinned : Thinned nodes left)
    (spans : roles.Spans taken) : Thinned (taken ++ nodes) left where
  sublist := thinned.sublist.trans (List.sublist_append_right taken nodes)
  text := fun plain => thinned.text plain.behind
  next := by
    cases spans with
    | whole isWhole => exact False.elim
    | block opens closes => exact False.elim

end Text

section Removal

variable {words : WordTable} {pattern : Pattern} {roles : Roles}

/-- A node at which no match begins, before nodes that make none. -/
theorem Reads.free_cons (reads : Reads words pattern roles) {node : Node} {nodes left : List Node}
    (stays : ¬ Begins id words.isWord pattern (source (node :: nodes)))
    (sublist : left.Sublist nodes) (free : roles.Free left) : roles.Free (node :: left) := by
  have begins : ∀ {taken rest}, node :: nodes = taken ++ rest → ¬ roles.Spans taken := by
    intro taken rest split spans
    refine stays ⟨source taken, source rest, by rw [split, source_append], ?_⟩
    rw [List.map_id, List.map_id]
    exact reads.complete rest spans
  cases node with
  | char c plain =>
      refine ⟨List.forall_mem_cons.mpr ⟨id, free.whole⟩, List.pairwise_cons.mpr ⟨?_, free.blocks⟩⟩
      exact fun _ _ => False.elim
  | tag body plain =>
      refine ⟨List.forall_mem_cons.mpr ⟨fun isWhole => ?_, free.whole⟩,
        List.pairwise_cons.mpr ⟨fun last member opens closes => ?_, free.blocks⟩⟩
      · exact @begins [.tag body plain] nodes rfl (.whole isWhole)
      · cases last with
        | char c otherPlain => exact closes
        | tag other otherPlain =>
            obtain ⟨inner, rest, rfl⟩ := List.append_of_mem (sublist.subset member)
            refine @begins (.tag body plain :: (inner ++ [.tag other otherPlain])) rest ?_
              (.block opens closes)
            simp

/-- A search takes whole nodes, and leaves none that make a match. -/
theorem Reads.removeAll_source (reads : Reads words pattern roles) (nodes : List Node) :
    ∃ left, removeAll id words.isWord pattern (source nodes) = source left ∧
      Thinned nodes left ∧ roles.Free left := by
  induction length : nodes.length using Nat.strongRecOn generalizing nodes with
  | ind n inductionHypothesis =>
      subst length
      cases nodes with
      | nil => exact ⟨[], rfl, .refl [], ⟨nofun, .nil⟩⟩
      | cons node nodes =>
          by_cases begins : Begins id words.isWord pattern (source (node :: nodes))
          · obtain ⟨n, found⟩ := Option.ne_none_iff_exists'.mp (begins_iff.mp begins)
            rw [List.map_id] at found
            obtain ⟨piece, after, split, rfl, isMatch⟩ :=
              (decides_matchItems words.isWord pattern.items).sound found
            obtain ⟨taken, rest, parts, rfl, spans⟩ := reads.spans split isMatch
            have shorter : rest.length < (node :: nodes).length := by
              rw [parts, List.length_append]
              cases spans <;> simp
            obtain ⟨left, removed, thinned, free⟩ :=
              inductionHypothesis rest.length shorter rest rfl
            rw [parts, source_append] at found ⊢
            refine ⟨left, ?_, thinned.take spans, free⟩
            rw [removeAll_match (by rwa [List.map_id]), removed]
          · obtain ⟨left, removed, thinned, free⟩ :=
              inductionHypothesis nodes.length (Nat.lt_succ_self _) nodes rfl
            refine ⟨node :: left, ?_, thinned.cons node,
              reads.free_cons begins thinned.sublist free⟩
            rw [begins_iff, not_not] at begins
            cases node with
            | char c plain =>
                rw [source_char] at begins ⊢
                rw [removeAll_keep begins, removed, source_char]
            | tag body plain =>
                have inTag : '<' ∉ body ++ ['>'] := by simpa using plain.1
                rw [source_tag] at begins ⊢
                rw [removeAll_keep begins, List.append_cons, reads.removeAll_plain inTag, removed,
                  source_tag, List.append_assoc, List.singleton_append]

end Removal

section Elements

variable {words : WordTable} {prev : Option Char} {piece after : List Char}

/-- The patterns of a tag with a name, and of the tag that ends its element, without brackets. -/
def openTag (name : String) : List Item := literal name ++ [.boundary, insideTag]

def closeTag (name : String) : List Item := literal "/" ++ literal name ++ [spaces]

/-- The tags of scripts, styles and heads. -/
def elementRoles (words : WordTable) (name : String) : Roles where
  opens body := Matches words.isWord (openTag name) (some '<') body ['>']
  closes body := Matches words.isWord (closeTag name) (some '<') body ['>']
  whole _ := False

theorem matches_openAngle :
    Matches words.isWord [.one openAngle] prev piece after ↔ piece = ['<'] := by
  rw [matches_one]
  constructor
  · rintro ⟨c, rfl, isOpen⟩
    rw [beq_iff_eq.mp isOpen]
  · rintro rfl
    exact ⟨'<', rfl, rfl⟩

theorem elementBlock_items (name : String) :
    (elementBlock name).items = [.one openAngle] ++ (openTag name ++ ([letter '>'] ++
      ([.lazy fun _ => true] ++ ([letter '<'] ++ (closeTag name ++ [letter '>']))))) := by
  have marks : literal "</" = [letter '<'] ++ literal "/" := rfl
  have mark : literal ">" = [letter '>'] := rfl
  simp only [Pattern.items, elementBlock, openTag, closeTag, marks, mark, List.append_assoc,
    List.cons_append, List.nil_append]

theorem matches_symbols {symbols : List Char} (folded : symbols.map asciiLower = symbols)
    (noLetter : (symbols.any fun c => 'a' ≤ c ∧ c ≤ 'z') = false) :
    Matches words.isWord (symbols.map letter) prev piece after ↔ piece = symbols := by
  induction symbols generalizing prev piece with
  | nil => exact Iff.rfl
  | cons c rest inductionHypothesis =>
      rw [List.map_cons, List.cons.injEq] at folded
      rw [List.any_cons, Bool.or_eq_false_iff, decide_eq_false_iff_not] at noLetter
      rw [List.map_cons, matches_cons]
      simp only [matches_symbol folded.1 noLetter.1, inductionHypothesis folded.2 noLetter.2]
      constructor
      · rintro ⟨_, _, rfl, rfl, rfl⟩
        rfl
      · rintro rfl
        exact ⟨[c], rest, rfl, rfl, rfl⟩

/-- A block is a tag, anything and the tag that ends it. -/
theorem matches_elementBlock {name : String} :
    Matches words.isWord (elementBlock name).items prev piece after ↔
      ∃ first inner last, piece = '<' :: (first ++ '>' :: (inner ++ '<' :: (last ++ ['>']))) ∧
        (elementRoles words name).opens first ∧ (elementRoles words name).closes last := by
  have isOpen : ∀ {prev piece after}, Matches words.isWord [letter '<'] prev piece after ↔
      piece = ['<'] := matches_symbol rfl (by decide)
  have isClose : ∀ {prev piece after}, Matches words.isWord [letter '>'] prev piece after ↔
      piece = ['>'] := matches_symbol rfl (by decide)
  have isAny : ∀ {prev piece after},
      Matches words.isWord [.lazy fun _ => true] prev piece after := by
    intro prev piece after
    exact ⟨piece, [], by simp, fun _ _ => rfl, rfl⟩
  rw [elementBlock_items]
  simp only [matches_append, matches_openAngle, isOpen, isClose]
  constructor
  · rintro ⟨_, _, rfl, rfl, first, _, rfl, isFirst, _, _, rfl, rfl, inner, _, rfl, _, _, _, rfl,
      rfl, last, _, rfl, isLast, rfl⟩
    simp only [lastOr_cons, lastOr_nil] at isFirst isLast
    exact ⟨first, inner, last, by simp, matches_head (by rfl) isFirst, matches_head (by rfl) isLast⟩
  · rintro ⟨first, inner, last, rfl, isFirst, isLast⟩
    refine ⟨['<'], _, rfl, rfl, first, '>' :: (inner ++ '<' :: (last ++ ['>'])), rfl, ?_,
      ['>'], _, rfl, rfl, inner, _, rfl, isAny, ['<'], _, rfl, rfl, last, ['>'], rfl, ?_, rfl⟩
    · rw [lastOr_cons, lastOr_nil]
      exact matches_head (by rfl) isFirst
    · rw [lastOr_cons, lastOr_nil]
      exact matches_head (by rfl) isLast

theorem reads_elementBlock (words : WordTable) {name : String}
    (plain : ∀ item ∈ literal name, item.rejects '>' = true) :
    Reads words (elementBlock name) (elementRoles words name) where
  opens c isFirst := beq_iff_eq.mp isFirst
  spans := by
    intro nodes piece after split isMatch
    obtain ⟨first, inner, last, rfl, isFirst, isLast⟩ := matches_elementBlock.mp isMatch
    have firstClosed : '>' ∉ first := by
      refine notMem_of_rejects words.isWord (fun item member => ?_) isFirst
      rcases List.mem_append.mp member with inName | behind
      · exact plain item inName
      · exact (by decide : ∀ item ∈ [Item.boundary, insideTag], item.rejects '>' = true) item behind
    have lastClosed : '>' ∉ last := by
      refine notMem_of_rejects words.isWord (fun item member => ?_) isLast
      rcases List.mem_append.mp member with start | behind
      · rcases List.mem_append.mp start with slash | inName
        · exact (by decide : ∀ item ∈ literal "/", item.rejects '>' = true) item slash
        · exact plain item inName
      · exact (by decide : ∀ item ∈ [spaces], item.rejects '>' = true) item behind
    obtain ⟨body, plainBody, rest, rfl, same⟩ := source_head split
    simp only [List.cons_append, List.append_assoc, List.nil_append] at same
    obtain ⟨rfl, behind⟩ := append_mark_inj firstClosed plainBody.2 same
    obtain ⟨between, other, otherPlain, remaining, rfl, rfl, ending⟩ :=
      source_split_open behind.symm
    obtain ⟨rfl, rfl⟩ := append_mark_inj lastClosed otherPlain.2 ending
    exact ⟨.tag first plainBody :: (between ++ [.tag last otherPlain]), remaining, by simp, by simp,
      .block isFirst isLast⟩
  complete := by
    intro taken rest spans
    cases spans with
    | whole isWhole => exact isWhole.elim
    | @block first last plain otherPlain inner opens closes =>
        rw [matches_elementBlock]
        exact ⟨first, source inner, last, by simp, opens, closes⟩

/-- The tags around a comment. -/
def commentRoles : Roles where
  opens body := ∃ rest, body = "!--".toList ++ rest
  closes body := ∃ front, body = front ++ "--".toList
  whole body := ∃ inner, body = "!--".toList ++ inner ++ "--".toList

theorem matches_comment :
    Matches words.isWord comment.items prev piece after ↔
      ∃ inner, piece = '<' :: ("!--".toList ++ (inner ++ ("--".toList ++ ['>']))) := by
  have starts : ∀ {prev piece after}, Matches words.isWord (literal "!--") prev piece after ↔
      piece = "!--".toList := by
    intro prev piece after
    rw [literal]
    exact matches_symbols (by decide) (by decide)
  have ends : ∀ {prev piece after}, Matches words.isWord (literal "-->") prev piece after ↔
      piece = "--".toList ++ ['>'] := by
    intro prev piece after
    have letters : literal "-->" = ("--".toList ++ ['>']).map letter := rfl
    rw [letters]
    exact matches_symbols (by decide) (by decide)
  have isAny : ∀ {prev piece after},
      Matches words.isWord [.lazy fun _ => true] prev piece after := by
    intro prev piece after
    exact ⟨piece, [], by simp, fun _ _ => rfl, rfl⟩
  have items : comment.items = [.one openAngle] ++ (literal "!--" ++
    ([.lazy fun _ => true] ++ literal "-->")) := by simp [Pattern.items, comment]
  rw [items]
  simp only [matches_append, matches_openAngle, starts, ends]
  constructor
  · rintro ⟨_, _, rfl, rfl, _, _, rfl, rfl, inner, _, rfl, _, rfl⟩
    exact ⟨inner, rfl⟩
  · rintro ⟨inner, rfl⟩
    exact ⟨['<'], _, rfl, rfl, _, _, rfl, rfl, inner, _, rfl, isAny, rfl⟩

/-- Two dashes right before a closing bracket belong to its tag. -/
theorem ends_in_tag {front before body : List Char}
    (split : front ++ "--".toList = before ++ '<' :: body) :
    ∃ inner, body = inner ++ "--".toList := by
  have reversed : "--".toList ++ front.reverse = body.reverse ++ '<' :: before.reverse := by
    have same := congrArg List.reverse split
    simpa using same
  obtain ⟨gap, isBody, _⟩ := append_mark_split (by decide) reversed
  refine ⟨gap.reverse, ?_⟩
  rw [← List.reverse_reverse body, isBody]
  simp

theorem reads_comment (words : WordTable) : Reads words comment commentRoles where
  opens c isFirst := beq_iff_eq.mp isFirst
  spans := by
    intro nodes piece after split isMatch
    obtain ⟨inner, rfl⟩ := matches_comment.mp isMatch
    obtain ⟨body, plain, rest, rfl, same⟩ := source_head split
    by_cases closes : '>' ∈ inner
    · obtain ⟨first, last, rfl, firstClosed⟩ := List.eq_append_cons_of_mem closes
      have free : '>' ∉ "!--".toList ++ first := by
        rw [List.mem_append, not_or]
        exact ⟨by decide, firstClosed⟩
      have first_same : ("!--".toList ++ first) ++ '>' :: (last ++ "--".toList ++ '>' :: after) =
          body ++ '>' :: source rest := by
        rw [← same]
        simp
      obtain ⟨rfl, behind⟩ := append_mark_inj free plain.2 first_same
      obtain ⟨between, other, otherPlain, remaining, rfl, last_same, rfl⟩ :=
        source_split_close behind.symm
      have opens : commentRoles.opens ("!--".toList ++ first) := ⟨first, rfl⟩
      have ends : commentRoles.closes other := ends_in_tag last_same
      refine ⟨.tag _ plain :: (between ++ [.tag other otherPlain]), remaining, by simp, ?_,
        .block opens ends⟩
      have tail : last ++ ("--".toList ++ ['>']) = source between ++ '<' :: (other ++ ['>']) := by
        rw [← List.append_assoc, last_same]
        simp
      simp only [source_tag, source_append, source_nil, List.append_assoc, List.cons_append, tail]
    · have free : '>' ∉ "!--".toList ++ inner ++ "--".toList := by
        simp only [List.mem_append, not_or]
        exact ⟨⟨by decide, closes⟩, by decide⟩
      have whole_same : ("!--".toList ++ inner ++ "--".toList) ++ '>' :: after =
          body ++ '>' :: source rest := by
        rw [← same]
        simp
      obtain ⟨rfl, rfl⟩ := append_mark_inj free plain.2 whole_same
      have isWhole : commentRoles.whole ("!--".toList ++ inner ++ "--".toList) := ⟨inner, rfl⟩
      exact ⟨[.tag _ plain], rest, rfl, by simp, .whole isWhole⟩
  complete := by
    intro taken rest spans
    rw [matches_comment]
    cases spans with
    | whole isWhole =>
        obtain ⟨inner, rfl⟩ := isWhole
        exact ⟨inner, by simp⟩
    | @block _ _ _ _ inner opens closes =>
        obtain ⟨start, rfl⟩ := opens
        obtain ⟨last, rfl⟩ := closes
        exact ⟨start ++ '>' :: (source inner ++ '<' :: last), by simp⟩

end Elements

section Images

variable {words : WordTable} {earlier later : String}

/-- A tiny image is a match on its own. -/
def imageRoles (words : WordTable) (earlier later : String) : Roles where
  opens _ := False
  closes _ := False
  whole := TinyImage words earlier later

theorem reads_tinyImage (words : WordTable) (isEarlier : SizeName earlier)
    (isLater : SizeName later) :
    Reads words (tinyImage earlier later) (imageRoles words earlier later) where
  opens c isFirst := beq_iff_eq.mp isFirst
  spans := by
    intro nodes piece after split isMatch
    obtain ⟨inner, rfl, closed, opened⟩ := tinyImage_opens isEarlier isLater isMatch
    obtain ⟨body, plain, rest, rfl, same⟩ := source_head split
    simp only [List.append_assoc, List.singleton_append] at same
    obtain ⟨rfl, rfl⟩ := append_mark_inj closed plain.2 same
    exact ⟨[.tag inner plain], rest, rfl, by simp,
      .whole (tinyImage_of_matches isEarlier isLater opened)⟩
  complete := by
    intro taken rest spans
    cases spans with
    | @whole body plain isWhole =>
        have opened : Matches words.isWord (openImage earlier later) (some '<') body
            (['>'] ++ source rest) := matches_of_tinyImage isEarlier isLater plain.2 isWhole
        rw [tinyImage_items, matches_append]
        exact ⟨'<' :: body, ['>'], by simp, ⟨'<', body, rfl, rfl, opened⟩,
          (matches_symbol rfl (by decide)).mpr rfl⟩
    | block opens closes => exact opens.elim

end Images

section Passes

variable {words : WordTable}

/-- The patterns that take whole nodes, with their roles. -/
def nodeParts (words : WordTable) : List (Pattern × Roles) :=
  [(scriptBlock, elementRoles words "script"), (styleBlock, elementRoles words "style"),
    (headBlock, elementRoles words "head"), (comment, commentRoles),
    (tinyImgWh, imageRoles words "width" "height"), (tinyImgHw, imageRoles words "height" "width")]

theorem nodeParts_patterns (words : WordTable) :
    (nodeParts words).map Prod.fst = blockPatterns ++ tinyPatterns := rfl

theorem nodeParts_read (words : WordTable) :
    ∀ part ∈ nodeParts words, Reads words part.1 part.2 := by
  intro part member
  simp only [nodeParts, List.mem_cons, List.not_mem_nil, or_false] at member
  rcases member with rfl | rfl | rfl | rfl | rfl | rfl
  · exact reads_elementBlock words (by decide)
  · exact reads_elementBlock words (by decide)
  · exact reads_elementBlock words (by decide)
  · exact reads_comment words
  · exact reads_tinyImage words (.inl rfl) (.inr rfl)
  · exact reads_tinyImage words (.inr rfl) (.inl rfl)

/-- Searches one after the other leave nodes that make none of their matches: what a later one
takes away adds no tag. -/
theorem removeEach_source {parts : List (Pattern × Roles)}
    (reads : ∀ part ∈ parts, Reads words part.1 part.2) (nodes : List Node) :
    ∃ left, removeEach id words (parts.map Prod.fst) (source nodes) = source left ∧
      Thinned nodes left ∧ ∀ part ∈ parts, part.2.Free left := by
  induction parts generalizing nodes with
  | nil => exact ⟨nodes, rfl, .refl nodes, nofun⟩
  | cons part parts inductionHypothesis =>
      rw [List.forall_mem_cons] at reads
      obtain ⟨between, removed, thinned, free⟩ := reads.1.removeAll_source nodes
      obtain ⟨left, removedLater, thinnedLater, freeLater⟩ :=
        inductionHypothesis reads.2 between
      refine ⟨left, ?_, thinned.trans thinnedLater,
        List.forall_mem_cons.mpr ⟨free.sublist thinnedLater.sublist, freeLater⟩⟩
      rw [← removedLater, ← removed]
      rfl

end Passes

end Scryd.Mime
