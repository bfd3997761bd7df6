import Scryd.Foundation.Replace
import Scryd.Mime.Email

/-!
# Inline images

Images that refer to a part of the mail become placeholders after the HTML has
become Markdown.
-/

namespace Scryd.Mime

open Scryd.Foundation

section Pattern

def exactly (text : List Char) : List Item := text.map fun c => .one fun d => d == c

/-- `[^)\s]` -/
def cidChar (c : Char) : Bool := c != ')' && !isWhitespace c

/-- `]` and what stands between it and the id. -/
def cidLead : List Char := [']', '(', 'c', 'i', 'd', ':']

/-- `MD_CID_IMG`: `!\[[^\]]*\]\(cid:([^)\s]+)\)` -/
def mdCidImg : Pattern where
  first c := c == '!'
  rest := exactly ['['] ++ [.greedy fun c => c != ']'] ++ exactly cidLead ++
    [.one cidChar] ++ [.greedy cidChar] ++ exactly [')']

/-- `strip_brackets` -/
def stripBrackets (text : List Char) : List Char :=
  trim (trimEndMatches '>' (trimStartMatches '<' (trim text)))

/-- The capture of a match: what stands between `](cid:` and the last character. -/
def capturedCid (piece : List Char) : List Char :=
  ((piece.dropWhile fun c => c != ']').drop cidLead.length).dropLast

/-- `build_cid_label_map`: later parts overwrite earlier ones. -/
def buildCidLabelMap (parts : List Part) : List (List Char × List Char) :=
  parts.foldl (fun map part =>
    match part.contentId with
    | none => map
    | some contentId =>
        let cid := stripBrackets contentId.toList
        let label := (part.attachmentName.map String.toList).getD cid
        (cid, label) :: map.filter fun entry => entry.1 != cid) []

/-- `cid_to_label.get(cid)`, or the id itself. -/
def labelOf (map : List (List Char × List Char)) (cid : List Char) : List Char :=
  ((map.find? fun entry => entry.1 == cid).map (·.2)).getD cid

/-- `[image: LABEL]` -/
def imageText (label : List Char) : List Char := "[image: ".toList ++ label ++ [']']

/-- The placeholder of a match. -/
def placeholder (map : List (List Char × List Char)) (piece : List Char) : List Char :=
  imageText (labelOf map (stripBrackets (capturedCid piece)))

/-- `substitute_inline_image_placeholders`.  The pattern has no word boundary. -/
def substituteInlineImagePlaceholders (md : String) (parts : List Part) : String :=
  String.ofList (replaceAll (fun _ => false) mdCidImg (placeholder (buildCidLabelMap parts))
    md.toList)

end Pattern

section Images

/-- `![alt](cid:CID)` -/
structure InlineImage where
  alt : List Char
  cid : List Char
  closed : ']' ∉ alt
  named : cid ≠ []
  plain : ∀ c ∈ cid, cidChar c = true

def InlineImage.source (image : InlineImage) : List Char :=
  '!' :: '[' :: (image.alt ++ (cidLead ++ (image.cid ++ [')'])))

variable {prev : Option Char} {isWord : Char → Bool} {piece after : List Char}

theorem matches_exactly (text : List Char) :
    Matches isWord (exactly text) prev piece after ↔ piece = text := by
  induction text generalizing prev piece with
  | nil => rfl
  | cons c text inductionHypothesis =>
      rw [exactly, List.map_cons, matches_cons]
      simp only [matches_one, beq_iff_eq]
      unfold exactly at inductionHypothesis
      constructor
      · rintro ⟨_, back, rfl, ⟨d, rfl, rfl⟩, later⟩
        rw [inductionHypothesis.mp later, List.singleton_append]
      · rintro rfl
        exact ⟨[c], text, rfl, ⟨c, rfl, rfl⟩, inductionHypothesis.mpr rfl⟩

/-- The pattern matches the sources of images. -/
theorem matches_mdCidImg :
    Matches isWord mdCidImg.items prev piece after ↔
      ∃ image : InlineImage, piece = image.source := by
  rw [Pattern.items, mdCidImg, matches_cons]
  simp only [matches_append, matches_exactly, matches_one, matches_greedy, beq_iff_eq, bne_iff_ne]
  constructor
  · rintro ⟨_, _, rfl, ⟨_, rfl, rfl⟩, _, _, rfl, ⟨_, cid, rfl, ⟨_, _, rfl,
      ⟨_, _, rfl, ⟨_, alt, rfl, rfl, notClosed⟩, rfl⟩, c, rfl, first⟩, others⟩, rfl⟩
    refine ⟨⟨alt, c :: cid, fun member => notClosed _ member rfl, List.cons_ne_nil c cid,
      List.forall_mem_cons.mpr ⟨first, others⟩⟩, ?_⟩
    simp [InlineImage.source, List.append_assoc]
  · rintro ⟨⟨alt, cid, closed, named, plain⟩, rfl⟩
    obtain ⟨c, others, rfl⟩ := List.exists_cons_of_ne_nil named
    obtain ⟨first, later⟩ := List.forall_mem_cons.mp plain
    refine ⟨['!'], _, rfl, ⟨'!', rfl, rfl⟩, '[' :: (alt ++ (cidLead ++ c :: others)), [')'], ?_,
      ⟨'[' :: (alt ++ (cidLead ++ [c])), others, ?_, ⟨'[' :: (alt ++ cidLead), [c], ?_,
        ⟨'[' :: alt, cidLead, rfl, ⟨['['], alt, rfl, rfl, ?_⟩, rfl⟩, c, rfl, first⟩, later⟩, rfl⟩
    · simp [List.append_assoc]
    · simp [List.append_assoc]
    · simp [List.append_assoc]
    · rintro d member rfl
      exact closed member

theorem InlineImage.cid_free (image : InlineImage) : ')' ∉ image.cid := by
  intro member
  have passes := image.plain ')' member
  cases passes

/-- Where an image begins it ends in one place. -/
theorem InlineImage.source_inj {image other : InlineImage} {after otherAfter : List Char}
    (same : image.source ++ after = other.source ++ otherAfter) :
    image.alt = other.alt ∧ image.cid = other.cid ∧ after = otherAfter := by
  simp only [InlineImage.source, cidLead, List.cons_append, List.append_assoc, List.nil_append,
    List.cons.injEq, true_and] at same
  obtain ⟨sameAlt, rest⟩ := append_mark_inj image.closed other.closed same
  simp only [List.cons.injEq, true_and] at rest
  obtain ⟨sameCid, sameAfter⟩ := append_mark_inj image.cid_free other.cid_free rest
  exact ⟨sameAlt, sameCid, sameAfter⟩

theorem mdCidImg_unambiguous : Unambiguous isWord mdCidImg := by
  intro prev piece after other otherAfter same isMatch otherMatch
  obtain ⟨image, rfl⟩ := matches_mdCidImg.mp isMatch
  obtain ⟨otherImage, rfl⟩ := matches_mdCidImg.mp otherMatch
  obtain ⟨sameAlt, sameCid, -⟩ := InlineImage.source_inj same
  rw [InlineImage.source, InlineImage.source, sameAlt, sameCid]

/-- The capture is the id. -/
theorem capturedCid_source (image : InlineImage) : capturedCid image.source = image.cid := by
  have lead : image.source.dropWhile (fun c => c != ']') =
      cidLead ++ (image.cid ++ [')']) := by
    have open_ : ∀ c ∈ '!' :: '[' :: image.alt, (c != ']') = true := by
      simp only [List.forall_mem_cons]
      exact ⟨rfl, rfl, fun c member => bne_iff_ne.mpr fun same => image.closed (same ▸ member)⟩
    have split : image.source =
        ('!' :: '[' :: image.alt) ++ (cidLead ++ (image.cid ++ [')'])) := by
      simp [InlineImage.source]
    rw [split, List.dropWhile_append_of_pos open_]
    rfl
  rw [capturedCid, lead, List.drop_left, List.dropLast_concat]

end Images

section Labels

/-- The id by which a part can be referred to. -/
def Part.cid? (part : Part) : Option (List Char) :=
  part.contentId.map fun contentId => stripBrackets contentId.toList

/-- The name of the last part with an id, or the id itself. -/
def labelled (parts : List Part) (cid : List Char) : List Char :=
  ((parts.filter fun part => part.cid? == some cid).getLast?.bind fun part =>
    part.attachmentName.map String.toList).getD cid

theorem labelOf_buildCidLabelMap (parts : List Part) (cid : List Char) :
    labelOf (buildCidLabelMap parts) cid = labelled parts cid := by
  induction parts using List.reverseRecOn with
  | nil => rfl
  | append_singleton parts part inductionHypothesis =>
      rw [buildCidLabelMap, List.foldl_concat, ← buildCidLabelMap, labelled, List.filter_append]
      cases referred : part.contentId with
      | none =>
          have unreferred : (part.cid? == some cid) = false := by simp [Part.cid?, referred]
          have notLast : ([part].filter fun part => part.cid? == some cid) = [] :=
            List.filter_cons_of_neg (by simp [unreferred])
          rw [notLast, List.append_nil]
          exact inductionHypothesis
      | some contentId =>
          by_cases here : stripBrackets contentId.toList = cid
          · have refers : (part.cid? == some cid) = true := by simp [Part.cid?, referred, here]
            have isLast : ([part].filter fun part => part.cid? == some cid) = [part] :=
              List.filter_cons_of_pos refers
            rw [isLast, List.getLast?_concat]
            simp only [labelOf, here, Option.bind_some]
            rw [List.find?_cons_of_pos (by simp)]
            cases part.attachmentName <;> rfl
          · have elsewhere : (part.cid? == some cid) = false := by
              simpa [Part.cid?, referred] using here
            have notLast : ([part].filter fun part => part.cid? == some cid) = [] :=
              List.filter_cons_of_neg (by simp [elsewhere])
            rw [notLast, List.append_nil]
            simp only [labelOf]
            rw [List.find?_cons_of_neg (by simpa using here), List.find?_filter]
            have same : (fun entry : List Char × List Char =>
                decide ((entry.1 != stripBrackets contentId.toList) = true ∧
                  (entry.1 == cid) = true)) = fun entry => entry.1 == cid := by
              funext entry
              by_cases isCid : entry.1 = cid
              · simp [isCid, Ne.symm here]
              · simp [isCid]
            rw [same]
            exact inductionHypothesis

end Labels

section Substitution

/-- What stands for an image. -/
def imagePlaceholder (parts : List Part) (image : InlineImage) : List Char :=
  imageText (labelled parts (stripBrackets image.cid))

/-- From the left: each image becomes its placeholder, everything else stays. -/
inductive Substituted (parts : List Part) : List Char → List Char → Prop where
  | done : Substituted parts [] []
  | keep {c : Char} {rest out : List Char}
      (noImage : ∀ (image : InlineImage) after, c :: rest ≠ image.source ++ after)
      (later : Substituted parts rest out) : Substituted parts (c :: rest) (c :: out)
  | image (image : InlineImage) {after out : List Char} (later : Substituted parts after out) :
      Substituted parts (image.source ++ after) (imagePlaceholder parts image ++ out)

variable {parts : List Part} {isWord : Char → Bool}

theorem placeholder_source (image : InlineImage) :
    placeholder (buildCidLabelMap parts) image.source = imagePlaceholder parts image := by
  rw [placeholder, capturedCid_source, labelOf_buildCidLabelMap, imagePlaceholder]

theorem replaced_iff_substituted (prev : Option Char) (text out : List Char) :
    Replaced isWord mdCidImg (placeholder (buildCidLabelMap parts)) prev text out ↔
      Substituted parts text out := by
  constructor
  · intro replaced
    induction replaced with
    | done => exact .done
    | keep unmatched later inductionHypothesis =>
        refine .keep ?_ inductionHypothesis
        exact fun image after split =>
          unmatched _ after split (matches_mdCidImg.mpr ⟨image, rfl⟩)
    | replace isMatch later inductionHypothesis =>
        obtain ⟨image, rfl⟩ := matches_mdCidImg.mp isMatch
        rw [placeholder_source]
        exact .image image inductionHypothesis
  · intro substituted
    induction substituted generalizing prev with
    | done => exact .done prev
    | keep noImage later inductionHypothesis =>
        refine .keep ?_ (inductionHypothesis _)
        intro piece after split isMatch
        obtain ⟨image, rfl⟩ := matches_mdCidImg.mp isMatch
        exact noImage image after split
    | image image later inductionHypothesis =>
        rw [← placeholder_source]
        exact .replace (matches_mdCidImg.mpr ⟨image, rfl⟩) (inductionHypothesis _)

/-- The substitution replaces exactly the images, found from the left, each by the name of the
last part that has its id, or by the id. -/
theorem substituteInlineImagePlaceholders_iff (md out : String) (parts : List Part) :
    substituteInlineImagePlaceholders md parts = out ↔
      Substituted parts md.toList out.toList := by
  rw [← @replaced_iff_substituted parts (fun _ => false) none md.toList out.toList,
    replaced_iff mdCidImg_unambiguous, substituteInlineImagePlaceholders]
  constructor
  · rintro rfl
    rw [String.toList_ofList]
  · intro same
    rw [same, String.ofList_toList]

end Substitution

end Scryd.Mime
