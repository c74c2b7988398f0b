import BookSite.Proofs.Markdown.ProseScan
import BookSite.Proofs.Text.Words
import Mathlib.Data.List.Infix

/-!
# Proofs/Markdown/AttributeComments — which comments end where they should

The comments of an attribute group say it word for word, and suggest a tag with its attributes.  So
the end of a comment comes into them in two ways: an attribute holds it, or the last attribute that
is no class ends with two dashes, which the end of the tag completes.  In all other cases each of
the three lines is one comment (`comments_end_once_iff`).
-/

namespace BookSite

/-- **A line that is one comment**: it begins as a comment, and the end of a comment stands in it at
its end and nowhere else. -/
structure IsComment (line : Text) : Prop where
  isPrefix : "<!--".toList <+: line
  endsAtFirst : EndsAtFirst "-->".toList line

/-- No comment ends in a text without an angle. -/
theorem not_isInfix_of_angle_not_mem {t : Text} (h : '>' ∉ t) : ¬ "-->".toList <:+: t :=
  fun hmark => h (hmark.subset (by decide))

/-- The end of a comment stands at the end of a line and nowhere else when it does not stand in what
is left without its last character. -/
theorem endsAtFirst_iff {t : Text} : EndsAtFirst "-->".toList (t ++ "-->".toList) ↔
    ¬ "-->".toList <:+: t ++ "--".toList := by
  have hline : t ++ "-->".toList = t ++ "--".toList ++ ['>'] := by simp
  constructor
  · rintro h ⟨before, behind, heq⟩
    have hend := h.behind_eq_nil before (behind ++ ['>']) (by rw [hline, ← heq, List.append_assoc])
    simp at hend
  · refine fun h => ⟨List.suffix_append _ _, fun before behind heq => ?_⟩
    rcases List.eq_nil_or_concat behind with rfl | ⟨init, c, rfl⟩
    · rfl
    · rw [hline, List.concat_eq_append, ← List.append_assoc] at heq
      exact absurd ⟨before, init, (List.append_inj_left' heq rfl).symm⟩ h

/-- Between two characters that are none of its own, the end of a comment stands in the text. -/
theorem endsAtFirst_between_iff {front inner back : Text} {l r : Char} (hl : l ∉ "-->".toList)
    (hr : r ∉ "-->".toList) (hfront : ¬ "-->".toList <:+: front)
    (hback : ¬ "-->".toList <:+: back ++ "--".toList) :
    EndsAtFirst "-->".toList (front ++ l :: (inner ++ r :: back) ++ "-->".toList) ↔
      ¬ "-->".toList <:+: inner := by
  have hshort : front ++ l :: (inner ++ r :: back) ++ "--".toList =
      front ++ l :: (inner ++ r :: (back ++ "--".toList)) := by simp
  rw [endsAtFirst_iff, hshort, not_iff_not]
  constructor
  · intro hmark
    have hinner := (Text.isInfix_of_isInfix_append_cons hl hmark).resolve_left hfront
    exact (Text.isInfix_of_isInfix_append_cons hr hinner).resolve_right hback
  · exact fun hmark => hmark.trans ⟨front ++ [l], r :: (back ++ "--".toList), by simp⟩

namespace AttributeGroup

variable {inner : Text} {a : AttributeGroup}

/-! ## The attributes of a group -/

theorem others_eq (h : parse? inner = some a) : a.others = inner.words.filter (!isClass ·) := by
  rw [eq_of_parse? h]

theorem classes_eq (h : parse? inner = some a) :
    a.classes = (inner.words.filter isClass).map List.tail := by
  rw [eq_of_parse? h]

theorem isInfix_of_mem_others (h : parse? inner = some a) {w : Text} (hw : w ∈ a.others) :
    w <:+: inner := by
  rw [others_eq h] at hw
  exact Text.isInfix_of_mem_words (List.mem_filter.mp hw).1

/-- **A class is a name.** -/
theorem isNameChar_of_mem_classes (h : parse? inner = some a) {name : Text}
    (hname : name ∈ a.classes) : ∀ c ∈ name, isNameChar c = true := by
  rw [classes_eq h] at hname
  obtain ⟨w, hw, rfl⟩ := List.mem_map.mp hname
  have hclass := (List.mem_filter.mp hw).2
  cases w with
  | nil => cases hclass
  | cons c name =>
    simp only [isClass, isMarked, Bool.and_eq_true] at hclass
    exact List.all_eq_true.mp hclass.2

/-- The attribute that holds the classes, if there are any. -/
def classAttribute (a : AttributeGroup) : List Text :=
  if a.classes.isEmpty then []
  else ["class=\"".toList ++ Text.joinWith [' '] a.classes ++ ['"']]

theorem attributes_eq (a : AttributeGroup) :
    a.attributes = Text.joinWith [' '] (a.classAttribute ++ a.others) := rfl

/-- A character that no name holds does not stand in the classes, unless it comes with them. -/
theorem not_mem_classAttribute (h : parse? inner = some a) {x : Char} (hname : isNameChar x = false)
    (hx : x ∉ "class=\" ".toList) : ∀ p ∈ a.classAttribute, x ∉ p := by
  intro p hp hmem
  unfold classAttribute at hp
  split at hp
  · cases hp
  · rw [List.mem_singleton.mp hp, List.mem_append, List.mem_append] at hmem
    rcases hmem with (hmem | hmem) | hmem
    · exact hx (List.mem_append_left [' '] hmem)
    · rcases Text.mem_joinWith hmem with hmem | ⟨name, hn, hmem⟩
      · exact hx (List.mem_append_right "class=\"".toList hmem)
      · rw [isNameChar_of_mem_classes h hn x hmem] at hname
        cases hname
    · rw [List.mem_singleton.mp hmem] at hx
      exact hx (by decide)

/-- The end of a comment stands in the attributes when it stands in one that is no class. -/
theorem exists_isInfix_of_isInfix_attributes (h : parse? inner = some a)
    (hmark : "-->".toList <:+: a.attributes) : ∃ w ∈ a.others, "-->".toList <:+: w := by
  obtain ⟨p, hp, hmark⟩ :=
    Text.exists_isInfix_of_isInfix_joinWith (by decide) (by decide) (attributes_eq a ▸ hmark)
  rcases List.mem_append.mp hp with hp | hp
  · have hangle : '>' ∉ p := not_mem_classAttribute h (by decide) (by decide) p hp
    exact absurd (hmark.subset (by decide)) hangle
  · exact ⟨p, hp, hmark⟩

/-- The attributes end with two dashes when the last one that is no class does. -/
theorem isSuffix_attributes_iff (a : AttributeGroup) :
    "--".toList <:+ a.attributes ↔ ∃ w ∈ a.others.getLast?, "--".toList <:+ w := by
  rw [attributes_eq, Text.isSuffix_joinWith_iff (by decide) (by decide), List.getLast?_append]
  cases hlast : a.others.getLast? with
  | some w => simp
  | none =>
    have hquote : ∀ p ∈ a.classAttribute.getLast?, ¬ "--".toList <:+ p := by
      intro p hp hsuffix
      have hmem := List.mem_of_getLast? hp
      unfold classAttribute at hmem
      split at hmem
      · cases hmem
      · rw [List.mem_singleton.mp hmem] at hsuffix
        have hend : ['"'] <:+ "--".toList :=
          List.suffix_of_suffix_length_le (List.suffix_append _ _) hsuffix (by decide)
        exact absurd hend (by decide)
    simpa using hquote

/-! ## The comments -/

/-- **The echo of a group** is one comment when no end of a comment stands in the group. -/
theorem isComment_echo_iff (inner : Text) :
    IsComment ("<!-- mdBook attributes: ".toList ++ inBraces inner ++ " -->".toList) ↔
      ¬ "-->".toList <:+: inner := by
  have hstart : "<!--".toList <+:
      "<!-- mdBook attributes: ".toList ++ inBraces inner ++ " -->".toList := by
    rw [List.append_assoc]
    exact List.IsPrefix.trans (by decide) (List.prefix_append _ _)
  have hline : "<!-- mdBook attributes: ".toList ++ inBraces inner ++ " -->".toList =
      "<!-- mdBook attributes: ".toList ++ '{' :: (inner ++ '}' :: [' ']) ++ "-->".toList := by
    simp [inBraces]
  have hends := (iff_of_eq (congrArg (EndsAtFirst "-->".toList) hline)).trans
    (endsAtFirst_between_iff (by decide) (by decide) (not_isInfix_of_angle_not_mem (by decide))
      (not_isInfix_of_angle_not_mem (by decide)))
  exact ⟨fun h => hends.mp h.endsAtFirst, fun h => ⟨hstart, hends.mpr h⟩⟩

/-- **The suggestion of a tag** is one comment when no end of a comment stands in the attributes and
they do not end with two dashes, which the end of the tag completes. -/
theorem isComment_suggestion_iff (attributes : Text) :
    IsComment ("<!-- e.g. <div ".toList ++ attributes ++ ">content</div> -->".toList) ↔
      ¬ "-->".toList <:+: attributes ∧ ¬ "--".toList <:+ attributes := by
  have hstart : "<!--".toList <+:
      "<!-- e.g. <div ".toList ++ attributes ++ ">content</div> -->".toList := by
    rw [List.append_assoc]
    exact List.IsPrefix.trans (by decide) (List.prefix_append _ _)
  have hline : "<!-- e.g. <div ".toList ++ attributes ++ ">content</div> -->".toList =
      "<!-- e.g. <div".toList ++ ' ' :: (attributes ++ ['>'] ++ 'c' :: "ontent</div> ".toList) ++
        "-->".toList := by
    simp
  have hends := (iff_of_eq (congrArg (EndsAtFirst "-->".toList) hline)).trans
    (endsAtFirst_between_iff (by decide) (by decide) (not_isInfix_of_angle_not_mem (by decide))
      (by decide))
  have hangle : "-->".toList <:+: attributes ++ ['>'] ↔
      "--".toList <:+ attributes ∨ "-->".toList <:+: attributes := by
    have hend : "--".toList ++ ['>'] <:+ attributes ++ ['>'] ↔ "--".toList <:+ attributes :=
      (List.suffix_append_inj_of_length_eq rfl).trans (and_iff_left rfl)
    exact List.infix_concat_iff.trans (or_congr_left hend)
  rw [hangle, not_or, and_comm] at hends
  exact ⟨fun h => hends.mp h.endsAtFirst, fun h => ⟨hstart, hends.mpr h⟩⟩

/-- The note between the two is one comment whatever the group is. -/
theorem isComment_note : IsComment ("<!-- VitePress does not fully support this syntax, " ++
    "wrap the content in HTML instead -->").toList := by
  refine ⟨by decide, ?_⟩
  have hline : ("<!-- VitePress does not fully support this syntax, " ++
      "wrap the content in HTML instead -->").toList =
        ("<!-- VitePress does not fully support this syntax, " ++
          "wrap the content in HTML instead ").toList ++ "-->".toList := by simp
  rw [hline, endsAtFirst_iff]
  exact not_isInfix_of_angle_not_mem (by decide)

/-- **The comments of a group** are three lines that begin and end as comments.  Each of them is one
comment just when no end of a comment stands in the group, and the last of its attributes that is no
class does not end with two dashes. -/
theorem comments_end_once_iff (hnewline : '\n' ∉ inner) (h : parse? inner = some a) :
    (Text.unlines a.commentLines).segments.length = 3 ∧
      ((∀ line ∈ (Text.unlines a.commentLines).segments, IsComment line) ↔
        ¬ "-->".toList <:+: inner ∧ ∀ w ∈ a.others.getLast?, ¬ "--".toList <:+ w) := by
  have hlines : (Text.unlines a.commentLines).segments = a.commentLines :=
    Text.segments_unlines (List.cons_ne_nil _ _) (newline_not_mem_commentLines h hnewline)
  have hothers : ¬ "-->".toList <:+: inner → ¬ "-->".toList <:+: a.attributes := by
    intro hinner hmark
    obtain ⟨w, hw, hmark⟩ := exists_isInfix_of_isInfix_attributes h hmark
    exact hinner (hmark.trans (isInfix_of_mem_others h hw))
  rw [hlines]
  refine ⟨rfl, ?_⟩
  simp only [commentLines, List.forall_mem_cons, List.not_mem_nil, raw_of_parse? h,
    isComment_echo_iff, isComment_suggestion_iff, isSuffix_attributes_iff, not_exists, not_and]
  constructor
  · exact fun hall => ⟨hall.1, hall.2.2.1.2⟩
  · exact fun hall => ⟨hall.1, isComment_note, ⟨hothers hall.1, hall.2⟩, fun _ hmem => hmem.elim⟩

/-- Dashes in a class and at the front of a value do no harm. -/
theorem comments_end_once_dashedClass :
    ∃ a, parse? ".wide-- #intro title=--x".toList = some a ∧
      (Text.unlines a.commentLines).segments.length = 3 ∧
      ∀ line ∈ (Text.unlines a.commentLines).segments, IsComment line := by
  have hparse : (parse? ".wide-- #intro title=--x".toList).isSome := by decide +kernel
  obtain ⟨a, ha⟩ := Option.isSome_iff_exists.mp hparse
  obtain ⟨hlength, hcomments⟩ := comments_end_once_iff (by decide) ha
  refine ⟨a, ha, hlength,
    hcomments.mpr ⟨not_isInfix_of_angle_not_mem (by decide), ?_⟩⟩
  have hothers : a.others = ["#intro".toList, "title=--x".toList] := by
    rw [others_eq ha]
    decide +kernel
  rw [hothers]
  decide +kernel

/-- **A comment that ends early**: the dashes of an identifier and the end of the tag behind it. -/
theorem comment_ends_early_dashedIdentifier :
    ∃ a, '{' ∉ ".x #a--".toList ∧ '}' ∉ ".x #a--".toList ∧ '\n' ∉ ".x #a--".toList ∧
      parse? ".x #a--".toList = some a ∧
      "<!-- e.g. <div class=\"x\" #a-->content</div> -->".toList ∈
        (Text.unlines a.commentLines).segments ∧
      ¬ IsComment "<!-- e.g. <div class=\"x\" #a-->content</div> -->".toList := by
  refine ⟨⟨"\x7b.x #a--\x7d".toList, ["x".toList], ["#a--".toList]⟩, by decide, by decide,
    by decide, by decide +kernel, by decide +kernel, fun h => ?_⟩
  have hbehind := h.endsAtFirst.behind_eq_nil "<!-- e.g. <div class=\"x\" #a".toList
    "content</div> -->".toList (by decide +kernel)
  cases hbehind

end AttributeGroup

end BookSite
