import BookSite.Proofs.Markdown.LeftImages

/-!
# Proofs/Markdown/RelativeImages — relative paths of images

A relative path is rooted in both forms of an image, unless it begins like the address of another
site.  In a reference it is found again behind a slash.  The reference of a tag may be read
otherwise when its line is scanned for references, since its alternative text can hold anything;
but `](`, the rooted path and `)` stand in the line to the end (`RootsOne.isInfix`).  For the same
reason what else is in the line of a tag may be read otherwise when the tag has been replaced, while
a line into which no replaced tag reaches keeps all its references (`SparesLine`).
-/

namespace BookSite

namespace Image

/-! ## Written paths -/

/-- A path as a reference without title ends with it. -/
def linkTo (path : Text) : Text := ']' :: '(' :: (path ++ [')'])

/-- **A rooted path stays where it is** when another path is rooted. -/
theorem RootsOne.isInfix {path t u : Text} (hpath : ']' ∉ path) (h : RootsOne t u)
    (ht : linkTo ('/' :: path) <:+: t) : linkTo ('/' :: path) <:+: u := by
  have hmark : ']' ∉ '(' :: '/' :: (path ++ [')']) := by
    simp [hpath]
  have hbehind : ∀ {c : Char} {rest : Text}, c ≠ ']' →
      linkTo ('/' :: path) <:+: c :: rest → linkTo ('/' :: path) <:+: rest := fun hc hin =>
    (List.infix_cons_iff.mp hin).resolve_left fun hstart =>
      hc (List.cons_prefix_cons.mp hstart).1.symm
  cases h with
  | @slash front rest c hc hslash =>
    obtain hin | hstart | hin := Text.isInfix_append_cons_cases hmark ht
    · exact hin.trans (List.prefix_append _ _).isInfix
    · obtain ⟨-, hstart⟩ := List.cons_prefix_cons.mp hstart
      exact absurd (List.cons_prefix_cons.mp hstart).1.symm hslash
    · exact (hbehind (by decide) hin).trans ⟨front ++ [']', '(', '/'], [], by simp⟩
  | dot front rest =>
    obtain hin | hstart | hin := Text.isInfix_append_cons_cases hmark ht
    · exact hin.trans (List.prefix_append _ _).isInfix
    · obtain ⟨-, hstart⟩ := List.cons_prefix_cons.mp hstart
      exact absurd (List.cons_prefix_cons.mp hstart).1 (by decide)
    · have hrest := hbehind (by decide) (hbehind (by decide) (hbehind (by decide) hin))
      exact hrest.trans ⟨front ++ [']', '(', '/'], [], by simp⟩

/-- **The path of a tag's reference** is written behind `](`. -/
theorem isInfix_replaceTags {t attributes src : Text} (h : .tag attributes ∈ tagsIn t)
    (hsrc : tagSource? attributes = some src) :
    linkTo (rootPath src) <:+: replaceTags t := by
  obtain ⟨wording, hpiece⟩ := Text.mem_tokens_iff.mp h
  have hreference : tagReference? attributes = some (reference
      ((value? (fun _ => true) "alt".toList attributes).getD []) (rootPath src) []) := by
    rw [tagReference?, show value? _ _ attributes = some src from hsrc, Option.map_some]
  have hwritten : _ <:+: replaceTags t := Text.write_isInfix hpiece
  simp only [hreference, Option.getD_some] at hwritten
  refine List.IsInfix.trans ?_ hwritten
  generalize (value? (fun _ => true) "alt".toList attributes).getD [] = alt
  exact List.IsSuffix.isInfix ⟨"![".toList ++ alt, by simp [reference, linkTo]⟩

/-- The lines of a run are lines of prose. -/
theorem exists_line_of_mem_proseRuns {page t l : Text} (ht : t ∈ proseRuns page)
    (hl : l ∈ t.segments) : ∃ line ∈ classify page, line.kind = .text ∧ line.text = l := by
  obtain ⟨part, hpart, htext⟩ := List.mem_filterMap.mp ht
  cases part with
  | single line => cases htext
  | run first more =>
    cases htext
    rw [(arePageLines_of_run_mem hpart).segments_unlines] at hl
    obtain ⟨line, hline, rfl⟩ := List.mem_map.mp hl
    have hprose := forall_mem_of_run_mem_runs hpart line hline
    exact ⟨line, mem_of_mem_runs hpart line hline, beq_iff_eq.mp hprose, rfl⟩

/-- **What a run keeps**: a rooted path that stands in it once its tags are replaced. -/
theorem isInfix_rootRun {path t : Text} (hpath : ']' ∉ path)
    (h : linkTo ('/' :: path) <:+: replaceTags t) : linkTo ('/' :: path) <:+: rootRun t := by
  have hroots := RootsTo.unlines_map (replaceTags t).segments
  rw [Text.unlines_segments] at hroots
  exact hroots.keeps (fun _ _ hone => hone.isInfix hpath) h

/-! ## Lines without replaced tags -/

/-- **A line into which no replaced tag reaches**: it stands whole in a part of its run in which no
tag has a source. -/
structure SparesLine (t line : Text) : Prop where
  newline : '\n' ∉ line
  exists_part : ∃ before kept behind, Text.scan TagToken.find t = before ++ (kept ++ behind) ∧
    (∀ wording attributes, .token wording (.tag attributes) ∈ kept →
      tagSource? attributes = none) ∧
    ∃ above below, kept.flatMap Text.Piece.wording = above ++ (line ++ below) ∧
      (before = [] ∧ above = [] ∨ ∃ front, above = front ++ ['\n']) ∧
      (behind = [] ∧ below = [] ∨ ∃ back, below = '\n' :: back)

/-- Such a line is left when the tags of its run are replaced. -/
theorem SparesLine.mem_segments_replaceTags {t line : Text} (h : SparesLine t line) :
    line ∈ (replaceTags t).segments := by
  obtain ⟨before, kept, behind, hscan, hkept, above, below, hwording, habove, hbelow⟩ :=
    h.exists_part
  rw [replaceTags, Text.replaceTokens, hscan, List.flatMap_append, List.flatMap_append,
    Text.flatMap_replace_eq_flatMap_wording kept, hwording, List.append_assoc, List.append_assoc,
    ← List.append_assoc]
  · refine Text.mem_segments_append h.newline ?_ ?_
    · obtain ⟨rfl, rfl⟩ | ⟨front, rfl⟩ := habove
      · exact .inl rfl
      · exact .inr ⟨_, (List.append_assoc _ _ _).symm⟩
    · obtain ⟨rfl, rfl⟩ | ⟨back, rfl⟩ := hbelow
      · exact .inl rfl
      · exact .inr ⟨_, List.cons_append⟩
  · intro wording found hpiece
    cases found with
    | codeSpan => rfl
    | tag attributes =>
      simp only
      rw [tagReference?_eq_none_iff.mpr (hkept wording attributes hpiece), Option.getD_none]

/-- What stands in such a line is found by the stage. -/
theorem SparesLine.mem_shownTokens {page t line : Text} (h : SparesLine t line)
    (ht : t ∈ proseRuns page) {found : ReferenceToken} (hfound : found ∈ tokensIn line) :
    found ∈ shownTokens page := by
  rw [shownTokens_eq]
  exact List.mem_flatMap.mpr
    ⟨t, ht, List.mem_flatMap.mpr ⟨line, h.mem_segments_replaceTags, hfound⟩⟩

/-- Where no tag has a source the stage finds the images that stand on the page. -/
theorem shownTokens_eq_proseTokens {page : Text}
    (h : ∀ attributes, .tag attributes ∈ shownTags page → tagSource? attributes = none) :
    shownTokens page = proseTokens page := by
  rw [shownTokens_eq, proseTokens_eq]
  refine List.flatMap_congr fun t ht => ?_
  rw [replaceTags_eq_self fun attributes hmem => ?_]
  exact tagReference?_eq_none_iff.mpr (h attributes (List.mem_flatMap.mpr ⟨t, ht, hmem⟩))

/-! ## Relative paths -/

/-- Marks that a path cannot hold if it is to stand in both forms of an image. -/
def pathMarks : List Char := ['"', '\'', '[', ']', '<', '>', '(', ')', backtick]

/-- **A relative path**: it is neither rooted nor an anchor, it has no scheme and is no data. -/
structure IsRelativePath (src : Text) : Prop where
  ne_nil : src ≠ []
  not_rooted : src.startsWith ['/'] = false
  not_anchor : src.startsWith ['#'] = false
  no_scheme : src.hasPart "://".toList = false
  no_data : src.startsWith "data:".toList = false
  plain : ∀ c ∈ src, isBlank c = false ∧ c ∉ pathMarks

instance (src : Text) : Decidable (IsRelativePath src) :=
  have := List.decidableBAll (fun c => isBlank c = false ∧ c ∉ pathMarks) src
  decidable_of_iff (src ≠ [] ∧ src.startsWith ['/'] = false ∧ src.startsWith ['#'] = false ∧
      src.hasPart "://".toList = false ∧ src.startsWith "data:".toList = false ∧
      ∀ c ∈ src, isBlank c = false ∧ c ∉ pathMarks)
    ⟨fun h => ⟨h.1, h.2.1, h.2.2.1, h.2.2.2.1, h.2.2.2.2.1, h.2.2.2.2.2⟩,
      fun h => ⟨h.ne_nil, h.not_rooted, h.not_anchor, h.no_scheme, h.no_data, h.plain⟩⟩

/-- The path below the root of the site. -/
def belowRoot (src : Text) : Text := '/' :: src.dropLeading ['.', '/']

namespace IsRelativePath

variable {src : Text} (h : IsRelativePath src)

include h

/-- **A relative path is rooted** unless it begins with `http`. -/
theorem rootPath_eq : rootPath src =
    if src.startsWith "http".toList = true then src else belowRoot src := by
  unfold rootPath isExternal
  rw [h.not_rooted, h.no_scheme, h.no_data, Bool.false_or, Bool.or_false, Bool.or_false]
  rfl

theorem rootPath_eq_belowRoot (hhttp : src.startsWith "http".toList = false) :
    rootPath src = belowRoot src := by
  rw [h.rootPath_eq, if_neg (ne_true_of_eq_false hhttp)]

/-- An image that is found is written with its path in the rooted form. -/
theorem mem_proseTokens {page alt title : Text} (himage : .image alt src title ∈ shownTokens page) :
    .image alt (rootPath src) title ∈ proseTokens (rootImages page) := by
  rw [proseTokens_rootImages]
  refine List.mem_map.mpr ⟨_, himage, ?_⟩
  rw [ReferenceToken.rooted, if_neg (ne_true_of_eq_false h.not_anchor)]

/-- No character of the path ends its line or its reference. -/
theorem not_mem_belowRoot : '\n' ∉ belowRoot src ∧ ']' ∉ belowRoot src := by
  have hsrc : '\n' ∉ src ∧ ']' ∉ src :=
    ⟨fun hmem => absurd (h.plain _ hmem).1 (by decide), fun hmem => (h.plain _ hmem).2 (by decide)⟩
  have hrest := Text.dropLeading_subset src ['.', '/']
  unfold belowRoot
  simp only [List.mem_cons, not_or]
  exact ⟨⟨by decide, fun hmem => hsrc.1 (hrest hmem)⟩, by decide, fun hmem => hsrc.2 (hrest hmem)⟩

/-- A tag that is found leaves its path in the rooted form, in a line of prose. -/
theorem exists_line_of_mem_shownTags (hhttp : src.startsWith "http".toList = false)
    {page attributes : Text} (htag : .tag attributes ∈ shownTags page)
    (hsrc : tagSource? attributes = some src) :
    ∃ line ∈ classify (rootImages page), line.kind = .text ∧
      linkTo (belowRoot src) <:+: line.text := by
  obtain ⟨t, ht, htag⟩ := List.mem_flatMap.mp htag
  obtain ⟨hnewline, hbracket⟩ := h.not_mem_belowRoot
  have hwritten := isInfix_replaceTags htag hsrc
  rw [h.rootPath_eq_belowRoot hhttp] at hwritten
  have hkept := isInfix_rootRun (List.not_mem_of_not_mem_cons hbracket) hwritten
  rw [← Text.unlines_segments (rootRun t)] at hkept
  have hmark : '\n' ∉ linkTo (belowRoot src) := by
    simp [linkTo, hnewline]
  obtain ⟨l, hl, hin⟩ :=
    Text.exists_isInfix_of_isInfix_unlines hmark (Text.segments_ne_nil (rootRun t)) hkept
  have hrun : rootRun t ∈ proseRuns (rootImages page) := by
    rw [proseRuns_rootImages]
    exact List.mem_map_of_mem ht
  obtain ⟨line, hline, hkind, rfl⟩ := exists_line_of_mem_proseRuns hrun hl
  exact ⟨line, hline, hkind, hin⟩

end IsRelativePath

/-- **Relative paths are rooted**, all but those that begin with `http`, which are taken for the
addresses of other sites.  An image is found again with the path below the root; of a tag the path
is left as a reference ends with it.  The images are those that are found when the tags have been
replaced.  All images of a line are among them when no replaced tag reaches into it, and they are
those of the page where no tag has a source. -/
theorem relative_images_are_rooted (fs : FileSystem) (path? : Option Path) (page : Text)
    {src : Text} (h : IsRelativePath src) :
    ∃ out, Stage.images.apply fs path? page = .ok out ∧
      (src.startsWith "http".toList = false →
        (∀ alt title, .image alt src title ∈ shownTokens page →
          .image alt (belowRoot src) title ∈ proseTokens out) ∧
        ∀ attributes, .tag attributes ∈ shownTags page → tagSource? attributes = some src →
          ∃ line ∈ classify out, line.kind = .text ∧
            linkTo (belowRoot src) <:+: line.text) ∧
      (src.startsWith "http".toList = true →
        ∀ alt title, .image alt src title ∈ shownTokens page →
          .image alt src title ∈ proseTokens out) ∧
      (∀ t ∈ proseRuns page, ∀ line, SparesLine t line →
        ∀ found ∈ tokensIn line, found ∈ shownTokens page) ∧
      ((∀ attributes, .tag attributes ∈ shownTags page → tagSource? attributes = none) →
        shownTokens page = proseTokens page) := by
  refine ⟨rootImages page, rfl, fun hhttp => ⟨fun alt title himage => ?_, fun attributes => ?_⟩,
    fun hhttp alt title himage => ?_, fun t ht line hline found hfound => ?_,
    shownTokens_eq_proseTokens⟩
  · rw [← h.rootPath_eq_belowRoot hhttp]
    exact h.mem_proseTokens himage
  · exact h.exists_line_of_mem_shownTags hhttp
  · have hwritten := h.mem_proseTokens himage
    rwa [h.rootPath_eq, if_pos hhttp] at hwritten
  · exact hline.mem_shownTokens ht hfound

/-- A path in both forms of an image, in the line below a tag with another one. -/
def runWithBothForms : Text :=
  ("\x60<img src='a'>\x60 <img alt='c](d' src = './fig.v2.png' />\n" ++
    "![a](./fig.v2.png \"A\") \x60![b](./fig.v2.png)\x60").toList

theorem relative_images_are_rooted_runWithBothForms :
    IsRelativePath "./fig.v2.png".toList ∧
      ∃ out, Stage.images.apply .empty none runWithBothForms = .ok out ∧
        .image ['a'] "/fig.v2.png".toList " \"A\"".toList ∈ proseTokens out ∧
        ∃ line ∈ classify out, line.kind = .text ∧ "](/fig.v2.png)".toList <:+: line.text := by
  have hpath : IsRelativePath "./fig.v2.png".toList := by decide
  have hrun : runWithBothForms ∈ proseRuns runWithBothForms := by decide +kernel
  have htag : .tag " alt='c](d' src = './fig.v2.png' ".toList ∈ shownTags runWithBothForms := by
    decide +kernel
  -- the part behind the tag, from the line feed on, holds no tag at all
  have hkept : ((Text.scan TagToken.find runWithBothForms).drop 3).all (fun
      | .token _ (.tag _) => false
      | _ => true) = true := by
    decide +kernel
  have hline : SparesLine runWithBothForms
      "![a](./fig.v2.png \"A\") \x60![b](./fig.v2.png)\x60".toList :=
    { newline := by decide
      exists_part := ⟨(Text.scan TagToken.find runWithBothForms).take 3,
        (Text.scan TagToken.find runWithBothForms).drop 3, [], by simp,
        fun _ _ hmem => absurd (List.all_eq_true.mp hkept _ hmem) Bool.false_ne_true,
        ['\n'], [], by decide +kernel, .inr ⟨[], rfl⟩, .inl ⟨rfl, rfl⟩⟩ }
  obtain ⟨out, hout, hrooted, -, hspared, -⟩ :=
    relative_images_are_rooted .empty none runWithBothForms hpath
  obtain ⟨himages, htags⟩ := hrooted (by decide)
  have himage := hspared _ hrun _ hline
    (.image ['a'] "./fig.v2.png".toList " \"A\"".toList) (by decide +kernel)
  exact ⟨hpath, out, hout, himages _ _ himage, htags _ htag (by decide +kernel)⟩

/-- **A relative path that begins with `http`** is taken for an address, and the image of the page
stays without a file. -/
theorem relative_image_not_rooted :
    IsRelativePath "http-diagram.png".toList ∧
      .image ['x'] "http-diagram.png".toList [] ∈ proseTokens "![x](http-diagram.png)".toList ∧
      Stage.images.apply .empty none "![x](http-diagram.png)".toList =
        .ok "![x](http-diagram.png)".toList := by
  decide +kernel

end Image

end BookSite
