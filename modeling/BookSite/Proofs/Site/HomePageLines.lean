import BookSite.Proofs.Text.Lines
import BookSite.Site.HomePage
import BookSite.Site.Template

/-!
# Proofs/Site/HomePageLines — the values of the home page and its lines

      name: "{{ title }}"    ──the title a"b──▸      name: "a\"b"

The home page is its template with the values filled in.  Three of the values are written between
double quotes, where no value can end the quotes or the line; the two links are written as they are.
So the lines of the page are those of the template exactly when neither link holds a line feed
(`HomePage.segments_render_eq_iff`).
-/

namespace BookSite.Site

open Text

/-! ## Templates -/

/-- A line of a template. -/
inductive TemplateLine where
  | plain (text : Text)
  /-- the value of a name stands in the line -/
  | slot (before name behind : Text)
  /-- the lines that follow are shown if the name has a value that is not empty -/
  | shownIf (name : Text)
  | shownEnd
  deriving DecidableEq, Repr

namespace TemplateLine

/-- Read a line of a template. -/
def read (line : Text) : TemplateLine :=
  if line = "\x7b%- endif %\x7d".toList then shownEnd
  else match (line.behind? "\x7b%- if ".toList).bind (·.dropTrailing? " %\x7d".toList) with
    | some name => shownIf name
    | none =>
      match line.splitAround? "\x7b\x7b ".toList with
      | none => plain line
      | some (before, rest) =>
        match rest.splitAround? " \x7d\x7d".toList with
        | none => plain line
        | some (name, behind) => slot before name behind

/-- **The lines of a template with the values filled in.** -/
def fill (value : Text → Text) : Bool → List TemplateLine → List Text
  | _, [] => []
  | _, shownEnd :: rest => fill value true rest
  | _, shownIf name :: rest => fill value (!(value name).isEmpty) rest
  | shown, plain text :: rest => (if shown then [text] else []) ++ fill value shown rest
  | shown, slot before name behind :: rest =>
    (if shown then [before ++ value name ++ behind] else []) ++ fill value shown rest

end TemplateLine

/-! ## Values in double quotes -/

/-- **A value behind its opening quote**, and what follows the closing one.  A backslash stands
before a backslash or a quote that belongs to the value. -/
def readQuoted? : Text → Option (Text × Text)
  | [] => none
  | '"' :: rest => some ([], rest)
  | '\\' :: '\\' :: rest => (readQuoted? rest).map fun (value, behind) => ('\\' :: value, behind)
  | '\\' :: '"' :: rest => (readQuoted? rest).map fun (value, behind) => ('"' :: value, behind)
  | '\\' :: _ => none
  | c :: rest => (readQuoted? rest).map fun (value, behind) => (c :: value, behind)

/-- A character of a value that is written on one line. -/
def foldNewline (c : Char) : Char := if c = '\n' then ' ' else c

namespace HomePage

theorem newline_not_mem_escapeChar (c : Char) : '\n' ∉ escapeChar c := by
  unfold escapeChar
  split
  · decide
  · decide
  · decide
  · rename_i hne
    exact fun hmem => hne (List.mem_singleton.mp hmem).symm

theorem readQuoted?_escapeChar (c : Char) (rest : Text) :
    readQuoted? (escapeChar c ++ rest) =
      (readQuoted? rest).map fun (value, behind) => (foldNewline c :: value, behind) := by
  unfold escapeChar foldNewline
  split
  · rfl
  · rfl
  · rfl
  · rename_i hbackslash hquote hnewline
    rw [if_neg hnewline, List.singleton_append, readQuoted?]
    · exact hquote
    · rintro _ rfl _
      exact hbackslash rfl
    · rintro _ rfl _
      exact hbackslash rfl
    · exact hbackslash

/-- **A value is read back from between its quotes**, with its line feeds turned into spaces. -/
theorem readQuoted?_escape (value behind : Text) :
    readQuoted? (value.flatMap escapeChar ++ '"' :: behind) =
      some (value.map foldNewline, behind) := by
  induction value with
  | nil => rfl
  | cons c value ih =>
    rw [List.flatMap_cons, List.append_assoc, readQuoted?_escapeChar, ih]
    rfl

/-! ## The lines of the page -/

/-- What the names of the template stand for. -/
def written (page : HomePage) (name : Text) : Text :=
  if name = "title".toList then page.title.flatMap escapeChar
  else if name = "description".toList then page.description.flatMap escapeChar
  else if name = "tagline".toList then page.tagline.flatMap escapeChar
  else if name = "first_chapter".toList then page.firstChapter
  else if name = "repository".toList then page.repository.getD []
  else []

/-- **The lines of the template**, with the values of a page. -/
def filledLines (page : HomePage) : List Text :=
  TemplateLine.fill page.written true (homePageLines.map fun line => TemplateLine.read line.toList)

/-- The address of the repository; it is empty if there is none. -/
def repositoryUrl (page : HomePage) : Text := page.repository.getD []

/-- The lines of the button that leads to the repository. -/
def repositoryLines (page : HomePage) : List Text :=
  [ "    - theme: alt".toList, "      text: View on GitHub".toList,
    "      link: ".toList ++ page.repositoryUrl ]

/-- A line with a value in double quotes. -/
def quotedLine (name : String) (value : Text) : Text :=
  ("  " ++ name ++ ": \"").toList ++ (value.flatMap escapeChar ++ ['"'])

/-- The lines behind the first one, down to the link of the first chapter. -/
def upperLines (page : HomePage) : List Text :=
  [ "layout: home".toList, [], "hero:".toList, quotedLine "name" page.title,
    quotedLine "text" page.description, quotedLine "tagline" page.tagline, "  actions:".toList,
    "    - theme: brand".toList, "      text: Start reading".toList,
    "      link: ".toList ++ page.firstChapter ]

/-- The lines of the features, down to the last one of the page. -/
def featureLines : List Text :=
  [ [], "features:".toList, "  - title: Easy to navigate".toList,
    "    details: The chapter structure of the book becomes the sidebar.".toList,
    "  - title: Full-text search".toList,
    "    details: Search, code highlighting and dark mode come with VitePress.".toList,
    "  - title: Fast".toList, "    details: Pages are pre-rendered and load instantly.".toList ]

/-- The line that the front matter is enclosed by. -/
def dashes : Text := "---".toList

/-- The lines between the first and the last one. -/
def innerLines (page : HomePage) : List Text :=
  page.upperLines ++ (if page.repositoryUrl = [] then [] else page.repositoryLines) ++ featureLines

theorem filledLines_eq (page : HomePage) :
    page.filledLines = dashes :: page.innerLines ++ [dashes] := by
  have hlines : homePageLines.map (fun line => TemplateLine.read line.toList) =
      [ .plain dashes, .plain "layout: home".toList, .plain [], .plain "hero:".toList,
        .slot "  name: \"".toList "title".toList ['"'],
        .slot "  text: \"".toList "description".toList ['"'],
        .slot "  tagline: \"".toList "tagline".toList ['"'],
        .plain "  actions:".toList, .plain "    - theme: brand".toList,
        .plain "      text: Start reading".toList,
        .slot "      link: ".toList "first_chapter".toList [],
        .shownIf "repository".toList, .plain "    - theme: alt".toList,
        .plain "      text: View on GitHub".toList,
        .slot "      link: ".toList "repository".toList [], .shownEnd ] ++
      (featureLines ++ [dashes]).map .plain := by
    unfold homePageLines featureLines dashes
    simp only [List.map_cons, List.map_nil]
    -- Literals become lists of characters first: decoding their bytes is slow in the kernel.
    repeat rw [String.toList_ofList]
    decide +kernel
  have hrepository : page.written "repository".toList = page.repositoryUrl := rfl
  rw [filledLines, hlines, innerLines]
  simp only [List.cons_append, List.nil_append, TemplateLine.fill, hrepository, List.append_nil,
    if_true]
  by_cases hurl : page.repositoryUrl = []
  · rw [if_pos hurl, hurl]
    rfl
  · have hshown : (!page.repositoryUrl.isEmpty) = true := by simpa using hurl
    rw [if_neg hurl, hshown]
    rfl

theorem quotedField_eq (name : String) (value : Text) :
    quotedField name value = quotedLine name value ++ ['\n'] := by
  simp [quotedField, quotedLine]

theorem repositoryButton_eq (page : HomePage) :
    repositoryButton page.repository =
      (if page.repositoryUrl = [] then [] else page.repositoryLines).flatMap (· ++ ['\n']) := by
  unfold repositoryLines repositoryUrl
  rcases page.repository with _ | _ | ⟨c, url⟩
  · rfl
  · rfl
  · rw [Option.getD_some, if_neg (List.cons_ne_nil c url)]
    simp only [List.flatMap_cons, List.append_assoc]
    repeat rw [String.toList_ofList]
    rfl

/-- **The page** is made of the lines of its template, each with a line feed behind it. -/
theorem render_eq (page : HomePage) : page.render = page.filledLines.flatMap (· ++ ['\n']) := by
  have htop : "---\nlayout: home\n\nhero:\n".toList =
      [dashes, "layout: home".toList, [], "hero:".toList].flatMap (· ++ ['\n']) := by
    unfold dashes
    repeat rw [String.toList_ofList]
    decide
  have hactions : "  actions:\n    - theme: brand\n      text: Start reading\n      link: ".toList =
      ["  actions:".toList, "    - theme: brand".toList,
        "      text: Start reading".toList].flatMap (· ++ ['\n']) ++ "      link: ".toList := by
    repeat rw [String.toList_ofList]
    decide
  have hfeatures : features = (featureLines ++ [dashes]).flatMap (· ++ ['\n']) := by
    unfold features featureLines dashes
    simp only [String.toList_append]
    repeat rw [String.toList_ofList]
    decide +kernel
  rw [filledLines_eq, innerLines]
  unfold render
  simp only [repositoryButton_eq, htop, hactions, hfeatures, upperLines, quotedField_eq,
    List.cons_append, List.nil_append, List.flatMap_cons, List.flatMap_nil, List.flatMap_append,
    List.append_assoc, List.append_nil]

/-! ## Line feeds -/

theorem newline_not_mem_quotedLine {name : String} (h : '\n' ∉ name.toList) (value : Text) :
    '\n' ∉ quotedLine name value := by
  simp [quotedLine, h, newline_not_mem_escapeChar]

theorem newline_not_mem_upperLines_iff (page : HomePage) :
    (∀ line ∈ page.upperLines, '\n' ∉ line) ↔ '\n' ∉ page.firstChapter := by
  have hquoted : ∀ name ∈ ["name", "text", "tagline"], ∀ value, '\n' ∉ quotedLine name value :=
    fun name hname => newline_not_mem_quotedLine (by revert name; decide)
  simp [upperLines, hquoted]

theorem newline_not_mem_repositoryLines_iff (page : HomePage) :
    (∀ line ∈ page.repositoryLines, '\n' ∉ line) ↔ '\n' ∉ page.repositoryUrl := by
  simp [repositoryLines]

theorem newline_not_mem_featureLines : ∀ line ∈ featureLines, '\n' ∉ line := by
  unfold featureLines
  repeat rw [String.toList_ofList]
  decide +kernel

/-- **Only the two links** can bring a line feed into a line. -/
theorem newline_not_mem_filledLines_iff (page : HomePage) :
    (∀ line ∈ page.filledLines, '\n' ∉ line) ↔
      '\n' ∉ page.firstChapter ∧ '\n' ∉ page.repositoryUrl := by
  have hdashes : '\n' ∉ dashes := by decide
  have hrepository : (∀ line ∈ if page.repositoryUrl = [] then [] else page.repositoryLines,
      '\n' ∉ line) ↔ '\n' ∉ page.repositoryUrl := by
    split
    · rename_i hurl
      simp [hurl]
    · exact newline_not_mem_repositoryLines_iff page
  rw [filledLines_eq, innerLines]
  simp only [List.cons_append, List.forall_mem_cons, List.forall_mem_append, List.mem_singleton,
    forall_eq, newline_not_mem_upperLines_iff, hrepository,
    iff_true_intro newline_not_mem_featureLines, iff_true_intro hdashes, true_and, and_true]

/-- **The page has the lines of its template** exactly when the links are written on one line. -/
theorem segments_render_eq_iff (page : HomePage) :
    page.render.segments = page.filledLines ++ [[]] ↔
      '\n' ∉ page.firstChapter ∧ '\n' ∉ page.repositoryUrl := by
  rw [← newline_not_mem_filledLines_iff, render_eq]
  refine ⟨fun h line hline => ?_, segments_flatMap_newline⟩
  refine newline_not_mem_of_mem_segments (t := page.filledLines.flatMap (· ++ ['\n'])) ?_
  rw [h]
  exact List.mem_append_left _ hline

/-! ## The ends of the front matter -/

/-- No line in between begins with a dash. -/
theorem head?_innerLines_ne (page : HomePage) :
    ∀ line ∈ page.innerLines, line.head? ≠ some '-' := by
  have hupper : ∀ line ∈ page.upperLines, line.head? ≠ some '-' := by
    simp [upperLines, quotedLine]
  have hrepository : ∀ line ∈ page.repositoryLines, line.head? ≠ some '-' := by
    simp [repositoryLines]
  have hfeatures : ∀ line ∈ featureLines, line.head? ≠ some '-' := by
    unfold featureLines
    repeat rw [String.toList_ofList]
    decide +kernel
  intro line hline
  rw [innerLines, List.mem_append, List.mem_append, List.mem_ite_nil_left] at hline
  obtain (hline | ⟨-, hline⟩) | hline := hline
  · exact hupper line hline
  · exact hrepository line hline
  · exact hfeatures line hline

theorem dashes_not_mem_innerLines (page : HomePage) : dashes ∉ page.innerLines :=
  fun hmem => page.head?_innerLines_ne dashes hmem rfl

/-- **The lines of the button** are there exactly when there is an address. -/
theorem isInfix_repositoryLines_iff (page : HomePage) :
    page.repositoryLines <:+: page.filledLines ++ [[]] ↔ page.repositoryUrl ≠ [] := by
  rw [filledLines_eq, innerLines]
  refine ⟨fun hinfix hurl => ?_, fun hurl => ?_⟩
  · have hbutton : "    - theme: alt".toList ∈ page.repositoryLines := List.mem_cons_self
    have hmem := hinfix.mem hbutton
    rw [if_pos hurl, List.append_nil] at hmem
    revert hmem
    unfold dashes upperLines quotedLine featureLines
    simp only [String.toList_append]
    repeat rw [String.toList_ofList]
    simp
  · rw [if_neg hurl]
    exact ⟨dashes :: page.upperLines, featureLines ++ [dashes, []], by simp⟩

end HomePage

end BookSite.Site
