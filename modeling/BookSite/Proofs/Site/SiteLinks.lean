import BookSite.Proofs.Text.Blanks
import BookSite.Proofs.Text.Scanning
import BookSite.Site.Link

/-!
# Proofs/Site/SiteLinks — links of the outline are rooted once

     ./guide/install.md#linux  ──base zh/──▸  /zh/guide/install#linux

What stands before the path of a link is taken off it and one slash is put there, so there is a
single slash at every joint: in front of the base path, and between the base path and the page.
What begins at the first `#` is not looked at.
-/

namespace BookSite.Site

open Text

/-! ## Pages and fragments -/

/-- The path of a page without the extension. -/
def dropExtension (path : Text) : Text := (path.dropTrailing? ".md".toList).getD path

theorem dropExtension_isPrefix (path : Text) : dropExtension path <+: path := by
  unfold dropExtension
  cases h : path.dropTrailing? ".md".toList with
  | none => exact List.prefix_refl path
  | some front => exact ⟨_, (eq_append_of_dropTrailing? h).symm⟩

/-- **The extension is taken off the page**, and the fragment behind the page stays. -/
theorem stripExtension_eq (link : Text) :
    stripExtension link =
      dropExtension (link.takeWhile (· != '#')) ++ link.dropWhile (· != '#') := by
  have happend : link.takeWhile (· != '#') ++ link.dropWhile (· != '#') = link :=
    List.takeWhile_append_dropWhile
  rw [stripExtension, splitOnce]
  cases hfragment : link.dropWhile (· != '#') with
  | nil =>
    rw [hfragment, List.append_nil] at happend
    rw [happend, List.append_nil]
    rfl
  | cons c fragment =>
    have hc : c = '#' := by
      have hhead := not_of_mem_head?_dropWhile (p := (· != '#')) (t := link) (by rw [hfragment]; rfl)
      simpa using hhead
    rw [hc]
    rfl

/-- The first character of a link is no slash without the extension either. -/
theorem head?_stripExtension_ne {link : Text} (h : link.head? ≠ some '/') :
    (stripExtension link).head? ≠ some '/' := by
  rw [stripExtension_eq]
  obtain ⟨extension, hpage⟩ := dropExtension_isPrefix (link.takeWhile (· != '#'))
  cases hfront : dropExtension (link.takeWhile (· != '#')) with
  | nil =>
    intro hslash
    have hhash := not_of_mem_head?_dropWhile hslash
    cases hhash
  | cons c rest =>
    have hlink : link = c :: (rest ++ extension ++ link.dropWhile (· != '#')) := by
      rw [← List.cons_append, ← List.cons_append, ← hfront, hpage, List.takeWhile_append_dropWhile]
    rw [hlink] at h
    exact h

/-! ## The slash in front -/

/-- A link without what stands in front of its path. -/
def unrooted (link : Text) : Text := (link.dropLeading ['.', '/']).dropWhile isSlash

theorem head?_unrooted_ne (link : Text) : (unrooted link).head? ≠ some '/' := by
  intro h
  have hslash := not_of_mem_head?_dropWhile h
  cases hslash

/-- Only dots and slashes are taken off. -/
theorem exists_lead (link : Text) : ∃ lead, link = lead ++ unrooted link ∧ '#' ∉ lead := by
  have hslashes : ∀ t : Text, '#' ∉ t.takeWhile isSlash := fun t hmem => by
    have := List.mem_takeWhile_imp hmem
    cases this
  have hsplit : ∀ t : Text, t.takeWhile isSlash ++ t.dropWhile isSlash = t := fun _ =>
    List.takeWhile_append_dropWhile
  rw [unrooted, dropLeading]
  cases h : link.behind? ['.', '/'] with
  | none => exact ⟨link.takeWhile isSlash, (hsplit link).symm, hslashes link⟩
  | some rest =>
    refine ⟨['.', '/'] ++ rest.takeWhile isSlash, ?_, ?_⟩
    · rw [List.append_assoc, Option.getD_some, hsplit, ← behind?_eq_some_iff.mp h]
    · simp [hslashes rest]

/-- **A link into the book** is rooted below the base path. -/
theorem siteLink_of_internal (base : Option Text) {link : Text}
    (h : ¬ "://".toList <:+: link.trim) :
    siteLink base link = normalBase base ++ '/' :: stripExtension (unrooted link.trim) :=
  if_neg fun hpart => h (hasPart_iff.mp hpart)

/-- Blanks around a link do not matter. -/
theorem siteLink_trim (base : Option Text) (link : Text) :
    siteLink base link.trim = siteLink base link := by
  rw [siteLink, trim_trim]
  rfl

/-- **The base path less its blanks and slashes**, with a slash in front unless nothing is left. -/
theorem normalBase_of_isCore {base : Option Text} {trimmed inner : Text}
    (htrimmed : IsCore isBlank trimmed (base.getD [])) (hinner : IsCore isSlash inner trimmed) :
    normalBase base = if inner = [] then [] else '/' :: inner := by
  have hslashes : trimSlashes (base.getD []).trim = inner := by
    rw [trim_eq_iff.mpr htrimmed]
    exact (isCore_iff.mp hinner).symm
  rw [normalBase, hslashes]
  cases inner <;> rfl

/-- The base path begins with one slash, and so does a link below it. -/
theorem exists_normalBase_append {base : Option Text} {trimmed inner : Text}
    (htrimmed : IsCore isBlank trimmed (base.getD [])) (hinner : IsCore isSlash inner trimmed)
    {page : Text} (hpage : page.head? ≠ some '/') :
    ∃ rest, normalBase base ++ '/' :: page = '/' :: rest ∧ rest.head? ≠ some '/' := by
  rw [normalBase_of_isCore htrimmed hinner]
  cases inner with
  | nil => exact ⟨page, rfl, hpage⟩
  | cons c inner =>
    refine ⟨c :: inner ++ '/' :: page, rfl, fun hslash => ?_⟩
    have hc := hinner.not_of_mem_head? c rfl
    obtain rfl : c = '/' := Option.some.inj hslash
    cases hc

/-- **Links are rooted once.**  A link to another site stays as it is without the blanks around it.
Any other one is rooted below the base path in the same way as without a base path; it begins with
one slash, and ends with what begins at the first `#`. -/
theorem site_links_are_rooted (base : Option Text) (link : Text) :
    ∃ named trimmed inner, IsCore isBlank named link ∧ IsCore isBlank trimmed (base.getD []) ∧
      IsCore isSlash inner trimmed ∧
      ("://".toList <:+: named → siteLink base link = named) ∧
      (¬ "://".toList <:+: named →
        siteLink base link = (if inner = [] then [] else '/' :: inner) ++ siteLink none link ∧
        (∃ rest, siteLink base link = '/' :: rest ∧ rest.head? ≠ some '/') ∧
        ∀ page fragment, '#' ∉ page → named = page ++ '#' :: fragment →
          '#' :: fragment <:+ siteLink base link) := by
  have htrimmed := isCore_trim (base.getD [])
  have hinner : IsCore isSlash (trimSlashes (base.getD []).trim) (base.getD []).trim :=
    isCore_dropWhileEnd isSlash _
  refine ⟨link.trim, _, _, isCore_trim link, htrimmed, hinner, fun hexternal => ?_,
    fun hinternal => ?_⟩
  · rw [siteLink, if_pos (hasPart_iff.mpr hexternal)]
  · have hlink := siteLink_of_internal base hinternal
    have hnone : siteLink none link = '/' :: stripExtension (unrooted link.trim) :=
      siteLink_of_internal none hinternal
    refine ⟨?_, ?_, fun page fragment hpage hnamed => ?_⟩
    · rw [hlink, normalBase_of_isCore htrimmed hinner, hnone]
    · rw [hlink]
      exact exists_normalBase_append htrimmed hinner
        (head?_stripExtension_ne (head?_unrooted_ne link.trim))
    · obtain ⟨lead, hlead, hhash⟩ := exists_lead link.trim
      have hfragment : (unrooted link.trim).dropWhile (· != '#') = '#' :: fragment := by
        have hall : link.trim.dropWhile (· != '#') = '#' :: fragment := by
          rw [hnamed, dropWhile_bne_append hpage]
        rwa [hlead, List.dropWhile_append_of_pos
          fun c hc => bne_iff_ne.mpr (ne_of_mem_of_not_mem hc hhash)] at hall
      rw [hlink, stripExtension_eq, hfragment]
      exact (List.suffix_append _ _).trans ((List.suffix_cons _ _).trans (List.suffix_append _ _))

/-- A link into the book and one to another site, with blanks around them. -/
theorem site_links_are_rooted_faq :
    siteLink (some " zh/ ".toList) " ./faq.md#install ".toList =
        "/zh".toList ++ siteLink none " ./faq.md#install ".toList ∧
      (∃ rest, siteLink (some " zh/ ".toList) " ./faq.md#install ".toList = '/' :: rest ∧
        rest.head? ≠ some '/') ∧
      "#install".toList <:+ siteLink (some " zh/ ".toList) " ./faq.md#install ".toList ∧
      siteLink (some " zh/ ".toList) " https://x.org ".toList = "https://x.org".toList := by
  obtain ⟨named, trimmed, inner, hnamed, htrimmed, hinner, -, hinternal⟩ :=
    site_links_are_rooted (some " zh/ ".toList) " ./faq.md#install ".toList
  obtain rfl : named = "./faq.md#install".toList := (isCore_iff.mp hnamed).trans (by decide)
  obtain rfl : trimmed = "zh/".toList := (isCore_iff.mp htrimmed).trans (by decide)
  obtain rfl : inner = "zh".toList := (isCore_iff.mp hinner).trans (by decide)
  obtain ⟨hbase, hslash, hfragment⟩ :=
    hinternal fun hpart => absurd (hasPart_iff.mpr hpart) (by decide)
  refine ⟨hbase, hslash, hfragment "./faq.md".toList "install".toList (by decide) rfl, ?_⟩
  obtain ⟨external, -, -, hexternal, -, -, hstays, -⟩ :=
    site_links_are_rooted (some " zh/ ".toList) " https://x.org ".toList
  obtain rfl : external = "https://x.org".toList := (isCore_iff.mp hexternal).trans (by decide)
  exact hstays (hasPart_iff.mp (by decide))

end BookSite.Site
