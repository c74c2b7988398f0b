import BookSite.Markdown.Pipeline
import BookSite.Proofs.Ordered
import BookSite.Site.Manifest

/-!
# Proofs/Site/ManifestPackages — packages are added up in a stable order

Packages come to a manifest in batches.  Where a package stands is decided by the first batch that
has it and its version by the last one, whichever batches the same packages are divided into, and
whether they are added to the manifest or first merged with each other (`packages_add_up`).
-/

namespace BookSite

open Ordered

/-- **Merged requirements** ask for the packages of all parts. -/
theorem Requirements.packages_foldl_merge (r : Requirements) (parts : List Requirements) :
    (parts.foldl merge r).packages = putAll r.packages (parts.map packages).flatten := by
  induction parts generalizing r with
  | nil => rfl
  | cons part parts ih =>
    rw [List.foldl_cons, ih, List.map_cons, List.flatten_cons, putAll_append]
    rfl

namespace Site.Manifest

/-- **The last version** given for a package. -/
def lastVersion? (packages : List (Text × Text)) (name : Text) : Option Text :=
  packages.reverse.lookup name

variable (m : Manifest)

/-- Batches are added as all their packages are. -/
theorem foldl_addPackages (batches : List (List (Text × Text))) :
    batches.foldl addPackages m = m.addPackages batches.flatten := by
  induction batches generalizing m with
  | nil => rfl
  | cons batch batches ih =>
    rw [List.foldl_cons, ih, List.flatten_cons, addPackages, addPackages, addPackages,
      putAll_append]

/-- **Collecting a batch first** changes nothing. -/
theorem addPackages_collected (batch : List (Text × Text)) :
    m.addPackages (putAll [] batch) = m.addPackages batch := by
  have hnodup : (names ([] : List (Text × Text))).Nodup := List.nodup_nil
  rw [addPackages, addPackages, putAll_putAll m.packages hnodup batch, putAll_nil]

/-- **Merged requirements** add what their parts add one after another. -/
theorem addPackages_foldl_merge (parts : List Requirements) :
    m.addPackages (parts.foldl Requirements.merge .none).packages =
      (parts.map Requirements.packages).foldl addPackages m := by
  rw [Requirements.packages_foldl_merge, foldl_addPackages]
  exact addPackages_collected m _

/-- **Packages are added up in a stable order.**  In a new manifest the package of every site comes
first, and then every other name in the order of its first appearance; each has the last version
given for it, the first one its own unless it is given another.  This does not depend on how the
packages are divided into batches, nor on whether the batches are first merged with each other. -/
theorem packages_add_up (description : Text) (batches : List (List (Text × Text))) :
    names (batches.foldl addPackages (new description)).packages =
        "vitepress".toList ::
          ((names batches.flatten).filter fun name => name ≠ "vitepress".toList).eraseDups ∧
      (∀ name, (batches.foldl addPackages (new description)).packages.lookup name =
        (lastVersion? batches.flatten name).or
          (if name = "vitepress".toList then some "^1.0.0".toList else none)) ∧
      (∀ others : List (List (Text × Text)), others.flatten = batches.flatten →
        others.foldl addPackages (new description) = batches.foldl addPackages (new description)) ∧
      ∀ parts : List Requirements,
        parts.map Requirements.packages = batches.map (putAll []) →
          (new description).addPackages (parts.foldl Requirements.merge .none).packages =
            batches.foldl addPackages (new description) := by
  refine ⟨?_, fun name => ?_, fun others hsame => ?_, fun parts hparts => ?_⟩
  · rw [foldl_addPackages]
    exact names_putAll_singleton _ _ _
  · rw [foldl_addPackages]
    exact lookup_putAll_singleton _ _ _ name
  · rw [foldl_addPackages, foldl_addPackages, hsame]
  · rw [addPackages_foldl_merge, hparts, List.foldl_map]
    simp only [addPackages_collected]

/-- Two batches that give a version twice, one of them to the package of every site. -/
def repeatedPackages : List (List (Text × Text)) :=
  [[("a".toList, "1".toList), ("b".toList, "1".toList)],
    [("vitepress".toList, "2".toList), ("a".toList, "2".toList)]]

/-- The same packages, divided in another way. -/
def dividedPackages : List (List (Text × Text)) :=
  [[("a".toList, "1".toList)], [],
    [("b".toList, "1".toList), ("vitepress".toList, "2".toList), ("a".toList, "2".toList)]]

theorem packages_add_up_repeatedPackages :
    dividedPackages.flatten = repeatedPackages.flatten ∧
      dividedPackages.foldl addPackages (new []) = repeatedPackages.foldl addPackages (new []) ∧
      (new []).addPackages ((repeatedPackages.map (Requirements.mk [])).foldl
        Requirements.merge .none).packages = repeatedPackages.foldl addPackages (new []) ∧
      (repeatedPackages.foldl addPackages (new [])).packages =
        [("vitepress".toList, "2".toList), ("a".toList, "2".toList), ("b".toList, "1".toList)] := by
  obtain ⟨-, -, hdivided, hmerged⟩ := packages_add_up [] repeatedPackages
  have hsame : dividedPackages.flatten = repeatedPackages.flatten := rfl
  exact ⟨hsame, hdivided _ hsame, hmerged _ (by decide +kernel), by decide +kernel⟩

end Site.Manifest

end BookSite
