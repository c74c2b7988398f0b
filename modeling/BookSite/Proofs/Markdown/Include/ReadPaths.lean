import BookSite.Markdown.Pipeline
import BookSite.Proofs.Markdown.Include.FoundDirectives

/-!
# Proofs/Markdown/Include/ReadPaths — the files that a conversion reads

A conversion reads the files that directives name, where a stage includes them at once, and nothing
else: if these read the same, the page becomes the same (`convert_congr`).
-/

namespace BookSite

open Include

/-! ## One stage -/

/-- **The paths that a stage reads**: those of the directives of the page, if it includes them. -/
def Stage.readPaths (path? : Option Path) (stage : Stage) (page : Text) : List Path :=
  match stage, path? with
  | .includes .inline, some path =>
    (directivesIn page).map fun found => (baseDir path).join ⟨found.2.path⟩
  | _, _ => []

variable {fs fs' : FileSystem} {path? : Option Path}

/-- Targets that read the same are included the same. -/
theorem Include.inlinePage_congr {base : Path} {page : Text}
    (h : ∀ found ∈ directivesIn page,
      fs'.readText (base.join ⟨found.2.path⟩) = fs.readText (base.join ⟨found.2.path⟩)) :
    inlinePage fs' base page = inlinePage fs base page := by
  refine List.flatMap_congr fun piece hpiece => ?_
  cases piece with
  | char c => rfl
  | token wording target =>
    have hread := h (wording, target) (List.mem_filterMap.mpr ⟨_, hpiece, rfl⟩)
    change target.resolve fs' base = target.resolve fs base
    rw [Target.resolve, Target.resolve, hread]

/-- **A stage** changes a page the same if what it reads is the same. -/
theorem Stage.apply_congr {stage : Stage} {page : Text}
    (h : ∀ p ∈ stage.readPaths path? page, fs'.readText p = fs.readText p) :
    stage.apply fs' path? page = stage.apply fs path? page := by
  cases stage with
  | includes mode =>
    cases mode with
    | translate => rfl
    | inline =>
      cases path? with
      | none => rfl
      | some path =>
        have hpage : inlinePage fs' (baseDir path) page = inlinePage fs (baseDir path) page :=
          inlinePage_congr fun found hfound => h _ (List.mem_map.mpr ⟨found, hfound, rfl⟩)
        rw [apply, apply, hpage]
  | _ => rfl

/-! ## All stages -/

/-- **The paths that a conversion reads**, stage after stage. -/
def Pipeline.readPathsFrom (fs : FileSystem) (path? : Option Path) : List Stage → Text → List Path
  | [], _ => []
  | stage :: rest, page =>
    stage.readPaths path? page ++
      match stage.apply fs path? page with
      | .ok text => readPathsFrom fs path? rest text
      | .error _ => []

/-- The paths that are read when a page is converted. -/
def Pipeline.readPaths (fs : FileSystem) (path? : Option Path) (pipeline : Pipeline)
    (page : Text) : List Path :=
  Pipeline.readPathsFrom fs path? pipeline.stages page

/-- **A page becomes the same** if what is read is the same. -/
theorem Pipeline.convert_congr {pipeline : Pipeline} {page : Text}
    (h : ∀ p ∈ pipeline.readPaths fs path? page, fs'.readText p = fs.readText p) :
    pipeline.convert fs' path? page = pipeline.convert fs path? page := by
  unfold Pipeline.convert
  unfold Pipeline.readPaths at h
  generalize pipeline.stages = stages at h ⊢
  induction stages generalizing page with
  | nil => rfl
  | cons stage rest ih =>
    rw [Pipeline.readPathsFrom] at h
    rw [List.foldlM_cons, List.foldlM_cons,
      Stage.apply_congr fun p hp => h p (List.mem_append_left _ hp)]
    rcases happly : stage.apply fs path? page with e | text
    · rfl
    · refine ih fun p hp => h p (List.mem_append_right _ ?_)
      rwa [happly]

/-- **The same is read** if what is read is the same. -/
theorem Pipeline.readPaths_congr {pipeline : Pipeline} {page : Text}
    (h : ∀ p ∈ pipeline.readPaths fs path? page, fs'.readText p = fs.readText p) :
    pipeline.readPaths fs' path? page = pipeline.readPaths fs path? page := by
  unfold Pipeline.readPaths at h ⊢
  generalize pipeline.stages = stages at h ⊢
  induction stages generalizing page with
  | nil => rfl
  | cons stage rest ih =>
    rw [Pipeline.readPathsFrom] at h
    rw [Pipeline.readPathsFrom, Pipeline.readPathsFrom,
      Stage.apply_congr fun p hp => h p (List.mem_append_left _ hp)]
    rcases happly : stage.apply fs path? page with e | text
    · rfl
    · refine congrArg (_ ++ ·) (ih fun p hp => h p (List.mem_append_right _ ?_))
      rwa [happly]

end BookSite
