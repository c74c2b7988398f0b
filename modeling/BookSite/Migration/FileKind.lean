import BookSite.Files.Path

/-!
# Migration/FileKind — what becomes of a file of a book

The extension of a file decides: pages are converted, assets and documents are copied to different
places, and everything else is left behind.
-/

namespace BookSite

/-- The sort of a file of a book. -/
inductive FileKind where
  /-- a page, to be converted -/
  | markdown
  /-- a picture or the like, to be copied to the public files of the site -/
  | asset
  /-- a plain document, to be copied beside the pages -/
  | document
  | other
  deriving DecidableEq, Repr

namespace FileKind

/-- The name of a sort. -/
def name : FileKind → Text
  | markdown => "markdown".toList
  | asset => "asset".toList
  | document => "document".toList
  | other => "other".toList

/-- The extension of pages. -/
def pageExtension : Text := "md".toList

/-- The extensions of assets. -/
def assetExtensions : List Text :=
  [ "png".toList, "jpg".toList, "jpeg".toList, "gif".toList, "svg".toList, "webp".toList,
    "ico".toList, "pdf".toList ]

/-- The extensions of documents. -/
def documentExtensions : List Text :=
  ["txt".toList, "json".toList, "yaml".toList, "yml".toList, "toml".toList]

/-- The sort of files with an extension in small letters. -/
def ofExtension (extension : Text) : FileKind :=
  if extension == pageExtension then markdown
  else if assetExtensions.contains extension then asset
  else if documentExtensions.contains extension then document
  else other

/-- **The sort of a file**, by its extension in any letter case. -/
def classify (p : Path) : FileKind :=
  match p.extension? with
  | some extension => ofExtension extension.toLower
  | none => other

end FileKind

end BookSite
