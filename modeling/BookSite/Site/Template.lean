import BookSite.Text.Basic

/-!
# Site/Template — the texts that the program brings along

Two default settings files, in TOML with a comment for each key and in JSON, and the template of the
home page.
-/

namespace BookSite.Site

/-- The default settings in TOML, all of them commented out, line by line. -/
def defaultTomlLines : List String :=
  [
    "# bookpress configuration",
    "#",
    "# Every key can also be set on the command line with `--config KEY=VALUE`.",
    "# Explicit command line flags take precedence over this file. Commented keys",
    "# show their defaults.",
    "",
    "# Root of the mdBook project, the directory that holds book.toml.",
    "# source_dir = \".\"",
    "",
    "# Directory the VitePress project is written to.",
    "# target_dir = \"vitepress\"",
    "",
    "# How \x7b\x7b#include\x7d\x7d directives are handled:",
    "#   \"translate\"  rewrite them into VitePress `<<<` snippet imports",
    "#   \"inline\"     read the included files now and paste their content",
    "# include_mode = \"translate\"",
    "",
    "# Only convert markdown and copy assets, without a VitePress project around",
    "# them.",
    "# files_only = false",
    "",
    "# Generate a top navigation bar with Home and Guide entries.",
    "# generate_nav = true",
    "",
    "# Directory (relative to source_dir) with files referenced by includes. It is",
    "# copied next to docs/ so translated imports keep resolving.",
    "# including_files_dir = \"listings\"",
    "",
    "# Prefix for all sidebar links, e.g. \"/zh\" for a localized book.",
    "# base_path = \"/zh\"",
    "",
    "# Public base URL of the deployed site, emitted as VitePress `base`.",
    "# site_base = \"/my-book/\"",
    "",
    "# Number of threads used to convert files. Defaults to the number of CPUs.",
    "# jobs = 4",
    "",
    "# Replace an index.md coming from the book with the generated home page.",
    "# overwrite_home_page = false" ]

/-- The default settings in TOML, all of them commented out. -/
def defaultTomlTemplate : Text := (defaultTomlLines.map fun line => line.toList ++ ['\n']).flatten

/-- The default settings in JSON, line by line. -/
def defaultJsonLines : List String :=
  [
    "\x7b",
    "  \"source_dir\": null,",
    "  \"target_dir\": null,",
    "  \"include_mode\": \"translate\",",
    "  \"files_only\": false,",
    "  \"generate_nav\": true,",
    "  \"including_files_dir\": null,",
    "  \"base_path\": null,",
    "  \"site_base\": null,",
    "  \"jobs\": null,",
    "  \"overwrite_home_page\": false",
    "\x7d" ]

/-- The default settings in JSON. -/
def defaultJsonTemplate : Text := (defaultJsonLines.map fun line => line.toList ++ ['\n']).flatten

/-- The template of the home page, line by line. -/
def homePageLines : List String :=
  [
    "---",
    "layout: home",
    "",
    "hero:",
    "  name: \"\x7b\x7b title \x7d\x7d\"",
    "  text: \"\x7b\x7b description \x7d\x7d\"",
    "  tagline: \"\x7b\x7b tagline \x7d\x7d\"",
    "  actions:",
    "    - theme: brand",
    "      text: Start reading",
    "      link: \x7b\x7b first_chapter \x7d\x7d",
    "\x7b%- if repository %\x7d",
    "    - theme: alt",
    "      text: View on GitHub",
    "      link: \x7b\x7b repository \x7d\x7d",
    "\x7b%- endif %\x7d",
    "",
    "features:",
    "  - title: Easy to navigate",
    "    details: The chapter structure of the book becomes the sidebar.",
    "  - title: Full-text search",
    "    details: Search, code highlighting and dark mode come with VitePress.",
    "  - title: Fast",
    "    details: Pages are pre-rendered and load instantly.",
    "---" ]

/-- The template of the home page. -/
def homePageTemplate : Text := (homePageLines.map fun line => line.toList ++ ['\n']).flatten

/-- **All templates** with the names of their files, in the order of the names. -/
def templates : List (Text × Text) :=
  [ ("bookpress.json".toList, defaultJsonTemplate),
    ("bookpress.toml".toList, defaultTomlTemplate),
    ("index.md".toList, homePageTemplate) ]

end BookSite.Site
