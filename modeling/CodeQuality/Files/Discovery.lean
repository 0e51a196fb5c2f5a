import CodeQuality.Config.Basic

/-!
# Discovery

Which of the files below a root are analysed. Exclude patterns see the paths from the root on, so
the folders above the root never exclude anything.
-/

namespace CodeQuality

/-- A search for files of some languages below a root. -/
structure Walker where
  root : Path
  languages : List Language := Language.supported
  excludePatterns : List ExcludePattern := []

namespace Walker

/-- The file is one that is searched for. -/
def selects (walker : Walker) (path : Path) : Bool :=
  let language := Language.ofPath path
  let relative := (path.behind? walker.root).getD path
  language.isSupported && walker.languages.contains language &&
    !walker.excludePatterns.any fun pattern => pattern.excludes relative

/-- The files that are searched for in the order of their paths, given the paths of all files from
the root on. -/
def walk (walker : Walker) (files : List Path) : List Path :=
  ((files.map (Path.under walker.root)).filter walker.selects).mergeSort Path.le

end Walker

namespace Config

/-- The search for the files that are analysed. -/
def walker (config : Config) (root : Path) : Walker where
  root := root
  languages := config.languages.getD Language.supported
  excludePatterns := config.excludePatterns

/-- The files that are analysed in the order of their paths, given the paths of all files from the
root on. -/
def discover (config : Config) (root : Path) (files : List Path) : List Path :=
  (config.walker root).walk files

end Config

end CodeQuality
