import StableWheel.Path

/-! Where the sources of packages are.

A layout lists dotted package names, maps packages to directories and names the data files
that go with them. A mapping holds for a package and everything below it; the mapping of
the empty name holds for all packages without one of their own. -/
namespace StableWheel

/-- The packages of a project. Mappings and patterns are in the order of their names. -/
structure PackageLayout where
  packages : List String
  /-- The directory of a package. -/
  directories : List (String × Path)
  /-- The patterns of a package's data files; those of the empty name hold for all. -/
  data : List (String × List String)
  deriving Repr, DecidableEq

namespace PackageLayout

def empty : PackageLayout := ⟨[], [], []⟩

/-- The parts of a dotted name. -/
def parts (package : String) : List String := Text.filledPieces '.' package

/-- Looks for the longest mapped start of a name, given how many parts it may have. -/
def mappedStart (directories : List (String × Path)) (names : List String) : Nat → Option Path
  | 0 => none
  | n + 1 =>
    match directories.lookup (Text.join "." (names.take (n + 1))) with
    | some directory => some (directory.extend (names.drop (n + 1)))
    | none => mappedStart directories names n

/-- The source directory of a package, relative to the project. -/
def sourceDir (l : PackageLayout) (package : String) : Path :=
  let names := parts package
  match mappedStart l.directories names names.length with
  | some directory => directory
  | none => ((l.directories.lookup "").getD ⟨""⟩).extend names

/-- The patterns of the data files of a package, shared ones first. -/
def patterns (l : PackageLayout) (package : String) : List String :=
  (l.data.lookup "").getD []
    ++ if package.isEmpty then [] else (l.data.lookup package).getD []

end PackageLayout
end StableWheel
