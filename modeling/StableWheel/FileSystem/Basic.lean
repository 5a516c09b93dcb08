import StableWheel.Archive.Encoding
import StableWheel.FileSystem.Error
import StableWheel.Path

/-! The file system as a finite map from places to what is there.

A place is the list of names that lead to it from the root. The root is always a directory;
`lookup` is the view through which every operation is described.

Of the permissions of a file only one is kept: whether it may be executed. All others are left out,
and so is who owns what. That compiled modules may not be removed is up to the session (`Refusals`);
a temporary file always may. Each file is at one place, so there are no hard links. Names are texts:
those that are no UTF-8 are left out. -/
namespace StableWheel

/-- The names that lead to a place, from the root. -/
abbrev Location := List String

/-- What a file holds: bytes, or an archive by its members. -/
inductive Content where
  | data (bytes : ByteArray)
  | archive (members : List Archive.Member)

instance : DecidableEq Content
  | .data a, .data b => decidable_of_iff (a.data = b.data) (by simp [ByteArray.ext_iff])
  | .archive ms, .archive ns => decidable_of_iff (ms = ns) (by simp)
  | .data _, .archive _ => isFalse (by simp)
  | .archive _, .data _ => isFalse (by simp)

/-- The bytes of a file. -/
def Content.bytes : Content → ByteArray
  | data b => b
  | archive members => Archive.encode members

/-- A file. -/
structure File where
  content : Content
  executable : Bool
  deriving DecidableEq

/-- What can be at a place. -/
inductive Entry where
  | file (f : File)
  | directory
  | link (target : Path)
  deriving DecidableEq

/-- All files, and the directory that relative paths start from. -/
structure FileSystem where
  entries : List (Location × Entry)
  workingDirectory : Location

namespace FileSystem

/-- What is at a place. -/
def lookup (fs : FileSystem) (place : Location) : Option Entry :=
  if place = [] then some .directory else fs.entries.lookup place

/-- Something new at a place, whatever was there. -/
def put (fs : FileSystem) (place : Location) (n : Entry) : FileSystem :=
  { fs with entries := (place, n) :: fs.entries.filter fun e => !(e.1 == place) }

/-- Nothing at a place any more. -/
def remove (fs : FileSystem) (place : Location) : FileSystem :=
  { fs with entries := fs.entries.filter fun e => !(e.1 == place) }

/-- The names right below a place, in rising order. -/
def names (fs : FileSystem) (place : Location) : List String :=
  let below := fs.entries.filterMap fun e =>
    match place.isPrefixOf? e.1 with
    | some [name] => some name
    | _ => none
  below.mergeSort fun a b => decide (a ≤ b)

/-! ### The view -/

theorem lookup_filter_ne (entries : List (Location × Entry)) (place other : Location)
    (h : other ≠ place) :
    (entries.filter fun e => !(e.1 == place)).lookup other = entries.lookup other := by
  induction entries with
  | nil => rfl
  | cons e rest ih =>
    obtain ⟨key, n⟩ := e
    by_cases hk : key = place
    · subst hk
      have : (other == key) = false := by simpa using h
      simp [List.lookup_cons, this, ih]
    · have : (!(key == place)) = true := by simpa using hk
      simp only [List.filter_cons, this, if_true, List.lookup_cons, ih]

theorem lookup_filter_self (entries : List (Location × Entry)) (place : Location) :
    (entries.filter fun e => !(e.1 == place)).lookup place = none := by
  induction entries with
  | nil => rfl
  | cons e rest ih =>
    obtain ⟨key, n⟩ := e
    by_cases hk : key = place
    · subst hk
      simp [ih]
    · have h1 : (!(key == place)) = true := by simpa using hk
      have h2 : (place == key) = false := by simpa using fun h => hk h.symm
      simp [h1, List.lookup_cons, h2, ih]

theorem lookup_root (fs : FileSystem) : fs.lookup [] = some .directory := rfl

theorem lookup_put_self (fs : FileSystem) (place : Location) (n : Entry) (h : place ≠ []) :
    (fs.put place n).lookup place = some n := by
  simp [lookup, put, h]

theorem lookup_put_of_ne (fs : FileSystem) (place other : Location) (n : Entry)
    (h : other ≠ place) : (fs.put place n).lookup other = fs.lookup other := by
  by_cases ho : other = []
  · simp [lookup, ho]
  · have : (other == place) = false := by simpa using h
    simp [lookup, put, ho, List.lookup_cons, this, lookup_filter_ne _ _ _ h]

theorem lookup_remove_self (fs : FileSystem) (place : Location) (h : place ≠ []) :
    (fs.remove place).lookup place = none := by
  simp [lookup, remove, h, lookup_filter_self]

theorem lookup_remove_of_ne (fs : FileSystem) (place other : Location) (h : other ≠ place) :
    (fs.remove place).lookup other = fs.lookup other := by
  by_cases ho : other = []
  · simp [lookup, ho]
  · simp [lookup, remove, ho, lookup_filter_ne _ _ _ h]

end FileSystem
end StableWheel
