import StableWheel.Platform

/-! The families of runtimes that appear in wheel tags.

A runtime is classified in two ways: by the name of its implementation, which the
interpreter reports, and by the two letters that open an interpreter tag. -/
namespace StableWheel

/-- A family of runtimes. `generic` is the tag of code that runs anywhere, and
`unknown` has no tag letters of its own. -/
inductive Family where
  | cpython
  | pypy
  | graalpy
  | ironpython
  | jython
  | generic
  | unknown
  deriving Repr, DecidableEq

namespace Family

/-- The two letters that open an interpreter tag. -/
def marker : Family → Option String
  | cpython => some "cp"
  | pypy => some "pp"
  | graalpy => some "gp"
  | ironpython => some "ip"
  | jython => some "jy"
  | generic => some "py"
  | unknown => none

def name : Family → String
  | cpython => "cpython"
  | pypy => "pypy"
  | graalpy => "graalpy"
  | ironpython => "ironpython"
  | jython => "jython"
  | generic => "generic"
  | unknown => "unknown"

/-- The family of an interpreter tag. -/
def ofTag (tag : String) : Family :=
  match tag.toList with
  | 'c' :: 'p' :: _ => cpython
  | 'p' :: 'p' :: _ => pypy
  | 'g' :: 'p' :: _ => graalpy
  | 'i' :: 'p' :: _ => ironpython
  | 'j' :: 'y' :: _ => jython
  | 'p' :: 'y' :: _ => generic
  | _ => unknown

/-- The implementations that are known by name, in lower case. -/
def implementations : List (String × Family) :=
  [ ("cpython", cpython), ("pypy", pypy), ("graalpy", graalpy), ("graalpython", graalpy),
    ("ironpython", ironpython), ("jython", jython) ]

/-- The family of an implementation, in whatever case its name is spelled. -/
def ofImplementation (implementation : String) : Family :=
  (implementations.lookup (Platform.folded implementation)).getD unknown

end Family
end StableWheel
