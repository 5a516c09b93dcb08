import StableWheel.Extension
import StableWheel.Interpreter.Report

/-! The command line that compiles a module.

One call of the compiler turns all sources of a module into one loadable file. What is asked
for is the same everywhere; compilers differ in how options are written and in how they are
told to link. -/
namespace StableWheel

/-- Where a module is compiled from and to. -/
structure CompileContext where
  /-- The directory that relative sources and include directories start from. -/
  root : Path
  /-- The tree that compiled modules are written into. -/
  buildLib : Path
  /-- Where compilers may leave what they need on the way. -/
  buildTemp : Path
  platform : Platform
  /-- The headers of the interpreter. -/
  include? : Option Path
  /-- The import library of the interpreter. -/
  libs? : Option Path
  deriving Repr, DecidableEq

namespace CompileContext

/-- The usual places below a build directory. -/
def ofBuildDir (root buildDir : Path) (platform : Platform) : CompileContext :=
  ⟨root, buildDir.join ⟨"lib"⟩, buildDir.join ⟨"temp"⟩, platform, none, none⟩

/-- With the places an interpreter reports. -/
def withReport (c : CompileContext) (r : Report) : CompileContext :=
  { c with include? := some r.includeDir, libs? := some r.libsDir }

end CompileContext

/-- How a compiler is spoken to. -/
inductive CompilerStyle where
  /-- Makes a shared object. -/
  | gnu
  /-- Makes a bundle that is linked when it is loaded. -/
  | apple
  /-- Writes options with slashes and has the linker's options at the end. -/
  | msvc
  deriving Repr, DecidableEq

namespace CompilerStyle

/-- The style of a compiler, from whether it takes slash options and from the target. -/
def of (slashes : Bool) (target : String) : CompilerStyle :=
  if slashes then msvc
  else if Text.occursIn "apple".toList target.toList then apple
  else gnu

/-- What a macro definition starts with. -/
def definePrefix : CompilerStyle → String
  | msvc => "/D"
  | _ => "-D"

/-- What an include directory starts with. -/
def includePrefix : CompilerStyle → String
  | msvc => "/I"
  | _ => "-I"

def name : CompilerStyle → String
  | gnu => "Gnu"
  | apple => "Apple"
  | msvc => "Msvc"

end CompilerStyle

/-! ### Arguments -/

/-- The definition of one macro. -/
def defineArgument (style : CompilerStyle) (m : String × Option String) : String :=
  match m.2 with
  | some value => style.definePrefix ++ m.1 ++ "=" ++ value
  | none => style.definePrefix ++ m.1

/-- The include directories: the module's own, then the interpreter's. -/
def includeDirs (spec : ExtensionSpec) (context : CompileContext) : List Path :=
  spec.includeDirs.map context.root.join ++ context.include?.toList

/-- What every compiler is told, in its own spelling: macros, include directories, flags and
sources. -/
def commonArguments (spec : ExtensionSpec) (context : CompileContext) (style : CompilerStyle) :
    List String :=
  spec.macros.map (defineArgument style)
    ++ (includeDirs spec context).map (fun d => style.includePrefix ++ d.text)
    ++ spec.compileFlags
    ++ spec.sources.map (fun s => (context.root.join s).text)

/-- How each style is told what to make and where. -/
def outputArguments (context : CompileContext) (output : Path) : CompilerStyle → List String
  | .gnu => ["-shared", "-o", output.text]
  | .apple => ["-bundle", "-undefined", "dynamic_lookup", "-o", output.text]
  | .msvc =>
    ["/LD", "/Fe" ++ output.text, "/Fo" ++ context.buildTemp.text ++ "\\", "/link"]
      ++ context.libs?.toList.map (fun l => "/LIBPATH:" ++ l.text)

/-- The arguments of the call: what is compiled, where it goes, and the linker's flags. -/
def compileArguments (spec : ExtensionSpec) (context : CompileContext) (output : Path)
    (style : CompilerStyle) (linkerFlags : List String) : List String :=
  commonArguments spec context style ++ outputArguments context output style ++ linkerFlags

end StableWheel
