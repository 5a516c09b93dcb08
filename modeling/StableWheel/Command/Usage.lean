import StableWheel.Command.Arguments

/-! What the program says about itself: its version, how it is called, and scripts that make
shells complete the names of its commands. -/
namespace StableWheel

/-- The name the program is called by. -/
def programName : String := "wheelwright"

/-- The version line. -/
def versionLine : String := programName ++ " 0.1.0"

/-! ### Usage -/

/-- What a command does. -/
def Verb.summary : Verb → String
  | build => "Compile the native modules and stage the package"
  | bdistWheel => "Build, then pack the staged tree into a wheel"
  | tag => "Print the stable-ABI wheel tag"
  | platform => "Show platform, compiler and interpreter information"
  | completion => "Generate shell completion scripts"

/-- How an option is written. -/
def optionUsage (o : String × OptionKind) : String :=
  match o.2 with
  | .switch => "[--" ++ o.1 ++ "]"
  | .text => "[--" ++ o.1 ++ " TEXT]"
  | .path => "[--" ++ o.1 ++ " PATH]"

/-- How a command is called. -/
def Verb.usage (v : Verb) : List String :=
  let shell := match v with
    | completion => [Text.join "|" (Shell.all.map Shell.name)]
    | _ => []
  [ v.summary, "",
    "Usage: " ++ Text.join " " (programName :: v.name :: v.options.map optionUsage ++ shell) ]

/-- How the program is called. -/
def overview : List String :=
  [ "Build stable-ABI Python wheels for tree-sitter grammars", "",
    "Usage: " ++ programName ++ " [--debug] [--backtrace] COMMAND", "", "Commands:" ]
    ++ Verb.all.map fun v => "  " ++ v.name ++ ": " ++ v.summary

/-- What someone who asks for help is told. -/
def helpText : Option Verb → List String
  | some v => v.usage
  | none => overview

/-! ### Completion -/

/-- What may follow the program's name. -/
def firstWords : String := Text.join " " (Verb.all.map Verb.name ++ ["help"])

/-- A script that makes a shell complete the first word. -/
def completionScript : Shell → List String
  | .bash => ["complete -W \"" ++ firstWords ++ "\" " ++ programName]
  | .elvish =>
    [ "set edit:completion:arg-completer[" ++ programName ++ "] = \x7b|@words| put " ++ firstWords
        ++ " \x7d" ]
  | .fish => ["complete -c " ++ programName ++ " -f -a \"" ++ firstWords ++ "\""]
  | .powershell =>
    [ "Register-ArgumentCompleter -Native -CommandName " ++ programName ++ " -ScriptBlock \x7b",
      "    -split \"" ++ firstWords ++ "\"", "\x7d" ]
  | .zsh => ["#compdef " ++ programName, "compadd " ++ firstWords]

end StableWheel
