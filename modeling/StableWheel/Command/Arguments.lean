import StableWheel.Path

/-! What a command line asks for.

A command line names a command. Options stand behind the name in any order; two switches may
also stand in front of it. Arguments are read from left to right, and the first one that is
wrong or that asks for help ends the reading. -/
namespace StableWheel

/-- The shells that complete command lines. -/
inductive Shell where
  | bash
  | elvish
  | fish
  | powershell
  | zsh
  deriving Repr, DecidableEq

def Shell.name : Shell → String
  | bash => "bash"
  | elvish => "elvish"
  | fish => "fish"
  | powershell => "powershell"
  | zsh => "zsh"

def Shell.all : List Shell := [bash, elvish, fish, powershell, zsh]

/-- What an option is followed by. -/
inductive OptionKind where
  /-- Nothing. -/
  | switch
  /-- A text, which may be empty. -/
  | text
  /-- A path, which may not. -/
  | path
  deriving Repr, DecidableEq

/-- The commands. -/
inductive Verb where
  | build
  | bdistWheel
  | tag
  | platform
  | completion
  deriving Repr, DecidableEq

namespace Verb

def name : Verb → String
  | build => "build"
  | bdistWheel => "bdist-wheel"
  | tag => "tag"
  | platform => "platform"
  | completion => "completion"

def all : List Verb := [build, bdistWheel, tag, platform, completion]

/-- The command of a name. -/
def named (name : String) : Option Verb := all.find? fun v => v.name == name

/-- The switches that stand in front of a command's name or behind it. -/
def sharedSwitches : List String := ["debug", "backtrace"]

/-- The options of a command on its own. -/
def ownOptions : Verb → List (String × OptionKind)
  | build =>
    [("project", .path), ("build-dir", .path), ("python", .text), ("verbose", .switch)]
  | bdistWheel =>
    [ ("project", .path), ("build-dir", .path), ("dist-dir", .path), ("plat-name", .text),
      ("python", .text), ("verbose", .switch) ]
  | tag => [("from", .text), ("plat-name", .text), ("python", .text)]
  | platform => [("python", .text)]
  | completion => []

/-- All options of a command. -/
def options (v : Verb) : List (String × OptionKind) :=
  v.ownOptions ++ sharedSwitches.map fun name => (name, .switch)

end Verb

/-! ### What can be wrong -/

/-- What is wrong with a command line. -/
inductive UsageError where
  | noCommand
  | unexpected (argument : String)
  | repeated (option : String)
  | noValue (option : String)
  | needlessValue (option : String)
  | noShell
  | unknownShell (name : String)
  deriving Repr, DecidableEq

def UsageError.message : UsageError → String
  | noCommand => "no command is given"
  | unexpected argument => "unexpected argument " ++ argument
  | repeated option => "the option --" ++ option ++ " is given more than once"
  | noValue option => "the option --" ++ option ++ " needs a value"
  | needlessValue option => "the option --" ++ option ++ " takes no value"
  | noShell => "no shell is given"
  | unknownShell name => "unknown shell " ++ name

/-- Why a command line gives no command. -/
inductive Detour where
  /-- Someone wants to know how to call a command, or the program. -/
  | help (about : Option Verb)
  | version
  | usage (e : UsageError)
  deriving Repr, DecidableEq

/-! ### Single arguments -/

/-- An argument by its shape. -/
inductive Argument where
  /-- Nothing behind it is an option. -/
  | divider
  | long (name : String) (value : Option String)
  | short (letter : Char)
  | word
  deriving Repr, DecidableEq

/-- The shape of an argument. A dash alone is a word. -/
def Argument.of (a : String) : Argument :=
  match a.toList with
  | ['-', '-'] => divider
  | '-' :: '-' :: rest =>
    let (name, value) := Text.cutFirst '=' rest
    long (String.ofList name) (value.map String.ofList)
  | '-' :: letter :: _ => short letter
  | _ => word

/-! ### Behind the name of a command -/

/-- What was read so far. -/
structure Choices where
  /-- The options, each once; a switch has the empty text. -/
  options : List (String × String)
  shell : Option Shell
  deriving Repr, DecidableEq

namespace Choices

def nothing : Choices := ⟨[], none⟩

/-- Whether an option is given. -/
def has (c : Choices) (name : String) : Bool := (c.options.lookup name).isSome

def text? (c : Choices) (name : String) : Option String := c.options.lookup name

def path? (c : Choices) (name : String) : Option Path := (c.text? name).map Path.mk

/-- One more option. -/
def add (c : Choices) (name value : String) : Except Detour Choices :=
  if c.has name then .error (.usage (.repeated name))
  else .ok { c with options := c.options ++ [(name, value)] }

/-- One more option with a value. -/
def addValue (c : Choices) (name : String) (kind : OptionKind) (value : String) :
    Except Detour Choices :=
  if kind = .path ∧ value.isEmpty then .error (.usage (.noValue name)) else c.add name value

/-- A word that belongs to no option: only a shell may be named that way, and only once. -/
def addWord (c : Choices) (v : Verb) (word : String) : Except Detour Choices :=
  if v = .completion ∧ c.shell = none then
    match Shell.all.find? fun s => s.name == word with
    | some shell => .ok { c with shell := some shell }
    | none => .error (.usage (.unknownShell word))
  else .error (.usage (.unexpected word))

end Choices

/-- What the next argument may be. -/
inductive Expecting where
  | anything
  | value (option : String) (kind : OptionKind)
  | words
  deriving Repr, DecidableEq

/-- What a long option does. -/
def takeLong (v : Verb) (c : Choices) (argument name : String) (value : Option String) :
    Except Detour (Choices × Expecting) :=
  if name = "help" then
    match value with
    | none => .error (.help (some v))
    | some _ => .error (.usage (.needlessValue name))
  else
    match v.options.lookup name, value with
    | none, _ => .error (.usage (.unexpected argument))
    | some .switch, none => (c.add name "").map fun c => (c, .anything)
    | some .switch, some _ => .error (.usage (.needlessValue name))
    | some kind, none => .ok (c, .value name kind)
    | some kind, some value => (c.addValue name kind value).map fun c => (c, .anything)

/-- Reads one argument. A value that starts with a dash has to be joined to its option. -/
def takeArgument (v : Verb) (c : Choices) (expecting : Expecting) (a : String) :
    Except Detour (Choices × Expecting) :=
  match expecting, Argument.of a with
  | .words, _ => (c.addWord v a).map fun c => (c, .words)
  | .value name kind, .word => (c.addValue name kind a).map fun c => (c, .anything)
  | .value name _, _ => .error (.usage (.noValue name))
  | .anything, .divider => .ok (c, .words)
  | .anything, .word => (c.addWord v a).map fun c => (c, .anything)
  | .anything, .short letter =>
    if letter = 'h' then .error (.help (some v)) else .error (.usage (.unexpected a))
  | .anything, .long name value => takeLong v c a name value

/-- Reads arguments up to their end, where no option may lack its value. -/
def takeArguments (v : Verb) : Choices → Expecting → List String → Except Detour Choices
  | _, .value name _, [] => .error (.usage (.noValue name))
  | c, _, [] => .ok c
  | c, expecting, a :: rest => do
    let (c, expecting) ← takeArgument v c expecting a
    takeArguments v c expecting rest

/-! ### Commands -/

/-- What builds are told. -/
structure BuildOptions where
  project : Path
  buildDir : Option Path
  python : Option String
  verbose : Bool
  deriving Repr, DecidableEq

/-- A command with what it was told. -/
inductive Command where
  | build (options : BuildOptions)
  | bdistWheel (options : BuildOptions) (dist : Option Path) (platform : Option String)
  | tag (given platform python : Option String)
  | platform (python : Option String)
  | completion (shell : Shell)
  deriving Repr, DecidableEq

/-- The project is where the command runs, unless something else is said. -/
def BuildOptions.ofChoices (c : Choices) : BuildOptions :=
  ⟨(c.path? "project").getD ⟨"."⟩, c.path? "build-dir", c.text? "python", c.has "verbose"⟩

/-- A command from what was read. -/
def Command.ofChoices (v : Verb) (c : Choices) : Except Detour Command :=
  match v with
  | .build => .ok (.build (.ofChoices c))
  | .bdistWheel => .ok (.bdistWheel (.ofChoices c) (c.path? "dist-dir") (c.text? "plat-name"))
  | .tag => .ok (.tag (c.text? "from") (c.text? "plat-name") (c.text? "python"))
  | .platform => .ok (.platform (c.text? "python"))
  | .completion =>
    match c.shell with
    | some shell => .ok (.completion shell)
    | none => .error (.usage .noShell)

/-- What is asked for, and whether every step is to be seen. -/
structure Request where
  command : Command
  debug : Bool
  deriving Repr, DecidableEq

namespace Request

/-- What the words behind a call for help are about. -/
def helpAbout : List String → Detour
  | [] => .help none
  | [word] =>
    match Verb.named word with
    | some v => .help (some v)
    | none => if word = "help" then .help none else .usage (.unexpected word)
  | word :: _ => .usage (.unexpected word)

/-- Reads arguments up to the name of a command, and then the command's own. The switches that
were given so far are known by name. -/
def readFrom (switches : List String) : List String → Except Detour Request
  | [] => .error (.usage .noCommand)
  | a :: rest =>
    match Verb.named a with
    | some v => do
      let c ← takeArguments v .nothing .anything rest
      return ⟨← Command.ofChoices v c, switches.contains "debug" || c.has "debug"⟩
    | none =>
      if a = "help" then .error (helpAbout rest)
      else
        match Argument.of a with
        | .long "help" none | .short 'h' => .error (.help none)
        | .long "version" none | .short 'V' => .error .version
        | .long name none =>
          if !Verb.sharedSwitches.contains name then .error (.usage (.unexpected a))
          else if switches.contains name then .error (.usage (.repeated name))
          else readFrom (name :: switches) rest
        | _ => .error (.usage (.unexpected a))

/-- What the arguments of a command line ask for. -/
def read (arguments : List String) : Except Detour Request := readFrom [] arguments

end Request
end StableWheel
