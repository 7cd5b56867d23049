import HeapLint.Command.Basic
import HeapLint.Text.Search

/-!
# Arguments

Arguments are read from left to right: options of the program, a command, then options and words
of the command. Some options may stand on either side of the command, and the inner one counts. A
value is part of the argument of its option or the argument after it, which must not look like an
option then. Two hyphens end the options. Help is given as soon as it is asked for, unless
something before it is wrong.
-/

namespace HeapLint

/-- Why there is no command to run. -/
inductive ArgumentStop where
  /-- The user asked for help or for the version. -/
  | information
  /-- The arguments make no sense. -/
  | misuse
deriving DecidableEq, Repr

def ArgumentStop.exitCode : ArgumentStop → Nat
  | .information => 0
  | .misuse => 2

inductive OptionName where
  | colour
  | verbose
  | settings
  | help
  | version
  | format
  | warningsAsErrors
  | membersOnStack
  | exclude
  | buildDir
  | force
deriving DecidableEq, Repr

namespace OptionName

def long : OptionName → String
  | .colour => "color"
  | .verbose => "verbose"
  | .settings => "config"
  | .help => "help"
  | .version => "version"
  | .format => "format"
  | .warningsAsErrors => "warnings-as-errors"
  | .membersOnStack => "enable-members-on-stack-check"
  | .exclude => "exclude"
  | .buildDir => "build-dir"
  | .force => "force"

/-- The letter that stands for the option after a single hyphen. -/
def letter? : OptionName → Option Char
  | .verbose => some 'v'
  | .help => some 'h'
  | .version => some 'V'
  | .format => some 'f'
  | .buildDir => some 'p'
  | _ => none

def takesValue : OptionName → Bool
  | .colour | .settings | .format | .exclude | .buildDir => true
  | _ => false

/-- May the option be given several times? -/
def isRepeatable : OptionName → Bool
  | .verbose | .exclude => true
  | _ => false

def colour? : String → Option ColourChoice
  | "auto" => some .auto
  | "always" => some .always
  | "never" => some .never
  | _ => none

/-- The choices for the form of output. -/
def format? : String → Option OutputFormat
  | "human" => some .human
  | "jsonl" => some .jsonLines
  | _ => none

/-- Is the text a value of the option? Paths must not be empty. -/
def accepts (value : String) : OptionName → Bool
  | .colour => (colour? value).isSome
  | .format => (format? value).isSome
  | .settings | .buildDir => !value.isEmpty
  | _ => true

end OptionName

/-- The arguments of the program, or of a command, as far as they were read. -/
structure Arguments where
  /-- In order; options without a value have an empty one. -/
  options : List (OptionName × String)
  words : List String
  /-- An option whose value was the argument before. -/
  pending : Option (OptionName × String)

namespace Arguments

def empty : Arguments :=
  ⟨[], [], none⟩

def has (a : Arguments) (o : OptionName) : Bool :=
  a.options.any (·.1 == o)

def value? (a : Arguments) (o : OptionName) : Option String :=
  a.options.lookup o

/-- The values of an option that may be given several times. -/
def values (a : Arguments) (o : OptionName) : List String :=
  a.options.filterMap fun p => if p.1 = o then some p.2 else none

def add (a : Arguments) (o : OptionName) (value : String) : Except ArgumentStop Arguments :=
  if o == .help || o == .version then .error .information
  else if !o.accepts value || (a.has o && !o.isRepeatable) then .error .misuse
  else .ok { a with options := a.options ++ [(o, value)] }

/-- Adds the option whose value was the argument before. -/
def settle (a : Arguments) : Except ArgumentStop Arguments :=
  match a.pending with
  | none => .ok a
  | some (o, value) => { a with pending := none }.add o value

/-- Reads the letters after a single hyphen. An option with a value takes the rest as its value;
if there is no rest, the option is returned with what was read. -/
def addLetters (known : List OptionName) (a : Arguments) :
    List Char → Except ArgumentStop (Arguments × Option OptionName)
  | [] => .ok (a, none)
  | c :: rest =>
    match known.find? (·.letter? == some c) with
    | none => .error .misuse
    | some o =>
      if !o.takesValue then do addLetters known (← a.add o "") rest
      else
        match rest with
        | [] => .ok (a, some o)
        | '=' :: value | value => do pure (← a.add o (String.ofList value), none)

/-- Reads an option after two hyphens, like `addLetters`. -/
def addLong (known : List OptionName) (a : Arguments) (text : List Char) :
    Except ArgumentStop (Arguments × Option OptionName) :=
  let (name, value) := match Text.cutAt? ['='] text with
    | some (name, value) => (name, some value)
    | none => (text, none)
  match known.find? (·.long == String.ofList name), value with
  | none, _ => .error .misuse
  | some o, none => if o.takesValue then .ok (a, some o) else do pure (← a.add o "", none)
  | some o, some value =>
    if o.takesValue then do pure (← a.add o (String.ofList value), none) else .error .misuse

/-- Reads the option that an argument starts with, if it is one; a single hyphen is none. -/
def option? (known : List OptionName) (a : Arguments) (arg : String) :
    Option (Except ArgumentStop (Arguments × Option OptionName)) :=
  match arg.toList with
  | '-' :: '-' :: text => some (a.settle.bind fun a => addLong known a text)
  | '-' :: c :: text => some (a.settle.bind fun a => addLetters known a (c :: text))
  | _ => none

/-- Does the argument look like an option? -/
def looksLikeOption (arg : String) : Bool :=
  match arg.toList with
  | '-' :: _ :: _ => true
  | _ => false

/-- Reads arguments up to the first word. Returned are also that word and the arguments after
it. -/
def untilWord (known : List OptionName) :
    Arguments → List String → Except ArgumentStop (Arguments × List String)
  | a, [] => .ok (a, [])
  | a, arg :: rest =>
    if arg == "--" then .error .misuse
    else
      match option? known a arg with
      | none => .ok (a, arg :: rest)
      | some (.error e) => .error e
      | some (.ok (a, none)) => untilWord known a rest
      | some (.ok (a, some o)) =>
        match rest with
        | [] => .error .misuse
        | value :: rest =>
          if looksLikeOption value then .error .misuse
          else untilWord known { a with pending := some (o, value) } rest

/-- Reads all arguments of a command whose words satisfy `isWord`. -/
def all (known : List OptionName) (isWord : String → Bool) :
    Arguments → List String → Except ArgumentStop Arguments
  | a, [] => a.settle
  | a, arg :: rest =>
    if arg == "--" then do
      let a ← a.settle
      if rest.all isWord then .ok { a with words := a.words ++ rest } else .error .misuse
    else
      match option? known a arg with
      | none => do
        let a ← a.settle
        if isWord arg then all known isWord { a with words := a.words ++ [arg] } rest
        else .error .misuse
      | some (.error e) => .error e
      | some (.ok (a, none)) => all known isWord a rest
      | some (.ok (a, some o)) =>
        match rest with
        | [] => .error .misuse
        | value :: rest =>
          if looksLikeOption value then .error .misuse
          else all known isWord { a with pending := some (o, value) } rest

end Arguments

/-! ## Commands -/

inductive CommandName where
  | check
  | classify
  | applyEdits
  | init
deriving DecidableEq, Repr

namespace CommandName

def ofText? : String → Option CommandName
  | "check" => some .check
  | "classify" => some .classify
  | "apply-edits" => some .applyEdits
  | "init" => some .init
  | _ => none

/-- The options of the program, which may stand on either side of a command. -/
def shared : List OptionName :=
  [.colour, .verbose, .settings, .help]

def options : CommandName → List OptionName
  | .check => [.format, .warningsAsErrors, .membersOnStack, .exclude] ++ shared
  | .classify => [.format] ++ shared
  | .applyEdits => [.buildDir] ++ shared
  | .init => [.force] ++ shared

/-- May the text be a word of the command? Paths to check must not be empty. -/
def isWord (text : String) : CommandName → Bool
  | .check => !text.isEmpty
  | .classify | .applyEdits => true
  | .init => false

end CommandName

namespace Invocation

/-- The form of output that the arguments ask for. -/
def formatOf (a : Arguments) : OutputFormat :=
  ((a.value? .format).bind OptionName.format?).getD .human

/-- The command with the arguments it was given, if they are complete. -/
def commandOf? (name : CommandName) (a : Arguments) : Option Command :=
  match name with
  | .check =>
    some (.check {
      paths := if a.words.isEmpty then ["."] else a.words
      format := formatOf a
      warningsAsErrors := a.has .warningsAsErrors
      membersOnStack := a.has .membersOnStack
      excludes := a.values .exclude })
  | .classify => if a.words.isEmpty then none else some (.classify a.words (formatOf a))
  | .applyEdits => (a.value? .buildDir).map fun buildDir => .applyEdits buildDir a.words
  | .init => some (.init (a.has .force))

/-- The help on the program or on one of its commands. -/
def help : List String → ArgumentStop
  | [] | ["help"] => .information
  | [name] => if (CommandName.ofText? name).isSome then .information else .misuse
  | _ => .misuse

def parse (args : List String) : Except ArgumentStop Invocation := do
  match ← Arguments.untilWord (.version :: CommandName.shared) .empty args with
  | (_, []) => .error .misuse
  | (outer, word :: rest) =>
    if word == "help" then .error (help rest)
    else
      match CommandName.ofText? word with
      | none => .error .misuse
      | some name =>
        let inner ← Arguments.all name.options (name.isWord ·) .empty rest
        match commandOf? name inner with
        | none => .error .misuse
        | some command =>
          let outer ← outer.settle
          let value? (o : OptionName) := (inner.value? o).orElse fun _ => outer.value? o
          pure {
            command
            colour := ((value? .colour).bind OptionName.colour?).getD .auto
            settingsFile := value? .settings }

end Invocation

end HeapLint
