/-!
# Arguments of the command line

    [OPTIONS] SOURCE

Options may stand before and behind the source.  `-c` and `-o` take a file,
as the next argument or attached: `-cFILE`, `-c=FILE`, `--catalog=FILE`.
Behind `--` everything is a source.  Arguments are taken one by one; asking
for the version or for help counts unless something before it is wrong.
-/

namespace TriggerScript.Command

inductive Flag where
  | tokens
  | noColor
  | tree
  | listing
  deriving DecidableEq, Repr

inductive FileOption where
  | catalog
  | output
  deriving DecidableEq, Repr

/-- What a compilation is asked to do. -/
structure Options where
  catalog? : Option String := none
  output? : Option String := none
  flags : List Flag := []
  deriving DecidableEq, Repr

namespace Options

def has (options : Options) (flag : Flag) : Bool :=
  options.flags.contains flag

/-- Add a flag, once. -/
def addFlag? (options : Options) (flag : Flag) : Option Options :=
  if options.has flag then
    none
  else
    some { options with flags := options.flags ++ [flag] }

/-- Add the file of an option, once; its path must not be empty. -/
def addFile? (options : Options) (option : FileOption) (path : String) :
    Option Options :=
  if path = "" then
    none
  else
    match option with
    | .catalog =>
        if options.catalog?.isSome then none
        else some { options with catalog? := some path }
    | .output =>
        if options.output?.isSome then none
        else some { options with output? := some path }

end Options

inductive Request where
  | version
  | help
  | compile (source : String) (options : Options)
  deriving DecidableEq, Repr

/-- What an option stands for. -/
inductive Meaning where
  | flag (flag : Flag)
  | file (option : FileOption)
  | version
  | help
  deriving DecidableEq, Repr

/-- The meaning of an option with two dashes. -/
def Meaning.ofName? : String → Option Meaning
  | "catalog" => some (.file .catalog)
  | "output" => some (.file .output)
  | "tokens" => some (.flag .tokens)
  | "no-color" => some (.flag .noColor)
  | "ast" => some (.flag .tree)
  | "disasm" => some (.flag .listing)
  | "version" => some .version
  | "help" => some .help
  | _ => none

/-- The meaning of an option with one dash. -/
def Meaning.ofLetter? : Char → Option Meaning
  | 'c' => some (.file .catalog)
  | 'o' => some (.file .output)
  | 'V' => some .version
  | 'h' => some .help
  | _ => none

/-- One argument, taken by its form. -/
inductive Word where
  /-- A source, or the file of the option before it. -/
  | plain
  /-- The end of the options. -/
  | stop
  /-- An option, and what is attached to it. -/
  | option (meaning : Meaning) (attached : Option String)
  | unknown
  deriving DecidableEq, Repr

/-- Take an argument by its form.  Behind two dashes an equals sign attaches
a value.  Behind one dash the letter takes what follows it as its file, with
or without an equals sign; a letter that asks for text ends the argument. -/
def Word.ofArgument (argument : String) : Word :=
  match argument.toList with
  | ['-', '-'] => .stop
  | '-' :: '-' :: text =>
      match Meaning.ofName? (String.ofList (text.takeWhile (· != '='))) with
      | none => .unknown
      | some meaning =>
          match text.dropWhile (· != '=') with
          | [] => .option meaning none
          | _ :: attached => .option meaning (some (String.ofList attached))
  | '-' :: letter :: text =>
      match Meaning.ofLetter? letter with
      | none => .unknown
      | some (.file target) =>
          match text with
          | [] => .option (.file target) none
          | '=' :: attached =>
              .option (.file target) (some (String.ofList attached))
          | attached =>
              .option (.file target) (some (String.ofList attached))
      | some meaning => .option meaning none
  | _ => .plain

structure Given where
  source? : Option String := none
  options : Options := {}
  deriving DecidableEq, Repr

namespace Given

/-- Take the source; there is only one, and its path must not be empty. -/
def addSource? (given : Given) (source : String) : Option Given :=
  if given.source?.isSome ∨ source = "" then
    none
  else
    some { given with source? := some source }

def addFlag? (given : Given) (flag : Flag) : Option Given :=
  (given.options.addFlag? flag).map fun options => { given with options }

def addFile? (given : Given) (option : FileOption) (path : String) :
    Option Given :=
  (given.options.addFile? option path).map fun options =>
    { given with options }

/-- What is asked for when no arguments are left. -/
def request? (given : Given) : Option Request :=
  given.source?.map fun source => .compile source given.options

/-- Take arguments of which every one is a source. -/
def takeSources? (given : Given) : List String → Option Request
  | [] => given.request?
  | argument :: rest => do
      let next ← given.addSource? argument
      next.takeSources? rest

def take? (given : Given) : List String → Option Request
  | [] => given.request?
  | argument :: rest =>
      match Word.ofArgument argument with
      | .plain => do
          let next ← given.addSource? argument
          next.take? rest
      | .stop => given.takeSources? rest
      | .option .version none => some .version
      | .option .help none => some .help
      | .option (.flag flag) none => do
          let next ← given.addFlag? flag
          next.take? rest
      | .option (.file target) (some path) => do
          let next ← given.addFile? target path
          next.take? rest
      | .option (.file target) none =>
          match rest with
          | [] => none
          | path :: others => do
              guard (Word.ofArgument path = .plain)
              let next ← given.addFile? target path
              next.take? others
      | .option _ (some _) => none
      | .unknown => none

end Given

/-- What some arguments ask for; nothing if they make no sense. -/
def Request.ofArguments? (arguments : List String) : Option Request :=
  Given.take? {} arguments

end TriggerScript.Command
