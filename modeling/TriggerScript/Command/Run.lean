import TriggerScript.Catalog.Load
import TriggerScript.Command.Arguments
import TriggerScript.Compile
import TriggerScript.Image.Program
import TriggerScript.Node.Outline
import TriggerScript.Program.Listing
import TriggerScript.Token.Listing

/-!
# Running the command line

A run reads the source, compiles it and does what the options ask for.  It
stops at the first failure; what was printed before stays printed.
-/

namespace TriggerScript.Command

/-- What a run needs from the outside. -/
structure Host (m : Type → Type) (File : Type) where
  read : String → m (Except FileFault (List UInt8))
  /-- Open a file for writing, which empties it. -/
  create : String → m (Except FileFault File)
  /-- Write to an open file. -/
  store : File → List UInt8 → m (Except FileFault Unit)
  print : String → m Unit

/-- A failed run: what failed, and because of what. -/
structure Failure where
  summary : String
  cause : Option String := none
  deriving DecidableEq, Repr

def indent (text : String) : String :=
  "\n".intercalate
    ((Text.lines text.toList).map fun line => "    " ++ String.ofList line)

def Failure.message (failure : Failure) : String :=
  match failure.cause with
  | none => "Error: " ++ failure.summary ++ "\n"
  | some cause =>
      "Error: " ++ failure.summary ++ "\n\nCaused by:\n" ++
        indent cause ++ "\n"

def Failure.ofLoadError (error : Catalog.LoadError) : Failure :=
  match error with
  | .unreadable _ fault => ⟨error.message, some fault.reason⟩
  | .refused _ => ⟨error.message, none⟩

def versionText : String :=
  "kindle 0.1.0\n"

def helpText : String :=
  "Compile trigger scripts to bytecode\n\n" ++
    "Usage: kindle [OPTIONS] <SOURCE>\n"

structure Status where
  code : UInt32 := 0
  complaint : String := ""
  deriving DecidableEq, Repr

section Run

variable {m : Type → Type} [Monad m] {File : Type}

def Host.readText (host : Host m File) (path : String) :
    m (Except FileFault String) := do
  return (← host.read path).bind fileText

def Host.loadCatalog (host : Host m File) (path? : Option String) :
    m (Except Catalog.LoadError Catalog) := do
  match path? with
  | none => return .ok {}
  | some path => return Catalog.ofFile path (← host.readText path)

def Host.write (host : Host m File) (path : String) (bytes : List UInt8) :
    m (Except FileFault Unit) := do
  match ← host.create path with
  | .ok file => host.store file bytes
  | .error fault => return .error fault

/-- Print and write what is asked of a program. -/
def Host.deliver (host : Host m File) (options : Options) (program : Program) :
    ExceptT Failure m Unit := do
  if options.has .listing then
    host.print program.listing
  match options.output? with
  | none => return
  | some path =>
      match ← host.write path program.toImage with
      | .ok _ => return
      | .error fault =>
          throw ⟨"failed to write '" ++ path ++ "'", some fault.reason⟩

def Host.compile (host : Host m File) (path : String) (options : Options) :
    ExceptT Failure m Unit := do
  match ← host.readText path with
  | .error fault =>
      throw ⟨"failed to read '" ++ path ++ "'", some fault.reason⟩
  | .ok source =>
      match Token.scan source with
      | .error error => throw ⟨"lexer error", some error.message⟩
      | .ok tokens =>
          if options.has .tokens then
            host.print (Token.listing (!options.has .noColor) tokens)
          else
            match Node.parse tokens with
            | .error error => throw ⟨"parse error", some error.message⟩
            | .ok nodes =>
                if options.has .tree then
                  host.print (Node.renderOutline nodes ++ "\n")
                else
                  match ← host.loadCatalog options.catalog? with
                  | .error error => throw (.ofLoadError error)
                  | .ok catalog =>
                      match Program.assemble catalog nodes with
                      | .error error => throw ⟨error.message, none⟩
                      | .ok program => host.deliver options program

def Host.run (host : Host m File) (arguments : List String) : m Status := do
  match Request.ofArguments? arguments with
  | none => return { code := 2, complaint := "usage" }
  | some .help =>
      host.print helpText
      return {}
  | some .version =>
      host.print versionText
      return {}
  | some (.compile source options) =>
      match ← (host.compile source options).run with
      | .ok _ => return {}
      | .error failure =>
          return { code := 1, complaint := failure.message }

end Run

/-- A directory and what was printed so far. -/
structure Session where
  directory : Directory
  printed : String := ""
  deriving DecidableEq, Repr

/-- Work in a directory of plain files, which never fills up. -/
def Session.host : Host (StateM Session) String where
  read path := do
    return (← get).directory.read path
  create path := do
    match (← get).directory.create path with
    | .ok (name, directory) =>
        modify fun session => { session with directory }
        return .ok name
    | .error fault => return .error fault
  store name bytes := do
    modify fun session =>
      { session with directory := session.directory.store name bytes }
    return .ok ()
  print text :=
    modify fun session => { session with printed := session.printed ++ text }

end TriggerScript.Command
