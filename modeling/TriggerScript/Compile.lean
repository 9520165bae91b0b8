import TriggerScript.Assembly.Program
import TriggerScript.Catalog.Description
import TriggerScript.Image.Codec
import TriggerScript.Node.Parser
import TriggerScript.Token.Scanner

/-!
# Compiling source text

Source text is scanned, parsed and assembled; the first error of any stage is
the outcome.
-/

namespace TriggerScript

inductive Error where
  | scan (error : Token.ScanError)
  | parse (error : ParseError)
  | catalog (error : Catalog.DescriptionError)
  | compile (error : CompileError)
  | image (error : Image.DecodeError)
  deriving DecidableEq, Repr

def Error.message : Error → String
  | scan error => "lexer error: " ++ error.message
  | parse error => "parse error: " ++ error.message
  | catalog error => error.message
  | compile error => error.message
  | image error => "program image error: " ++ error.message

/-- What the library reports after reading a description. -/
def Catalog.loaded (catalog : Catalog) : Event :=
  .catalogLoaded catalog.functions.length catalog.listeners.length

namespace Program

/-- Compile a source text, and tell what was done up to the end or the
error. -/
def compileLogged (catalog : Catalog) (source : String) :
    Except Error Program × Array Event :=
  match Token.scan source with
  | .error error => (.error (.scan error), #[])
  | .ok tokens =>
      let scanned := Event.sourceScanned tokens.length
      match Node.parse tokens with
      | .error error => (.error (.parse error), #[scanned])
      | .ok nodes =>
          let (result, events) := assembleLogged catalog nodes
          (result.mapError .compile,
            #[scanned, .sourceParsed nodes.length] ++ events)

def compile (catalog : Catalog) (source : String) :
    Except Error Program :=
  (compileLogged catalog source).1

end Program

end TriggerScript
