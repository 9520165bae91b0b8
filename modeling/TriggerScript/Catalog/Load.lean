import TriggerScript.Catalog.Description
import TriggerScript.Directory

/-!
# Catalogs in files
-/

namespace TriggerScript

namespace Catalog

inductive LoadError where
  | unreadable (path : String) (fault : FileFault)
  | refused (error : DescriptionError)
  deriving DecidableEq, Repr

def LoadError.message : LoadError → String
  | unreadable path fault =>
      "cannot read catalog '" ++ path ++ "': " ++ fault.reason
  | refused error => error.message

/-- The catalog described by what was read under a path. -/
def ofFile (path : String) (contents : Except FileFault String) :
    Except LoadError Catalog :=
  match contents with
  | .error fault => .error (.unreadable path fault)
  | .ok text => (parse text).mapError .refused

def load (directory : Directory) (path : String) :
    Except LoadError Catalog :=
  ofFile path (directory.readText path)

end Catalog

end TriggerScript
