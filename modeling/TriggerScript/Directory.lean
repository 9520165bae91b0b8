import TriggerScript.Text.Blank

/-!
# Directories

A directory of plain files.  Paths are followed part by part from the
directory itself.  Nothing is known of the directories above it; a file written
there is kept under a name that starts with the way up.
-/

namespace TriggerScript

inductive FileFault where
  | missing
  | belowFile
  | isDirectory
  | notText
  | other (reason : String)
  deriving DecidableEq, Repr

def FileFault.reason : FileFault → String
  | missing => "No such file or directory (os error 2)"
  | belowFile => "Not a directory (os error 20)"
  | isDirectory => "Is a directory (os error 21)"
  | notText => "stream did not contain valid UTF-8"
  | other reason => reason

/-- The text that the bytes of a file hold in UTF-8. -/
def fileText (bytes : List UInt8) : Except FileFault String :=
  match String.fromUTF8? ⟨bytes.toArray⟩ with
  | some text => .ok text
  | none => .error .notText

structure Directory where
  files : List (String × List UInt8) := []
  deriving DecidableEq, Repr

namespace Directory

/-- Where a path leads. -/
inductive Place where
  /-- The directory itself. -/
  | here
  /-- A directory above, by the way there: `/`, or `../` some times. -/
  | above (way : String)
  | file (name : String)
  /-- A name that no file has. -/
  | free (name : String)
  deriving DecidableEq, Repr

def get? (directory : Directory) (name : String) : Option (List UInt8) :=
  directory.files.lookup name

def named (directory : Directory) (name : String) : Place :=
  if (directory.get? name).isSome then .file name else .free name

def step (directory : Directory) (place : Place) (part : String) :
    Except FileFault Place :=
  match place with
  | .file _ => .error .belowFile
  | .free _ => .error .missing
  | .here =>
      if part = "" ∨ part = "." then .ok .here
      else if part = ".." then .ok (.above "../")
      else .ok (directory.named part)
  | .above way =>
      if part = "" ∨ part = "." then .ok (.above way)
      else if part = ".." then
        .ok (.above (if way = "/" then way else way ++ "../"))
      else .ok (directory.named (way ++ part))

def follow (directory : Directory) (parts : List String) :
    Except FileFault Place :=
  let start : Place :=
    if parts.head? = some "" then .above "/" else .here
  parts.foldlM directory.step start

def parts (path : String) : List String :=
  (Text.splitWhere (· == '/') path.toList).map String.ofList

/-- The path without the slashes at its end. -/
def trimSlashes (path : String) : String :=
  String.ofList (path.toList.reverse.dropWhile (· == '/')).reverse

def read (directory : Directory) (path : String) :
    Except FileFault (List UInt8) := do
  if path = "" then
    throw .missing
  match ← directory.follow (parts path) with
  | .file name => return (directory.get? name).getD []
  | .here | .above _ => throw .isDirectory
  | .free _ => throw .missing

/-- Create a file or replace what it holds. -/
def put (directory : Directory) (name : String) (bytes : List UInt8) :
    Directory :=
  if (directory.get? name).isSome then
    ⟨directory.files.map fun (other, old) =>
      (other, if other = name then bytes else old)⟩
  else
    ⟨directory.files ++ [(name, bytes)]⟩

/-- Open a file for writing: it is there afterwards, and empty.  A path with
slashes at its end never means a file, but a fault on the way to its last part
comes first. -/
def create (directory : Directory) (path : String) :
    Except FileFault (String × Directory) := do
  if path = "" then
    throw .missing
  let place ← directory.follow (parts (trimSlashes path))
  if path.toList.getLast? = some '/' then
    throw .isDirectory
  match place with
  | .file name | .free name => return (name, directory.put name [])
  | .here | .above _ => throw .isDirectory

/-- Add to what a file holds. -/
def store (directory : Directory) (name : String) (bytes : List UInt8) :
    Directory :=
  directory.put name ((directory.get? name).getD [] ++ bytes)

def readText (directory : Directory) (path : String) :
    Except FileFault String := do
  fileText (← directory.read path)

/-- The files in the directory itself that are new or hold something else than
before. -/
def changes (before after : Directory) : List (String × List UInt8) :=
  after.files.filter fun (name, bytes) =>
    !name.toList.contains '/' && before.get? name != some bytes

end Directory

end TriggerScript
