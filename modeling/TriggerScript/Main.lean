import TriggerScript.Command.Run

/-!
# The command line on real files
-/

namespace TriggerScript.Command

def faultOf : IO.Error → FileFault
  | .noFileOrDirectory .. => .missing
  | .inappropriateType _ code _ =>
      if code = 21 then .isDirectory else .belowFile
  | error => .other (toString error)

def processHost : Host IO IO.FS.Handle where
  read path := do
    try
      let bytes ← IO.FS.readBinFile path
      return .ok bytes.data.toList
    catch error => return .error (faultOf error)
  create path := do
    try
      return .ok (← IO.FS.Handle.mk path .write)
    catch error => return .error (faultOf error)
  store file bytes := do
    try
      file.write ⟨bytes.toArray⟩
      file.flush
      return .ok ()
    catch error => return .error (faultOf error)
  print text := IO.print text

end TriggerScript.Command

def main (arguments : List String) : IO UInt32 := do
  let status ← TriggerScript.Command.processHost.run arguments
  IO.eprint status.complaint
  return status.code
