import ResourceApi.CommandLine.Run

/-!
# The command line program

Runs a call on the files of the machine.
-/

namespace ResourceApi.CommandLine

def faultOf : IO.Error → FileFault
  | .noFileOrDirectory .. => .missing
  | .alreadyExists .. => .present
  | .inappropriateType .. => .isDirectory
  | error => .other (toString error)

def attempt (action : IO α) : IO (Except FileFault α) := do
  try
    return .ok (← action)
  catch error => return .error (faultOf error)

def machineFiles : FileAccess IO where
  read path := attempt (IO.FS.readFile path)
  createDirectory path := attempt (IO.FS.createDirAll path)
  write path text := attempt (IO.FS.writeFile path text)

end ResourceApi.CommandLine

def main (arguments : List String) : IO UInt32 := do
  let outcome ← ResourceApi.CommandLine.run ResourceApi.CommandLine.machineFiles arguments
  IO.print outcome.console.output
  IO.eprint outcome.console.messages
  return outcome.exitCode.toUInt32
