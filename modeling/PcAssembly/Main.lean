import PcAssembly.Program

/-! # The command line

    The world of a real run: files of the file system, variables of the
    process, no price service in reach, and no tables of international host
    names. -/

namespace PcAssembly

/-- Why the file system gives no bytes. -/
def FileFault.ofError : IO.Error → FileFault
  | .noFileOrDirectory .. => .notFound
  | .inappropriateType _ 21 _ => .isDirectory
  | .inappropriateType .. => .notADirectory
  | error => .stated (toString error)

/-- The bytes of a file. -/
def readBytes (path : String) : IO (Except FileFault (List UInt8)) := do
  try
    return .ok (← IO.FS.readBinFile path).toList
  catch error =>
    return .error (.ofError error)

/-- Whether the file system finds something at a path. -/
def isPresent (path : String) : IO Bool := do
  try
    let _ ← IO.FS.realPath path
    return true
  catch _ =>
    return false

/-- The price service that nobody reaches. -/
def PriceService.unreachable : PriceService := fun _ =>
  .failed (.service "error sending request")

/-- The world of the process.  No price query is answered, so the day that
    would bound its window may be any. -/
def World.ofProcess : World IO where
  machine := .usual
  hostNames := .plainOnly
  isThere := isPresent
  fileNamed := readBytes
  envValue? := fun name => IO.getEnv name
  prices := fun _ => .unreachable
  today := Date.ofCivil 1970 1 1

end PcAssembly

/-- Runs the program and passes on what it leaves behind. -/
def main (args : List String) : IO UInt32 := do
  let outcome ← PcAssembly.Program.run PcAssembly.World.ofProcess args
  IO.print outcome.output
  for line in outcome.messages do
    IO.eprintln line
  return outcome.exitCode.toUInt32
