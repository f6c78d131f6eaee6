import Archivist.CommandLine.Output
set_option autoImplicit false

namespace Archivist.CommandLine

def environmentName : String := "FLEETFS_ARCHIVE_CONFIG"

def ioError : IO.Error → IoError
  | .noFileOrDirectory _ _ _ => .notFound
  | .inappropriateType _ _ _ => .isDirectory
  | e => .other (toString e)

def fetch (path : String) : BaseIO (String × Except IoError (List UInt8)) := do
  match ← (IO.FS.readBinFile path).toBaseIO with
  | .ok bytes => return (path, .ok bytes.data.toList)
  | .error e => return (path, .error (ioError e))

def fetchAll (paths : List String) : BaseIO Files := do
  let found ← paths.mapM fetch
  return fun path => (found.lookup path).getD (.error .notFound)

def perform (command : Command) : IO UInt32 := do
  match output (← fetchAll command.paths) Clock.standard command with
  | .ok lines =>
    for line in lines do
      IO.println line
    return 0
  | .error f =>
    IO.eprintln s!"Error: {f.message}"
    return 1

end Archivist.CommandLine

def main (args : List String) : IO UInt32 := do
  let environment ← IO.getEnv Archivist.CommandLine.environmentName
  match Archivist.CommandLine.read args environment with
  | .ok command => Archivist.CommandLine.perform command
  | .error .help => do
    IO.println Archivist.CommandLine.ArgumentFault.help.message
    return 0
  | .error f => do
    IO.eprintln f.message
    return 2
