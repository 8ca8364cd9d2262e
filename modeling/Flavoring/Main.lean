import Flavoring.CommandLine.Run

/-!
The program: command lines run on the files of the system.
-/

namespace Flavoring.Files

/-- What an error of the system says about a file. -/
def FileError.ofSystem (e : IO.Error) : FileError :=
  match e with
  | .noFileOrDirectory .. => .notFound
  | .alreadyExists .. => .alreadyExists
  | .inappropriateType _ code _ | .invalidArgument _ code _ =>
    if code = 20 then .notAFolder else if code = 21 then .isAFolder else .system (toString e)
  | e => .system (toString e)

/-- Runs an action of the system and keeps its error. -/
def guarded (action : IO α) : IO (Except FileError α) := do
  try return .ok (← action) catch e => return .error (FileError.ofSystem e)

instance : FileSystem IO where
  kind? p := do
    try
      let place ← IO.FS.realPath p.text
      return some (if ← place.isDir then .folder else .file)
    catch _ => return none
  read p := do
    match ← guarded (IO.FS.readBinFile p.text) with
    | .error e => return .error e
    | .ok bytes =>
      match String.fromUTF8? bytes with
      | some text => return .ok text
      | none => return .error .notText
  names p := guarded do
    let place ← IO.FS.realPath p.text
    return (← place.readDir).toList.map (·.fileName)
  makeFolder p := guarded (IO.FS.createDir p.text)
  write p text := guarded (IO.FS.writeFile p.text text)
  canonical? p := do
    try return some ⟨toString (← IO.FS.realPath p.text)⟩ catch _ => return none
  workingFolder := return ⟨toString (← IO.currentDir)⟩
  -- no path that a system takes is longer
  depthBound := return 4096

end Flavoring.Files

def main (args : List String) : IO UInt32 := do
  let outcome ← Flavoring.CommandLine.execute (m := IO) args
  IO.print outcome.output
  for line in outcome.complaints do
    IO.eprintln line
  return outcome.code.toUInt32
