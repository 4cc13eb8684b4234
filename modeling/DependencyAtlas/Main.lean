import DependencyAtlas.Command.Program

set_option autoImplicit false

namespace DependencyAtlas.Command

def readContent (path : String) : IO Document.Content := do
  try
    return .ok (← IO.FS.readBinFile path)
  catch
    | .noFileOrDirectory .. => return .error .missing
    | .inappropriateType _ code reason | .permissionDenied _ code reason =>
      return .error (.system s!"{reason} (os error {code})")
    | e => return .error (.system (toString e))

def Failure.lines (f : Failure) : List String :=
  let causes := match f.causes with
    | [cause] => ["    " ++ cause]
    | causes => causes.zipIdx.map fun (cause, index) => s!"    {index}: {cause}"
  ("Error: " ++ f.message) :: (if causes = [] then [] else "" :: "Caused by:" :: causes)

end DependencyAtlas.Command

open DependencyAtlas Command in
def main (args : List String) : IO UInt32 := do
  let paths := match Invocation.parse args with
    | .ok i => i.task.files
    | .error _ => []
  let contents ← paths.mapM fun path => return (path, ← readContent path)
  let report := Command.run (fun path => (contents.lookup path).getD (.error .missing)) args
  for e in report.events do IO.eprintln e.line
  match report.ending with
  | .done output => IO.print output
  | .failed f => f.lines.forM IO.eprintln
  | .misused e => IO.eprintln s!"error: {e.message}"
  return report.ending.code.toUInt32
