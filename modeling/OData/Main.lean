import OData.Request.Load
import OData.Session

/-!
# The command line

With an argument, the query of the request in that file is printed. Without one, a session runs on
the standard input.
-/

namespace OData

/-- What stands at a path of the file system. -/
def fileContent (path : String) : IO FileContent := do
  try
    return .bytes (← IO.FS.readBinFile path)
  catch
    | .noFileOrDirectory .. => return .missing
    | .inappropriateType .. => return .unreadable .directory
    | e => return .unreadable (.other (toString e))

def runFile (path : String) : IO UInt32 := do
  match Request.ofFile path (← fileContent path) with
  | .ok request =>
    match request.build.outcome with
    | .ok url =>
      IO.println url
      return 0
    | .error e =>
      IO.eprintln e.message
      return 1
  | .error e =>
    IO.eprintln (e.report ("加载请求配置失败: " ++ path))
    return 1

/-- Answers line by line, so that a session can be led by hand. -/
partial def runSession (input : IO.FS.Stream) (session : Session) : IO Unit := do
  let line ← input.getLine
  unless line.isEmpty do
    if let some (next, printed) := session.step line then
      printed.forM IO.println
      runSession input next

end OData

def main (args : List String) : IO UInt32 := do
  match args with
  | path :: _ => OData.runFile path
  | [] =>
    OData.Session.banner.forM IO.println
    OData.runSession (← IO.getStdin) {}
    return 0
