import OData.Request.Reader

/-!
# Loading requests from files

A file holds a request if it can be read, its bytes are a text, the text is a request and the query
of the request is a valid document. Each of these can fail, and the error names the file. A report
of the error lists its causes from the outermost to the innermost.
-/

namespace OData

/-- Why the content of a file cannot be had. -/
inductive FileFault where
  | directory
  | notText
  | other (message : String)
deriving DecidableEq, Repr

def FileFault.message : FileFault → String
  | directory => "Is a directory (os error 21)"
  | notText => "stream did not contain valid UTF-8"
  | other message => message

/-- What stands at a path. -/
inductive FileContent where
  | missing
  | unreadable (fault : FileFault)
  | bytes (content : ByteArray)

inductive LoadError where
  | missing (path : String)
  | unreadable (path : String) (cause : FileFault)
  | malformed (path : String) (cause : Json.ReadError)
  | query (path : String) (cause : DocumentError)
deriving DecidableEq, Repr

namespace LoadError

def message : LoadError → String
  | missing path => "配置文件不存在: " ++ path
  | unreadable path cause => "无法读取配置文件 " ++ path ++ ": " ++ cause.message
  | malformed path cause => "无法解析JSON配置文件 " ++ path ++ ": " ++ cause.message
  | query path cause => "配置文件 " ++ path ++ " 中的查询无效: " ++ cause.message

/-- The messages of the causes behind an error. A faulty date has a cause of its own. -/
def causes : LoadError → List String
  | missing _ => []
  | unreadable _ cause => [cause.message]
  | malformed _ cause => [cause.message]
  | query _ (.date path text cause) => [(DocumentError.date path text cause).message, cause.message]
  | query _ (.json cause) => [(DocumentError.json cause).message, cause.message]
  | query _ cause => [cause.message]

/-- A cause with its number in front, if it has one. Further lines of the cause are set in as far as
the first. -/
def causeLine (number : Option Nat) (cause : String) : String :=
  match number with
  | some n => "    " ++ toString n ++ ": " ++ (cause.replace "\n" "\n       ")
  | none => "    " ++ cause.replace "\n" "\n    "

/-- The report of an error: a heading and the error with its causes, which are numbered if there are
several. -/
def report (heading : String) (error : LoadError) : String :=
  let lines := match error.causes with
    | [] => [causeLine none error.message]
    | causes => (error.message :: causes).mapIdx fun n cause => causeLine (some n) cause
  "\n".intercalate (["Error: " ++ heading, "", "Caused by:"] ++ lines)

end LoadError

namespace Request

/-- The request in a file, which is only handed out if it builds. -/
def ofFile (path : String) : FileContent → Except LoadError Request
  | .missing => .error (.missing path)
  | .unreadable fault => .error (.unreadable path fault)
  | .bytes content =>
    match String.fromUTF8? content with
    | none => .error (.unreadable path .notText)
    | some text =>
      match ofText text with
      | .error cause => .error (.malformed path cause)
      | .ok request =>
        match request.options.outcome with
        | .error cause => .error (.query path cause)
        | .ok _ => .ok request

end Request

end OData
