import OData.Request.Basic
import OData.Text.Blank

/-!
# Sessions

A session reads lines. A line that starts with `:base` sets or clears the address, `:quit` or `:q`
ends the session, and every other line that is not blank is a query document, answered by what it
builds or by its error. Blanks at the ends of a line do not count. The address is all that one line
leaves to the next.
-/

namespace OData

structure Session where
  baseUrl : Option String := none
deriving DecidableEq, Repr

namespace Session

/-- What a session prints before the first line. -/
def banner : List String :=
  ["--- OData 查询构建器 ---",
    "输入 JSON 查询文档, 例如: \x7b\"filter\": \x7b\"name\": \"John\"\x7d, \"top\": 10\x7d",
    "命令: :base <url> 设置基础URL, :base 清除, :quit 退出",
    ""]

inductive Command where
  | blank
  | quit
  | setBase (baseUrl : Option String)
  | query (document : String)
deriving DecidableEq, Repr

/-- The command in a line. What follows `:base` is the address, also without a space between. -/
def Command.ofLine (line : String) : Command :=
  let line := Text.trim line
  if line.isEmpty then blank
  else if line = ":quit" ∨ line = ":q" then quit
  else
    match dropWord ":base".toList line.toList with
    | some rest =>
      let base := String.ofList (Text.trimBlanks rest)
      setBase (if base.isEmpty then none else some base)
    | none => query line
where
  /-- What follows a word at the front of a text. -/
  dropWord : List Char → List Char → Option (List Char)
    | [], s => some s
    | _ :: _, [] => none
    | c :: word, d :: s => if c = d then dropWord word s else none

/-- The answer to a document: one line per diagnostic and then the query, or the error. -/
def answer (baseUrl : Option String) (document : String) : List String :=
  match (Document.optionsOfText document).outcome with
  | .error e => ["✗ 解析失败: " ++ e.message]
  | .ok options =>
    let compiled := options.compile
    compiled.diagnostics.map (fun d => "⚠️ " ++ d.message) ++
      [Request.locate baseUrl compiled.value]

def confirmation : Option String → String
  | some base => "基础URL: " ++ base
  | none => "已清除基础URL"

/-- The session after a line and what it prints, or `none` if the line ends it. -/
def step (session : Session) (line : String) : Option (Session × List String) :=
  match Command.ofLine line with
  | .blank => some (session, [])
  | .quit => none
  | .setBase base => some (⟨base⟩, [confirmation base])
  | .query document => some (session, answer session.baseUrl document)

/-- All that a session prints in answer to lines. -/
def run (session : Session) : List String → List String
  | [] => []
  | line :: rest =>
    match session.step line with
    | some (next, printed) => printed ++ next.run rest
    | none => []

/-- The lines of an input, each ended by a line feed. What stands behind the last one is a line too,
unless it is empty. -/
def linesOf (input : String) : List String :=
  let pieces := input.toList.splitOn '\n'
  let ended := if pieces.getLast? = some [] then pieces.dropLast else pieces
  ended.map String.ofList

/-- All that a session on this input prints. -/
def transcript (input : String) : List String := banner ++ run {} (linesOf input)

end Session

end OData
