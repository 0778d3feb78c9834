import OData.Session
import Mathlib.Data.List.Basic

/-!
# What a session prints

A session prints one block for each line, up to the line that ends it. `Session.run_eq_flatMap` says
what the block of a line is: it depends on the line and on the address in force, and that address
comes from the last line before that starts with `:base`. All other lines before it, whether they
failed or not, leave nothing behind.
-/

namespace OData

namespace Session

def isQuit (line : String) : Bool := Text.trim line = ":quit" || Text.trim line = ":q"

/-- The address in a line that starts with `:base`. Blanks alone clear the address. -/
def baseIn? (line : String) : Option (Option String) :=
  let text := (Text.trim line).toList
  if ":base".toList <+: text then
    let address := String.ofList (Text.trimBlanks (text.drop ":base".length))
    some (if address = "" then none else some address)
  else none

/-- The address in force behind some lines, of which the last one that sets it counts. -/
def baseAfter (base : Option String) (lines : List String) : Option String :=
  (lines.filterMap baseIn?).getLast?.getD base

/-- What is printed for a line that does not end the session. -/
def block (base : Option String) (line : String) : List String :=
  if Text.trim line = "" then []
  else
    match baseIn? line with
    | some new => [confirmation new]
    | none => answer base (Text.trim line)

/-- The lines before the one that ends the session, if there is one. -/
def heard (lines : List String) : List String := lines.takeWhile fun line => !isQuit line

theorem dropWord_eq (word s : List Char) :
    Command.ofLine.dropWord word s = if word <+: s then some (s.drop word.length) else none := by
  induction word generalizing s with
  | nil => simp [Command.ofLine.dropWord]
  | cons c word ih =>
      cases s with
      | nil => simp [Command.ofLine.dropWord]
      | cons d s =>
          by_cases h : c = d
          · subst h
            simp [Command.ofLine.dropWord, ih]
          · simp [Command.ofLine.dropWord, h]

theorem Command.ofLine_eq (line : String) :
    Command.ofLine line =
      if Text.trim line = "" then .blank
      else if isQuit line then .quit
      else
        match baseIn? line with
        | some new => .setBase new
        | none => .query (Text.trim line) := by
  rw [Command.ofLine, isQuit, baseIn?]
  simp only [dropWord_eq, String.isEmpty_iff, Bool.or_eq_true, decide_eq_true_eq]
  by_cases base : ":base".toList <+: (Text.trim line).toList
  · simp only [base, if_true, String.length_toList]
  · simp only [base, if_false]

/-- A line ends the session, or prints its block and sets the address if it starts with `:base`. -/
theorem step_eq (session : Session) (line : String) :
    session.step line =
      if isQuit line then none
      else some (⟨(baseIn? line).getD session.baseUrl⟩, block session.baseUrl line) := by
  rw [step, Command.ofLine_eq, block]
  by_cases blank : Text.trim line = ""
  · have goesOn : isQuit line = false := by simp [isQuit, blank]
    have setsNothing : baseIn? line = none := by simp [baseIn?, blank]
    simp [blank, goesOn, setsNothing]
  · cases quit : isQuit line with
    | true => simp [blank]
    | false =>
        cases base : baseIn? line with
        | some new => simp [blank]
        | none => simp [blank]

theorem baseAfter_cons (base : Option String) (line : String) (rest : List String) :
    baseAfter base (line :: rest) = baseAfter ((baseIn? line).getD base) rest := by
  rw [baseAfter, baseAfter, List.filterMap_cons]
  cases baseIn? line with
  | none => rfl
  | some new => rw [List.getLast?_cons, Option.getD_some, Option.getD_some]

/-- What a session prints from some address on. -/
theorem run_eq (session : Session) (lines : List String) :
    session.run lines = ((heard lines).inits.zip (heard lines)).flatMap fun (earlier, line) =>
      block (baseAfter session.baseUrl earlier) line := by
  induction lines generalizing session with
  | nil => rfl
  | cons line rest ih =>
      rw [run, step_eq, heard, List.takeWhile_cons]
      cases h : isQuit line with
      | true => rfl
      | false =>
          simp only [Bool.not_false, if_true, Bool.false_eq_true, if_false]
          rw [ih, ← heard, List.inits, List.zip_cons_cons, List.flatMap_cons, List.zip_map_left,
            List.flatMap_map]
          simp only [Prod.map, baseAfter_cons, id]
          rfl

/-- The lines up to the one that ends the session are answered one by one, each under the address
that the lines before it have left. -/
theorem run_eq_flatMap (lines : List String) :
    run {} lines = ((heard lines).inits.zip (heard lines)).flatMap fun (earlier, line) =>
      block (baseAfter none earlier) line :=
  run_eq {} lines

/-- The address outlives a document that cannot be read. -/
example : run {} [" :base https://x ", "", "\x7b", "\x7b\"top\":1\x7d", ":q", "\x7b\x7d"] =
    ["基础URL: https://x", "✗ 解析失败: invalid JSON", "https://x?$top=1"] := by
  decide +kernel

end Session

end OData
