import HashBoard.Environment
import HashBoard.Event.Line
import HashBoard.Text.Split

/-!
# Choosing log lines

Which lines of the log are shown is said by directives between commas: a level, the name of a part
of the program, or a part and its level with an equals sign between them. A directive speaks for
every part whose full name begins with its own; a level alone speaks for all. Of the directives that
speak for a part the one with the longest name decides, and of equally long ones the last.

What is no directive is skipped. If nothing is left, everything up to `Level.info` is shown.
-/

namespace HashBoard

open Text

namespace Level

/-- A level by its name in any case or by its rank counted from one. `off` and zero stand for
showing nothing. -/
def named? (name : List Char) : Option (Option Level) :=
  match String.ofList (name.map Environment.lowered) with
  | "off" | "0" => some none
  | "error" | "1" => some (some .error)
  | "warn" | "2" => some (some .warn)
  | "info" | "3" => some (some .info)
  | "debug" | "4" => some (some .debug)
  | "trace" | "5" => some (some .trace)
  | _ => none

end Level

/-- What is shown of the parts whose full name begins with a text. -/
structure Directive where
  /-- What the name begins with. -/
  part : List Char := []
  /-- The least severe level that is shown, if any is. -/
  level : Option Level
  deriving DecidableEq, Repr

namespace Directive

/-- Reads a directive. A part without a level is shown completely. -/
def ofText? (text : List Char) : Option Directive :=
  let text := trim text
  match splitFirst? '=' text with
  | some (part, level) => (Level.named? level).map fun level ↦ { part, level }
  | none =>
    if text.isEmpty then none
    else match Level.named? text with
      | some level => some { level }
      | none => some { part := text, level := some .trace }

/-- Whether a directive speaks for a part. -/
def speaksFor (part : List Char) (d : Directive) : Bool := d.part.isPrefixOf part

/-- The one of two directives that decides where both speak; `d` is the later one. -/
def prevailing (best : Option Directive) (d : Directive) : Option Directive :=
  match best with
  | some b => if b.part.length ≤ d.part.length then some d else some b
  | none => some d

end Directive

/-- Which lines are shown. -/
structure LogFilter where
  /-- The directives, in the order they were given. -/
  directives : List Directive

namespace LogFilter

/-- Reads directives between commas. -/
def ofText (text : List Char) : LogFilter :=
  match (pieces ',' text).filterMap Directive.ofText? with
  | [] => ⟨[{ level := some .info }]⟩
  | directives => ⟨directives⟩

/-- Whether a line is shown. -/
def shows (f : LogFilter) (l : Line) : Bool :=
  match (f.directives.filter (·.speaksFor l.part.toList)).foldl Directive.prevailing none with
  | some { level := some level, .. } => l.level.rank ≤ level.rank
  | some { level := none, .. } | none => false

end LogFilter

end HashBoard
