import Manuscript.Document.Resolve
import Manuscript.Project.Failure

/-! What a compiler reports while it works. -/

namespace Manuscript

inductive LogEvent where
  | resolve (event : ResolveEvent)
  | loaded (path : String) (size : Nat)
  | included (path source : String) (cached : Bool)
  | pageBuilt (path output : String)
  | pageFailed (path : String) (failure : Failure)

inductive LogField where
  | text (value : String)
  | number (value : Nat)
  | flag (value : Bool)

/-- An event as it is written to a log. -/
structure LogRecord where
  level : String
  message : String
  fields : List (String × LogField)

namespace LogEvent

def record : LogEvent → LogRecord
  | resolve (.resolved command args) =>
    ⟨"debug", "command resolved", [("command", .text command), ("args", .number args)]⟩
  | resolve (.unresolved command path) =>
    ⟨"debug", "command is not resolved", [("command", .text command), ("path", .text path)]⟩
  | loaded path size => ⟨"debug", "file loaded", [("path", .text path), ("size", .number size)]⟩
  | included path source cached =>
    ⟨"debug", "file included", [("path", .text path), ("from", .text source), ("cached", .flag cached)]⟩
  | pageBuilt path output => ⟨"info", "page is built", [("path", .text path), ("output", .text output)]⟩
  | pageFailed path failure =>
    ⟨"error", "page is not built", [("error", .text failure.message), ("path", .text path)]⟩

end LogEvent
end Manuscript
