import SvgKit.Json.Basic
import SvgKit.Lint.Basic

/-! Lint reports as they are shown. -/

namespace SvgKit.Lint

/-- An issue; without a suggestion there is a null. -/
def Issue.toJson (i : Issue) : Json :=
  .object
    [ ("severity", .string i.severity.name),
      ("code", .string i.code),
      ("message", .string i.message),
      ("suggestion", (i.suggestion.map Json.string).getD .null) ]

/-- The numbers of issues by severity. -/
def Report.summary (r : Report) : Json :=
  .object
    [ ("errors", .int (r.count .error)),
      ("warnings", .int (r.count .warning)),
      ("info", .int (r.count .info)) ]

/-- A report. -/
def Report.toJson (r : Report) : Json :=
  .object
    [ ("valid", .bool r.valid),
      ("issues", .array (r.issues.map Issue.toJson)),
      ("summary", r.summary) ]

/-- The lines that tell of an issue: a suggestion has one of its own. -/
def Issue.lines (i : Issue) : List Text :=
  let severity := i.severity.name
  let padded := severity ++ List.replicate (7 - severity.length) ' '
  (padded ++ " " ++ i.code ++ ": " ++ i.message)
    :: (i.suggestion.toList.filter (!·.isEmpty)).map fun s => List.replicate 8 ' ' ++ s

/-- The lines of a report; the last one counts the issues. -/
def Report.lines (r : Report) : List Text :=
  r.issues.flatMap Issue.lines
    ++ [Text.ofNat (r.count .error) ++ " error(s), " ++ Text.ofNat (r.count .warning)
      ++ " warning(s), " ++ Text.ofNat (r.count .info) ++ " info"]

end SvgKit.Lint
