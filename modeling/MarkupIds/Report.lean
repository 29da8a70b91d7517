import MarkupIds.Files.Path

/-! What a run tells about its files. -/

namespace MarkupIds

/-- What came of a file. -/
structure FileReport where
  path : Path
  format : Option String := none
  target : Option Path := none
  problem : Option String := none

namespace FileReport

def isSuccess (r : FileReport) : Bool := r.problem.isNone

def orNone (s : Option String) : String := s.getD "None"

/-- The line that tells what came of a file. -/
def line (r : FileReport) : String :=
  match r.problem with
  | some problem => "ERROR: failed to process " ++ r.path.toString ++ ": " ++ problem
  | none =>
    "OK: processed " ++ r.path.toString ++ " as " ++ orNone r.format ++ " -> " ++
      orNone (r.target.map Path.toString)

def failures (reports : List FileReport) : Nat := reports.countP fun r => !r.isSuccess

/-- The line that ends a run. -/
def summary (reports : List FileReport) : String :=
  let failed := failures reports
  let status := if failed == 0 then "INFO" else "WARNING"
  status ++ ": processed " ++ toString (reports.length - failed) ++ " file(s) successfully, " ++
    toString failed ++ " error(s)"

end FileReport

end MarkupIds
