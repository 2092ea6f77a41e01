import SourceSurvey.Json.Value

/-! The envelope of a result that is printed as JSON: the version of the schema, the run that
produced it, and the tool. -/

namespace SourceSurvey.Report

open Json

def schemaVersion : Text := "1.0.0".toList

def toolName : Text := "meridian".toList

/-- A result inside its envelope. -/
def response (run : Text) (data : Value) : Value :=
  .record [field "schema_version" (.text schemaVersion), field "execution_id" (.text run),
    field "tool" (.text toolName), field "data" data]

end SourceSurvey.Report
