import SourceSurvey.Report.GraphFields
import SourceSurvey.Report.ProjectFields
import SourceSurvey.Report.Response
import SourceSurvey.Report.ScanFields
import SourceSurvey.Scan.Survey

/-! The fields of a survey report. A project has the fields of its descriptor beside those of its
sources; the only field that the tree does not fix is the time at which the report was made. -/

namespace SourceSurvey.Scan

open Json

def ProjectSummary.toJson (p : ProjectSummary) : Value :=
  .record (p.project.fields ++ [field "source_summary" p.sources.toJson])

/-- The report made at a time. -/
def Report.toJson (generatedAt : Text) (r : Report) : Value :=
  .record [field "schema_version" (.text Report.schemaVersion),
    field "generated_at" (.text generatedAt),
    field "root_dir" (.text r.root), field "project_count" (.number r.projects.length),
    field "projects" (.ofList ProjectSummary.toJson r.projects),
      field "relationships" r.relations.toJson,
    field "diagnostics" (.ofList Diagnostic.toJson r.diagnostics)]

end SourceSurvey.Scan
