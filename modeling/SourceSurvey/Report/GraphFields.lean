import SourceSurvey.Graph.Relations
import SourceSurvey.Json.Value

/-! The fields under which relations are reported. Parent links and modules are left out where
there are none. -/

namespace SourceSurvey.Graph

open Json

def ReferenceEdge.toJson (e : ReferenceEdge) : Value :=
  .record [field "from" (.text e.source), field "to" (.text e.target),
    field "resolved" (.bool e.resolved),
    field "name" (.ofOption .text e.name), field "project_guid" (.ofOption .text e.guid)]

def DependencyEdge.toJson (e : DependencyEdge) : Value :=
  .record [field "from" (.text e.source), field "to" (.text e.target),
    field "version" (.ofOption .text e.version), field "scope" (.ofOption .text e.scope),
    field "internal" (.bool e.internal)]

def ParentEdge.toJson (e : ParentEdge) : Value :=
  .record [field "parent" (.text e.parent), field "child" (.text e.child)]

def ModuleEdge.toJson (e : ModuleEdge) : Value :=
  .record [field "aggregator" (.ofOption .text e.aggregator), field "module_path" (.text e.path)]

def Relations.toJson (r : Relations) : Value :=
  .record [field "project_references" (.ofList ReferenceEdge.toJson r.references),
    field "dependencies" (.ofList DependencyEdge.toJson r.dependencies),
    fieldOfList "parent_child" ParentEdge.toJson r.parents,
    fieldOfList "module_inclusion" ModuleEdge.toJson r.modules]

end SourceSurvey.Graph
