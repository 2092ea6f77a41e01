import SourceSurvey.Descriptor.Project
import SourceSurvey.Json.Value

/-! The fields under which a project is reported, the ecosystem first. -/

namespace SourceSurvey

open Json Descriptor

namespace Descriptor

def ProjectReference.toJson (r : ProjectReference) : Value :=
  .record [field "include" (.text r.included), field "name" (.ofOption .text r.name),
    field "project_guid" (.ofOption .text r.guid)]

/-- A package is included under its name. -/
def PackageReference.toJson (r : PackageReference) : Value :=
  .record [field "name" (.text r.name), field "version" (.ofOption .text r.version),
    field "include" (.text r.name)]

def Csproj.fields (p : Csproj) : List (Option (Text × Value)) :=
  [field "csproj_path" (.text p.path), field "dir" (.text p.dir),
    field "assembly_name" (.ofOption .text p.assemblyName),
    field "root_namespace" (.ofOption .text p.rootNamespace),
    field "target_frameworks" (.texts p.targetFrameworks),
    field "output_type" (.ofOption .text p.outputType),
    field "project_references" (.ofList ProjectReference.toJson p.projectReferences),
    field "package_references" (.ofList PackageReference.toJson p.packageReferences)]

def Coordinates.fields (c : Coordinates) : List (Option (Text × Value)) :=
  [field "groupId" (.ofOption .text c.group), field "artifactId" (.ofOption .text c.artifact),
    field "version" (.ofOption .text c.version)]

def Coordinates.keyFields (c : Coordinates) : List (Option (Text × Value)) :=
  [field "ga" (.ofOption .text c.ga?), field "gav" (.ofOption .text c.gav?)]

def PomParent.toJson (p : PomParent) : Value :=
  .record (p.coordinates.fields ++ [field "relativePath" (.ofOption .text p.relativePath)])

def Dependency.toJson (d : Dependency) : Value :=
  .record (d.coordinates.fields ++
    [field "scope" (.text d.scope), field "type" (.text d.kind),
      field "optional" (.bool d.isOptional)] ++
    d.coordinates.keyFields)

def Pom.fields (p : Pom) : List (Option (Text × Value)) :=
  [field "pom_path" (.text p.path), field "dir" (.text p.dir)] ++ p.coordinates.fields ++
    [field "name" (.ofOption .text p.name), field "packaging" (.text p.packaging),
      field "parent" (.ofOption PomParent.toJson p.parent), field "modules" (.texts p.modules),
      field "dependencies" (.ofList Dependency.toJson p.dependencies)] ++
    p.coordinates.keyFields

end Descriptor

namespace Project

def fields (p : Project) : List (Option (Text × Value)) :=
  field "ecosystem" (.text p.ecosystem.name) ::
    match p with
    | dotnet p => p.fields
    | maven p => p.fields

def toJson (p : Project) : Value := .record p.fields

end Project

end SourceSurvey
