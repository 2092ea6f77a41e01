import SourceSurvey.Json.Value
import SourceSurvey.Source.Declaration

/-! The fields under which the declarations of a file are reported. Lists and options that say
nothing are left out where a reader takes their absence for granted. -/

namespace SourceSurvey.Source

open Json

def Parameter.toJson (p : Parameter) : Value :=
  .record [field "raw" (.text p.raw), fieldOf? "type" .text p.typeName,
    fieldOf? "name" .text p.name,
    flag "variadic" p.variadic, fieldOfList "modifiers" .text p.modifiers,
    fieldOfList "attributes" .text p.attributes]

def Method.toJson (m : Method) : Value :=
  .record [field "name" (.text m.name), field "modifiers" (.texts m.modifiers),
    fieldOf? "type_params" .text m.typeParameters, field "return_type" (.text m.returnType),
    field "parameters" (.ofList Parameter.toJson m.parameters), fieldOfList "throws" .text m.throws,
    field "attributes" (.texts m.attributes), field "prototype" (.text m.prototype),
    field "line" (.number m.line)]

def Constructor.toJson (c : Constructor) : Value :=
  .record [field "name" (.text c.name), field "modifiers" (.texts c.modifiers),
    fieldOf? "type_params" .text c.typeParameters,
    field "parameters" (.ofList Parameter.toJson c.parameters), fieldOfList "throws" .text c.throws,
    field "attributes" (.texts c.attributes), field "prototype" (.text c.prototype),
    field "line" (.number c.line)]

def TypeDeclaration.toJson (d : TypeDeclaration) : Value :=
  .record [field "kind" (.text d.kind.name), field "name" (.text d.name),
    field "modifiers" (.texts d.modifiers), fieldOf? "type_params" .text d.typeParameters,
    fieldOfList "base_types" .text d.baseTypes, fieldOfList "extends" .text d.parents,
    fieldOfList "implements" .text d.interfaces, fieldOfList "permits" .text d.permitted,
    fieldOfList "record_components" Parameter.toJson d.recordComponents,
    field "attributes" (.texts d.attributes), field "methods" (.ofList Method.toJson d.methods),
    field "constructors" (.ofList Constructor.toJson d.constructors), field "line" (.number d.line)]

def FileSummary.toJson (f : FileSummary) : Value :=
  .record [field "path" (.text f.path), field "language" (.text f.language.name),
    field "namespace" (.ofOption .text f.scope),
      field "types" (.ofList TypeDeclaration.toJson f.types),
    fieldOf? "error" .text f.error]

end SourceSurvey.Source
