import SourceSurvey.Descriptor.Csproj
import SourceSurvey.Descriptor.Ecosystem
import SourceSurvey.Descriptor.Pom
import SourceSurvey.Path.Basic
import SourceSurvey.Xml.Root

/-! Projects of either ecosystem, read from the text of their descriptors, and the reasons why a
descriptor gives no project. -/

namespace SourceSurvey

open Text Descriptor

inductive Project where
  | dotnet (p : Csproj)
  | maven (p : Pom)
deriving DecidableEq, Repr

/-- Why a descriptor gives no project. -/
inductive DescriptorError where
  | unreadable (path reason : Text)
  | malformed (path reason : Text)
deriving DecidableEq, Repr

namespace DescriptorError

def path : DescriptorError → Text
  | unreadable path _ => path
  | malformed path _ => path

def code : DescriptorError → Text
  | unreadable .. => "MER-XML-002".toList
  | malformed .. => "MER-XML-001".toList

def message : DescriptorError → Text
  | unreadable path reason => "cannot read descriptor ".toList ++ path ++ [':', ' '] ++ reason
  | malformed path reason => "malformed descriptor ".toList ++ path ++ [':', ' '] ++ reason

end DescriptorError

namespace Project

def ecosystem : Project → Ecosystem
  | dotnet _ => .dotnet
  | maven _ => .maven

/-- The path of the descriptor. -/
def path : Project → Text
  | dotnet p => p.path
  | maven p => p.path

/-- The directory of the descriptor. -/
def dir : Project → Text
  | dotnet p => p.dir
  | maven p => p.dir

/-- The short name of a project: its assembly or file, or its coordinates, artifact or directory. -/
def displayName : Project → Text
  | dotnet p => p.assemblyName.getD ((Path.fileStem? p.path).getD p.path)
  | maven p => (p.coordinates.gav?.or p.coordinates.artifact).getD p.dir

/-- The project that a descriptor text at a path describes. -/
def parse (ecosystem : Ecosystem) (path t : Text) : Except DescriptorError Project :=
  let dir := (Path.parent? path).getD []
  match Xml.root t with
  | .error fault => .error (.malformed path fault.message)
  | .ok root =>
    match ecosystem with
    | .dotnet => .ok (.dotnet (Csproj.ofRoot path dir root))
    | .maven => .ok (.maven (Pom.ofRoot path dir root))

end Project

end SourceSurvey
