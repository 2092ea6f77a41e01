import SourceSurvey.Text.Basic

/-! The texts with which the program describes itself. -/

namespace SourceSurvey.CommandLine

open Text

def usageLines : List String :=
  ["Meridian - Structural inspector for .NET and Maven source trees",
    "",
    "Usage:",
    "  meridian <command> [arguments]",
    "  meridian [scan arguments]",
    "  meridian --help",
    "  meridian --version",
    "",
    "  meridian scan [--dir <DIR>] [--out <PATH>] [--ecosystem dotnet|maven|all] [--exclude <GLOB>]... [--compact] [--sequential] [--output human|json]",
    "  meridian inspect --file <PATH> [--output human|json]",
    "",
    "Commands:",
    "  scan      Scan a tree and write a JSON report (default)",
    "  inspect   Print the declarations extracted from one source file",
    "",
    "Scan arguments:",
    "  --dir, --root <DIR>   Application root directory (default: current directory)",
    "  --out <PATH>          Report path (default: appinfo_YYYYMMDDHHMMSS.json)",
    "  --ecosystem <NAME>    dotnet, maven or all (default: all)",
    "  --exclude <GLOB>      Skip sources matching GLOB, relative to each project (repeatable)",
    "  --compact             Write compact JSON instead of pretty-printed",
    "  --sequential          Extract files on one thread",
    "  --output <FORMAT>     human (default) or json (also print the report on stdout)",
    "",
    "Inspect arguments:",
    "  --file <PATH>         .cs or .java file to extract",
    "  --output <FORMAT>     human (default) or json",
    "",
    "Logging:",
    "  MERIDIAN_LOG / RUST_LOG   tracing filter, e.g. MERIDIAN_LOG=debug (default: warn)"]

def usage : Text := ofLines (usageLines.map String.toList)

/-- The program, its release and the build. -/
def versionLine (build : Text) : Text := "meridian 0.4.2 (".toList ++ build ++ [')']

end SourceSurvey.CommandLine
