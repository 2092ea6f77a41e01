import SourceSurvey.Text.Basic

/-! Arguments as a sequence of flags. A flag that takes a value has the argument after it for its
value, whatever that argument looks like. Arguments are read from left to right and the first fault
ends the reading. -/

namespace SourceSurvey.CommandLine

/-- Why a list of arguments is not a command. -/
inductive ArgumentError where
  | unknownCommand (word : Text)
  | unknownArgument (word : Text)
  | missingValue (flag : Text)
  | invalidFormat (word : Text)
  | invalidEcosystem (word : Text)
  | missingFile
deriving DecidableEq, Repr

namespace ArgumentError

def message : ArgumentError → Text
  | unknownCommand word => "Unknown command: ".toList ++ word
  | unknownArgument word => "Unknown argument: ".toList ++ word
  | missingValue flag => flag ++ " requires an argument".toList
  | invalidFormat word =>
      "Invalid output format: ".toList ++ word ++ ". Must be human or json".toList
  | invalidEcosystem word =>
    "Invalid ecosystem: ".toList ++ word ++ ". Must be dotnet, maven or all".toList
  | missingFile => "--file is required".toList

end ArgumentError

/-- What a flag says: by itself, or with a value. -/
inductive Flag (α : Type) where
  | plain (setting : α)
  | valued (read : Text → Except ArgumentError α)

/-- The settings that some arguments make, in order. -/
def readSettings {α : Type} (flags : List (Text × Flag α)) :
    List Text → Except ArgumentError (List α)
  | [] => .ok []
  | word :: rest =>
    match flags.lookup word with
    | none => .error (.unknownArgument word)
    | some (.plain setting) => (readSettings flags rest).map (setting :: ·)
    | some (.valued read) =>
      match rest with
      | [] => .error (.missingValue word)
      | value :: rest => do
        let setting ← read value
        (readSettings flags rest).map (setting :: ·)

end SourceSurvey.CommandLine
