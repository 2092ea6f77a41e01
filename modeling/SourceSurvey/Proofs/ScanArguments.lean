import SourceSurvey.CommandLine.Command
import SourceSurvey.Proofs.Settings
import Mathlib.Data.List.Induction

/-! The arguments of a scan. Each option has groups of its own, told here from the words that stand
in it. Of the groups of one option the last counts, globs are all kept in order, and what is not
given is as in a scan of the current directory. So only the order of groups of one option can
matter. A list of arguments fails exactly where it goes on, behind some groups, with an unknown
flag, a flag without its value, or a value that names no ecosystem or no format. -/

namespace SourceSurvey.CommandLine

open Text

variable {group arguments : List Text} {setting : ScanSetting} {e : ArgumentError}

/-! ### Words -/

/-- The ecosystems that each word stands for, in letters of either case. -/
def ecosystemWords : List (Text × List Ecosystem) :=
  [("all".toList, [.dotnet, .maven]), ("dotnet".toList, [.dotnet]), (".net".toList, [.dotnet]),
    ("csharp".toList, [.dotnet]), ("maven".toList, [.maven]), ("java".toList, [.maven])]

/-- The format that each word stands for, in letters of either case. -/
def formatWords : List (Text × OutputFormat) :=
  [("human".toList, .human), ("text".toList, .human), ("json".toList, .json)]

theorem lookup_eq_none_iff {β : Type} {table : List (Text × β)} {word : Text} :
    table.lookup word = none ↔ word ∉ table.map (·.1) := by
  rw [List.lookup_eq_none_iff, List.mem_map, not_exists]
  constructor
  · rintro h entry ⟨he, rfl⟩
    exact absurd (h entry he) (by simp)
  · exact fun h entry he => by simpa using fun same : word = entry.1 => h entry ⟨he, same.symm⟩

theorem readEcosystems_eq (value : Text) : readEcosystems value =
    (ecosystemWords.lookup (value.map Char.toLower)).elim
      (.error (.invalidEcosystem value)) .ok := by
  have words : ∀ ecosystem : Ecosystem,
      ∀ word ∈ ecosystem.words, word ∈ ecosystemWords.map (·.1) := fun ecosystem => by
    cases ecosystem <;> decide
  rw [readEcosystems, Ecosystem.ofWord?]
  generalize value.map Char.toLower = word
  by_cases known : word ∈ ecosystemWords.map (·.1)
  · simp only [ecosystemWords, List.map_cons, List.map_nil, List.mem_cons, List.not_mem_nil,
      or_false] at known
    rcases known with rfl | rfl | rfl | rfl | rfl | rfl <;> rfl
  · have other : word ≠ "all".toList := by
      rintro rfl
      exact known (by decide)
    have none : Ecosystem.all.find? (·.words.contains word) = none :=
      List.find?_eq_none.mpr fun ecosystem _ hw =>
        known (words ecosystem word (List.contains_iff_mem.mp hw))
    rw [lookup_eq_none_iff.mpr known, if_neg other, none]
    rfl

theorem readFormat_eq (value : Text) : readFormat value =
    (formatWords.lookup (value.map Char.toLower)).elim (.error (.invalidFormat value)) .ok := by
  have words : ∀ format : OutputFormat,
      ∀ word ∈ format.words, word ∈ formatWords.map (·.1) := fun format => by
    cases format <;> decide
  rw [readFormat, OutputFormat.ofWord?]
  generalize value.map Char.toLower = word
  by_cases known : word ∈ formatWords.map (·.1)
  · simp only [formatWords, List.map_cons, List.map_nil, List.mem_cons, List.not_mem_nil, or_false]
      at known
    rcases known with rfl | rfl | rfl <;> rfl
  · have none : OutputFormat.all.find? (·.words.contains word) = none :=
      List.find?_eq_none.mpr fun format _ hw =>
        known (words format word (List.contains_iff_mem.mp hw))
    rw [lookup_eq_none_iff.mpr known, none]

/-! ### Groups and faults -/

def plainFlags : List Text := ["--compact".toList, "--sequential".toList]

def valuedFlags : List Text :=
  ["--dir".toList, "--root".toList, "--out".toList, "--ecosystem".toList, "--exclude".toList,
    "--output".toList]

/-- What the arguments of one option set. -/
inductive ScanGroup : List Text → ScanSetting → Prop where
  | root {flag} (h : flag ∈ ["--dir".toList, "--root".toList]) (path) :
      ScanGroup [flag, path] (.root path)
  | out (path) : ScanGroup ["--out".toList, path] (.out path)
  | ecosystem {word ecosystems}
      (h : ecosystemWords.lookup (word.map Char.toLower) = some ecosystems) :
    ScanGroup ["--ecosystem".toList, word] (.ecosystems ecosystems)
  | exclude (glob) : ScanGroup ["--exclude".toList, glob] (.exclude glob)
  | compact : ScanGroup ["--compact".toList] .compact
  | sequential : ScanGroup ["--sequential".toList] .sequential
  | format {word format} (h : formatWords.lookup (word.map Char.toLower) = some format) :
    ScanGroup ["--output".toList, word] (.format format)

/-- What is wrong where arguments go on with no group. -/
inductive ScanFault : List Text → ArgumentError → Prop where
  | unknown {word} (h : word ∉ plainFlags ++ valuedFlags) (rest) :
      ScanFault (word :: rest) (.unknownArgument word)
  | missing {flag} (h : flag ∈ valuedFlags) : ScanFault [flag] (.missingValue flag)
  | ecosystem {word} (h : ecosystemWords.lookup (word.map Char.toLower) = none) (rest) :
    ScanFault ("--ecosystem".toList :: word :: rest) (.invalidEcosystem word)
  | format {word} (h : formatWords.lookup (word.map Char.toLower) = none) (rest) :
    ScanFault ("--output".toList :: word :: rest) (.invalidFormat word)

theorem ScanGroup.makes (h : ScanGroup group setting) : Makes scanFlags group setting := by
  cases h with
  | root h path =>
    rcases List.mem_pair.mp h with rfl | rfl
    · exact .valued rfl rfl
    · exact .valued rfl rfl
  | out path => exact .valued rfl rfl
  | ecosystem h => exact .valued rfl (by rw [readEcosystems_eq, h]; rfl)
  | exclude glob => exact .valued rfl rfl
  | compact => exact .plain rfl
  | sequential => exact .plain rfl
  | format h => exact .valued rfl (by rw [readFormat_eq, h]; rfl)

theorem ScanFault.fails (h : ScanFault arguments e) : Fails scanFlags arguments e := by
  cases h with
  | unknown h rest =>
    have flags : ∀ flag ∈ scanFlags.map (·.1), flag ∈ plainFlags ++ valuedFlags := by decide
    exact .unknown (lookup_eq_none_iff.mpr fun hm => h (flags _ hm))
  | missing h =>
    simp only [valuedFlags, List.mem_cons, List.not_mem_nil, or_false] at h
    rcases h with rfl | rfl | rfl | rfl | rfl | rfl <;> exact .missing rfl
  | ecosystem h rest => exact .refused rfl (by rw [readEcosystems_eq, h]; rfl)
  | format h rest => exact .refused rfl (by rw [readFormat_eq, h]; rfl)

theorem mem_of_lookup {flag : Text} {f : Flag ScanSetting} (h : scanFlags.lookup flag = some f) :
    (flag, f) ∈ scanFlags := by
  obtain ⟨front, back, split, -⟩ := List.lookup_eq_some_iff.mp h
  rw [split]
  exact List.mem_append_right front List.mem_cons_self

/-- Whether what is read of a value is what its flag makes of it. -/
def Answers (flag value : Text) : Except ArgumentError ScanSetting → Prop
  | .ok setting => ScanGroup [flag, value] setting
  | .error e => ∀ rest, ScanFault (flag :: value :: rest) e

theorem answers_of_lookup {flag : Text} {read : Text → Except ArgumentError ScanSetting}
    (h : scanFlags.lookup flag = some (.valued read)) (value : Text) :
    flag ∈ valuedFlags ∧ Answers flag value (read value) := by
  have hm := mem_of_lookup h
  simp only [scanFlags, List.mem_cons, Prod.mk.injEq, List.not_mem_nil, reduceCtorEq, and_false,
    or_false, false_or, Flag.valued.injEq] at hm
  rcases hm with ⟨rfl, rfl⟩ | ⟨rfl, rfl⟩ | ⟨rfl, rfl⟩ | ⟨rfl, rfl⟩ | ⟨rfl, rfl⟩ | ⟨rfl, rfl⟩
  · exact ⟨by decide, .root (by decide) value⟩
  · exact ⟨by decide, .root (by decide) value⟩
  · exact ⟨by decide, .out value⟩
  · refine ⟨by decide, ?_⟩
    simp only [readEcosystems_eq]
    cases hw : ecosystemWords.lookup (value.map Char.toLower) with
    | none => exact .ecosystem hw
    | some ecosystems => exact .ecosystem hw
  · exact ⟨by decide, .exclude value⟩
  · refine ⟨by decide, ?_⟩
    simp only [readFormat_eq]
    cases hw : formatWords.lookup (value.map Char.toLower) with
    | none => exact .format hw
    | some format => exact .format hw

theorem makes_scanFlags_iff : Makes scanFlags group setting ↔ ScanGroup group setting := by
  constructor
  · intro h
    cases h with
    | plain h =>
      have hm := mem_of_lookup h
      simp only [scanFlags, List.mem_cons, Prod.mk.injEq, List.not_mem_nil, reduceCtorEq, and_false,
        or_false, false_or, Flag.plain.injEq] at hm
      rcases hm with ⟨rfl, rfl⟩ | ⟨rfl, rfl⟩
      · exact .compact
      · exact .sequential
    | @valued flag value read setting h hr =>
      have answer := (answers_of_lookup h value).2
      rwa [hr] at answer
  · exact ScanGroup.makes

theorem fails_scanFlags_iff : Fails scanFlags arguments e ↔ ScanFault arguments e := by
  constructor
  · intro h
    cases h with
    | unknown h =>
      have flags : ∀ flag ∈ plainFlags ++ valuedFlags, flag ∈ scanFlags.map (·.1) := by decide
      exact .unknown (fun hm => lookup_eq_none_iff.mp h (flags _ hm)) _
    | missing h => exact .missing (answers_of_lookup h []).1
    | @refused flag value read rest e h hr =>
      have answer := (answers_of_lookup h value).2
      rw [hr] at answer
      exact answer rest
  · exact ScanFault.fails

/-! ### Requests -/

/-- What can be set about a scan; `--dir` and `--root` set one thing. -/
inductive ScanOption where
  | root
  | out
  | ecosystems
  | exclude
  | compact
  | sequential
  | format
deriving DecidableEq

namespace ScanSetting

def option : ScanSetting → ScanOption
  | .root _ => .root
  | .out _ => .out
  | .ecosystems _ => .ecosystems
  | .exclude _ => .exclude
  | .compact => .compact
  | .sequential => .sequential
  | .format _ => .format

def root? : ScanSetting → Option Text
  | .root path => some path
  | _ => none

def out? : ScanSetting → Option Text
  | .out path => some path
  | _ => none

def ecosystems? : ScanSetting → Option (List Ecosystem)
  | .ecosystems named => some named
  | _ => none

def glob? : ScanSetting → Option Text
  | .exclude glob => some glob
  | _ => none

def format? : ScanSetting → Option OutputFormat
  | .format named => some named
  | _ => none

end ScanSetting

/-- A setting of another option tells nothing. -/
theorem ScanSetting.eq_none_of_option (s : ScanSetting) :
    (s.option ≠ .root → s.root? = none) ∧ (s.option ≠ .out → s.out? = none) ∧
      (s.option ≠ .ecosystems → s.ecosystems? = none) ∧
      (s.option ≠ .exclude → s.glob? = none) ∧ (s.option ≠ .format → s.format? = none) := by
  cases s <;> simp [option, root?, out?, ecosystems?, glob?, format?]

/-- The request with the last value of each option, with all globs in order, and for the rest a scan
of the current directory for every ecosystem. -/
def ScanRequest.ofSettings (settings : List ScanSetting) : ScanRequest where
  configuration := {
    root := (settings.filterMap ScanSetting.root?).getLastD ['.']
    ecosystems := (settings.filterMap ScanSetting.ecosystems?).getLastD [.dotnet, .maven]
    excludes := settings.filterMap ScanSetting.glob? }
  inParallel := !settings.contains .sequential
  out := (settings.filterMap ScanSetting.out?).getLast?
  compact := settings.contains .compact
  format := (settings.filterMap ScanSetting.format?).getLastD .human

/-- One setting more is applied to what the settings in front of it make. -/
theorem ScanRequest.ofSettings_concat (settings : List ScanSetting) (s : ScanSetting) :
    ofSettings (settings ++ [s]) = (ofSettings settings).apply s := by
  cases s <;> simp [ofSettings, apply, ScanSetting.root?, ScanSetting.out?, ScanSetting.ecosystems?,
    ScanSetting.glob?, ScanSetting.format?]

theorem ScanRequest.foldl_apply (settings : List ScanSetting) :
    settings.foldl apply standard = ofSettings settings := by
  induction settings using List.reverseRecOn with
  | nil => rfl
  | append_singleton settings s ih =>
      rw [List.foldl_append, ih, ofSettings_concat, List.foldl_cons, List.foldl_nil]

/-- What is told by the settings of one option. -/
theorem filterMap_filter_option {β : Type} {f : ScanSetting → Option β} {o : ScanOption}
    (h : ∀ s, s.option ≠ o → f s = none) (settings : List ScanSetting) :
    (settings.filter (·.option = o)).filterMap f = settings.filterMap f := by
  rw [List.filterMap_filter]
  refine List.filterMap_congr fun s _ => ?_
  by_cases hs : s.option = o
  · simp [hs]
  · simp [hs, h s hs]

/-- Only the order of the settings of one option matters. -/
theorem ScanRequest.ofSettings_congr {a b : List ScanSetting}
    (h : ∀ o : ScanOption, a.filter (·.option = o) = b.filter (·.option = o)) :
    ofSettings a = ofSettings b := by
  have values {β : Type} {f : ScanSetting → Option β} (o : ScanOption)
      (hf : ∀ s, s.option ≠ o → f s = none) :
      a.filterMap f = b.filterMap f := by
    rw [← filterMap_filter_option hf, h, filterMap_filter_option hf]
  have plain (s : ScanSetting) : a.contains s = b.contains s := by
    have told (l : List ScanSetting) : s ∈ l ↔ s ∈ l.filter (·.option = s.option) := by simp
    rw [Bool.eq_iff_iff, List.contains_iff_mem, List.contains_iff_mem, told, h, ← told]
  have root := values .root fun s => s.eq_none_of_option.1
  have out := values .out fun s => s.eq_none_of_option.2.1
  have ecosystems := values .ecosystems fun s => s.eq_none_of_option.2.2.1
  have globs := values .exclude fun s => s.eq_none_of_option.2.2.2.1
  have format := values .format fun s => s.eq_none_of_option.2.2.2.2
  rw [ofSettings, ofSettings, root, out, ecosystems, globs, format, plain, plain]

/-! ### Commands -/

theorem read_scan (arguments : List Text) :
    Command.read ("scan".toList :: arguments) = readScan arguments := by
  have version : ¬("scan".toList = "--version".toList ∨ "scan".toList = "-V".toList) := by decide
  have help :
    ¬("scan".toList = "--help".toList ∨ "scan".toList = "-h".toList ∨
      "scan".toList = "help".toList) := by decide
  rw [Command.read, if_neg version, if_neg help, if_pos rfl]

/-- Flags without a command make a scan. -/
theorem read_flag {flag : Text} (h : "--".toList <+: flag) (hh : flag ≠ "--help".toList)
    (hv : flag ≠ "--version".toList)
    (rest : List Text) : Command.read (flag :: rest) = readScan (flag :: rest) := by
  have other {word : Text} (hw : ¬"--".toList <+: word) : flag ≠ word := by
    rintro rfl
    exact hw h
  have version : ¬(flag = "--version".toList ∨ flag = "-V".toList) :=
    not_or.mpr ⟨hv, other (by decide)⟩
  have help : ¬(flag = "--help".toList ∨ flag = "-h".toList ∨ flag = "help".toList) :=
    not_or.mpr ⟨hh, not_or.mpr ⟨other (by decide), other (by decide)⟩⟩
  rw [Command.read, if_neg version, if_neg help, if_neg (other (by decide)),
    if_neg (other (by decide)), if_pos (List.isPrefixOf_iff_prefix.mpr h)]

theorem readScan_written {groups : List (List Text × ScanSetting)}
    (h : ∀ g ∈ groups, ScanGroup g.1 g.2) :
    readScan (written groups) = .ok (.scan (.ofSettings (groups.map (·.2)))) := by
  rw [readScan, readSettings_written fun g hg => (h g hg).makes, ← ScanRequest.foldl_apply]
  rfl

theorem readScan_eq_error_iff : readScan arguments = .error e ↔
    ∃ groups rest, (∀ g ∈ groups, ScanGroup g.1 g.2) ∧ arguments = written groups ++ rest ∧
      ScanFault rest e := by
  have failed : readScan arguments = .error e ↔ readSettings scanFlags arguments = .error e := by
    rw [readScan]
    cases readSettings scanFlags arguments <;> simp [Except.map]
  simp only [failed, readSettings_eq_error_iff, makes_scanFlags_iff, fails_scanFlags_iff]

/-- Groups make the request with the last value of each option and all globs, and only the order of
groups of one option matters. Arguments fail exactly where a fault stands behind groups alone, with
the error of that fault. And flags without a command are those of a scan. -/
theorem read_scan_groups :
    (∀ groups : List (List Text × ScanSetting), (∀ g ∈ groups, ScanGroup g.1 g.2) →
      Command.read ("scan".toList :: written groups) = .ok
        (.scan (.ofSettings (groups.map (·.2))))) ∧
    (∀ a b : List (List Text × ScanSetting), (∀ g ∈ a, ScanGroup g.1 g.2) →
      (∀ o : ScanOption, a.filter (·.2.option = o) = b.filter (·.2.option = o)) →
      Command.read ("scan".toList :: written b) = Command.read ("scan".toList :: written a)) ∧
    (∀ arguments e, Command.read ("scan".toList :: arguments) = .error e ↔ ∃ groups rest,
      (∀ g ∈ groups, ScanGroup g.1 g.2) ∧ arguments = written groups ++ rest ∧ ScanFault rest e) ∧
    (∀ flag rest, "--".toList <+: flag → flag ≠ "--help".toList → flag ≠ "--version".toList →
      Command.read (flag :: rest) = Command.read ("scan".toList :: flag :: rest)) := by
  refine ⟨fun groups h => ?_, fun a b h same => ?_, fun arguments e =>
    ?_, fun flag rest h hh hv => ?_⟩
  · rw [read_scan, readScan_written h]
  · have kept : ∀ g ∈ b, ScanGroup g.1 g.2 := fun g hg => by
      have inside : g ∈ b.filter (·.2.option = g.2.option) := List.mem_filter.mpr ⟨hg, by simp⟩
      rw [← same] at inside
      exact h g (List.mem_of_mem_filter inside)
    have settings : ScanRequest.ofSettings (b.map (·.2)) = .ofSettings (a.map (·.2)) :=
      ScanRequest.ofSettings_congr fun o => by
        have part (l : List (List Text × ScanSetting)) :
            (l.map (·.2)).filter (·.option = o) = (l.filter (·.2.option = o)).map (·.2) :=
              List.filter_map
        rw [part, part, same]
    rw [read_scan, read_scan, readScan_written h, readScan_written kept, settings]
  · rw [read_scan, readScan_eq_error_iff]
  · rw [read_scan, read_flag h hh hv]

/-- A value that looks like a flag is a value, and the second root counts. -/
theorem read_scan_two_roots :
    Command.read ["scan".toList, "--dir".toList, ['a'], "--exclude".toList, "--out".toList,
      "--root".toList, ['b']] =
      .ok (.scan ⟨⟨['b'], [.dotnet, .maven], ["--out".toList]⟩, true, none, false, .human⟩) :=
  read_scan_groups.1 [(["--dir".toList, ['a']], .root ['a']),
    (["--exclude".toList, "--out".toList], .exclude "--out".toList),
    (["--root".toList, ['b']], .root ['b'])] (List.forall_mem_cons.mpr ⟨.root (by decide) _,
      List.forall_mem_cons.mpr ⟨.exclude _, List.forall_mem_singleton.mpr (.root (by decide) _)⟩⟩)

end SourceSurvey.CommandLine
