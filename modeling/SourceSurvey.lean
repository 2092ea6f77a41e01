import SourceSurvey.CommandLine.Run
import SourceSurvey.Main
import SourceSurvey.Pattern.Outlook
import SourceSurvey.Report.Response
import SourceSurvey.Scan.Survey
import SourceSurvey.Source.Extraction
import SourceSurvey.Proofs.Segment
import SourceSurvey.Proofs.Bytes
import SourceSurvey.Proofs.Place
import SourceSurvey.Proofs.SegmentScan
import SourceSurvey.Proofs.Matches
import SourceSurvey.Proofs.Mirror
import SourceSurvey.Proofs.Plain
import SourceSurvey.Proofs.Attribution
import SourceSurvey.Proofs.Words
import SourceSurvey.Proofs.Clause
import SourceSurvey.Proofs.Reading
import SourceSurvey.Proofs.Preference
import SourceSurvey.Proofs.Member
import SourceSurvey.Proofs.Method
import SourceSurvey.Proofs.JavaMethod
import SourceSurvey.Proofs.CSharpMethod
import SourceSurvey.Proofs.MemberName
import SourceSurvey.Proofs.Creation
import SourceSurvey.Proofs.TypePart
import SourceSurvey.Proofs.TypeName
import SourceSurvey.Proofs.JavaType
import SourceSurvey.Proofs.CSharpType
import SourceSurvey.Proofs.TypeHeader
import SourceSurvey.Proofs.Within
import SourceSurvey.Proofs.Lead
import SourceSurvey.Proofs.Scope
import SourceSurvey.Proofs.View
import SourceSurvey.Proofs.Widening
import SourceSurvey.Proofs.Shy
import SourceSurvey.Proofs.LeadHeader
import SourceSurvey.Proofs.ByteOrderMark
import SourceSurvey.Proofs.Clauses
import SourceSurvey.Proofs.WideClause
import SourceSurvey.Proofs.WidePattern
import SourceSurvey.Proofs.Widened
import SourceSurvey.Proofs.WideMatch
import SourceSurvey.Proofs.SolidPart
import SourceSurvey.Proofs.WideHeader
import SourceSurvey.Proofs.WideScope
import SourceSurvey.Proofs.MaskLines
import SourceSurvey.Proofs.MaskJoin
import SourceSurvey.Proofs.BlankLines
import SourceSurvey.Proofs.LineEndings
import SourceSurvey.Proofs.Order
import SourceSurvey.Proofs.Accounting
import SourceSurvey.Proofs.Brackets
import SourceSurvey.Proofs.HeaderText
import SourceSurvey.Proofs.Components
import SourceSurvey.Proofs.Annotation
import SourceSurvey.Proofs.AnnotatedMember
import SourceSurvey.Proofs.Segments
import SourceSurvey.Proofs.PathOrder
import SourceSurvey.Proofs.Tree
import SourceSurvey.Proofs.Routes
import SourceSurvey.Proofs.Locations
import SourceSurvey.Proofs.Walks
import SourceSurvey.Proofs.Discoveries
import SourceSurvey.Proofs.SourceFiles
import SourceSurvey.Proofs.Enumeration
import SourceSurvey.Proofs.Removal
import SourceSurvey.Proofs.Isolation
import SourceSurvey.Proofs.ProjectIndex
import SourceSurvey.Proofs.Declarations
import SourceSurvey.Proofs.Spelling
import SourceSurvey.Proofs.Targets
import SourceSurvey.Proofs.Arrangement
import SourceSurvey.Proofs.Growth
import SourceSurvey.Proofs.Elements
import SourceSurvey.Proofs.CsprojFacts
import SourceSurvey.Proofs.PomFacts
import SourceSurvey.Proofs.Comments
import SourceSurvey.Proofs.NormalForm
import SourceSurvey.Proofs.Grouping
import SourceSurvey.Proofs.DiagnosticOrder
import SourceSurvey.Proofs.Splitting
import SourceSurvey.Proofs.Rejoining
import SourceSurvey.Proofs.WordEnds
import SourceSurvey.Proofs.CSharpParameter
import SourceSurvey.Proofs.Replacement
import SourceSurvey.Proofs.Cut
import SourceSurvey.Proofs.JavaParameter
import SourceSurvey.Proofs.Varargs
import SourceSurvey.Proofs.Lookup
import SourceSurvey.Proofs.LinesAbove
import SourceSurvey.Proofs.Collapsed
import SourceSurvey.Proofs.Tidy
import SourceSurvey.Proofs.OutlineLines
import SourceSurvey.Proofs.Settings
import SourceSurvey.Proofs.ScanArguments
import SourceSurvey.Proofs.DefaultValue
import SourceSurvey.Proofs.MaskCut
import SourceSurvey.Proofs.Offsets
import SourceSurvey.Proofs.MemberSearch
import SourceSurvey.Proofs.CharacterOffsets
import SourceSurvey.Proofs.CheckedExtraction
import SourceSurvey.Proofs.AttributeGroups
