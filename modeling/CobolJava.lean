import CobolJava.Lib.PyText
import CobolJava.Lib.PyBytes
import CobolJava.Lib.PyDict
import CobolJava.Lib.PyExc
import CobolJava.Lib.Json
import CobolJava.Lib.Sha256
import CobolJava.Lib.Decimal
import CobolJava.Lib.Table
import CobolJava.Lib.Transaction
import CobolJava.Lib.JsonReader
import CobolJava.Lib.PyLines
import CobolJava.Lib.PyCase
import CobolJava.Transformation.JavaNames
import CobolJava.Transformation.NameCollisions
import CobolJava.Lib.KeptFirst
import CobolJava.Lib.DecimalText
import CobolJava.Lib.LevelForest
import CobolJava.Transformation.DataHierarchy
import CobolJava.Transformation.NumericValues
import CobolJava.Transformation.PictureText
import CobolJava.Transformation.LiteralSpelling
import CobolJava.Transformation.ContinuedLines
import CobolJava.Lib.Interleaving
import CobolJava.Lib.JavaText
import CobolJava.Lib.LoopMachine
import CobolJava.Domain.Identities
import CobolJava.Contracts.Models
import CobolJava.Comparators.Binding
import CobolJava.Comparators.Framework
import CobolJava.Comparators.IndexedRecords
import CobolJava.Evidence.Models
import CobolJava.Evidence.Seal
import CobolJava.Evidence.Integrity
import CobolJava.Evidence.Admission
import CobolJava.Evidence.Sample
import CobolJava.Evidence.Provenance
import CobolJava.Verdict.Derivation
import CobolJava.Verdict.Findings
import CobolJava.Verdict.TrustBoundary
import CobolJava.Verdict.RecordedMatch
import CobolJava.Execution.Artifacts
import CobolJava.Workload
import CobolJava.Pipeline.DeclarationDriven
import CobolJava.Pipeline.ObservableEffects
import CobolJava.Pipeline.RunEvidence
import CobolJava.Transformation.JavaIr
import CobolJava.Transformation.NumericReceiver
import CobolJava.Transformation.JavaArithmetic
import CobolJava.Transformation.CobolArithmetic
import CobolJava.Transformation.ArithmeticLanes
import CobolJava.Transformation.NativeLane
import CobolJava.Transformation.ExactLane
import CobolJava.Transformation.ScaledReceiver
import CobolJava.Transformation.AssignedReceiver
import CobolJava.Transformation.ReceiverStores
import CobolJava.Transformation.NativeBounds
import CobolJava.Transformation.RecordLayout
import CobolJava.Transformation.RecordImage
import CobolJava.Transformation.RecordRoundTrip
import CobolJava.Transformation.PerformHeader
import CobolJava.Transformation.PerformReading
import CobolJava.Transformation.PerformLoops
import CobolJava.Jcl.Parser
import CobolJava.Jcl.Builder
import CobolJava.Jcl.Statements
import CobolJava.Jcl.Placement
import CobolJava.Jcl.Completeness
import CobolJava.Modernization.CapabilityReport
import CobolJava.Modernization.TransformationPlan
import CobolJava.Modernization.UniversalPipeline
import CobolJava.Modernization.DependencyLedger
import CobolJava.Modernization.CentralGate
import CobolJava.Store.Stages
import CobolJava.Store.Records
import CobolJava.Store.Mutators
import CobolJava.Store.Calls
import CobolJava.Store.Serialization
import CobolJava.Store.FieldRoundTrip
import CobolJava.Store.RoundTrip
import CobolJava.Store.PayloadRoundTrip
import CobolJava.Store.Sample
import CobolJava.Store.Lifecycle
import CobolJava.Store.Attempts
import CobolJava.Store.FailedWrites
import CobolJava.Store.Readback
import CobolJava.Service.SourceDirectories
import CobolJava.Service.BundleExport
import CobolJava.Service.EntryProgram
import CobolJava.Lib.PyInk
import CobolJava.Transformation.SourceFormat
import CobolJava.Transformation.CodeLines
import CobolJava.Transformation.FormatAgreement
import CobolJava.Transformation.CopybookText
import CobolJava.Transformation.CopybookExpansion
import CobolJava.Transformation.CopyReplacing
import CobolJava.Lib.SortedMap
import CobolJava.Lib.JavaFiles
import CobolJava.Transformation.KeyedFiles
import CobolJava.Transformation.KeyedImages
import CobolJava.Transformation.KeyedRuns
import CobolJava.Lib.InfixText
import CobolJava.Lib.PyFloat
import CobolJava.Transformation.ExpressionReader
import CobolJava.Transformation.ArithmeticText
import CobolJava.Transformation.ExpressionScan
import CobolJava.Transformation.ExpressionPrecedence
import CobolJava.Transformation.SignConditions
import CobolJava.Transformation.ConditionReader
import CobolJava.Transformation.ConditionText
import CobolJava.Transformation.ConditionScan
import CobolJava.Transformation.ConditionPrecedence
import CobolJava.Verification.BusinessInvariants
import CobolJava.Verification.ReportAdmission
import CobolJava.Comparators.FixedRecords
import CobolJava.Lib.ByteLines
import CobolJava.Comparators.LineOrder
import CobolJava.Lib.PyDecimal
import CobolJava.Lib.PyJson
import CobolJava.Lib.PyJsonText
import CobolJava.Verification.ReportRoundTrip
import CobolJava.Verification.AdmissionErrors
import CobolJava.Verification.ReportConsistency
import CobolJava.Verification.FieldEquality
import CobolJava.Verification.EvaluationErrors
import CobolJava.Verification.FieldTotals
import CobolJava.Transformation.KeyedCursor
import CobolJava.Lib.PyStruct
import CobolJava.Lib.PyDigits
import CobolJava.Comparators.ImageReaders
import CobolJava.Comparators.RelativeSlots
import CobolJava.Comparators.ReaderErrors
import CobolJava.Lib.RoundedArithmetic
import CobolJava.Transformation.ZeroDivisorGuard
import CobolJava.Lib.PaddedText
import CobolJava.Transformation.ConditionNames
import CobolJava.Transformation.ConditionNameValues
import CobolJava.Transformation.ConditionNameExactness
import CobolJava.Lib.DepthFirst
import CobolJava.Modernization.CallCycles
import CobolJava.Lib.ReachingWriter
import CobolJava.Jcl.DatasetFlows
import CobolJava.Lib.VersionedCell
import CobolJava.Store.ConcurrentUpdates
import CobolJava.Lib.FileTree
import CobolJava.Service.ZipIngestion
import CobolJava.Store.PersistedPayloads
import CobolJava.Store.FailClosed
import CobolJava.Transformation.SizeErrors
import CobolJava.Transformation.StatementStates
import CobolJava.Transformation.DivideRemainder
import CobolJava.Spring.StatementTrees
import CobolJava.Spring.ServiceCalls
import CobolJava.Sql.Translation
import CobolJava.Lib.PySlice
import CobolJava.Sql.WhereConjuncts
import CobolJava.Sql.Cursors
import CobolJava.Transformation.StdinDigits
import CobolJava.Lib.WalkedTree
import CobolJava.Execution.WorkspaceFiles
import CobolJava.Sql.HostVariables
import CobolJava.Sql.QuotedLiterals
import CobolJava.Lib.NestedText
import CobolJava.Transformation.CicsOperands
import CobolJava.Transformation.StringStatement
import CobolJava.Lib.CountedSlots
import CobolJava.Service.JobSlots
import CobolJava.Transformation.InlineStatements
import CobolJava.Transformation.UnstringStatement
import CobolJava.Lib.LastWrite
import CobolJava.Transformation.FigurativeText
import CobolJava.Transformation.RedefinesPlan
import CobolJava.Transformation.RedefinesOverlays
import CobolJava.Transformation.RedefinesStorage
import CobolJava.Transformation.CopybookMerge
import CobolJava.Transformation.RunUnit
import CobolJava.Transformation.SequentialFiles
