import CppContextEngine.Foundation.Text
import CppContextEngine.Foundation.Table
import CppContextEngine.Foundation.Tarjan
import CppContextEngine.Models.Summaries
import CppContextEngine.Analysis.Interprocedural
import CppContextEngine.Analysis.Solution
import CppContextEngine.Analysis.AcyclicPath
import CppContextEngine.Analysis.CallGraph
import CppContextEngine.Analysis.Transfer
import CppContextEngine.Analysis.Locality
import CppContextEngine.Analysis.Streaming
import CppContextEngine.Analysis.Invariants
import CppContextEngine.Analysis.Publication
import CppContextEngine.Analysis.Passes
import CppContextEngine.Analysis.Completeness
import CppContextEngine.Analysis.Derivation
import CppContextEngine.Foundation.Chain
import CppContextEngine.Foundation.Fallible
import CppContextEngine.Foundation.FirstPerKey
import CppContextEngine.Foundation.Json
import CppContextEngine.Analysis.Keys
import CppContextEngine.Analysis.Knowledge
import CppContextEngine.Analysis.Views
import CppContextEngine.Analysis.Convergence
import CppContextEngine.Analysis.IterationLimit
import CppContextEngine.Analysis.Closure
import CppContextEngine.Analysis.Components
import CppContextEngine.Foundation.Bytes
import CppContextEngine.Storage.SymbolSnapshot
import CppContextEngine.Storage.VectorSearch
import CppContextEngine.Storage.SummaryPayload
import CppContextEngine.Storage.SummaryPayloadCodec
import CppContextEngine.Ingestion.JsonlFragmentation
import CppContextEngine.Ingestion.Records
import CppContextEngine.Ingestion.WireKeys
import CppContextEngine.Ingestion.SymbolText
import CppContextEngine.Foundation.Utf8
import CppContextEngine.Ingestion.SymbolTextReassembly
import CppContextEngine.Ingestion.SymbolTextEmission
import CppContextEngine.Ingestion.SymbolTextAgreement
import CppContextEngine.Foundation.Worklist
import CppContextEngine.Models.Calls
import CppContextEngine.Ingestion.OverrideCandidates
import CppContextEngine.Ingestion.DeepRequests
import CppContextEngine.Storage.DeepTokenRuns
import CppContextEngine.Storage.DeepTokens
import CppContextEngine.Storage.OverrideRefresh
import CppContextEngine.Foundation.Dispatch
import CppContextEngine.Foundation.Sweep
import CppContextEngine.Analyzer.DataFlow
import CppContextEngine.Analyzer.ReachingDefinitions
import CppContextEngine.Foundation.Acyclic
import CppContextEngine.Analyzer.DefiniteFlags
import CppContextEngine.Analyzer.PathValues
import CppContextEngine.Analyzer.ClosedTargets
import CppContextEngine.Foundation.Stabilize
import CppContextEngine.Analyzer.Facts
import CppContextEngine.Analyzer.Settling
import CppContextEngine.Analyzer.Locations
import CppContextEngine.Analyzer.Profiles
import CppContextEngine.Analyzer.CallTargets
import CppContextEngine.Foundation.Separators
import CppContextEngine.Ingestion.WireIdentities
import CppContextEngine.Analyzer.SinkClashes
import CppContextEngine.Analyzer.SinkKeys
import CppContextEngine.Analyzer.SinkLosses
import CppContextEngine.Analyzer.WireFacts
import CppContextEngine.Analyzer.FunctionFacts
import CppContextEngine.Ingestion.WireTransparency
import CppContextEngine.Ingestion.WireStream
import CppContextEngine.Retrieval.Hybrid
import CppContextEngine.Retrieval.Packing
import CppContextEngine.Retrieval.Candidates
import CppContextEngine.Retrieval.WholeAnswer
import CppContextEngine.Server.ProjectState
import CppContextEngine.Server.ProjectStateRuns
import CppContextEngine.Foundation.BoundedWalk
import CppContextEngine.Storage.GraphTables
import CppContextEngine.Server.GraphTool
import CppContextEngine.Server.GraphPaths
import CppContextEngine.Server.GraphAnswers
import CppContextEngine.Foundation.WalkReach
import CppContextEngine.Storage.Traversal
import CppContextEngine.Storage.SummaryPages
import CppContextEngine.Foundation.Keyset
import CppContextEngine.Storage.MissingEmbeddings
import CppContextEngine.Storage.MissingEmbeddingRuns
import CppContextEngine.Storage.SymbolSearch
import CppContextEngine.Foundation.NearestFirst
import CppContextEngine.Ingestion.DeepClosure
import CppContextEngine.Foundation.Winners
import CppContextEngine.Analysis.FlowProjection
import CppContextEngine.Foundation.Reorder
import CppContextEngine.Analysis.InputOrder
import CppContextEngine.Foundation.Levels
import CppContextEngine.Retrieval.ExpansionTree
import CppContextEngine.Retrieval.ExpansionCuts
import CppContextEngine.Analyzer.ArgumentSearch
import CppContextEngine.Analyzer.ArgumentBindings
import CppContextEngine.Models.BatchRows
import CppContextEngine.Ingestion.FactTables
import CppContextEngine.Ingestion.NavigationFacts
import CppContextEngine.Storage.BuildVariants
import CppContextEngine.Server.ScopeResolution
import CppContextEngine.Storage.SymbolLookups
import CppContextEngine.Foundation.LineEnds
import CppContextEngine.Storage.SourceReader
import CppContextEngine.Foundation.CodePoints
import CppContextEngine.Ingestion.CompilationDatabase
import CppContextEngine.Ingestion.CommandIdentity
import CppContextEngine.Foundation.LexOrder
import CppContextEngine.Foundation.Utf8Order
import CppContextEngine.Ingestion.SourceRoots
import CppContextEngine.Foundation.BudgetedRun
import CppContextEngine.Storage.AnalysisTables
import CppContextEngine.Server.AnalysisQueries
import CppContextEngine.Server.AnalysisBudgets
import CppContextEngine.Foundation.Interning
import CppContextEngine.Storage.InternedFacts
import CppContextEngine.Storage.FactRefinement
import CppContextEngine.Storage.InternedDeletions
import CppContextEngine.Storage.InternedInsertions
import CppContextEngine.Foundation.SharedBudget
import CppContextEngine.Ingestion.AnalyzerPipeline
import CppContextEngine.Ingestion.AnalyzerPipelineRuns
import CppContextEngine.Ingestion.AnalyzerPipelineRegistries
import CppContextEngine.Ingestion.AnalyzerPipelineProgress
import CppContextEngine.Foundation.EventLog
import CppContextEngine.Ingestion.AnalyzerTelemetry
import CppContextEngine.Ingestion.AnalyzerTelemetryRuns
import CppContextEngine.Ingestion.AnalyzerReports
import CppContextEngine.Ingestion.CfgFacts
import CppContextEngine.Ingestion.DataFlowFacts
import CppContextEngine.Ingestion.SummaryFacts
import CppContextEngine.Ingestion.BatchBuilder
import CppContextEngine.Models.BatchReferences
import CppContextEngine.Ingestion.FactReferences
import CppContextEngine.Ingestion.NavigationContainment
import CppContextEngine.Ingestion.CfgContainment
import CppContextEngine.Ingestion.DataFlowContainment
import CppContextEngine.Ingestion.SummaryContainment
import CppContextEngine.Ingestion.BatchClosure
