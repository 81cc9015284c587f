import BarrierPoint.Library.LinkedList
import BarrierPoint.Library.Recency
import BarrierPoint.ReuseDistance
import BarrierPoint.SkipLayout
import BarrierPoint.RecencyList
import BarrierPoint.AddLine
import BarrierPoint.MoveLine
import BarrierPoint.ReuseRun
import BarrierPoint.GateView
import BarrierPoint.Gate
import BarrierPoint.StackInvariant
import BarrierPoint.Client
import BarrierPoint.Library.Masks
import BarrierPoint.CacheLines
import BarrierPoint.Writers
import BarrierPoint.ClientSteps
import BarrierPoint.SaveSafety
import BarrierPoint.BpIdRows
import BarrierPoint.MasterPoints
import BarrierPoint.SingleBarriers
import BarrierPoint.Alignment
import BarrierPoint.ThreadIndependence
import BarrierPoint.Library.Numbering
import BarrierPoint.RegionIds
import BarrierPoint.Library.PyList
import BarrierPoint.Library.Scatter
import BarrierPoint.Clustering
import BarrierPoint.Alternatives
import BarrierPoint.Renaming
import BarrierPoint.Reconstruction
import BarrierPoint.Estimate
import BarrierPoint.Library.Rows
import BarrierPoint.PapiParser
import BarrierPoint.CheckRows
import BarrierPoint.PapiBlocks
import BarrierPoint.Library.Marked
import BarrierPoint.OutputStreams
import BarrierPoint.TornLines
import BarrierPoint.Histogram
import BarrierPoint.HistogramLaws
import BarrierPoint.ThreadRuns
import BarrierPoint.BlockCounts
import BarrierPoint.RegionCharges
import BarrierPoint.PerfSteps
import BarrierPoint.PhaseCounts
import BarrierPoint.PrintedPhases
import BarrierPoint.RoiEnds
import BarrierPoint.BpDr
import BarrierPoint.MasterRegions
import BarrierPoint.PhaseNumbering
import BarrierPoint.SlotSafety
import BarrierPoint.Library.Lines
import BarrierPoint.Library.Csv
import BarrierPoint.VectorFiles
import BarrierPoint.CombinedVectors
import BarrierPoint.VectorWeights
import BarrierPoint.SimPointFiles
import BarrierPoint.CreateBarrierPoints
import BarrierPoint.CheckFile
import BarrierPoint.RecoveredStats
import BarrierPoint.EstimateBounds
import BarrierPoint.Library.Related
import BarrierPoint.Library.Interleaving
import BarrierPoint.Interleavings
import BarrierPoint.BuildOptions
import BarrierPoint.Instrumentation
import BarrierPoint.ThreadProfile
import BarrierPoint.MemBuffer
import BarrierPoint.Library.Shell
import BarrierPoint.BatchScript
import BarrierPoint.ExperimentRuns
import BarrierPoint.Library.Learning
import BarrierPoint.ModuleLoads
import BarrierPoint.Library.Freeing
import BarrierPoint.Teardown
import BarrierPoint.CountedRuns
import BarrierPoint.RecoveredCounts
import BarrierPoint.FoundTables
import BarrierPoint.Library.Places
import BarrierPoint.IdentifiedSets
