import AlertEngine.Main
import AlertEngine.Proofs.DebounceRuns
import AlertEngine.Proofs.EngineRuns
import AlertEngine.Proofs.ConsumerView
import AlertEngine.Proofs.MonitorHistory
import AlertEngine.Proofs.EventIds
import AlertEngine.Proofs.Isolation
import AlertEngine.Proofs.Reconciliation
import AlertEngine.Proofs.CompositeHistory
import AlertEngine.Proofs.Registration
import AlertEngine.Proofs.Ownership
import AlertEngine.Proofs.GroupAlarms
import AlertEngine.Proofs.StrategySets
import AlertEngine.Proofs.CalculationFaults
import AlertEngine.Proofs.GroupTags
import AlertEngine.Proofs.SeriesIdentity
import AlertEngine.Proofs.DoubleSums
import AlertEngine.Proofs.ScoreOrder
import AlertEngine.Proofs.DispatchIndex
import AlertEngine.Proofs.MonitorInvariants
import AlertEngine.Proofs.IdleEviction
import AlertEngine.Proofs.JsonText
import AlertEngine.Proofs.EventTimes
import AlertEngine.Proofs.LinePacking
import AlertEngine.Proofs.WrittenNumbers
import AlertEngine.Proofs.WrittenJson
import AlertEngine.Proofs.WrittenInstants
import AlertEngine.Proofs.WrittenEvents
import AlertEngine.Proofs.DoubleBounds
import AlertEngine.Proofs.DecodedNumbers
import AlertEngine.Proofs.CalculationBounds
import AlertEngine.Proofs.ReadableEvents
import AlertEngine.Proofs.UnusableMetrics
import AlertEngine.Proofs.AlarmCoverage
import AlertEngine.Proofs.ScanOutcomes
import AlertEngine.Proofs.ScanReports
import AlertEngine.Proofs.CompactRules
import AlertEngine.Proofs.TextCutting
import AlertEngine.Proofs.CalculationTable
import AlertEngine.Proofs.TagFilterReading
import AlertEngine.Proofs.WrittenTagFilters
import AlertEngine.Proofs.EventRoundTrip
import AlertEngine.Proofs.SampleCounts
import AlertEngine.Proofs.RuleWords
import AlertEngine.Proofs.TransformText
import AlertEngine.Proofs.RangeTransforms
import AlertEngine.Proofs.WindowFunctionText
import AlertEngine.Proofs.WindowPushes
import AlertEngine.Proofs.DoubleOrder
import AlertEngine.Proofs.ComplementaryComparisons
import AlertEngine.Proofs.NearestDoubles
import AlertEngine.Proofs.WrittenThresholds
import AlertEngine.Proofs.RuleTexts
import AlertEngine.Proofs.RuleScores
