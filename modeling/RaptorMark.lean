import RaptorMark.ViewModels.RecordedScore
import RaptorMark.ViewModels.ListenerIsolation
import RaptorMark.ViewModels.TestFiles
import RaptorMark.ViewModels.FailedTests
import RaptorMark.ViewModels.InformationalOutput
import RaptorMark.ViewModels.BlockExecution
import RaptorMark.Ui.StopRequest
import RaptorMark.ViewModels.SettingDialogs
import RaptorMark.Fio.Filename
import RaptorMark.Fio.OutputBuffer
import RaptorMark.Fio.Library
import RaptorMark.Native.FioReturns
import RaptorMark.Native.EngineChoices
import RaptorMark.ViewModels.ScoreMonotone
import RaptorMark.ViewModels.TargetDirectory
import RaptorMark.ViewModels.RecordInsertion
import RaptorMark.ViewModels.HistoryViewModel
import RaptorMark.Fio.RandomMap
import RaptorMark.Fio.LatencyPercentiles
import RaptorMark.Fio.IoUnitRuns
import RaptorMark.Fio.SmallocRuns
import RaptorMark.Fio.SequentialJob
import RaptorMark.Native.ReportText
import RaptorMark.Native.ReportResult
