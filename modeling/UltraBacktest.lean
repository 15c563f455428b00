import UltraBacktest.Library.Blocks
import UltraBacktest.Library.Drawdown
import UltraBacktest.Library.FirstSeen
import UltraBacktest.Library.Growth
import UltraBacktest.Library.LittleEndian
import UltraBacktest.Library.Program
import UltraBacktest.Library.Run
import UltraBacktest.Library.Stream
import UltraBacktest.Library.TruncDiv
import UltraBacktest.Library.Welford
import UltraBacktest.Library.Word64
import UltraBacktest.Model.Backtest
import UltraBacktest.Model.BinaryReader
import UltraBacktest.Model.CsvReader
import UltraBacktest.Model.DataReader
import UltraBacktest.Model.Event
import UltraBacktest.Model.EventLayout
import UltraBacktest.Model.Exchange
import UltraBacktest.Model.FromChars
import UltraBacktest.Model.Machine
import UltraBacktest.Model.MachineBacktest
import UltraBacktest.Model.Performance
import UltraBacktest.Model.Portfolio
import UltraBacktest.Model.Python
import UltraBacktest.Model.Replay
import UltraBacktest.Model.Report
import UltraBacktest.Model.Risk
import UltraBacktest.Model.RiskChecked
import UltraBacktest.Model.Stdio
import UltraBacktest.Model.TickDecoder
import UltraBacktest.Model.Types
import UltraBacktest.Verification.Binary.Layout
import UltraBacktest.Verification.Binary.Passes
import UltraBacktest.Verification.Binary.Refinement
import UltraBacktest.Verification.Csv.Columns
import UltraBacktest.Verification.Csv.FinalNewline
import UltraBacktest.Verification.Csv.Grammar
import UltraBacktest.Verification.Csv.Header
import UltraBacktest.Verification.Csv.Identity
import UltraBacktest.Verification.Csv.Lines
import UltraBacktest.Verification.Csv.Malformed
import UltraBacktest.Verification.Csv.Numbers
import UltraBacktest.Verification.Csv.Passes
import UltraBacktest.Verification.Csv.Refinement
import UltraBacktest.Verification.Csv.Rendering
import UltraBacktest.Verification.Csv.Rows
import UltraBacktest.Verification.Csv.Symbols
import UltraBacktest.Verification.Exchange.Accounts
import UltraBacktest.Verification.Exchange.Causality
import UltraBacktest.Verification.Exchange.Clock
import UltraBacktest.Verification.Exchange.Conversion
import UltraBacktest.Verification.Exchange.Equations
import UltraBacktest.Verification.Exchange.Files
import UltraBacktest.Verification.Exchange.Observers
import UltraBacktest.Verification.Exchange.Overflow
import UltraBacktest.Verification.Exchange.Python
import UltraBacktest.Verification.Exchange.RiskChecks
import UltraBacktest.Verification.Exchange.Settlement
import UltraBacktest.Verification.Exchange.Symbols
import UltraBacktest.Verification.Performance.Baseline
import UltraBacktest.Verification.Performance.Divisions
import UltraBacktest.Verification.Performance.Drawdown
import UltraBacktest.Verification.Performance.Equations
import UltraBacktest.Verification.Performance.Growth
import UltraBacktest.Verification.Performance.Returns
import UltraBacktest.Verification.Performance.Scale
import UltraBacktest.Verification.Portfolio.AverageEntry
import UltraBacktest.Verification.Portfolio.Equations
import UltraBacktest.Verification.Portfolio.Equity
import UltraBacktest.Verification.Portfolio.Interleaving
import UltraBacktest.Verification.Portfolio.Ledger
import UltraBacktest.Verification.Portfolio.Marks
import UltraBacktest.Verification.Portfolio.Mirror
import UltraBacktest.Verification.Portfolio.Overflow
import UltraBacktest.Verification.Portfolio.SplitFills
import UltraBacktest.Verification.Portfolio.TotalPnl
import UltraBacktest.Verification.Readers.FailedOpen
import UltraBacktest.Verification.Readers.Reset
import UltraBacktest.Verification.Replay.EndOfData
import UltraBacktest.Verification.Replay.Passes
import UltraBacktest.Verification.Replay.Window
import UltraBacktest.Verification.Risk.Equations
import UltraBacktest.Verification.Risk.KillSwitch
import UltraBacktest.Verification.Risk.Limits
import UltraBacktest.Verification.Risk.NetLoss
import UltraBacktest.Verification.Risk.PositionCheck
