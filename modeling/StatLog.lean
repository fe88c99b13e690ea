import StatLog.Logger.Exclude
import StatLog.Logger.Drop
import StatLog.Stats.Clear
import StatLog.Stats.Handshake
import StatLog.Tags.Commander
import StatLog.Tags.Layout
import StatLog.Control.ArrayDisplay
import StatLog.Control.Filter
import StatLog.Control.FilterAccess
import StatLog.Logger.ScanEnd
import StatLog.Stats.SimpleValue
import StatLog.Lib.Binning
import StatLog.Stats.Density
import StatLog.Tags.Handles
import StatLog.Tags.Serializer
import StatLog.Tags.LogLevel
import StatLog.Control.UserCommands
import StatLog.Lib.Numeral
import StatLog.Lib.OutputStream
import StatLog.Logger.HexDump
import StatLog.Logger.PrintedTime
import StatLog.Logger.ProxyMoves
import StatLog.Logger.SlotLoop
import StatLog.Stats.BitStatus
import StatLog.Stats.Elements
import StatLog.Tags.Alignment
import StatLog.Tags.LoggerIndex
import StatLog.Tags.WriteStat
import StatLog.Tags.LoggedText
import StatLog.Lib.Product
import StatLog.Stats.Expected
import StatLog.Tags.EndToEnd
import StatLog.Logger.Progress
import StatLog.Logger.Retrieval
import StatLog.Control.TagOutline
import StatLog.Control.TypeOutline
import StatLog.Tags.AnyPath
import StatLog.Tags.Monitoring
import StatLog.Lib.Sweep
import StatLog.Logger.Handover
import StatLog.Tags.InterruptedDump
import StatLog.Tags.LevelsInForce
import StatLog.Tags.Statements
import StatLog.Control.CommandLine
import StatLog.Logger.Stopped
import StatLog.Control.DumpConsole
