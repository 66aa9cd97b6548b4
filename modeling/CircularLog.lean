import CircularLog.ProgramLogic
import CircularLog.CircularArea
import CircularLog.Retention
import CircularLog.Varint
import CircularLog.RingfileOps
import CircularLog.WrappingTransfer
import CircularLog.RingLayout
import CircularLog.Eviction
import CircularLog.RecordWrite
import CircularLog.StreamingSession
import CircularLog.OpenCreate
import CircularLog.Reachable
import CircularLog.RecordRead
import CircularLog.ReaderRuns
import CircularLog.ReadBack
import CircularLog.Histories
import CircularLog.RetentionLaw
import CircularLog.PartialWrites
import CircularLog.StreamingEquivalence
import CircularLog.LayoutIndependence
import CircularLog.HeaderStores
import CircularLog.SharedReader
import CircularLog.SessionProtocol
import CircularLog.Command
import CircularLog.AppendDump
import CircularLog.EvictionLoop
import CircularLog.ExactTransfer
import CircularLog.SizeCheck
import CircularLog.ExactReads
import CircularLog.SmallRings
import CircularLog.DumpCompleteness
import CircularLog.UncheckedReads
import CircularLog.EndOfFile
import CircularLog.DumpTermination
import CircularLog.FixedSize
import CircularLog.ErrorReasons
import CircularLog.CommandLine
import CircularLog.CommandContract
import CircularLog.SizeOption
import CircularLog.MarkedDigits
import CircularLog.ShortestEncoding
import CircularLog.VarintDecoding
import CircularLog.ClosedHandle
import CircularLog.ModularCopy
import CircularLog.ReadOnlyHandle
import CircularLog.WriteFootprint
import CircularLog.ManyProcesses
import CircularLog.ManyReaders
import CircularLog.FileFormat
import CircularLog.PythonObject
import CircularLog.ToolHistories
import CircularLog.SharedLog
import CircularLog.MendedRuns
import CircularLog.StuckWriters
import CircularLog.EndlessReaders
import CircularLog.PublicInterface
import CircularLog.FirstFailure
