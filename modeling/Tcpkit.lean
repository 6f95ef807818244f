import Tcpkit.FiniteMap
import Tcpkit.MachineInt
import Tcpkit.CString
import Tcpkit.Hashtable
import Tcpkit.Chains
import Tcpkit.NodeStore
import Tcpkit.ChainLoops
import Tcpkit.HashtableInvariant
import Tcpkit.Table
import Tcpkit.HashtableRuns
import Tcpkit.Ledger
import Tcpkit.Ownership
import Tcpkit.Stats
import Tcpkit.Histogram
import Tcpkit.Protocol
import Tcpkit.Sniffer
import Tcpkit.CommandLine
import Tcpkit.CommandGrammar
import Tcpkit.Heap
import Tcpkit.PacketHandler
import Tcpkit.FrameParsing
import Tcpkit.HeaderFields
import Tcpkit.CaptureBounds
import Tcpkit.WireFormat
import Tcpkit.EndpointKeys
import Tcpkit.Trace
import Tcpkit.Monitor
import Tcpkit.Refinement
import Tcpkit.HeapErasure
import Tcpkit.Leaks
import Tcpkit.Matching
import Tcpkit.Reconnects
import Tcpkit.Coherence
import Tcpkit.Report
import Tcpkit.Footprint
import Tcpkit.Independence
import Tcpkit.Lua
import Tcpkit.DnsDecoder
import Tcpkit.DnsNames
import Tcpkit.ScriptErrors
import Tcpkit.DnsQueries
import Tcpkit.ConnectCosts
import Tcpkit.Counting
import Tcpkit.Expiry
import Tcpkit.Threshold
import Tcpkit.QuietPackets
import Tcpkit.Datagrams
import Tcpkit.LinkLayer
import Tcpkit.FrameRuns
import Tcpkit.WireLengths
import Tcpkit.SnapshotLength
import Tcpkit.StatsBalance
import Tcpkit.StatsInterleaving
import Tcpkit.Shutdown
import Tcpkit.ServerWrites
import Tcpkit.Segments
import Tcpkit.Summary
import Tcpkit.Truncation
import Tcpkit.Resp
import Tcpkit.Binary64
import Tcpkit.DecimalText
import Tcpkit.JsonText
import Tcpkit.Attempt
import Tcpkit.JsonPrint
import Tcpkit.JsonParse
import Tcpkit.JsonRoundTrip
import Tcpkit.ServedReport
import Tcpkit.Savefile
import Tcpkit.SavefileReading
import Tcpkit.SavefileRecords
import Tcpkit.Replay
import Tcpkit.NodeChains
import Tcpkit.NodeTable
import Tcpkit.NodeTableRuns
import Tcpkit.PrintedNumbers
import Tcpkit.PrintedLines
import Tcpkit.LineReading
import Tcpkit.PrintedRuns
import Tcpkit.OwnedCells
import Tcpkit.JsonMemory
import Tcpkit.PlacedItems
import Tcpkit.ReportMemory
import Tcpkit.StatsServer
