import OldRadio.Library.Digits
import OldRadio.Library.Words
import OldRadio.Library.Packed
import OldRadio.Library.Lists
import OldRadio.Library.LinkedList
import OldRadio.Library.Keyed
import OldRadio.Library.BinaryHeap
import OldRadio.Library.Heapq
import OldRadio.Library.Shortlist
import OldRadio.Library.Block
import OldRadio.Library.PriorityBag
import OldRadio.Library.Program
import OldRadio.Library.Transition
import OldRadio.Library.Agenda
import OldRadio.Library.Mutex
import OldRadio.Library.Rounding
import OldRadio.Library.ShiftRegister
import OldRadio.Library.Framing
import OldRadio.Library.Probing
import OldRadio.Library.Runs
import OldRadio.Library.RunPatterns
import OldRadio.Library.Trail
import OldRadio.Library.Flooding
import OldRadio.Library.Growing
import OldRadio.Second.Vtime
import OldRadio.Second.Symbols
import OldRadio.Second.Codec
import OldRadio.Second.SymbolGroups
import OldRadio.Second.LineBits
import OldRadio.Second.Packet
import OldRadio.Second.Crc
import OldRadio.Second.CrcErrors
import OldRadio.Second.CrcBitwise
import OldRadio.Second.Queue
import OldRadio.Second.PriorityQueue
import OldRadio.Second.World
import OldRadio.Second.Loc
import OldRadio.Second.Distances
import OldRadio.Second.Neigh
import OldRadio.Second.NeighRules
import OldRadio.Second.Virtloc
import OldRadio.Second.Node
import OldRadio.Second.BeaconInserts
import OldRadio.Second.NodeEffects
import OldRadio.Second.NodeFronts
import OldRadio.Second.BeaconLength
import OldRadio.Second.Forwarding
import OldRadio.Second.Topo
import OldRadio.Second.TopoLinks
import OldRadio.Second.TopoFile
import OldRadio.Second.TopoIteration
import OldRadio.Second.Sim
import OldRadio.Second.Routes
import OldRadio.Second.RouteChains
import OldRadio.Second.SimEffects
import OldRadio.Second.SimNeighbours
import OldRadio.Second.Overflow
import OldRadio.Second.HopCounts
import OldRadio.Second.Handshake
import OldRadio.Second.Dimensions
import OldRadio.Second.SimDraws
import OldRadio.Second.SimTime
import OldRadio.Second.SimTimers
import OldRadio.Second.SimLogs
import OldRadio.Second.DroppedTimers
import OldRadio.Second.Root
import OldRadio.Second.Traced
import OldRadio.Second.Broadcasts
import OldRadio.Second.Deliveries
import OldRadio.Second.Stops
import OldRadio.Second.SimEnds
import OldRadio.Second.Copies
import OldRadio.Second.DataPackets
import OldRadio.Second.Flood
import OldRadio.Second.FloodSpread
import OldRadio.Second.FloodOnce
import OldRadio.Second.WakeCalls
import OldRadio.Second.Sleep
import OldRadio.Second.WakeTimes
import OldRadio.Second.WakeWave
import OldRadio.Second.SleepCycle
import OldRadio.Second.Radio
import OldRadio.Second.Receive
import OldRadio.Second.Deadlines
import OldRadio.Second.RadioLink
import OldRadio.Second.Regrouping
import OldRadio.Second.SymbolErrors
import OldRadio.Second.Serial
import OldRadio.Second.SerialTimer
import OldRadio.Second.Reception
import OldRadio.Second.ReceptionRuns
import OldRadio.Tools.SymbolTables
import OldRadio.Tools.Topologies
import OldRadio.Tools.SpreadTopo
import OldRadio.Tools.SpreadFile
import OldRadio.Tools.SquareTopo
import OldRadio.Tools.ScaleTopo
import OldRadio.First.SendQueue
import OldRadio.First.SendQueueOrder
import OldRadio.First.SendQueueRuns
import OldRadio.First.SendQueueMemory
import OldRadio.First.QueueThreads
import OldRadio.First.QueueSections
import OldRadio.First.QueueStatements
import OldRadio.First.QueueThreadRuns
import OldRadio.First.QueueLiveness
import OldRadio.First.Beacon
import OldRadio.First.BeaconTable
import OldRadio.First.BeaconRecords
import OldRadio.First.BeaconSender
import OldRadio.First.BeaconNetwork
import OldRadio.First.Descent
import OldRadio.First.Symbols
import OldRadio.First.SerialSymbols
import OldRadio.First.Codec
import OldRadio.First.Packets
import OldRadio.First.ListenLoop
import OldRadio.First.Virtloc
import OldRadio.First.VirtlocRuns
