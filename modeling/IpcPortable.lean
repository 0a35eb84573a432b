import IpcPortable.LittleEndian
import IpcPortable.Regions
import IpcPortable.Frames
import IpcPortable.OrderedMaps
import IpcPortable.DataStream
import IpcPortable.Values
import IpcPortable.Decoding
import IpcPortable.Packets
import IpcPortable.PacketParser
import IpcPortable.PacketRuns
import IpcPortable.TransportProxy
import IpcPortable.Reconnects
import IpcPortable.RawStrings
import IpcPortable.Calls
import IpcPortable.Signatures
import IpcPortable.ProcMaps
import IpcPortable.SignatureKeys
import IpcPortable.Registries
import IpcPortable.RegistryRuns
import IpcPortable.SharedEntries
import IpcPortable.ClearedTags
import IpcPortable.ParamTypes
import IpcPortable.Dispatch
import IpcPortable.Workers
import IpcPortable.TagClearing
import IpcPortable.Replies
import IpcPortable.Writers
import IpcPortable.Buffers
import IpcPortable.ExistingEntries
import IpcPortable.CallCounts
import IpcPortable.Messages
import IpcPortable.SentFrames
import IpcPortable.WriteBounds
import IpcPortable.ErrorHandlers
import IpcPortable.AbsentPackets
import IpcPortable.DecodeBounds
import IpcPortable.ReadCursor
import IpcPortable.PacketStrings
import IpcPortable.HandlerArguments
import IpcPortable.Runs
import IpcPortable.Pending
import IpcPortable.CallIds
import IpcPortable.Endpoints
import IpcPortable.ShortPackets
import IpcPortable.EndpointMoves
import IpcPortable.Waiters
import IpcPortable.HandOver
import IpcPortable.CallQueue
import IpcPortable.Draining
import IpcPortable.Enumerations
import IpcPortable.Peers
import IpcPortable.Matching
import IpcPortable.Responses
import IpcPortable.Abandoned
import IpcPortable.Rejections
import IpcPortable.UnknownPackets
import IpcPortable.TwinMoves
import IpcPortable.DroppedReplies
import IpcPortable.Conditions
import IpcPortable.TransthreadCaller
import IpcPortable.CallOutcomes
import IpcPortable.ThreadReceivers
import IpcPortable.EndedThreads
import IpcPortable.ProxiedReads
import IpcPortable.WaitWakeups
import IpcPortable.KeyCounts
import IpcPortable.EventWaiter
import IpcPortable.WaiterMoves
import IpcPortable.WaiterThreads
import IpcPortable.Triggers
import IpcPortable.ChangeFilter
import IpcPortable.EventWakeups
import IpcPortable.WinSockets
import IpcPortable.CountWaiter
import IpcPortable.ClientRegistrations
import IpcPortable.ClientSlots
import IpcPortable.ListRuns
import IpcPortable.Reentrancy
import IpcPortable.StaleEntries
import IpcPortable.EarlyEnds
import IpcPortable.ByteConnections
import IpcPortable.MemoryJobs
import IpcPortable.ShareConnections
import IpcPortable.TaskRunners
import IpcPortable.Stalls
import IpcPortable.SingleThread
import IpcPortable.ReadAlarms
