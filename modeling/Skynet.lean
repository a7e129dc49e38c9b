import Skynet.Lib.Run
import Skynet.Lib.Splits
import Skynet.Lib.RefCount
import Skynet.Lib.Threads
import Skynet.Lib.Mem
import Skynet.Lib.Outcome
import Skynet.Lib.Chain
import Skynet.Handle
import Skynet.HandleSpec
import Skynet.HandleRegistry
import Skynet.HandleZero
import Skynet.Launch
import Skynet.Mq.Node
import Skynet.Timer
import Skynet.TimerPlace
import Skynet.TimerWheel
import Skynet.TimerExact
import Skynet.TimerFair
import Skynet.Sproto.Pack
import Skynet.Sproto.Segment
import Skynet.Sproto.PackSpec
import Skynet.Sproto.PackBound
import Skynet.Sproto.UnpackBound
import Skynet.Sproto.Type
import Skynet.Sproto.Encode
import Skynet.Sproto.Decode
import Skynet.Sproto.Callback
import Skynet.Sproto.Integers
import Skynet.Sproto.Items
import Skynet.Sproto.DecodeBound
import Skynet.Sproto.Wire
import Skynet.Sproto.Encoded
import Skynet.Sproto.Space
import Skynet.Sproto.EncodeBound
import Skynet.Sproto.Records
import Skynet.Sproto.Lencode
import Skynet.Sproto.Version
import Skynet.Sproto.Decoded
import Skynet.Sproto.RoundTrip
import Skynet.Sproto.Tolerance
import Skynet.Sproto.Parser
import Skynet.Sproto.Bundle
import Skynet.Sproto.Create
import Skynet.Sproto.Import
import Skynet.Sproto.CreateBound
import Skynet.Sproto.Transport
import Skynet.Lib.Blocks
import Skynet.Socket.Server
import Skynet.Socket.Close
import Skynet.Socket.ReserveId
import Skynet.Socket.WritePath
import Skynet.Socket.Uncomplete
import Skynet.Lib.Ring
import Skynet.Netpack
import Skynet.NetpackStream
import Skynet.Lib.Endian
import Skynet.Lib.Feistel
import Skynet.Lib.Chunks
import Skynet.Lua.Value
import Skynet.Lua.Table
import Skynet.Seri.Pack
import Skynet.Seri.Unpack
import Skynet.Seri.Block
import Skynet.Seri.Table
import Skynet.Seri.RoundTrip
import Skynet.Seri.Untrusted
import Skynet.Scheduler
import Skynet.Queue
import Skynet.Hashid
import Skynet.ServiceHarbor
import Skynet.HarborQueue
import Skynet.HarborName
import Skynet.SocketChannel.Waiters
import Skynet.SocketChannel.Order
import Skynet.SocketChannel.Session
import Skynet.Multicast.Multicastd
import Skynet.Multicast.Membership
import Skynet.Multicast.Package
import Skynet.Cluster.Wire
import Skynet.Cluster.Clusterd
import Skynet.Datacenterd
import Skynet.ServiceMgr
import Skynet.Mahjong.Rules
import Skynet.Mahjong.Pool
import Skynet.Mahjong.Hu
import Skynet.Mahjong.Honours
import Skynet.Mahjong.Settlement
import Skynet.Mahjong.Round
import Skynet.Mahjong.RoundStep
import Skynet.Mahjong.RoundInv
import Skynet.Mahjong.Tiles
import Skynet.Mahjong.Errors
import Skynet.Mahjong.Turns
import Skynet.Mahjong.Gangs
import Skynet.Mahjong.Wallet
import Skynet.Mahjong.Secrecy
import Skynet.Mahjong.RoundEnd
import Skynet.Mahjong.GameTable
import Skynet.Mahjong.Settling
import Skynet.Mq.Placed
import Skynet.Mq.Handles
import Skynet.Mq.Carry
import Skynet.Mq.Mailbox
import Skynet.Stm
import Skynet.SvrDeplyBase
import Skynet.WaitingClient
import Skynet.GameServer
import Skynet.Hall.Table
import Skynet.Hall.Steps
import Skynet.Hall.Moves
import Skynet.Hall.Seats
import Skynet.Hall.LoginErrors
import Skynet.Hall.BattleFee
import Skynet.Hall.Offline
import Skynet.Hall.LifeCycle
import Skynet.Hall.Reconnect
import Skynet.HandleNames
import Skynet.Lua.StringPack
import Skynet.ProtobufBynine
import Skynet.SocketManager
import Skynet.Sharedatad
import Skynet.Sharedata.Conf
import Skynet.Sharedata.Lookup
import Skynet.Sharedata.Name
import Skynet.Sharedata.Fill
import Skynet.Sharedata.Built
import Skynet.Sharedata.Find
import Skynet.Sharedata.Faithful
import Skynet.Sharedata.Confused
import Skynet.SchedulerMgr
import Skynet.BYGateServer
import Skynet.Dispatch.Wakeup
import Skynet.Dispatch.Watching
import Skynet.HarborDown
import Skynet.Crypt.Hex
import Skynet.Crypt.Des
import Skynet.Crypt.DhExchange
import Skynet.Crypt.Base64
import Skynet.Socket.Buffer
import Skynet.Gate.Runs
import Skynet.Rwlock
import Skynet.Snax.Resend
import Skynet.Snax.Handshakes
import Skynet.Snax.Routing
import Skynet.Bson.Order
import Skynet.Bson.Replace
