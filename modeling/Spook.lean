import Spook.Lib.Machine
import Spook.Lib.CString
import Spook.Lib.Wp
import Spook.Fault
import Spook.Pmsg.Basic
import Spook.Pmsg.Parse
import Spook.Pmsg.Grammar
import Spook.Pmsg.Invariant
import Spook.Pmsg.Build
import Spook.Pmsg.RoundTrip
import Spook.Tcp.Conn
import Spook.Tcp.Reading
import Spook.Tcp.Segmentation
import Spook.Lib.Ring
import Spook.Exchanger
import Spook.Capture
import Spook.Server
import Spook.Live.Basic
import Spook.Live.Requests
import Spook.Http
import Spook.Tcp.Server
import Spook.Tcp.Frame
import Spook.Tcp.Round
import Spook.Tcp.Registry
import Spook.Tcp.Tunnel
import Spook.Live.Config
import Spook.Tcp.SendBuf
import Spook.Tcp.SendPmsg
import Spook.Tcp.Units
import Spook.HttpAuth
import Spook.Live.Change
import Spook.Live.Effect
import Spook.Live.Handled
import Spook.Live.Sending
import Spook.Live.Events
import Spook.Live.Leak
import Spook.Live.Access
import Spook.Live.Sound
import Spook.Live.Interleaved
import Spook.Live.Reap
import Spook.Frames.Basic
import Spook.Speak
import Spook.Frames.Heap
import Spook.Frames.Run
import Spook.Frames.Ownership
import Spook.Demand
import Spook.Live.Packets
import Spook.Live.Play
import Spook.Live.Incoming
import Spook.Conf.Scan
import Spook.Conf.Parse
import Spook.Conf.Accept
import Spook.EventLoop.Basic
import Spook.EventLoop.Dispatch
import Spook.Rtp.H264
import Spook.Pmsg.Bounds
import Spook.Pmsg.Param
import Spook.Lib.Base64
import Spook.Tcp.Decode
import Spook.Rtsp.Location
import Spook.Pmsg.Space
import Spook.Rtsp.Reply
import Spook.Rtsp.Buffers
import Spook.Rtsp.Setup
import Spook.Live.Teardown
import Spook.Lib.Refine
import Spook.Live.Callbacks
import Spook.Live.Wiring
import Spook.Lib.Hex
import Spook.Rtp.Mpeg4.Basic
import Spook.Rtp.Jpeg.Basic
import Spook.Rtp.Mpeg4.Send
import Spook.Rtp.Jpeg.Send
import Spook.Rtp.Clock
import Spook.Lib.Ledger
import Spook.Rtp.Udp
import Spook.Rtp.UdpLeak
import Spook.Rtp.UdpSearch
import Spook.HttpLookup
import Spook.Rtp.Jpeg.Frame
import Spook.Rtp.Mpeg4.Config
import Spook.Rtp.Mpeg4.Queue
import Spook.Rtp.Jpeg.Inside
import Spook.Rtp.Mpeg4.Inside
import Spook.Rtp.Inside
import Spook.Live.Aside
import Spook.Live.Shared
import Spook.Lib.Scan
import Spook.HttpAuth.Binding
import Spook.HttpAuth.Directives
import Spook.Lib.Buffer
import Spook.SpeakCopy
import Spook.Conf.Report
import Spook.EventLoop.SoftList
import Spook.EventLoop.Deinit
import Spook.EventLoop.Clock
import Spook.EventLoop.SoftQueue
import Spook.Lib.Printf
import Spook.Log
import Spook.Control
import Spook.AudioRing
import Spook.Live.Connected
import Spook.Live.Offered
import Spook.Live.Gate
import Spook.Lib.Bits
import Spook.Rtp.Field
import Spook.Rtp.Mpv.Send
import Spook.Wireless.BestAp
import Spook.Wireless.Roam
import Spook.Wireless.Link
import Spook.Rtp.Record
import Spook.Live.Freed
import Spook.Live.Happening
import Spook.Live.Waiting
import Spook.Lib.Blocks
import Spook.Md5.Basic
import Spook.Md5.Definition
import Spook.Md5.Rounds
import Spook.Md5.Stream
import Spook.Md5.Hash
import Spook.Lib.Leading
import Spook.SoundConv
import Spook.Lib.Groups
import Spook.Conversions
import Spook.Lib.Serial
import Spook.Rtp.Wire
import Spook.Rtp.Network
import Spook.Lib.Every
import Spook.Streams.Basic
import Spook.Streams.Order
import Spook.Streams.Flow
import Spook.Streams.Rate
import Spook.Streams.Demand
import Spook.Adpcm
import Spook.Lib.Pieces
import Spook.Rtp.Jpeg.Image
import Spook.Rtp.Jpeg.Network
import Spook.Live.FanOut
