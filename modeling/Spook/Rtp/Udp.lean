import Spook.Lib.CString
import Spook.Lib.Ledger
import Mathlib.Algebra.Order.Ring.Int
import Mathlib.Tactic.Push

set_option relaxedAutoImplicit false
set_option autoImplicit false

/-!
# Connecting an endpoint over UDP

`config_rtprange` and `connect_udp_endpoint` of `rtp.c`: the search for two ports next to each other
that are free, and the sockets.

What the system calls return is given for each round of the search. A descriptor is named by the
number of sockets that were opened before it.

## Main definitions

* `Spook.RtpRange`, `configRtprange` — the range of ports.
* `Spook.UdpCalls` — what the system calls return.
* `Spook.udpRound`, `udpSearch`, `connectUdpEndpoint` — the function of the source.
-/

namespace Spook

/-! ## The range -/

/-- `rtp_port_start` and `rtp_port_end`: the first is even, and there are at least eight ports. -/
structure RtpRange where
  portStart : ℤ
  portEnd : ℤ
  even : portStart % 2 = 0
  size : 8 ≤ portEnd - portStart + 1

/-- The range without a directive. -/
def defaultRtpRange : RtpRange := ⟨50000, 60000, by decide, by decide⟩

/-- `config_rtprange`; `none` is the exit of the program. -/
def configRtprange (first last : ℤ) : Option RtpRange :=
  let portStart := if first % 2 = 1 then first + 1 else first
  let portEnd := if last % 2 = 1 then last else last - 1
  if h : portEnd - portStart + 1 < 8 then none
  else some ⟨portStart, portEnd, by grind, by omega⟩

/-! ## The calls -/

/-- What `bind` returns; `inUse` is the error `EADDRINUSE`. -/
inductive BindResult
  | bound
  | inUse
  | failed
  deriving DecidableEq

/-- What the calls return: `random`, `socket` and `bind` in each round of the search, `bind` for each
port, and the calls behind the search. -/
structure UdpCalls where
  random : ℕ
  rtpSocket : ℕ → Bool
  rtcpSocket : ℕ → Bool
  rtpBind : ℕ → ℤ → BindResult
  rtcpBind : ℕ → ℤ → BindResult
  rtpConnect : Bool
  rtcpConnect : Bool
  getsockname : Option (Bytes × ℤ)

/-- The sockets: which were opened and closed, and the ports they were bound to. -/
structure UdpSockets where
  ledger : Ledger
  bound : List (ℕ × ℤ)

namespace UdpSockets

/-- No sockets. -/
def none : UdpSockets := ⟨.empty, []⟩

/-- `socket`, unless the descriptor is there. -/
def socket (s : UdpSockets) (fd : Option ℕ) (succeeds : Bool) : UdpSockets × Option ℕ :=
  match fd with
  | some k => (s, some k)
  | .none =>
    if succeeds then ({ s with ledger := s.ledger.acquire }, some s.ledger.acquired) else (s, .none)

/-- `close`. -/
def close (s : UdpSockets) (fd : ℕ) : UdpSockets := { s with ledger := s.ledger.release fd }

/-- The socket `fd` is bound to a port. -/
def bind (s : UdpSockets) (fd : ℕ) (port : ℤ) : UdpSockets := { s with bound := s.bound ++ [(fd, port)] }

end UdpSockets

/-- Why `connect_udp_endpoint` fails. -/
inductive UdpFailure
  | rtpSocket
  | rtcpSocket
  | rtpBind
  | rtcpBind
  | ranOut
  | rtpConnect
  | rtcpConnect
  | getsockname
  deriving DecidableEq

/-- What is logged, up to the text of `errno`. -/
def UdpFailure.text : UdpFailure → String
  | .rtpSocket => "unable to create UDP RTP socket: "
  | .rtcpSocket => "unable to create UDP RTCP socket: "
  | .rtpBind => "strange error when binding RTP socket: "
  | .rtcpBind => "strange error when binding RTCP socket: "
  | .ranOut => "ran out of UDP RTP ports!"
  | .rtpConnect => "strange error when connecting RTP socket: "
  | .rtcpConnect => "strange error when connecting RTCP socket: "
  | .getsockname => "strange error from getsockname: "

/-! ## The search -/

/-- How a round of the search ends. -/
inductive UdpRound
  /-- A port is in use; these descriptors are kept. -/
  | again (rtpfd rtcpfd : Option ℕ)
  | bound (rtpfd rtcpfd : ℕ)
  | failed (why : UdpFailure)

section Search

variable (calls : UdpCalls) (range : RtpRange)

/-- The round `i` of the search, behind the choice of the port. -/
def udpRound (i : ℕ) (port : ℤ) (rtpfd rtcpfd : Option ℕ) (s : UdpSockets) : UdpSockets × UdpRound :=
  match s.socket rtpfd (calls.rtpSocket i) with
  | (s, .none) => (s, .failed .rtpSocket)
  | (s, some rtp) =>
    match s.socket rtcpfd (calls.rtcpSocket i) with
    | (s, .none) => (s.close rtp, .failed .rtcpSocket)
    | (s, some rtcp) =>
      match calls.rtpBind i port with
      | .inUse => (s, .again (some rtp) (some rtcp))
      | .failed => ((s.close rtp).close rtcp, .failed .rtpBind)
      | .bound =>
        let s := s.bind rtp port
        match calls.rtcpBind i (port + 1) with
        | .inUse => (s.close rtp, .again .none (some rtcp))
        | .failed => ((s.close rtp).close rtcp, .failed .rtcpBind)
        | .bound => (s.bind rtcp (port + 1), .bound rtp rtcp)

/-- The port of a round: behind the end of the range the search goes on at its start. -/
def wrapPort (port : ℤ) : ℤ := if port + 1 > range.portEnd then range.portStart else port

/-- The loop of `connect_udp_endpoint` from the round `i` on, when `n` tries are left. -/
def udpSearch (n i : ℕ) (port : ℤ) (rtpfd rtcpfd : Option ℕ) (s : UdpSockets) :
    UdpSockets × Except UdpFailure (ℤ × ℕ × ℕ) :=
  match n with
  | 0 => (s, .error .ranOut)
  | n + 1 =>
    match udpRound calls i (wrapPort range port) rtpfd rtcpfd s with
    | (s, .again rtpfd rtcpfd) => udpSearch n (i + 1) (wrapPort range port + 2) rtpfd rtcpfd s
    | (s, .bound rtp rtcp) => (s, .ok (wrapPort range port, rtp, rtcp))
    | (s, .failed why) => (s, .error why)

/-- `max_tries`. -/
def maxTries : ℕ := ((range.portEnd - range.portStart + 1) / 2).toNat

/-- The port that the search begins with. -/
def firstPort : ℤ :=
  let port := range.portStart + (calls.random : ℤ) % (range.portEnd - range.portStart)
  if port % 2 = 1 then port + 1 else port

end Search

/-! ## The endpoint -/

/-- `trans_type` and `trans` as far as UDP is concerned. -/
inductive UdpTrans
  | other
  | udp (sdpAddr : Bytes) (sdpPort : ℤ) (rtpFd rtcpFd : ℕ)
  deriving DecidableEq

/-- The fields of `struct rtp_endpoint` that `connect_udp_endpoint` stores; the events are those of
the two descriptors. -/
structure UdpEndpoint where
  maxDataSize : ℤ
  trans : UdpTrans
  deriving DecidableEq

/-- What `connect_udp_endpoint` leaves behind: the sockets, the endpoint, what was stored in
`*our_port`, what was logged, and the value. -/
structure UdpOutcome where
  sockets : UdpSockets
  ep : UdpEndpoint
  ourPort : Option ℤ
  log : Option UdpFailure
  ret : ℤ

/-- `connect_udp_endpoint`. -/
def connectUdpEndpoint (calls : UdpCalls) (range : RtpRange) (ep : UdpEndpoint) : UdpOutcome :=
  match udpSearch calls range (maxTries range) 0 (firstPort calls range) none none .none with
  | (s, .error why) => ⟨s, ep, none, some why, -1⟩
  | (s, .ok (port, rtp, rtcp)) =>
    let failed (why : UdpFailure) : UdpOutcome := ⟨(s.close rtp).close rtcp, ep, none, some why, -1⟩
    if ¬ calls.rtpConnect then failed .rtpConnect
    else if ¬ calls.rtcpConnect then failed .rtcpConnect
    else
      match calls.getsockname with
      | none => failed .getsockname
      | some (addr, sdpPort) => ⟨s, ⟨1400, .udp addr sdpPort rtp rtcp⟩, some port, none, 0⟩

end Spook
