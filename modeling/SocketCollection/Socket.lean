import SocketCollection.Udp

/-!
# The protocol agnostic socket

`Socket` (`socket.rs`) wraps a `UdpSock` or a `TcpSock`, and passes each call on.

Besides sending and receiving, a socket lets the caller ask the operating system
about the socket beneath, or set an option of it.  Those calls change nothing of the
crate's own, except that `connect` notes the peer of a UDP socket.  What the
operating system answers at the time of a call is an argument of the call (`Os`), as
the clock and the randomness are.

## Main result

* `Udp.PeerSock.peerAddr_bound`: `peer_addr` of a UDP socket answers with the address
  of the last `connect` that succeeded, whatever else was called.
-/

namespace SocketCollection

open Udp (SocketAddr UdpSock UdpSocket)

variable {L : Crates} {G α : Type}

/-- `std::time::Duration`, in nanoseconds. -/
abbrev Duration := Nat

/-- What the operating system answers when it is asked now. -/
structure Os where
  localAddr : IoResult SocketAddr
  peerAddr : IoResult SocketAddr
  setTtl : UInt32 → IoResult Unit
  ttl : IoResult UInt32
  takeError : IoResult (Option IoError)
  setLinger : Option Duration → IoResult Unit
  connect : SocketAddr → IoResult Unit

/-- `?` on an answer of the operating system. -/
def fromIo (answer : IoResult α) : Res L α := answer.mapError .io

/-! ## TCP -/

namespace TcpSock

/-- `self.inner.as_ref().ok_or(SocketError::UninitialisedSocket)?`, and then a call on
the stream inside that is answered like this. -/
def askStream (s : TcpSock L G) (answer : IoResult α) : Res L α :=
  match s.inner with
  | none => .error .uninitialisedSocket
  | some _ => fromIo answer

def setLinger (s : TcpSock L G) (os : Os) (dur : Option Duration) : Res L Unit :=
  s.askStream (os.setLinger dur)

def setTtl (s : TcpSock L G) (os : Os) (ttl : UInt32) : Res L Unit := s.askStream (os.setTtl ttl)

def ttl (s : TcpSock L G) (os : Os) : Res L UInt32 := s.askStream os.ttl

def localAddr (s : TcpSock L G) (os : Os) : Res L SocketAddr := s.askStream os.localAddr

def peerAddr (s : TcpSock L G) (os : Os) : Res L SocketAddr := s.askStream os.peerAddr

def takeError (s : TcpSock L G) (os : Os) : Res L (Option IoError) := s.askStream os.takeError

end TcpSock

/-! ## UDP -/

namespace Udp

/-- `UdpSock` with the field `peer` of its `Inner`, which sending and receiving do not
look at. -/
structure PeerSock (L : Crates) (G : Type) where
  sock : UdpSock L G
  peer : Option SocketAddr

namespace PeerSock

def wrapWithConf (sock : UdpSocket) (conf : SocketConfig L) : PeerSock L G :=
  ⟨.wrapWithConf sock conf, none⟩

/-- `UdpSock::bind_with_conf`, given what `UdpSocket::bind` answers. -/
def bindWithConf (sock : IoResult UdpSocket) (conf : SocketConfig L) : Res L (PeerSock L G) :=
  (fromIo sock).map fun sock => wrapWithConf sock conf

/-- Set default destination address for UDP socket. -/
def connect (s : PeerSock L G) (os : Os) (addr : SocketAddr) : Res L Unit × PeerSock L G :=
  match s.sock.inner with
  | none => (.error .uninitialisedSocket, s)
  | some _ =>
      match os.connect addr with
      | .error e => (.error (.io e), s)
      | .ok () => (.ok (), { s with peer := some addr })

/-- `self.inner.as_ref().ok_or(SocketError::UninitialisedSocket)?`, and then a call on
the socket inside that is answered like this. -/
def askSock (s : PeerSock L G) (answer : IoResult α) : Res L α :=
  match s.sock.inner with
  | none => .error .uninitialisedSocket
  | some _ => fromIo answer

def localAddr (s : PeerSock L G) (os : Os) : Res L SocketAddr := s.askSock os.localAddr

/-- Get the address `UdpSock` was connected to. -/
def peerAddr (s : PeerSock L G) : Res L SocketAddr :=
  match s.sock.inner with
  | none => .error .uninitialisedSocket
  | some _ =>
      match s.peer with
      | none => .error .unconnectedUdpSocket
      | some addr => .ok addr

def setTtl (s : PeerSock L G) (os : Os) (ttl : UInt32) : Res L Unit := s.askSock (os.setTtl ttl)

def ttl (s : PeerSock L G) (os : Os) : Res L UInt32 := s.askSock os.ttl

def takeError (s : PeerSock L G) (os : Os) : Res L (Option IoError) := s.askSock os.takeError

/-- A call on the part of the socket that sends and receives. -/
def onSock (s : PeerSock L G) (call : UdpSock L G → Res L α × UdpSock L G) :
    Res L α × PeerSock L G :=
  ((call s.sock).1, { s with sock := (call s.sock).2 })

end PeerSock

/-! ### The peer

Whatever else is called in between, the peer is the address of the last `connect`
that succeeded. -/

/-- A call on a UDP socket: `connect`, or one that is passed on to what is inside, as
those are that send, receive or set a context. -/
inductive PeerCall (L : Crates) (G : Type) : Type 1
  | connect (os : Os) (addr : SocketAddr)
  | inner {α : Type} (call : Inner L G → Res L α × Inner L G)

/-- The address that a call connects an initialised socket to. -/
def PeerCall.connected : PeerCall L G → Option SocketAddr
  | .connect os addr =>
      match os.connect addr with
      | .ok () => some addr
      | .error _ => none
  | .inner _ => none

namespace PeerSock

def step (s : PeerSock L G) : PeerCall L G → PeerSock L G
  | .connect os addr => (s.connect os addr).2
  | .inner call => (s.onSock fun sock => sock.withInner call).2

private theorem step_initialised (s : PeerSock L G) (call : PeerCall L G) :
    (s.step call).sock.inner.isSome = s.sock.inner.isSome := by
  cases call with
  | connect os addr =>
      simp only [step, connect]
      split
      · rfl
      · split <;> rfl
  | inner call =>
      obtain ⟨⟨_ | i⟩, peer⟩ := s <;> rfl

private theorem step_peer {s : PeerSock L G} (hinit : s.sock.inner.isSome = true)
    (call : PeerCall L G) : (s.step call).peer = call.connected.or s.peer := by
  cases call with
  | connect os addr =>
      obtain ⟨⟨_ | i⟩, peer⟩ := s
      · cases hinit
      · simp only [step, connect, PeerCall.connected]
        cases os.connect addr <;> rfl
  | inner call => rfl

/-- **The peer of an initialised socket**, after any calls. -/
theorem peer_foldl (calls : List (PeerCall L G)) : ∀ {s : PeerSock L G},
    s.sock.inner.isSome = true → (calls.foldl step s).sock.inner.isSome = true ∧
      (calls.foldl step s).peer = (calls.filterMap PeerCall.connected).getLast?.or s.peer := by
  induction calls with
  | nil => exact fun hinit => ⟨hinit, rfl⟩
  | cons call calls ih =>
      intro s hinit
      have hpeer := step_peer hinit call
      rw [List.foldl_cons, List.filterMap_cons]
      obtain ⟨hinit', hpeer'⟩ := ih ((s.step_initialised call).trans hinit)
      refine ⟨hinit', hpeer'.trans ?_⟩
      rw [hpeer]
      cases call.connected with
      | none => rfl
      | some addr =>
          rw [List.getLast?_cons]
          cases (calls.filterMap PeerCall.connected).getLast? <;> rfl

/-- **What `peer_addr` answers**, after any calls on a socket that was bound. -/
theorem peerAddr_bound {sock : IoResult UdpSocket} {conf : SocketConfig L} {s : PeerSock L G}
    (hbound : bindWithConf sock conf = .ok s) (calls : List (PeerCall L G)) :
    (calls.foldl step s).peerAddr =
      (calls.filterMap PeerCall.connected).getLast?.elim (.error .unconnectedUdpSocket) .ok := by
  rcases sock with e | sock
  · cases hbound
  · obtain rfl : wrapWithConf sock conf = s := Except.ok.inj hbound
    obtain ⟨hinit, hpeer⟩ := peer_foldl calls
      (show (wrapWithConf sock conf : PeerSock L G).sock.inner.isSome = true from rfl)
    obtain ⟨i, hi⟩ := Option.isSome_iff_exists.mp hinit
    rw [peerAddr, hi, hpeer]
    cases (calls.filterMap PeerCall.connected).getLast? <;> rfl

end PeerSock

end Udp

/-! ## Either of them -/

/-- Protocol agnostic socket that wraps `UdpSock` and `TcpSock`. -/
inductive Socket (L : Crates) (G : Type)
  | udp (sock : Udp.PeerSock L G)
  | tcp (sock : TcpSock L G)

namespace Socket

def setEncryptCtx (s : Socket L G) (encCtx : EncryptContext L) : Res L Unit × Socket L G :=
  match s with
  | .udp sock =>
      let (res, sock) := sock.onSock fun sock => sock.setEncryptCtx encCtx
      (res, .udp sock)
  | .tcp sock =>
      let (res, sock) := sock.setEncryptCtx encCtx
      (res, .tcp sock)

def setDecryptCtx (s : Socket L G) (decCtx : DecryptContext L) : Res L Unit × Socket L G :=
  match s with
  | .udp sock =>
      let (res, sock) := sock.onSock fun sock => sock.setDecryptCtx decCtx
      (res, .udp sock)
  | .tcp sock =>
      let (res, sock) := sock.setDecryptCtx decCtx
      (res, .tcp sock)

def localAddr (s : Socket L G) (os : Os) : Res L SocketAddr :=
  match s with
  | .udp sock => sock.localAddr os
  | .tcp sock => sock.localAddr os

def peerAddr (s : Socket L G) (os : Os) : Res L SocketAddr :=
  match s with
  | .udp sock => sock.peerAddr
  | .tcp sock => sock.peerAddr os

def setTtl (s : Socket L G) (os : Os) (ttl : UInt32) : Res L Unit :=
  match s with
  | .udp sock => sock.setTtl os ttl
  | .tcp sock => sock.setTtl os ttl

def ttl (s : Socket L G) (os : Os) : Res L UInt32 :=
  match s with
  | .udp sock => sock.ttl os
  | .tcp sock => sock.ttl os

def takeError (s : Socket L G) (os : Os) : Res L (Option IoError) :=
  match s with
  | .udp sock => sock.takeError os
  | .tcp sock => sock.takeError os

section Transfer

variable [Serde L UInt32] {T : Type}

/-- Read message from the connected socket. -/
def read (T : Type) [Serde L T] (s : Socket L G) : Res L (Option T) × Socket L G :=
  match s with
  | .udp sock =>
      let (res, sock) := sock.onSock fun sock => sock.read T
      (res, .udp sock)
  | .tcp sock =>
      let (res, sock) := sock.read T
      (res, .tcp sock)

/-- Write a message to the connected socket.  UDP encrypts once, TCP a header as well. -/
def write [Serde L T] (s : Socket L G) (clock : Clock) (nonces : FrameNonces L) (label : G)
    (msg : Option (T × Priority)) : Res L Bool × Socket L G :=
  match s with
  | .udp sock =>
      let (res, sock) := sock.onSock fun sock => sock.write clock nonces.payload label msg
      (res, .udp sock)
  | .tcp sock =>
      let (res, sock) := sock.write clock nonces label msg
      (res, .tcp sock)

end Transfer

/-- Sets linger time for connection based protocols. -/
def setLinger (s : Socket L G) (os : Os) (dur : Option Duration) : Res L Unit :=
  match s with
  | .udp _ => .ok ()
  | .tcp sock => sock.setLinger os dur

end Socket

end SocketCollection
