import SocketCollection.Loop
import SocketCollection.OutQueueRefinement
import SocketCollection.Tcp

/-!
# The UDP socket

`UdpSock` and its `Inner` (`udp.rs`), over a non-blocking datagram socket.

The operating system enters as for TCP, as a script: `UdpSocket` holds the
answers it will give, and logs the datagrams it has handed over and those it
has been offered.  A script that has run out answers `WouldBlock`.

The source has each loop twice, for a connected socket and for one that names
a peer with each message, over buffers, queues and slots of their own.  Here
`Incoming` and `Outgoing` are the loops, a `ReadPath` and a `WritePath` name
the fields of the socket that one copy works on, and `read`, `readFrm`,
`write` and `writeTo` are the two copies.
-/

namespace SocketCollection.Udp

variable {L : Crates} {G : Type}

/-! ## The datagram socket -/

/-- `std::net::IpAddr`. -/
inductive IpAddr
  | v4 (octets : BitVec 32)
  | v6 (octets : BitVec 128)
  deriving DecidableEq

/-- `std::net::SocketAddr`. -/
structure SocketAddr where
  ip : IpAddr
  port : UInt16
  deriving DecidableEq

/-- What the operating system does with a datagram it is offered: it takes
all of it, says it took a part only, or refuses. -/
inductive SendAnswer
  | whole
  | upTo (n : Nat)
  | error (e : IoError)

/-- The answer to a datagram of the given length. -/
def SendAnswer.result (len : Nat) : SendAnswer → IoResult Nat
  | .whole => .ok len
  | .upTo n => .ok (min n len)
  | .error e => .error e

/-- A datagram that was offered, where to, and the answer; a connected socket
names no peer. -/
structure Offer where
  data : Bytes
  peer : Option SocketAddr
  result : IoResult Nat

/-- `mio::net::UdpSocket`: what it has handed over and has been offered so
far, and its answers to come. -/
structure UdpSocket where
  received : List (Bytes × SocketAddr)
  offered : List Offer
  recvResults : List (IoResult (Bytes × SocketAddr))
  sendResults : List SendAnswer

/-- The mio reading window is max at 64k. -/
def bufLen : Nat := 64 * 1024

namespace UdpSocket

/-- A fresh socket with the given answers to come. -/
def scripted (recvResults : List (IoResult (Bytes × SocketAddr)))
    (sendResults : List SendAnswer) : UdpSocket where
  received := []
  offered := []
  recvResults := recvResults
  sendResults := sendResults

/-- `sock.recv_from(&mut buffer)`, with the part of the buffer that was
filled. -/
def recvFrom (s : UdpSocket) : IoResult (Bytes × SocketAddr) × UdpSocket :=
  match s.recvResults with
  | [] => (.error .wouldBlock, s)
  | .error e :: rest => (.error e, { s with recvResults := rest })
  | .ok (payload, sender) :: rest =>
      let datagram := (payload.take bufLen, sender)
      (.ok datagram, { s with received := s.received ++ [datagram], recvResults := rest })

/-- Receive and keep a part of what there is. -/
def recvAs {M : Type} (view : Bytes × SocketAddr → M) (s : UdpSocket) :
    IoResult M × UdpSocket :=
  let (res, s) := s.recvFrom
  (res.map view, s)

/-- `sock.recv(&mut buffer)`. -/
def recv (s : UdpSocket) : IoResult Bytes × UdpSocket := s.recvAs Prod.fst

/-- `sock.send(&data)` and `sock.send_to(&data, &peer)`. -/
def send (s : UdpSocket) (data : Bytes) (peer : Option SocketAddr) : IoResult Nat × UdpSocket :=
  match s.sendResults with
  | [] =>
      let res := .error .wouldBlock
      (res, { s with offered := s.offered ++ [⟨data, peer, res⟩] })
  | answer :: rest =>
      let res := answer.result data.length
      (res, { s with offered := s.offered ++ [⟨data, peer, res⟩], sendResults := rest })

theorem recvFrom_decreases {s s' : UdpSocket} {d : Bytes × SocketAddr}
    (h : s.recvFrom = (.ok d, s')) : s'.recvResults.length < s.recvResults.length := by
  unfold recvFrom at h
  split at h
  · cases h
  · cases h
  · next heq =>
      obtain ⟨-, rfl⟩ := Prod.mk.inj h
      simp [heq]

theorem send_decreases {s s' : UdpSocket} {data : Bytes} {peer : Option SocketAddr} {n : Nat}
    (h : s.send data peer = (.ok n, s')) : s'.sendResults.length < s.sendResults.length := by
  unfold send at h
  split at h
  · cases h
  · next heq =>
      obtain ⟨-, rfl⟩ := Prod.mk.inj h
      simp [heq]

end UdpSocket

/-! ## Receiving -/

/-- Helper trait for `handle_recv_res`. -/
class IsEmpty (M : Type) where
  isEmpty : M → Bool

instance : IsEmpty Bytes where
  isEmpty := List.isEmpty

/-- The address does not count. -/
instance : IsEmpty (Bytes × SocketAddr) where
  isEmpty msg := msg.1.isEmpty

/-- What to do after a receive. -/
inductive RecvResult (M : Type)
  | wouldBlock (data : Option M)
  | continueRecv

/-- Buffers received UDP packets and checks when to stop calling `recv()`. -/
def handleRecvRes {M : Type} [IsEmpty M] (recvRes : IoResult M) (readBuffer : List M) :
    Res L (RecvResult M) × List M :=
  match recvRes with
  | .ok msg =>
      (.ok .continueRecv, if IsEmpty.isEmpty msg then readBuffer else readBuffer ++ [msg])
  | .error error =>
      if error.isRetry then (.ok (.wouldBlock readBuffer.head?), readBuffer.tail)
      else (.error (.io error), readBuffer)

/-- What the loop in `read` or `read_frm` works on. -/
structure Incoming (M : Type) where
  sock : UdpSocket
  readBuffer : List M

namespace Incoming

variable {M : Type} [IsEmpty M] (view : Bytes × SocketAddr → M)

/-- One round of the loop. -/
def recvRound (s : Incoming M) : Incoming M × Option (Res L (Option M)) :=
  let (res, sock) := s.sock.recvAs view
  match handleRecvRes res s.readBuffer with
  | (.error e, readBuffer) => (⟨sock, readBuffer⟩, some (.error e))
  | (.ok (.wouldBlock data), readBuffer) => (⟨sock, readBuffer⟩, some (.ok data))
  | (.ok .continueRecv, readBuffer) => (⟨sock, readBuffer⟩, none)

private theorem recvRound_decreases (s s' : Incoming M)
    (h : recvRound (L := L) view s = (s', none)) :
    s'.sock.recvResults.length < s.sock.recvResults.length := by
  unfold recvRound UdpSocket.recvAs at h
  rcases hrecv : s.sock.recvFrom with ⟨e | d, sock⟩
  · rw [hrecv] at h
    cases he : e.isRetry <;> simp [Except.map, handleRecvRes, he] at h
  · rw [hrecv] at h
    obtain ⟨rfl, -⟩ := Prod.mk.inj h
    exact UdpSocket.recvFrom_decreases hrecv

def recvLoop : Loop (Incoming M) (Res L (Option M)) where
  body := recvRound view
  measure s := s.sock.recvResults.length
  decreases := recvRound_decreases view

/-- The front of the buffer or, when that is empty, what the socket has to
offer first. -/
def next (s : Incoming M) : Res L (Option M) × Incoming M :=
  match s.readBuffer with
  | data :: readBuffer => (.ok (some data), { s with readBuffer := readBuffer })
  | [] =>
      let (s, res) := (recvLoop view).exec s
      (res, s)

end Incoming

/-! ## Sending -/

/-- If failed to send a message, requeue it. -/
def handleSendRes {M : Type} (sendRes : IoResult Nat) (currentWrite : Option M) (msgLen : Nat)
    (msg : M) : Res L Bool × Option M :=
  match sendRes with
  | .ok bytesTxd => (.ok true, if bytesTxd < msgLen then some msg else currentWrite)
  | .error error =>
      if error.isRetry then (.ok false, some msg) else (.error (.io error), currentWrite)

/-- How a message is handed to the operating system. -/
structure Wire (M : Type) where
  data : M → Bytes
  peer : M → Option SocketAddr

/-- What a flush loop works on. -/
structure Outgoing (L : Crates) (M : Type) where
  sock : UdpSocket
  outQueue : SendQueue L M
  currentWrite : Option M

namespace Outgoing

variable {M : Type}

/-- `self.current_write.take().or_else(|| self.out_queue.next_msg())`. -/
def takeMsg (o : Outgoing L M) : Option M × Outgoing L M :=
  match o.currentWrite with
  | some msg => (some msg, { o with currentWrite := none })
  | none =>
      let (msg, outQueue) := o.outQueue.nextMsg
      (msg, { o with outQueue := outQueue })

variable (wire : Wire M)

/-- Send a message that was taken, and see what is made of the answer. -/
def sendMsg (o : Outgoing L M) (msg : M) : Outgoing L M × Option (Res L Bool) :=
  let (res, sock) := o.sock.send (wire.data msg) (wire.peer msg)
  match handleSendRes res o.currentWrite (wire.data msg).length msg with
  | (.error e, currentWrite) =>
      ({ o with sock := sock, currentWrite := currentWrite }, some (.error e))
  | (.ok false, currentWrite) =>
      ({ o with sock := sock, currentWrite := currentWrite }, some (.ok false))
  | (.ok true, currentWrite) => ({ o with sock := sock, currentWrite := currentWrite }, none)

/-- One round of the flush loop. -/
def flushRound (o : Outgoing L M) : Outgoing L M × Option (Res L Bool) :=
  match o.takeMsg with
  | (none, o) => (o, some (.ok true))
  | (some msg, o) => o.sendMsg wire msg

theorem takeMsg_sock (o : Outgoing L M) : o.takeMsg.2.sock = o.sock := by
  unfold takeMsg
  split <;> rfl

private theorem flushRound_decreases (o o' : Outgoing L M) (h : o.flushRound wire = (o', none)) :
    o'.sock.sendResults.length < o.sock.sendResults.length := by
  have hsock := o.takeMsg_sock
  unfold flushRound at h
  generalize o.takeMsg = taken at h hsock
  obtain ⟨_ | msg, o₁⟩ := taken
  · cases h
  · replace hsock : o₁.sock = o.sock := hsock
    rw [← hsock]
    simp only [sendMsg] at h
    rcases hsend : o₁.sock.send (wire.data msg) (wire.peer msg) with ⟨e | n, sock⟩
    · rw [hsend] at h
      cases he : e.isRetry <;> simp [handleSendRes, he] at h
    · rw [hsend] at h
      obtain ⟨rfl, -⟩ := Prod.mk.inj h
      exact UdpSocket.send_decreases hsend

/-- The flush loop. -/
def flushLoop : Loop (Outgoing L M) (Res L Bool) where
  body := flushRound wire
  measure o := o.sock.sendResults.length
  decreases := flushRound_decreases wire

/-- Returns `Ok(false)`, if write to the underlying stream would block. -/
def flush (o : Outgoing L M) : Res L Bool × Outgoing L M :=
  let (o, res) := (flushLoop wire).exec o
  (res, o)

/-- Drop what has expired, push the message, if there is one and it could be
encrypted, and flush. -/
def write (o : Outgoing L M) (clock : Clock) (msg : Option (Res L M × Priority)) :
    Res L Bool × Outgoing L M :=
  let o := { o with outQueue := (o.outQueue.dropExpired clock.dropExpired).2 }
  match msg with
  | none => o.flush wire
  | some (.error e, _) => (.error e, o)
  | some (.ok msg, priority) =>
      flush wire { o with outQueue := o.outQueue.push clock.push msg priority }

end Outgoing

/-! ## The socket -/

structure Inner (L : Crates) (G : Type) where
  sock : UdpSocket
  readBuffer : List Bytes
  readBuffer2 : List (Bytes × SocketAddr)
  outQueue : SendQueue L (Frame G)
  currentWrite : Option (Frame G)
  outQueue2 : SendQueue L (Frame G × SocketAddr)
  currentWrite2 : Option (Frame G × SocketAddr)
  encCtx : EncryptContext L
  decCtx : DecryptContext L

/-- One copy of the receiving code: what it keeps of a datagram, what it makes
of that in the end, and the fields it works on. -/
structure ReadPath (L : Crates) (G M : Type) [IsEmpty M] where
  view : Bytes × SocketAddr → M
  Result : Type → Type
  decode : {T : Type} → [Serde L T] → DecryptContext L → M → Res L (Result T)
  incoming : Inner L G → Incoming M
  setIncoming : Inner L G → Incoming M → Inner L G
  isEmpty_view : ∀ d, IsEmpty.isEmpty (view d) = d.1.isEmpty
  decode_ne_io : ∀ {T : Type} [Serde L T] (ctx : DecryptContext L) (msg : M) (e : IoError),
    decode (T := T) ctx msg ≠ .error (.io e)
  incoming_sock : ∀ i, (incoming i).sock = i.sock
  incoming_set : ∀ i s, incoming (setIncoming i s) = s
  incoming_decCtx : ∀ i ctx, incoming { i with decCtx := ctx } = incoming i
  set_decCtx : ∀ i s, (setIncoming i s).decCtx = i.decCtx

/-- One copy of the sending code: how it hands a message to the operating
system, and the fields it works on. -/
structure WritePath (L : Crates) (G M : Type) where
  wire : Wire M
  outgoing : Inner L G → Outgoing L M
  setOutgoing : Inner L G → Outgoing L M → Inner L G
  outgoing_sock : ∀ i, (outgoing i).sock = i.sock
  outgoing_set : ∀ i o, outgoing (setOutgoing i o) = o
  outgoing_encCtx : ∀ i ctx, outgoing { i with encCtx := ctx } = outgoing i
  set_encCtx : ∀ i o, (setOutgoing i o).encCtx = i.encCtx

namespace Inner

def new (sock : UdpSocket) (conf : SocketConfig L) : Inner L G where
  sock := sock
  readBuffer := []
  readBuffer2 := []
  outQueue := SendQueue.new conf
  currentWrite := none
  outQueue2 := SendQueue.new conf
  currentWrite2 := none
  encCtx := conf.encCtx
  decCtx := conf.decCtx

def setEncryptCtx (i : Inner L G) (encCtx : EncryptContext L) : Inner L G :=
  { i with encCtx := encCtx }

def setDecryptCtx (i : Inner L G) (decCtx : DecryptContext L) : Inner L G :=
  { i with decCtx := decCtx }

/-! ### Reading -/

section Read

variable {M T : Type} [IsEmpty M]

/-- Take the next datagram and decrypt it. -/
def readVia (path : ReadPath L G M) (T : Type) [Serde L T] (i : Inner L G) :
    Res L (Option (path.Result T)) × Inner L G :=
  let (data, incoming) := (path.incoming i).next path.view
  let i := path.setIncoming i incoming
  match data with
  | .error e => (.error e, i)
  | .ok none => (.ok none, i)
  | .ok (some data) => ((path.decode i.decCtx data).map some, i)

/-- `recv` into `read_buffer`. -/
def recvPath : ReadPath L G Bytes where
  view := Prod.fst
  Result T := T
  decode := DecryptContext.decrypt
  incoming i := ⟨i.sock, i.readBuffer⟩
  setIncoming i s := { i with sock := s.sock, readBuffer := s.readBuffer }
  isEmpty_view _ := rfl
  decode_ne_io ctx data e := ctx.decrypt_ne_io data e
  incoming_sock _ := rfl
  incoming_set _ _ := rfl
  incoming_decCtx _ _ := rfl
  set_decCtx _ _ := rfl

/-- Decrypt a message and keep its sender. -/
def decryptFrm [Serde L T] (ctx : DecryptContext L) (msg : Bytes × SocketAddr) :
    Res L (T × SocketAddr) :=
  (ctx.decrypt msg.1).map fun value => (value, msg.2)

private theorem decryptFrm_ne_io [Serde L T] (ctx : DecryptContext L) (msg : Bytes × SocketAddr)
    (e : IoError) : decryptFrm (T := T) ctx msg ≠ .error (.io e) := by
  intro h
  unfold decryptFrm at h
  cases hdec : ctx.decrypt (T := T) msg.1 with
  | error e' =>
      rw [hdec, Except.map, Except.error.injEq] at h
      exact ctx.decrypt_ne_io msg.1 e (h ▸ hdec)
  | ok value => simp [hdec, Except.map] at h

/-- `recv_from` into `read_buffer_2`. -/
def recvFromPath : ReadPath L G (Bytes × SocketAddr) where
  view := id
  Result T := T × SocketAddr
  decode := decryptFrm
  incoming i := ⟨i.sock, i.readBuffer2⟩
  setIncoming i s := { i with sock := s.sock, readBuffer2 := s.readBuffer }
  isEmpty_view _ := rfl
  decode_ne_io ctx msg e := decryptFrm_ne_io ctx msg e
  incoming_sock _ := rfl
  incoming_set _ _ := rfl
  incoming_decCtx _ _ := rfl
  set_decCtx _ _ := rfl

def read (T : Type) [Serde L T] (i : Inner L G) : Res L (Option T) × Inner L G :=
  i.readVia recvPath T

def readFrm (T : Type) [Serde L T] (i : Inner L G) :
    Res L (Option (T × SocketAddr)) × Inner L G :=
  i.readVia recvFromPath T

end Read

/-! ### Writing -/

section Write

variable {M T : Type} [Serde L T]

def writeVia (path : WritePath L G M) (i : Inner L G) (clock : Clock)
    (msg : Option (Res L M × Priority)) : Res L Bool × Inner L G :=
  let (res, outgoing) := (path.outgoing i).write path.wire clock msg
  (res, path.setOutgoing i outgoing)

/-- `send` out of `out_queue`, through `current_write`. -/
def sendPath : WritePath L G (Frame G) where
  wire := ⟨Frame.bytes, fun _ => none⟩
  outgoing i := ⟨i.sock, i.outQueue, i.currentWrite⟩
  setOutgoing i o :=
    { i with sock := o.sock, outQueue := o.outQueue, currentWrite := o.currentWrite }
  outgoing_sock _ := rfl
  outgoing_set _ _ := rfl
  outgoing_encCtx _ _ := rfl
  set_encCtx _ _ := rfl

/-- `send_to` out of `out_queue2`, through `current_write_2`. -/
def sendToPath : WritePath L G (Frame G × SocketAddr) where
  wire := ⟨fun msg => msg.1.bytes, fun msg => some msg.2⟩
  outgoing i := ⟨i.sock, i.outQueue2, i.currentWrite2⟩
  setOutgoing i o :=
    { i with sock := o.sock, outQueue2 := o.outQueue, currentWrite2 := o.currentWrite }
  outgoing_sock _ := rfl
  outgoing_set _ _ := rfl
  outgoing_encCtx _ _ := rfl
  set_encCtx _ _ := rfl

/-- The message to push, encrypted, with its priority. -/
def encrypted (i : Inner L G) (nonce : L.Nonce) (label : G) (msg : Option (T × Priority)) :
    Option (Res L (Frame G) × Priority) :=
  msg.map fun (msg, priority) =>
    ((i.encCtx.encrypt nonce msg).map fun buf => ⟨buf, label⟩, priority)

def write (i : Inner L G) (clock : Clock) (nonce : L.Nonce) (label : G)
    (msg : Option (T × Priority)) : Res L Bool × Inner L G :=
  i.writeVia sendPath clock (i.encrypted nonce label msg)

/-- The message to push, encrypted, with its peer and its priority. -/
def encryptedTo (i : Inner L G) (nonce : L.Nonce) (label : G)
    (msg : Option (T × SocketAddr × Priority)) :
    Option (Res L (Frame G × SocketAddr) × Priority) :=
  msg.map fun (msg, peer, priority) =>
    ((i.encCtx.encrypt nonce msg).map fun buf => (⟨buf, label⟩, peer), priority)

def writeTo (i : Inner L G) (clock : Clock) (nonce : L.Nonce) (label : G)
    (msg : Option (T × SocketAddr × Priority)) : Res L Bool × Inner L G :=
  i.writeVia sendToPath clock (i.encryptedTo nonce label msg)

private theorem ok_of_map {A B : Type} {f : A → B} {res : Res L A} {b : B}
    (h : res.map f = .ok b) : ∃ a, f a = b := by
  cases res with
  | error e => cases h
  | ok a => exact ⟨a, Except.ok.inj h⟩

/-- Encryption keeps label and priority. -/
theorem encrypted_ok {i : Inner L G} {nonce : L.Nonce} {label : G} {msg : Option (T × Priority)}
    {m : Frame G} {priority : Priority} (h : i.encrypted nonce label msg = some (.ok m, priority)) :
    m.label = label ∧ msg.map Prod.snd = some priority := by
  rcases msg with _ | ⟨value, priority'⟩
  · cases h
  · obtain ⟨hres, rfl⟩ := Prod.mk.inj (Option.some.inj h)
    obtain ⟨buf, rfl⟩ := ok_of_map hres
    exact ⟨rfl, rfl⟩

theorem encryptedTo_ok {i : Inner L G} {nonce : L.Nonce} {label : G}
    {msg : Option (T × SocketAddr × Priority)} {m : Frame G × SocketAddr} {priority : Priority}
    (h : i.encryptedTo nonce label msg = some (.ok m, priority)) :
    m.1.label = label ∧ (msg.map fun msg => msg.2.2) = some priority := by
  rcases msg with _ | ⟨value, peer, priority'⟩
  · cases h
  · obtain ⟨hres, rfl⟩ := Prod.mk.inj (Option.some.inj h)
    obtain ⟨buf, rfl⟩ := ok_of_map hres
    exact ⟨rfl, rfl⟩

end Write

end Inner

/-- `UdpSock`: uninitialised until it wraps a socket. -/
structure UdpSock (L : Crates) (G : Type) where
  inner : Option (Inner L G)

namespace UdpSock

/-- `UdpSock::default()`. -/
def default : UdpSock L G := ⟨none⟩

def wrapWithConf (sock : UdpSocket) (conf : SocketConfig L) : UdpSock L G :=
  ⟨some (Inner.new sock conf)⟩

/-- `self.inner.as_mut().ok_or(SocketError::UninitialisedSocket)?`, and then
the call on what is inside. -/
def withInner {α : Type} (s : UdpSock L G) (call : Inner L G → Res L α × Inner L G) :
    Res L α × UdpSock L G :=
  match s.inner with
  | none => (.error .uninitialisedSocket, s)
  | some i => ((call i).1, ⟨some (call i).2⟩)

def setEncryptCtx (s : UdpSock L G) (encCtx : EncryptContext L) : Res L Unit × UdpSock L G :=
  s.withInner fun i => (.ok (), i.setEncryptCtx encCtx)

def setDecryptCtx (s : UdpSock L G) (decCtx : DecryptContext L) : Res L Unit × UdpSock L G :=
  s.withInner fun i => (.ok (), i.setDecryptCtx decCtx)

variable {T : Type} [Serde L T]

def read (T : Type) [Serde L T] (s : UdpSock L G) : Res L (Option T) × UdpSock L G :=
  s.withInner (Inner.read T)

def readFrm (T : Type) [Serde L T] (s : UdpSock L G) :
    Res L (Option (T × SocketAddr)) × UdpSock L G :=
  s.withInner (Inner.readFrm T)

def write (s : UdpSock L G) (clock : Clock) (nonce : L.Nonce) (label : G)
    (msg : Option (T × Priority)) : Res L Bool × UdpSock L G :=
  s.withInner fun i => i.write clock nonce label msg

def writeTo (s : UdpSock L G) (clock : Clock) (nonce : L.Nonce) (label : G)
    (msg : Option (T × SocketAddr × Priority)) : Res L Bool × UdpSock L G :=
  s.withInner fun i => i.writeTo clock nonce label msg

end UdpSock

end SocketCollection.Udp
