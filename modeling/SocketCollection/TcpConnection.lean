import SocketCollection.TcpFifo

/-!
# A TCP connection, both ways at once

A TCP socket is written to and read from, and so is the one at the other end.
Here both sockets of a connection do both, in any interleaving with each other
and with the network (`Connection`).

Writing works on one half of a socket and reading on the other (`Inner.writing`,
`Inner.reading`), and neither looks at the other's half.  So each direction of a
connection is a `Link`, whose steps are those made in this direction, and what
holds of links holds of both directions.

## Main results

* `step_forward`, `step_backward`: each direction is a link.
* `both_directions`: in every interleaving both directions are faithful and orderly.
-/

namespace SocketCollection

open Runs

variable {L : Crates} {G : Type}

namespace Inner

/-! ## The two halves of a socket -/

/-- The half that `write` works on, in a socket that has nothing to read. -/
def writing (conf : SocketConfig L) (i : Inner L G) : Inner L G :=
  { i with
    stream := { i.stream with readResults := [] }
    msgReader := (LenDelimitedReader.new conf.maxPayloadSize).setDecryptCtx conf.decCtx }

/-- The half that `read` works on, in a socket that has nothing to write. -/
def reading (conf : SocketConfig L) (i : Inner L G) : Inner L Unit where
  stream := .scripted [] i.stream.readResults
  msgReader := i.msgReader
  outQueue := SendQueue.new conf
  currentWrite := none
  encCtx := conf.encCtx

variable (conf : SocketConfig L)

/-! ### Writing -/

private theorem takeData_writing (i : Inner L G) :
    (i.writing conf).takeData = (i.takeData.1, i.takeData.2.writing conf) := by
  obtain ⟨stream, msgReader, outQueue, _ | data, encCtx⟩ := i
  · rfl
  · rfl

private theorem writeData_writing (i : Inner L G) (data : Frame G) :
    (i.writing conf).writeData data =
      ((i.writeData data).1.writing conf, (i.writeData data).2) := by
  have hstream : (i.writing conf).stream.write data.bytes =
      ((i.stream.write data.bytes).1,
        { (i.stream.write data.bytes).2 with readResults := [] }) := by
    obtain ⟨⟨accepted, answered, _ | ⟨_ | n, rest⟩, readResults⟩, msgReader, outQueue,
      currentWrite, encCtx⟩ := i
    · rfl
    · rfl
    · rfl
  unfold writeData
  rw [hstream]
  generalize i.stream.write data.bytes = answer
  obtain ⟨e | n, stream⟩ := answer
  · dsimp only
    split
    · rfl
    · rfl
  · dsimp only
    split
    · rfl
    · rfl

private theorem flushRound_writing (i : Inner L G) :
    (i.writing conf).flushRound = (i.flushRound.1.writing conf, i.flushRound.2) := by
  unfold flushRound
  rw [takeData_writing]
  obtain ⟨_ | data, i₁⟩ := i.takeData
  · rfl
  · exact writeData_writing conf i₁ data

private theorem WritesData.readResults {i i' : Inner L G} {data : Frame G}
    {out : Option (Res L Bool)} (h : WritesData i data i' out) :
    i'.stream.readResults = i.stream.readResults := by
  cases h with
  | partly _ _ h => exact h.readResults
  | wholly _ h => exact h.readResults
  | blocked _ _ h => exact h.readResults
  | failed _ _ h => exact h.readResults

/-- A round of the flush leaves the other half as it is. -/
private theorem flushRound_reading (i : Inner L G) :
    i.flushRound.1.reading conf = i.reading conf := by
  have htakes := i.takes_takeData
  unfold flushRound
  generalize i.takeData = taken at htakes
  obtain ⟨_ | data, i₁⟩ := taken
  · cases htakes with
    | nothing => rfl
  · have hstream : i₁.stream = i.stream := by cases htakes <;> rfl
    have hreader : i₁.msgReader = i.msgReader := by cases htakes <;> rfl
    have hwrites := i₁.writesData_writeData data
    show reading conf (i₁.writeData data).1 = _
    rw [reading, hwrites.frame.2.2, hwrites.readResults, hstream, hreader]
    rfl

/-! ### Reading -/

section Read

variable {T : Type} [Serde L UInt32] [Serde L T]

/-- The state of the loop in `read`, for the half that it works on. -/
private def Reading.half (s : Reading L G) : Reading L Unit :=
  ⟨s.inner.reading conf, s.isSomethingRead⟩

private theorem tryRead_reading (i : Inner L G) :
    (i.reading conf).tryRead T = ((i.tryRead T).1, (i.tryRead T).2.reading conf) := rfl

private theorem readRound_half (s : Reading L G) :
    readRound T (s.half conf) = ((readRound T s).1.half conf, (readRound T s).2) := by
  have hstream : (s.half conf).inner.stream.read =
      (s.inner.stream.read.1, .scripted [] s.inner.stream.read.2.readResults) := by
    obtain ⟨⟨⟨accepted, answered, writeResults, _ | ⟨e | bytes, rest⟩⟩, msgReader, outQueue,
      currentWrite, encCtx⟩, isSomethingRead⟩ := s
    · rfl
    · rfl
    · show TcpStream.read (.scripted [] (.ok bytes :: rest)) = _
      unfold TcpStream.read TcpStream.scripted
      dsimp only
      split
      · rfl
      · rfl
  unfold readRound
  rw [hstream]
  generalize s.inner.stream.read = answer
  obtain ⟨e | bytes, stream⟩ := answer
  · dsimp only
    split
    · cases hsome : s.isSomethingRead with
      | true =>
          simp only [Reading.half, hsome]
          rfl
      | false =>
          simp only [Reading.half, hsome]
          rfl
    · rfl
  · dsimp only
    split
    · cases hsome : s.isSomethingRead with
      | true =>
          simp only [Reading.half, hsome, if_true, tryRead, reading]
          rcases s.inner.msgReader.tryRead T with ⟨_ | _ | message, msgReader⟩
          · rfl
          · rfl
          · rfl
      | false =>
          simp only [Reading.half, hsome]
          rfl
    · rfl

omit [Serde L UInt32] [Serde L T] in
private theorem read_stream (s : TcpStream) :
    ({ s.read.2 with readResults := [] } : TcpStream) = { s with readResults := [] } := by
  unfold TcpStream.read
  split
  · rfl
  · rfl
  · split
    · rfl
    · rfl

private theorem readLoop_half (s : Reading L G) :
    (readLoop T).exec (s.half conf) =
      (((readLoop T).exec s).1.half conf, ((readLoop T).exec s).2) :=
  Loop.exec_map (readRound_half conf) s

/-- **Reading works on the half for reading.** -/
theorem read_reading (i : Inner L G) :
    (i.reading conf).read T = ((i.read T).1, (i.read T).2.reading conf) := by
  unfold read
  rw [tryRead_reading]
  rcases i.tryRead T with ⟨_ | _ | message, i⟩
  · rfl
  · have hloop := readLoop_half (T := T) conf ⟨i, false⟩
    simp only [Reading.half] at hloop
    simp only [hloop]
  · rfl

/-- Reading leaves the other half as it is. -/
theorem read_writing (i : Inner L G) : (i.read T).2.writing conf = i.writing conf := by
  refine read_rule (P := fun _ i' => i'.writing conf = i.writing conf) (fun _ _ _ _ => rfl)
    (fun _ _ => rfl) fun s s' out h hround => ?_
  have hstream := read_stream s.inner.stream
  have hsame : ∀ {answer stream} (msgReader : LenDelimitedReader L),
      s.inner.stream.read = (answer, stream) →
        writing conf { s.inner with stream := stream, msgReader := msgReader } =
          s.inner.writing conf := by
    intro answer stream msgReader hread
    rw [hread] at hstream
    simp only [writing, hstream]
  cases hround with
  | segment hread | asks hread | ended hread | idle hread | closed hread | failed hread =>
      exact (hsame _ hread).trans h

end Read

end Inner

/-! ## A sender that is read from as well -/

namespace Sender

variable {N T : Type} (conf : SocketConfig L)

/-- The sender on the half for writing. -/
def writing (s : Sender L N) : Sender L N := { s with inner := s.inner.writing conf }

private theorem flush_writing (s : Sender L N) :
    (s.writing conf).flush = s.flush.writing conf := by
  have hexec : Inner.flushLoop.exec (s.inner.writing conf) =
      ((Inner.flushLoop.exec s.inner).1.writing conf, (Inner.flushLoop.exec s.inner).2) :=
    Loop.exec_map (Inner.flushRound_writing conf) s.inner
  have hhistory : Inner.flushLoop.history Inner.nextEntries (s.inner.writing conf) =
      Inner.flushLoop.history Inner.nextEntries s.inner :=
    Loop.history_map (Inner.flushRound_writing conf) (fun _ => rfl) s.inner
  show ({ s with
    inner := (Inner.flushLoop.exec (s.inner.writing conf)).1
    dequeued := s.dequeued ++
      Inner.flushLoop.history Inner.nextEntries (s.inner.writing conf) } : Sender L N) = _
  rw [hexec, hhistory]
  rfl

variable [Serde L UInt32] [Serde L T]

/-- **Writing works on the half for writing.** -/
theorem write_writing (s : Sender L N) (clock : Clock) (nonces : FrameNonces L) (note : N)
    (msg : Option (T × Priority)) :
    (s.writing conf).write clock nonces note msg =
      (s.write clock nonces note msg).writing conf := by
  rcases msg with _ | ⟨msg, priority⟩
  · exact flush_writing conf (s.dropExpired clock.dropExpired)
  · have hctx : ((s.writing conf).dropExpired clock.dropExpired).inner.encCtx =
      s.inner.encCtx := rfl
    have hctx' : (s.dropExpired clock.dropExpired).inner.encCtx = s.inner.encCtx := rfl
    cases hser : serializeWithLen nonces msg s.inner.encCtx with
    | error e =>
        simp only [write, hctx, hctx', hser]
        rfl
    | ok buf =>
        simp only [write, hctx, hctx', hser]
        exact flush_writing conf
          ((s.dropExpired clock.dropExpired).push ⟨priority, clock.push, ⟨buf, s.origin note⟩⟩)

/-- Writing leaves the other half as it is. -/
theorem write_reading (s : Sender L N) (clock : Clock) (nonces : FrameNonces L) (note : N)
    (msg : Option (T × Priority)) :
    (s.write clock nonces note msg).inner.reading conf = s.inner.reading conf := by
  refine write_rule (P := fun s' => s'.inner.reading conf = s.inner.reading conf) rfl id
    (fun _ _ _ _ _ _ _ _ h => h) fun s' h => ?_
  exact (Inner.flushRound_reading conf s'.inner).trans h

end Sender

/-! ## Connections -/

variable {A B : Type}

/-- One end of a connection: the socket, how many of the bytes its stream has
accepted have been handed to the other end, and what its reads have returned. -/
structure Endpoint (L : Crates) (Out In : Type) where
  sock : Sender L (Option Out)
  handedOver : Nat
  results : List (Res L (Option In))

/-- Two sockets that send each other messages, of a type for each direction. -/
structure Connection (L : Crates) (A B : Type) where
  left : Endpoint L A B
  right : Endpoint L B A

namespace Endpoint

def start (writeResults : List (IoResult Nat)) (conf : SocketConfig L) : Endpoint L A B where
  sock := .start writeResults conf
  handedOver := 0
  results := []

/-- The socket's stream has one more answer to give. -/
def offer (e : Endpoint L A B) (answer : IoResult Bytes) : Endpoint L A B :=
  { e with sock := { e.sock with inner := e.sock.inner.offer answer } }

/-- The bytes accepted by this end's stream that the network still has. -/
def inFlight (e : Endpoint L A B) : Bytes := e.sock.inner.stream.accepted.drop e.handedOver

def read [Serde L UInt32] [Serde L B] (e : Endpoint L A B) : Endpoint L A B :=
  let (res, inner) := e.sock.inner.read B
  { e with sock := { e.sock with inner := inner }, results := e.results ++ [res] }

end Endpoint

namespace Connection

def start (leftResults rightResults : List (IoResult Nat)) (leftConf rightConf : SocketConfig L) :
    Connection L A B :=
  ⟨.start leftResults leftConf, .start rightResults rightConf⟩

/-- The same connection seen from the other end. -/
def swap (c : Connection L A B) : Connection L B A := ⟨c.right, c.left⟩

section Step

variable [Serde L UInt32] [Serde L A]

/-- A step in the direction from left to right: the left end writes, the network
delivers to the right end, or the right end reads. -/
def stepRight (c : Connection L A B) : LinkOp L A → Connection L A B
  | .write clock nonces msg =>
      { c with left := { c.left with
        sock := c.left.sock.write clock nonces (msg.map Prod.fst) msg } }
  | .deliver n =>
      match c.left.inFlight.take n with
      | [] => c
      | b :: bytes =>
          { left := { c.left with handedOver := c.left.handedOver + (b :: bytes).length }
            right := c.right.offer (.ok (b :: bytes)) }
  | .stop e => { c with right := c.right.offer (.error e) }
  | .read => { c with right := c.right.read }

/-- A step in one of the directions. -/
def step [Serde L B] (c : Connection L A B) : LinkOp L A ⊕ LinkOp L B → Connection L A B
  | .inl op => c.stepRight op
  | .inr op => (c.swap.stepRight op).swap

end Step

/-! ### The two directions -/

section Directions

variable (leftConf rightConf : SocketConfig L)

/-- The direction from left to right. -/
def forward (c : Connection L A B) : Link L A where
  sender := c.left.sock.writing leftConf
  receiver := c.right.sock.inner.reading rightConf
  handedOver := c.left.handedOver
  results := c.right.results

/-- The direction from right to left. -/
def backward (c : Connection L A B) : Link L B := c.swap.forward rightConf leftConf

variable [Serde L UInt32] [Serde L A]

/-- A step to the right is a step of the link to the right. -/
private theorem forward_stepRight (c : Connection L A B) (op : LinkOp L A) :
    (c.stepRight op).forward leftConf rightConf = (c.forward leftConf rightConf).step op := by
  cases op with
  | write clock nonces msg =>
      show ({ c.forward leftConf rightConf with
        sender := (c.left.sock.write clock nonces _ msg).writing leftConf } : Link L A) = _
      rw [← Sender.write_writing]
      rfl
  | deliver n =>
      show _ = (match c.left.inFlight.take n with
        | [] => c.forward leftConf rightConf
        | b :: bytes => (c.forward leftConf rightConf).handOver (b :: bytes))
      simp only [stepRight]
      cases c.left.inFlight.take n with
      | nil => rfl
      | cons b bytes => rfl
  | stop e => rfl
  | read =>
      show _ = ({ c.forward leftConf rightConf with
        receiver := ((c.right.sock.inner.reading rightConf).read A).2
        results := c.right.results ++
          [((c.right.sock.inner.reading rightConf).read A).1] } : Link L A)
      rw [Inner.read_reading]
      rfl

/-- And the link to the left does not notice it. -/
private theorem backward_stepRight (c : Connection L A B) (op : LinkOp L A) :
    (c.stepRight op).backward leftConf rightConf = c.backward leftConf rightConf := by
  cases op with
  | write clock nonces msg =>
      show ({ c.backward leftConf rightConf with
        receiver := (c.left.sock.write clock nonces _ msg).inner.reading leftConf } :
          Link L B) = _
      rw [Sender.write_reading]
      rfl
  | deliver n =>
      simp only [stepRight]
      cases c.left.inFlight.take n with
      | nil => rfl
      | cons b bytes => rfl
  | stop e => rfl
  | read =>
      show ({ c.backward leftConf rightConf with
        sender := { c.right.sock with
          inner := (c.right.sock.inner.read A).2.writing rightConf } } : Link L B) = _
      rw [Inner.read_writing]
      rfl

variable [Serde L B]

/-- **Each direction is a link**: it makes the steps to its own side. -/
theorem step_forward (c : Connection L A B) (op : LinkOp L A ⊕ LinkOp L B) :
    (c.step op).forward leftConf rightConf =
      op.getLeft?.toList.foldl Link.step (c.forward leftConf rightConf) := by
  cases op with
  | inl op => exact c.forward_stepRight leftConf rightConf op
  | inr op => exact c.swap.backward_stepRight rightConf leftConf op

theorem step_backward (c : Connection L A B) (op : LinkOp L A ⊕ LinkOp L B) :
    (c.step op).backward leftConf rightConf =
      op.getRight?.toList.foldl Link.step (c.backward leftConf rightConf) := by
  cases op with
  | inl op => exact c.backward_stepRight leftConf rightConf op
  | inr op => exact c.swap.forward_stepRight rightConf leftConf op

end Directions

end Connection

namespace Connection

/-- Each end gets what the other one sends it. -/
structure Sound [Serde L UInt32] [Serde L A] [Serde L B] (leftConf rightConf : SocketConfig L)
    (c : Connection L A B) : Prop where
  right_faithful : (c.forward leftConf rightConf).Faithful
  right_orderly : (c.forward leftConf rightConf).Orderly leftConf
  left_faithful : (c.backward leftConf rightConf).Faithful
  left_orderly : (c.backward leftConf rightConf).Orderly rightConf

/-- The messages written are such as the other end delivers, and the network's
errors are `WouldBlock` and `Interrupted`. -/
def Fits [Serde L A] [Serde L B] (leftConf rightConf : SocketConfig L) :
    LinkOp L A ⊕ LinkOp L B → Prop
  | .inl op => op.Fits leftConf rightConf
  | .inr op => op.Fits rightConf leftConf

end Connection

/-- **Both directions of a connection are faithful and orderly**, in every
interleaving of what the two ends and the network do.  In either direction the
contexts match, the writing stream gives no hard errors, and what is written has a
payload the other end delivers (`Connection.Fits`). -/
theorem both_directions [Serde L UInt32] [Serde L A] [Serde L B] [LawfulSerde L UInt32]
    [LawfulSizeHeader L] [LawfulSerde L A] [LawfulSerde L B] {leftConf rightConf : SocketConfig L}
    (hright : Matching leftConf.encCtx rightConf.decCtx)
    (hleft : Matching rightConf.encCtx leftConf.decCtx)
    (leftResults rightResults : List (IoResult Nat))
    (hsoftLeft : ∀ a ∈ leftResults, IoResult.isHard a = false)
    (hsoftRight : ∀ a ∈ rightResults, IoResult.isHard a = false)
    (ops : List (LinkOp L A ⊕ LinkOp L B))
    (hops : ∀ op ∈ ops, Connection.Fits leftConf rightConf op) :
    Always Connection.step (Connection.Sound leftConf rightConf)
      (.start leftResults rightResults leftConf rightConf) ops := by
  have hopsRight : ∀ op ∈ ops.flatMap fun op => op.getLeft?.toList,
      op.Fits leftConf rightConf := by
    intro op hop
    obtain ⟨op | op, hmem, hside⟩ := List.mem_flatMap.mp hop
    · obtain rfl := List.mem_singleton.mp hside
      exact hops _ hmem
    · cases hside
  have hopsLeft : ∀ op ∈ ops.flatMap fun op => op.getRight?.toList,
      op.Fits rightConf leftConf := by
    intro op hop
    obtain ⟨op | op, hmem, hside⟩ := List.mem_flatMap.mp hop
    · cases hside
    · obtain rfl := List.mem_singleton.mp hside
      exact hops _ hmem
  have hforward := always_of_part (Connection.step_forward leftConf rightConf)
    (s := .start leftResults rightResults leftConf rightConf)
    (Link.always_orderly hright hsoftLeft hopsRight)
  have hbackward := always_of_part (Connection.step_backward leftConf rightConf)
    (s := .start leftResults rightResults leftConf rightConf)
    (Link.always_orderly hleft hsoftRight hopsLeft)
  exact (hforward.and hbackward).mono fun c h => ⟨h.1.1, h.1.2, h.2.1, h.2.2⟩

namespace BincodeInstance

/-- Both ends write a number, and read while their own is still on its way. -/
def connectionOps : List (LinkOp crates UInt32 ⊕ LinkOp crates UInt32) :=
  [.inl (.write ⟨0, 0⟩ ⟨(1 : UInt8), (2 : UInt8)⟩ (some (5, 0))), .inl (.deliver 60),
    .inr (.write ⟨0, 0⟩ ⟨(3 : UInt8), (4 : UInt8)⟩ (some (6, 1))), .inl .read,
    .inr (.deliver 200), .inl (.deliver 60), .inr .read, .inl .read]

theorem both_directions_shared :
    Always Connection.step (Connection.Sound sharedConf sharedConf)
      (.start [.ok 80, .ok 80] [.error .wouldBlock] sharedConf sharedConf) connectionOps := by
  have hmatch : Matching sharedConf.encCtx sharedConf.decCtx := .authenticated rfl
  apply both_directions hmatch hmatch _ _ (by decide) (by decide) connectionOps
  intro op hop
  simp only [connectionOps, List.mem_cons, List.not_mem_nil, or_false] at hop
  rcases hop with rfl | rfl | rfl | rfl | rfl | rfl | rfl | rfl
  case inl => exact fits_number ⟨0, 0⟩ ⟨(1 : UInt8), (2 : UInt8)⟩ (5, 0)
  case inr.inr.inl => exact fits_number ⟨0, 0⟩ ⟨(3 : UInt8), (4 : UInt8)⟩ (6, 1)
  all_goals trivial

end BincodeInstance

end SocketCollection
