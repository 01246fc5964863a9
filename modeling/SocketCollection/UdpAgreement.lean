import SocketCollection.UdpReceiver

/-!
# The connected and the addressed paths agree

The source has the loops of a UDP socket twice.  Here a socket that is written
to with `write` and read from with `read` runs beside one on which `write_to`
names the same peer with every message, and `read_frm` gives the sender of each
datagram.  `Twins` relates two such sockets; the loops keep them in step, and so
do the calls.

## Main results

* `paths_agree`: in every run both have the same results, have offered the same
  datagrams, and hold the same messages.
-/

namespace SocketCollection.Udp

open Runs StableQueue

variable {L : Crates} {G : Type} {P : SocketAddr}

/-! ## The sockets -/

/-- An answer without the address. -/
def payloadOf (answer : IoResult (Bytes × SocketAddr)) : IoResult Bytes := answer.map Prod.fst

/-- The same offer, made to a peer. -/
def Offer.to (P : SocketAddr) (offer : Offer) : Offer := { offer with peer := some P }

/-- The second socket has been offered the same datagrams, for the peer `P`, and
the answers to come are the same up to the addresses. -/
structure UdpSocket.Twins (P : SocketAddr) (s s₁ : UdpSocket) : Prop where
  offered : s₁.offered = s.offered.map (Offer.to P)
  sendResults : s₁.sendResults = s.sendResults
  recvResults : s₁.recvResults.map payloadOf = s.recvResults.map payloadOf

/-- `send` and `send_to` get the same answer. -/
theorem UdpSocket.Twins.send {s s₁ : UdpSocket} (h : s.Twins P s₁) (data : Bytes) :
    (s₁.send data (some P)).1 = (s.send data none).1 ∧
      (s.send data none).2.Twins P (s₁.send data (some P)).2 := by
  obtain ⟨received, offered, recvResults, sendResults⟩ := s
  obtain ⟨received₁, offered₁, recvResults₁, sendResults₁⟩ := s₁
  obtain ⟨hoffered, hsend, hrecv⟩ := h
  obtain rfl : offered₁ = offered.map (Offer.to P) := hoffered
  obtain rfl : sendResults₁ = sendResults := hsend
  have hnext : ∀ res : IoResult Nat, offered.map (Offer.to P) ++ [Offer.mk data (some P) res] =
      (offered ++ [Offer.mk data none res]).map (Offer.to P) := by
    intro res
    rw [List.map_append]
    rfl
  cases sendResults₁ with
  | nil => exact ⟨rfl, hnext _, rfl, hrecv⟩
  | cons answer rest => exact ⟨rfl, hnext _, rfl, hrecv⟩

/-- `recv` and `recv_from` get the same answer, up to the address. -/
theorem UdpSocket.Twins.recvFrom {s s₁ : UdpSocket} (h : s.Twins P s₁) :
    payloadOf s₁.recvFrom.1 = payloadOf s.recvFrom.1 ∧ s.recvFrom.2.Twins P s₁.recvFrom.2 := by
  obtain ⟨received, offered, recvResults, sendResults⟩ := s
  obtain ⟨received₁, offered₁, recvResults₁, sendResults₁⟩ := s₁
  obtain ⟨hoffered, hsend, hrecv⟩ := h
  replace hrecv : recvResults₁.map payloadOf = recvResults.map payloadOf := hrecv
  cases recvResults with
  | nil =>
      obtain rfl := List.map_eq_nil_iff.mp hrecv
      exact ⟨rfl, hoffered, hsend, rfl⟩
  | cons answer rest =>
      obtain ⟨answer₁, rest₁, rfl, hanswer, hrest⟩ := List.map_eq_cons_iff.mp hrecv
      rcases answer with e | ⟨payload, sender⟩
      · rcases answer₁ with e₁ | d₁
        · obtain rfl : e₁ = e := Except.error.inj hanswer
          exact ⟨rfl, hoffered, hsend, hrest⟩
        · cases hanswer
      · rcases answer₁ with e₁ | ⟨payload₁, sender₁⟩
        · cases hanswer
        · obtain rfl : payload₁ = payload := Except.ok.inj hanswer
          exact ⟨rfl, hoffered, hsend, hrest⟩

/-! ## Sending -/

/-- The same entry, for a peer. -/
def addressed (P : SocketAddr) (e : Entry (Frame G)) : Entry (Frame G × SocketAddr) :=
  ⟨e.priority, e.time, (e.msg, P)⟩

/-- The second queue holds the messages of the first, for the peer `P`. -/
structure TwinQueues (P : SocketAddr) (q : SendQueue L (Frame G))
    (q₁ : SendQueue L (Frame G × SocketAddr)) : Prop where
  entries : q₁.entries = q.entries.map (addressed P)
  conf : q₁.conf = q.conf

namespace TwinQueues

variable {q : SendQueue L (Frame G)} {q₁ : SendQueue L (Frame G × SocketAddr)}

theorem dropExpired (h : TwinQueues P q q₁) (now : Instant) :
    TwinQueues P (q.dropExpired now).2 (q₁.dropExpired now).2 where
  entries := by
    rw [q₁.entries_dropExpired, q.entries_dropExpired, h.entries, h.conf, cutoff_map,
      keepBelow_map]
    rfl
  conf := by
    rw [(q₁.dropExpired_entries now).2, (q.dropExpired_entries now).2, h.conf]

theorem push (h : TwinQueues P q q₁) (now : Instant) (data : Frame G) (p : Priority) :
    TwinQueues P (q.push now data p) (q₁.push now (data, P) p) where
  entries := by
    rw [q₁.push_entries, q.push_entries, h.entries, List.filter_map, List.filter_map,
      List.map_append, List.map_cons]
    rfl
  conf := h.conf

theorem nextMsg (h : TwinQueues P q q₁) :
    q₁.nextMsg.1 = q.nextMsg.1.map (·, P) ∧ TwinQueues P q.nextMsg.2 q₁.nextMsg.2 := by
  have hentries := h.entries
  rcases q.nextMsg_cases with ⟨hnil, hnext⟩ | ⟨e, q', hnext, hcons, hconf⟩
  · rcases q₁.nextMsg_cases with ⟨hnil₁, hnext₁⟩ | ⟨e₁, q₁', hnext₁, hcons₁, hconf₁⟩
    · rw [hnext, hnext₁]
      exact ⟨rfl, h⟩
    · rw [hnil, hcons₁] at hentries
      cases hentries
  · rcases q₁.nextMsg_cases with ⟨hnil₁, hnext₁⟩ | ⟨e₁, q₁', hnext₁, hcons₁, hconf₁⟩
    · rw [hcons, hnil₁] at hentries
      cases hentries
    · rw [hcons, hcons₁, List.map_cons] at hentries
      obtain ⟨rfl, hrest⟩ := List.cons.inj hentries
      rw [hnext, hnext₁]
      exact ⟨rfl, hrest, by rw [hconf₁, hconf, h.conf]⟩

end TwinQueues

/-- The fields the two flush loops work on agree. -/
structure Outgoing.Twins (P : SocketAddr) (o : Outgoing L (Frame G))
    (o₁ : Outgoing L (Frame G × SocketAddr)) : Prop where
  sock : o.sock.Twins P o₁.sock
  outQueue : TwinQueues P o.outQueue o₁.outQueue
  currentWrite : o₁.currentWrite = o.currentWrite.map (·, P)

/-- A message encrypted for either path. -/
def addressedTo (P : SocketAddr) (msg : Option (Res L (Frame G) × Priority)) :
    Option (Res L (Frame G × SocketAddr) × Priority) :=
  msg.map fun (res, priority) => (res.map (·, P), priority)

namespace Outgoing.Twins

variable {o : Outgoing L (Frame G)} {o₁ : Outgoing L (Frame G × SocketAddr)}

theorem takeMsg (h : o.Twins P o₁) :
    o₁.takeMsg.1 = o.takeMsg.1.map (·, P) ∧ o.takeMsg.2.Twins P o₁.takeMsg.2 := by
  obtain ⟨sock, outQueue, currentWrite⟩ := o
  obtain ⟨sock₁, outQueue₁, currentWrite₁⟩ := o₁
  obtain ⟨hsock, hqueue, hcurrent⟩ := h
  obtain rfl : currentWrite₁ = currentWrite.map (·, P) := hcurrent
  cases currentWrite with
  | some data => exact ⟨rfl, hsock, hqueue, rfl⟩
  | none =>
      obtain ⟨hnext, hqueue'⟩ := TwinQueues.nextMsg hqueue
      exact ⟨hnext, hsock, hqueue', rfl⟩

/-- Both make the same of the same answer. -/
theorem sendMsg (h : o.Twins P o₁) (data : Frame G) :
    (o₁.sendMsg (Inner.sendToPath (L := L)).wire (data, P)).2 =
        (o.sendMsg (Inner.sendPath (L := L)).wire data).2 ∧
      (o.sendMsg (Inner.sendPath (L := L)).wire data).1.Twins P
        (o₁.sendMsg (Inner.sendToPath (L := L)).wire (data, P)).1 := by
  obtain ⟨hanswer, hsock⟩ := h.sock.send data.bytes
  have hcurrent := h.currentWrite
  simp only [Outgoing.sendMsg, Inner.sendPath, Inner.sendToPath, hanswer]
  rcases (o.sock.send data.bytes none).1 with e | n
  · cases he : e.isRetry with
    | true =>
        simp only [handleSendRes, he, if_true]
        exact ⟨trivial, hsock, h.outQueue, rfl⟩
    | false =>
        simp only [handleSendRes, he, Bool.false_eq_true, if_false]
        exact ⟨trivial, hsock, h.outQueue, hcurrent⟩
  · by_cases hn : n < data.bytes.length
    · simp only [handleSendRes, hn, if_true]
      exact ⟨trivial, hsock, h.outQueue, rfl⟩
    · simp only [handleSendRes, hn, if_false]
      exact ⟨trivial, hsock, h.outQueue, hcurrent⟩

/-- **The rounds of the two flush loops are in step.** -/
theorem flushRound (h : o.Twins P o₁) :
    Loop.InStep (Twins P) (fun o res o₁ res₁ => res₁ = res ∧ Twins P o o₁)
      (o.flushRound (Inner.sendPath (L := L)).wire)
      (o₁.flushRound (Inner.sendToPath (L := L)).wire) := by
  obtain ⟨hmsg, htwins⟩ := h.takeMsg
  unfold Outgoing.flushRound
  generalize o.takeMsg = taken at hmsg htwins
  generalize o₁.takeMsg = taken₁ at hmsg htwins
  obtain ⟨msg, o⟩ := taken
  obtain ⟨msg₁, o₁⟩ := taken₁
  obtain rfl : msg₁ = msg.map (·, P) := hmsg
  cases msg with
  | none => exact .done ⟨rfl, htwins⟩
  | some data =>
      obtain ⟨hout, htwins'⟩ := sendMsg htwins data
      show Loop.InStep _ _ (o.sendMsg _ data) (o₁.sendMsg _ (data, P))
      generalize o.sendMsg (Inner.sendPath (L := L)).wire data = sent at hout htwins'
      generalize o₁.sendMsg (Inner.sendToPath (L := L)).wire (data, P) = sent₁ at hout htwins'
      obtain ⟨o', out⟩ := sent
      obtain ⟨o₁', out₁⟩ := sent₁
      obtain rfl : out₁ = out := hout
      cases out₁ with
      | none => exact .next htwins'
      | some res => exact .done ⟨rfl, htwins'⟩

theorem flush (h : o.Twins P o₁) :
    (o₁.flush (Inner.sendToPath (L := L)).wire).1 = (o.flush (Inner.sendPath (L := L)).wire).1 ∧
      (o.flush (Inner.sendPath (L := L)).wire).2.Twins P
        (o₁.flush (Inner.sendToPath (L := L)).wire).2 :=
  Loop.exec_related (flushLoop _) (flushLoop _) (fun _ _ h => flushRound h) h

/-- **So are the calls.** -/
theorem write (h : o.Twins P o₁) (clock : Clock) (msg : Option (Res L (Frame G) × Priority)) :
    (o₁.write (Inner.sendToPath (L := L)).wire clock (addressedTo P msg)).1 =
        (o.write (Inner.sendPath (L := L)).wire clock msg).1 ∧
      (o.write (Inner.sendPath (L := L)).wire clock msg).2.Twins P
        (o₁.write (Inner.sendToPath (L := L)).wire clock (addressedTo P msg)).2 := by
  have hdropped := h.outQueue.dropExpired clock.dropExpired
  rcases msg with _ | ⟨e | data, priority⟩
  · exact flush ⟨h.sock, hdropped, h.currentWrite⟩
  · exact ⟨rfl, h.sock, hdropped, h.currentWrite⟩
  · exact flush ⟨h.sock, hdropped.push clock.push data priority, h.currentWrite⟩

end Outgoing.Twins

namespace Outgoing

variable {M : Type} (wire : Wire M)

private theorem sendMsg_received (o : Outgoing L M) (msg : M) :
    (o.sendMsg wire msg).1.sock.received = o.sock.received := by
  have hsend : (o.sock.send (wire.data msg) (wire.peer msg)).2.received = o.sock.received := by
    unfold UdpSocket.send
    split <;> rfl
  rw [← hsend]
  simp only [sendMsg]
  split <;> rfl

private theorem flushRound_received (o : Outgoing L M) :
    (o.flushRound wire).1.sock.received = o.sock.received := by
  have hsock := congrArg UdpSocket.received o.takeMsg_sock
  unfold flushRound
  generalize o.takeMsg = taken at hsock
  obtain ⟨_ | msg, o₁⟩ := taken
  · exact hsock
  · exact (sendMsg_received wire o₁ msg).trans hsock

private theorem flush_received (o : Outgoing L M) :
    (o.flush wire).2.sock.received = o.sock.received := by
  refine (flushLoop wire).exec_invariant (fun o' => o'.sock.received = o.sock.received) ?_ rfl
  intro o' h
  exact (flushRound_received wire o').trans h

/-- Sending leaves what was received alone. -/
theorem write_received (o : Outgoing L M) (clock : Clock) (msg : Option (Res L M × Priority)) :
    (o.write wire clock msg).2.sock.received = o.sock.received := by
  rcases msg with _ | ⟨e | msg, priority⟩
  · exact flush_received wire _
  · rfl
  · exact flush_received wire _

end Outgoing

/-! ## Receiving -/

/-- A result without the address. -/
def erased {T : Type} (res : Res L (Option (T × SocketAddr))) : Res L (Option T) :=
  res.map (Option.map Prod.fst)

/-- The fields the two receiving loops work on agree, up to the addresses. -/
structure Incoming.Twins (P : SocketAddr) (s : Incoming Bytes)
    (s₁ : Incoming (Bytes × SocketAddr)) : Prop where
  sock : s.sock.Twins P s₁.sock
  readBuffer : s.readBuffer = s₁.readBuffer.map Prod.fst

namespace Incoming.Twins

variable {s : Incoming Bytes} {s₁ : Incoming (Bytes × SocketAddr)}

/-- **The rounds of the two receiving loops are in step.** -/
theorem recvRound (h : s.Twins P s₁) :
    Loop.InStep (Twins P) (fun s res s₁ res₁ => res = erased (L := L) res₁ ∧ Twins P s s₁)
      (s.recvRound Prod.fst) (s₁.recvRound id) := by
  obtain ⟨hanswer, hsock⟩ := h.sock.recvFrom
  have hbuffer := h.readBuffer
  unfold Incoming.recvRound UdpSocket.recvAs
  generalize s.sock.recvFrom = answer at hanswer hsock
  generalize s₁.sock.recvFrom = answer₁ at hanswer hsock
  obtain ⟨e | d, sock⟩ := answer
  · obtain ⟨e₁ | d₁, sock₁⟩ := answer₁
    · obtain rfl : e₁ = e := Except.error.inj hanswer
      cases he : e₁.isRetry with
      | true =>
          simp only [Except.map, handleRecvRes, he, if_true]
          refine .done ⟨?_, hsock, ?_⟩
          · rw [hbuffer, List.head?_map]
            rfl
          · show s.readBuffer.tail = s₁.readBuffer.tail.map Prod.fst
            rw [hbuffer, List.map_tail]
      | false =>
          simp only [Except.map, handleRecvRes, he, Bool.false_eq_true, if_false]
          exact .done ⟨rfl, hsock, hbuffer⟩
    · cases hanswer
  · obtain ⟨e₁ | d₁, sock₁⟩ := answer₁
    · cases hanswer
    · have hpayload : d₁.1 = d.1 := Except.ok.inj hanswer
      have hempty : IsEmpty.isEmpty d₁ = IsEmpty.isEmpty d.1 := congrArg List.isEmpty hpayload
      refine .next ⟨hsock, ?_⟩
      show (if IsEmpty.isEmpty d.1 then s.readBuffer else s.readBuffer ++ [d.1]) =
        (if IsEmpty.isEmpty d₁ then s₁.readBuffer else s₁.readBuffer ++ [d₁]).map Prod.fst
      rw [hempty]
      split
      · exact hbuffer
      · rw [List.map_append, hbuffer, List.map_singleton, hpayload]

/-- **Both draw the same datagram.** -/
theorem next (h : s.Twins P s₁) :
    (s.next Prod.fst).1 = erased (L := L) (s₁.next id).1 ∧
      (s.next (L := L) Prod.fst).2.Twins P (s₁.next (L := L) id).2 := by
  obtain ⟨sock, readBuffer⟩ := s
  obtain ⟨sock₁, readBuffer₁⟩ := s₁
  obtain rfl : readBuffer = readBuffer₁.map Prod.fst := h.readBuffer
  cases readBuffer₁ with
  | nil => exact Loop.exec_related (recvLoop _) (recvLoop _) (fun _ _ h => recvRound h) h
  | cons d readBuffer₁ => exact ⟨rfl, h.sock, rfl⟩

end Incoming.Twins

/-! ## The calls -/

/-- The same message, for a peer. -/
def toPeer {T : Type} (P : SocketAddr) (msg : Option (T × Priority)) :
    Option (T × SocketAddr × Priority) :=
  msg.map fun (msg, priority) => (msg, P, priority)

/-- The second socket has been offered the datagrams of the first, all for the
peer `P`, and holds its messages; what is to be read and what is buffered is the
same up to the addresses. -/
structure Inner.Twins (P : SocketAddr) (i i₁ : Inner L G) : Prop where
  sock : i.sock.Twins P i₁.sock
  readBuffer : i.readBuffer = i₁.readBuffer2.map Prod.fst
  outQueue : TwinQueues P i.outQueue i₁.outQueue2
  currentWrite : i₁.currentWrite2 = i.currentWrite.map (·, P)
  encCtx : i₁.encCtx = i.encCtx
  decCtx : i₁.decCtx = i.decCtx

namespace Inner.Twins

variable {T : Type} [Serde L T] {i i₁ : Inner L G}

/-- **`write` and `write_to`** return the same. -/
theorem write (h : i.Twins P i₁) (clock : Clock) (nonce : L.Nonce) (label : G)
    (msg : Option (T × Priority)) :
    (i₁.writeTo clock nonce label (toPeer P msg)).1 = (i.write clock nonce label msg).1 ∧
      (i.write clock nonce label msg).2.Twins P
        (i₁.writeTo clock nonce label (toPeer P msg)).2 := by
  have hmsg : i₁.encryptedTo nonce label (toPeer P msg) =
      addressedTo P (i.encrypted nonce label msg) := by
    rcases msg with _ | ⟨m, p⟩
    · rfl
    · simp only [encryptedTo, encrypted, addressedTo, toPeer, Option.map_some, h.encCtx]
      cases i.encCtx.encrypt nonce m <;> rfl
  have hout : (sendPath.outgoing i).Twins P (sendToPath.outgoing i₁) :=
    ⟨h.sock, h.outQueue, h.currentWrite⟩
  obtain ⟨hres, htwins⟩ := hout.write clock (i.encrypted nonce label msg)
  unfold writeTo
  rw [hmsg]
  refine ⟨hres, ?_⟩
  exact ⟨htwins.sock, h.readBuffer, htwins.outQueue, htwins.currentWrite, h.encCtx, h.decCtx⟩

/-- **`read` and `read_frm`** return the same, up to the address. -/
theorem read (h : i.Twins P i₁) (T : Type) [Serde L T] :
    (i.read T).1 = erased (i₁.readFrm T).1 ∧ (i.read T).2.Twins P (i₁.readFrm T).2 := by
  have hin : (recvPath.incoming i).Twins P (recvFromPath.incoming i₁) := ⟨h.sock, h.readBuffer⟩
  obtain ⟨hdata, htwins⟩ := hin.next (L := L)
  constructor
  · rw [Inner.read, readFrm, readVia_fst, readVia_fst]
    simp only [recvPath, recvFromPath] at hdata ⊢
    rw [hdata, h.decCtx]
    rcases (Incoming.next (L := L) id ⟨i₁.sock, i₁.readBuffer2⟩).1 with e | _ | d
    · rfl
    · rfl
    · show (i.decCtx.decrypt d.1).map some = erased ((decryptFrm i.decCtx d).map some)
      unfold decryptFrm
      cases i.decCtx.decrypt (T := T) d.1 <;> rfl
  · rw [Inner.read, readFrm, readVia_inner, readVia_inner]
    exact ⟨htwins.sock, htwins.readBuffer, h.outQueue, h.currentWrite, h.encCtx, h.decCtx⟩

end Inner.Twins

/-! ## Runs -/

/-- A call of `write` or `read`, which is one of `write_to` or `read_frm` on the
other socket, or a change of context on both. -/
inductive PairOp (L : Crates) (G : Type) : Type 1
  | write {T : Type} [Serde L T] (clock : Clock) (nonce : L.Nonce) (label : G)
      (msg : Option (T × Priority))
  | read (T : Type) [Serde L T]
  | setEncryptCtx (ctx : EncryptContext L)
  | setDecryptCtx (ctx : DecryptContext L)

/-- A connected socket and an addressed one, and how many calls of `read_frm`
have stood for a datagram so far. -/
structure Pair (L : Crates) (G : Type) where
  connected : Inner L G
  addressed : Inner L G
  answered : Nat

namespace Pair

/-- Two fresh sockets. -/
def start (recvResults recvResults₁ : List (IoResult (Bytes × SocketAddr)))
    (sendResults : List SendAnswer) (conf : SocketConfig L) : Pair L G where
  connected := Inner.new (UdpSocket.scripted recvResults sendResults) conf
  addressed := Inner.new (UdpSocket.scripted recvResults₁ sendResults) conf
  answered := 0

def step (P : SocketAddr) (t : Pair L G) : PairOp L G → Pair L G
  | @PairOp.write _ _ _ _ clock nonce label msg =>
      { t with
        connected := (t.connected.write clock nonce label msg).2
        addressed := (t.addressed.writeTo clock nonce label (toPeer P msg)).2 }
  | @PairOp.read _ _ T _ =>
      let (res, addressed) := t.addressed.readFrm T
      ⟨(t.connected.read T).2, addressed, if answers res then t.answered + 1 else t.answered⟩
  | .setEncryptCtx ctx =>
      { t with
        connected := t.connected.setEncryptCtx ctx
        addressed := t.addressed.setEncryptCtx ctx }
  | .setDecryptCtx ctx =>
      { t with
        connected := t.connected.setDecryptCtx ctx
        addressed := t.addressed.setDecryptCtx ctx }

/-- The second socket, as a receiver. -/
def receiver (t : Pair L G) : Receiver L G := ⟨t.addressed, t.answered⟩

/-- The two sockets return the same, up to the address; that is the one with which
the datagram arrived. -/
def SameResult (P : SocketAddr) (t : Pair L G) : PairOp L G → Prop
  | @PairOp.write _ _ _ _ clock nonce label msg =>
      (t.addressed.writeTo clock nonce label (toPeer P msg)).1 =
        (t.connected.write clock nonce label msg).1
  | @PairOp.read _ _ T _ =>
      (t.connected.read T).1 = erased (t.addressed.readFrm T).1 ∧
        t.receiver.Exact Inner.recvFromPath (.read T)
  | .setEncryptCtx _ => True
  | .setDecryptCtx _ => True

/-- The sockets agree, and `read_frm` is behind on what is buffered only. -/
private structure Sound (P : SocketAddr) (t : Pair L G) : Prop where
  twins : t.connected.Twins P t.addressed
  queued : t.receiver.Queued Inner.recvFromPath

/-- **One call keeps them in step.** -/
private theorem Sound.step {t : Pair L G} (h : t.Sound P) (op : PairOp L G) :
    (t.step P op).Sound P := by
  cases op with
  | write clock nonce label msg =>
      refine ⟨(h.twins.write clock nonce label msg).2, ?_⟩
      have hreceived := Outgoing.write_received (Inner.sendToPath (L := L)).wire
        (Inner.sendToPath.outgoing t.addressed) clock
        (t.addressed.encryptedTo nonce label (toPeer P msg))
      have harrived : (t.step P (.write clock nonce label msg)).receiver.inner.sock.arrived =
          t.receiver.inner.sock.arrived := by
        unfold UdpSocket.arrived
        exact congrArg (List.filter _) hreceived
      unfold Receiver.Queued
      rw [harrived]
      exact h.queued
  | read T => exact ⟨(h.twins.read T).2, (h.queued.read T).1⟩
  | setEncryptCtx ctx =>
      obtain ⟨hsock, hread, hqueue, hcurrent, -, hdec⟩ := h.twins
      exact ⟨⟨hsock, hread, hqueue, hcurrent, rfl, hdec⟩, h.queued⟩
  | setDecryptCtx ctx =>
      obtain ⟨hsock, hread, hqueue, hcurrent, henc, -⟩ := h.twins
      exact ⟨⟨hsock, hread, hqueue, hcurrent, henc, rfl⟩, h.queued⟩

private theorem Sound.sameResult {t : Pair L G} (h : t.Sound P) (op : PairOp L G) :
    t.SameResult P op := by
  cases op with
  | write clock nonce label msg => exact (h.twins.write clock nonce label msg).1
  | read T => exact ⟨(h.twins.read T).1, (h.queued.read T).2⟩
  | setEncryptCtx ctx => trivial
  | setDecryptCtx ctx => trivial

private theorem sound_start {recvResults recvResults₁ : List (IoResult (Bytes × SocketAddr))}
    (hscript : recvResults₁.map payloadOf = recvResults.map payloadOf)
    (sendResults : List SendAnswer) (conf : SocketConfig L) :
    (start recvResults recvResults₁ sendResults conf : Pair L G).Sound P where
  twins := ⟨⟨rfl, rfl, hscript⟩, rfl, ⟨by simp [start, Inner.new], rfl⟩, rfl, rfl, rfl⟩
  queued := ⟨Nat.zero_le _, rfl⟩

end Pair

/-- **The connected and the addressed paths agree.**  Whatever the peer, the
answers to the sends and the readings of the clock, and whatever arrives with
whichever addresses: in every run the sockets return the same, up to the
addresses, each `read_frm` returns the address its datagram arrived with, and
after every call they have been offered the same datagrams, for that peer on the
second, and hold the same messages. -/
theorem paths_agree (P : SocketAddr)
    (recvResults recvResults₁ : List (IoResult (Bytes × SocketAddr)))
    (hscript : recvResults₁.map payloadOf = recvResults.map payloadOf)
    (sendResults : List SendAnswer) (conf : SocketConfig L) (ops : List (PairOp L G)) :
    let fresh : Pair L G := .start recvResults recvResults₁ sendResults conf
    Each (Pair.step P) (Pair.SameResult P) fresh ops ∧
      Always (Pair.step P) (fun t => t.connected.Twins P t.addressed) fresh ops := by
  intro fresh
  have hsound : Always (Pair.step P) (Pair.Sound P) fresh ops :=
    always_of_step (Pair.sound_start hscript sendResults conf) fun t op h => h.step op
  exact ⟨hsound.each fun t op h => h.sameResult op, hsound.mono fun t h => h.twins⟩

namespace BincodeInstance

open SocketCollection.BincodeInstance

/-- The peer of a conversation. -/
def friend : SocketAddr := ⟨.v4 0x0a000001#32, 4000⟩

/-- Someone who sends a datagram of his own. -/
def stranger : SocketAddr := ⟨.v4 0x0a000002#32, 4001⟩

/-- The first datagram has to wait, one is read, and the first is sent. -/
def bothPaths : List (PairOp crates Unit) :=
  [.write ⟨0, 0⟩ (1 : UInt8) () (some ((7 : UInt32), 3)), .read UInt32,
    .write (T := UInt32) ⟨1, 1⟩ (1 : UInt8) () none]

theorem paths_agree_both :
    let fresh : Pair crates Unit := .start [.ok ([5, 0, 0, 0], friend)]
      [.ok ([5, 0, 0, 0], stranger)] [.error .wouldBlock, .whole] .default
    Each (Pair.step friend) (Pair.SameResult friend) fresh bothPaths ∧
      Always (Pair.step friend) (fun t => t.connected.Twins friend t.addressed) fresh bothPaths :=
  paths_agree friend [.ok ([5, 0, 0, 0], friend)] [.ok ([5, 0, 0, 0], stranger)] rfl _ _ bothPaths

end BincodeInstance

end SocketCollection.Udp
