import SocketCollection.UdpRoundTrip

/-!
# A network of UDP sockets

Any number of UDP sockets, one at each address, that write to each other with
`write_to` and read with `read_frm`, over a network that delivers datagrams in any
order, loses some and copies some (`Network`).  All of them may send and receive.

A frame carries its value as a ghost label, in the sockets and on its way, and the
network remembers what it has done to which datagram.  So it can be said where
every message is.

## Main result

* `network_conserves`: in every run, between any two addresses, each message
  written and each copy made is in exactly one place; what a peer is given under
  the name of another was written by that one, to this one.
-/

namespace SocketCollection.Udp

open Runs StableQueue

variable {L : Crates} {T : Type}

/-! ## The system -/

/-- A datagram on its way. -/
structure Packet (T : Type) where
  source : SocketAddr
  dest : SocketAddr
  frame : Frame (Option T)

/-- A message for an address. -/
abbrev Addressed (T : Type) := Frame (Option T) × SocketAddr

/-- A socket with the history of what it sends, and what its reads have
returned. -/
structure Node (L : Crates) (T : Type) where
  socket : Socket L (Option T) (Addressed T)
  results : List (Res L (Option (T × SocketAddr)))

/-- The sockets, and the datagrams: on their way, handed over in this order, lost,
and copied. -/
structure Network (L : Crates) (T : Type) where
  node : SocketAddr → Node L T
  inFlight : List (Packet T)
  delivered : List (Packet T)
  lost : List (Packet T)
  copied : List (Packet T)

/-- A call at an address, or something that the network does. -/
inductive NetOp (L : Crates) (T : Type)
  | writeTo (source : SocketAddr) (clock : Clock) (nonce : L.Nonce)
      (msg : Option (T × SocketAddr × Priority))
  | readFrm (dest : SocketAddr)
  | deliver (k : Nat)
  | lose (k : Nat)
  | copy (k : Nat)
  | stop (dest : SocketAddr) (e : IoError)

/-- The socket has one more answer to give. -/
def Inner.offer {G : Type} (i : Inner L G) (answer : IoResult (Bytes × SocketAddr)) : Inner L G :=
  { i with sock := { i.sock with recvResults := i.sock.recvResults ++ [answer] } }

/-- The datagram the network gets when an offer is answered: the part of it that
was taken. -/
def Packet.ofOffer (source : SocketAddr) : Addressed T × IoResult Nat → Option (Packet T)
  | ((frame, dest), .ok n) => some ⟨source, dest, { frame with bytes := frame.bytes.take n }⟩
  | (_, .error _) => none

namespace Node

def start (sendResults : List SendAnswer) (conf : SocketConfig L) : Node L T where
  socket := .start [] sendResults conf
  results := []

def offer (n : Node L T) (answer : IoResult (Bytes × SocketAddr)) : Node L T :=
  { n with socket := { n.socket with inner := n.socket.inner.offer answer } }

variable [Serde L T]

def writeTo (n : Node L T) (clock : Clock) (nonce : L.Nonce)
    (msg : Option (T × SocketAddr × Priority)) : Node L T :=
  { n with socket := n.socket.stepTo (.writeTo T clock nonce (msg.map Prod.fst) msg) }

def readFrm (n : Node L T) : Node L T :=
  let (res, inner) := n.socket.inner.readFrm T
  { socket := { n.socket with inner := inner }, results := n.results ++ [res] }

end Node

namespace Network

def start (sendResults : SocketAddr → List SendAnswer) (confs : SocketAddr → SocketConfig L) :
    Network L T where
  node a := .start (sendResults a) (confs a)
  inFlight := []
  delivered := []
  lost := []
  copied := []

/-- Something happens at one address. -/
def change (s : Network L T) (a : SocketAddr) (f : Node L T → Node L T) : Network L T :=
  { s with node := Function.update s.node a (f (s.node a)) }

variable [Serde L T]

/-- One step: a call, after a `write_to` of which the network has what the socket's
operating system took; or what the network does to one of its datagrams. -/
def step (s : Network L T) : NetOp L T → Network L T
  | .writeTo source clock nonce msg =>
      let s' := s.change source fun n => n.writeTo clock nonce msg
      let offers := (s'.node source).socket.log.offers.drop (s.node source).socket.log.offers.length
      { s' with inFlight := s.inFlight ++ offers.filterMap (Packet.ofOffer source) }
  | .readFrm dest => s.change dest Node.readFrm
  | .stop dest e => s.change dest fun n => n.offer (.error e)
  | .deliver k =>
      match s.inFlight[k]? with
      | none => s
      | some p =>
          { s.change p.dest (fun n => n.offer (.ok (p.frame.bytes, p.source))) with
            inFlight := s.inFlight.eraseIdx k
            delivered := s.delivered ++ [p] }
  | .lose k =>
      match s.inFlight[k]? with
      | none => s
      | some p => { s with inFlight := s.inFlight.eraseIdx k, lost := s.lost ++ [p] }
  | .copy k =>
      match s.inFlight[k]? with
      | none => s
      | some p => { s with inFlight := s.inFlight ++ [p], copied := s.copied ++ [p] }

end Network

/-! ## One round of the sending socket -/

/-- A datagram is taken as a whole or not at all. -/
def SendAnswer.WholeOrNone : SendAnswer → Prop
  | .upTo _ => False
  | _ => True

section Round

variable {M : Type}

/-- A round offers a message to the socket, or does not touch it. -/
private theorem round_sock (wire : Wire M) (s : Sender L M) :
    (s.round wire).out.sock = s.out.sock ∧ (s.round wire).log.offers = s.log.offers ∨
      ∃ msg, (s.round wire).out.sock = (s.out.sock.send (wire.data msg) (wire.peer msg)).2 ∧
        (s.round wire).log.offers =
          s.log.offers ++ [(msg, (s.out.sock.send (wire.data msg) (wire.peer msg)).1)] := by
  have hsock := s.out.takeMsg_sock
  simp only [Sender.round, Outgoing.round, Outgoing.flushRound, Log.offers, List.filterMap_append]
  generalize s.out.takeMsg = taken at hsock ⊢
  obtain ⟨_ | msg, o⟩ := taken
  · exact .inl ⟨hsock, by simp⟩
  · right
    replace hsock : o.sock = s.out.sock := hsock
    refine ⟨msg, ?_, by simp⟩
    rw [← hsock]
    simp only [Outgoing.sendMsg]
    generalize o.sock.send (wire.data msg) (wire.peer msg) = answer
    obtain ⟨res, sock⟩ := answer
    split
    · rfl
    · rfl
    · rfl

private theorem send_recv (sock : UdpSocket) (data : Bytes) (peer : Option SocketAddr) :
    (sock.send data peer).2.recvResults = sock.recvResults := by
  unfold UdpSocket.send
  split
  · rfl
  · rfl

private theorem send_whole {sock : UdpSocket} (data : Bytes) (peer : Option SocketAddr)
    (h : ∀ answer ∈ sock.sendResults, answer.WholeOrNone) :
    (∀ answer ∈ (sock.send data peer).2.sendResults, answer.WholeOrNone) ∧
      ∀ k, (sock.send data peer).1 = .ok k → data.length ≤ k := by
  obtain ⟨received, offered, recvResults, _ | ⟨answer, rest⟩⟩ := sock
  · exact ⟨h, nofun⟩
  · have hrest : ∀ answer ∈ rest, answer.WholeOrNone :=
      fun a ha => h a (List.mem_cons_of_mem _ ha)
    have hanswer := h answer List.mem_cons_self
    refine ⟨hrest, ?_⟩
    cases answer with
    | whole =>
        intro k hk
        exact Nat.le_of_eq (Except.ok.inj hk)
    | upTo n => exact hanswer.elim
    | error e => exact nofun

end Round

/-! ## The sending half of a socket -/

/-- The frame is one that a receiver with this context takes for the value it
carries: it is not empty, fits a datagram, and decrypts to the value. -/
structure Legible [Serde L T] (decCtx : DecryptContext L) (frame : Frame (Option T)) : Prop where
  pos : 0 < frame.bytes.length
  fits : frame.bytes.length ≤ bufLen
  decrypts : ∃ value, frame.label = some value ∧ decCtx.decrypt frame.bytes = .ok value

/-- The way `write_to` hands a message to the operating system. -/
abbrev toWire (L : Crates) (T : Type) : Wire (Addressed T) :=
  (Inner.sendToPath (L := L) (G := Option T)).wire

/-- The message is for an address whose socket can decrypt it, and its payload is
not empty and fits a datagram. -/
def Fits [Serde L T] (confs : SocketAddr → SocketConfig L) (source : SocketAddr)
    (nonce : L.Nonce) : Option (T × SocketAddr × Priority) → Prop
  | none => True
  | some (value, dest, _) =>
      Matching (confs source).encCtx (confs dest).decCtx ∧
        ∀ payload, (confs source).encCtx.encrypt nonce value = .ok payload →
          0 < payload.length ∧ payload.length ≤ bufLen

/-- The messages that are written can be read where they are sent to. -/
def NetOp.Fits [Serde L T] (confs : SocketAddr → SocketConfig L) : NetOp L T → Prop
  | .writeTo source _ nonce msg => Udp.Fits confs source nonce msg
  | _ => True

namespace Node

variable [Serde L T] {confs : SocketAddr → SocketConfig L} {a : SocketAddr} {n : Node L T}

/-- What is known of the sending half. -/
structure Sends (confs : SocketAddr → SocketConfig L) (a : SocketAddr) (n : Node L T) : Prop where
  accounts : (n.socket.sender Inner.sendToPath).Accounts (toWire L T) (confs a)
  encCtx : n.socket.inner.encCtx = (confs a).encCtx
  legible : ∀ e ∈ n.socket.log.enqueued, Legible (confs e.msg.2).decCtx e.msg.1
  script : ∀ answer ∈ n.socket.inner.sock.sendResults, answer.WholeOrNone
  whole : ∀ offer ∈ n.socket.log.offers, ∀ k, offer.2 = .ok k → offer.1.1.bytes.length ≤ k

/-- What a call of `write_to` does to the parts `Sends` speaks of, in terms of the
sender alone. -/
private structure SendsOn (confs : SocketAddr → SocketConfig L)
    (before s : Sender L (Addressed T)) : Prop where
  legible : ∀ e ∈ s.log.enqueued, Legible (confs e.msg.2).decCtx e.msg.1
  script : ∀ answer ∈ s.out.sock.sendResults, answer.WholeOrNone
  whole : ∀ offer ∈ s.log.offers, ∀ k, offer.2 = .ok k → offer.1.1.bytes.length ≤ k
  offers : before.log.offers <+: s.log.offers
  recv : s.out.sock.recvResults = before.out.sock.recvResults

private theorem SendsOn.round {before s : Sender L (Addressed T)} (h : SendsOn confs before s) :
    SendsOn confs before (s.round (toWire L T)) := by
  rcases round_sock (toWire L T) s with ⟨hsock, hoffers⟩ | ⟨msg, hsock, hoffers⟩
  · refine ⟨h.legible, ?_, ?_, ?_, ?_⟩
    · rw [hsock]
      exact h.script
    · rw [hoffers]
      exact h.whole
    · rw [hoffers]
      exact h.offers
    · rw [hsock]
      exact h.recv
  · obtain ⟨hscript, hwhole⟩ := send_whole ((toWire L T).data msg)
      ((toWire L T).peer msg) h.script
    refine ⟨h.legible, ?_, ?_, ?_, ?_⟩
    · rw [hsock]
      exact hscript
    · rw [hoffers, List.forall_mem_append, List.forall_mem_singleton]
      exact ⟨h.whole, hwhole⟩
    · rw [hoffers]
      exact h.offers.trans (List.prefix_append _ _)
    · rw [hsock, send_recv]
      exact h.recv

private theorem SendsOn.push {before s : Sender L (Addressed T)} (h : SendsOn confs before s)
    {e : Entry (Addressed T)} (he : Legible (confs e.msg.2).decCtx e.msg.1) :
    SendsOn confs before (s.push e) := by
  refine ⟨?_, h.script, h.whole, h.offers, h.recv⟩
  show ∀ x ∈ s.log.enqueued ++ [e], Legible (confs x.msg.2).decCtx x.msg.1
  rw [List.forall_mem_append, List.forall_mem_singleton]
  exact ⟨h.legible, he⟩

/-- A message that is pushed can be read where it is sent to. -/
private theorem legible_of_encryptedTo [LawfulSerde L T] {i : Inner L (Option T)}
    {nonce : L.Nonce} {msg : Option (T × SocketAddr × Priority)}
    (hctx : i.encCtx = (confs a).encCtx) (hfits : Fits confs a nonce msg) {m : Addressed T}
    {priority : Priority}
    (h : i.encryptedTo nonce (msg.map Prod.fst) msg = some (.ok m, priority)) :
    Legible (confs m.2).decCtx m.1 := by
  rcases msg with _ | ⟨value, dest, priority'⟩
  · cases h
  · obtain ⟨hres, -⟩ := Prod.mk.inj (Option.some.inj h)
    rw [hctx] at hres
    cases hpayload : (confs a).encCtx.encrypt nonce value with
    | error e =>
        rw [hpayload] at hres
        cases hres
    | ok payload =>
        rw [hpayload] at hres
        obtain rfl := Except.ok.inj hres
        obtain ⟨hmatch, hsize⟩ := hfits
        obtain ⟨hpos, hle⟩ := hsize payload hpayload
        exact ⟨hpos, hle, value, rfl, hmatch.decrypt_encrypt hpayload⟩

/-- What a call of `write_to` leaves as it is. -/
private structure SameReader (n n' : Node L T) : Prop where
  results : n'.results = n.results
  recv : n'.socket.inner.sock.recvResults = n.socket.inner.sock.recvResults
  buffer : n'.socket.inner.readBuffer2 = n.socket.inner.readBuffer2
  decCtx : n'.socket.inner.decCtx = n.socket.inner.decCtx

/-- **A call of `write_to`** keeps the sending half in order, and the other half as
it is. -/
private theorem Sends.writeTo [LawfulSerde L T] (h : n.Sends confs a) (clock : Clock)
    {nonce : L.Nonce} {msg : Option (T × SocketAddr × Priority)} (hfits : Fits confs a nonce msg) :
    (n.writeTo clock nonce msg).Sends confs a ∧
      n.socket.log.offers <+: (n.writeTo clock nonce msg).socket.log.offers ∧
      SameReader n (n.writeTo clock nonce msg) := by
  have hsender := n.socket.sender_writeVia Inner.sendToPath clock
    (n.socket.inner.encryptedTo nonce (msg.map Prod.fst) msg)
  have haccounts := h.accounts.write clock
    (n.socket.inner.encryptedTo nonce (msg.map Prod.fst) msg)
  have hon : SendsOn confs (n.socket.sender Inner.sendToPath)
      ((n.socket.sender Inner.sendToPath).write (toWire L T) clock
        (n.socket.inner.encryptedTo nonce (msg.map Prod.fst) msg)) := by
    have hstart : SendsOn confs (n.socket.sender Inner.sendToPath)
        (n.socket.sender Inner.sendToPath) :=
      ⟨h.legible, h.script, h.whole, List.prefix_refl _, rfl⟩
    refine Sender.write_rule hstart (fun h => ⟨h.legible, h.script, h.whole, h.offers, h.recv⟩)
      (fun m priority hmsg h' => h'.push ?_) fun s h => h.round
    exact legible_of_encryptedTo h.encCtx hfits hmsg
  rw [← hsender] at hon haccounts
  exact ⟨⟨haccounts, h.encCtx, hon.legible, hon.script, hon.whole⟩, hon.offers, rfl, hon.recv, rfl,
    rfl⟩

/-! ### What it posts -/

/-- The datagrams the network was given. -/
def posted (a : SocketAddr) (n : Node L T) : List (Packet T) :=
  n.socket.log.offers.filterMap (Packet.ofOffer a)

omit [Serde L T] in
private theorem posted_source {p : Packet T} (h : p ∈ n.posted a) : p.source = a := by
  obtain ⟨⟨⟨frame, dest⟩, res⟩, -, hp⟩ := List.mem_filterMap.mp h
  cases res with
  | ok k =>
      obtain rfl := Option.some.inj hp
      rfl
  | error e => cases hp

omit [Serde L T] in
/-- Under an answer that is whole, a datagram is posted as it is, if it is
accepted. -/
private theorem ofOffer_whole {offer : Addressed T × IoResult Nat}
    (h : ∀ k, offer.2 = .ok k → offer.1.1.bytes.length ≤ k) :
    Packet.ofOffer a offer =
      if fate (toWire L T) offer = .accepted then some ⟨a, offer.1.2, offer.1.1⟩ else none := by
  obtain ⟨⟨frame, dest⟩, e | k⟩ := offer
  · cases he : e.isRetry <;> simp [Packet.ofOffer, fate, he]
  · have hle : frame.bytes.length ≤ k := h k rfl
    have hfate : fate (toWire L T) ((frame, dest), .ok k) = .accepted :=
      if_neg (Nat.not_lt.mpr hle)
    rw [if_pos hfate]
    simp [Packet.ofOffer, List.take_of_length_le hle]

/-- **What is posted is what was accepted.** -/
private theorem Sends.posted_eq (h : n.Sends confs a) :
    n.posted a = (n.socket.log.withFate (toWire L T) .accepted).map
      fun m => ⟨a, m.2, m.1⟩ := by
  have hwhole : n.posted a = n.socket.log.offers.filterMap fun offer =>
      if fate (toWire L T) offer = .accepted then some ⟨a, offer.1.2, offer.1.1⟩ else none :=
    List.filterMap_congr fun offer hoffer => ofOffer_whole (h.whole offer hoffer)
  rw [hwhole, Log.withFate, List.map_map]
  induction n.socket.log.offers with
  | nil => rfl
  | cons offer offers ih =>
      by_cases haccepted : fate (toWire L T) offer = .accepted
      · simpa [haccepted] using ih
      · simpa [haccepted] using ih

/-- What is posted was written. -/
private theorem Sends.enqueued_of_posted (h : n.Sends confs a) {p : Packet T}
    (hp : p ∈ n.posted a) : ∃ e ∈ n.socket.log.enqueued, p = ⟨a, e.msg.2, e.msg.1⟩ := by
  rw [h.posted_eq] at hp
  obtain ⟨m, hm, rfl⟩ := List.mem_map.mp hp
  have hmem : m ∈ n.socket.log.enqueued.map Entry.msg := by
    refine h.accounts.conserved.onePlace.mem_iff.mpr ?_
    simp only [List.append_assoc]
    exact List.mem_append_left _ hm
  obtain ⟨e, he, rfl⟩ := List.mem_map.mp hmem
  exact ⟨e, he, rfl⟩

private theorem Sends.posted_legible (h : n.Sends confs a) :
    ∀ p ∈ n.posted a, Legible (confs p.dest).decCtx p.frame := by
  intro p hp
  obtain ⟨e, he, rfl⟩ := h.enqueued_of_posted hp
  exact h.legible e he

/-! ### The receiving half -/

/-- What the calls of `read_frm` have handed over. -/
def returned (n : Node L T) : List (T × SocketAddr) :=
  n.results.filterMap fun
    | .ok handed => handed
    | .error _ => none

/-- What is buffered, and then what the operating system has yet to hand over. -/
def arriving (n : Node L T) : List (Bytes × SocketAddr) :=
  n.socket.inner.readBuffer2 ++ n.socket.inner.sock.toArrive

/-- What is known of the receiving half, to which these datagrams have been
delivered: the first of them have been returned, and the others are yet to be. -/
structure Receives (decCtx : DecryptContext L) (packets : List (Packet T)) (n : Node L T) :
    Prop where
  decCtx : n.socket.inner.decCtx = decCtx
  no_error : ∀ e, .error e ∈ n.results → ∃ io, e = .io io
  split : ∃ done rest, packets = done ++ rest ∧
    n.returned.map (fun r => (some r.1, r.2)) = done.map (fun p => (p.frame.label, p.source)) ∧
      n.arriving = rest.map fun p => (p.frame.bytes, p.source)

private theorem readFrm_arrives (T : Type) [Serde L T] {G : Type} (i : Inner L G) :
    (i.readFrm T).2.sock.arrived ++ (i.readFrm T).2.sock.toArrive =
      i.sock.arrived ++ i.sock.toArrive := by
  rw [Inner.readFrm, Inner.readVia_inner]
  exact Incoming.next_rule (L := L) id
    (P := fun sock => sock.arrived ++ sock.toArrive = i.sock.arrived ++ i.sock.toArrive)
    (fun sock hsock => (sock.recvFrom_toArrive).1.trans hsock) (s := ⟨i.sock, i.readBuffer2⟩) rfl

/-- What a call of `read_frm` can do. -/
private inductive ReadsFrm (i : Inner L (Option T)) :
    Res L (Option (T × SocketAddr)) → Inner L (Option T) → Prop
  | handsOver {i' bytes source}
      (harriving : i.readBuffer2 ++ i.sock.toArrive =
        (bytes, source) :: (i'.readBuffer2 ++ i'.sock.toArrive)) :
      ReadsFrm i (((i.decCtx.decrypt bytes).map fun value => (value, source)).map some) i'
  | waits {res i'} (harriving : i'.readBuffer2 ++ i'.sock.toArrive =
        i.readBuffer2 ++ i.sock.toArrive)
      (hres : res = .ok none ∨ ∃ e, res = .error (.io e)) : ReadsFrm i res i'

private theorem readsFrm_readFrm (i : Inner L (Option T)) :
    ReadsFrm i (i.readFrm T).1 (i.readFrm T).2 := by
  have hall := readFrm_arrives T i
  have hreads := i.readsVia_readVia Inner.recvFromPath T
  rw [← Inner.readFrm] at hreads
  generalize i.readFrm T = call at hall hreads
  obtain ⟨res, i'⟩ := call
  -- what has just arrived was to arrive
  have harrive : ∀ new, i'.sock.arrived = i.sock.arrived ++ new →
      i.sock.toArrive = new ++ i'.sock.toArrive := by
    intro new harrived
    rw [harrived, List.append_assoc] at hall
    exact (List.append_cancel_left hall).symm
  cases hreads with
  | @handsOver _ _ new msg hres harrived hbuffer hfails =>
      obtain ⟨bytes, source⟩ := msg
      replace hbuffer : i.readBuffer2 ++ new.map id = (bytes, source) :: i'.readBuffer2 := hbuffer
      rw [List.map_id] at hbuffer
      rw [hres]
      refine .handsOver ?_
      rw [harrive new harrived, ← List.append_assoc, hbuffer, List.cons_append]
  | nothing harrived hempty hbuffer hfails =>
      replace hempty : i.readBuffer2 = [] := hempty
      replace hbuffer : i'.readBuffer2 = [] := hbuffer
      refine .waits ?_ (.inl rfl)
      have hsame := harrive [] (harrived.trans (List.append_nil _).symm)
      rw [hbuffer, hempty, hsame, List.nil_append, List.nil_append]
  | @fails _ new e harrived hempty hbuffer hfails =>
      replace hempty : i.readBuffer2 = [] := hempty
      replace hbuffer : i'.readBuffer2 = new.map id := hbuffer
      refine .waits ?_ (.inr ⟨e, rfl⟩)
      rw [hbuffer, hempty, harrive new harrived, List.map_id, List.nil_append]

/-- **A call of `read_frm`** returns the next of the datagrams, or nothing. -/
private theorem Receives.readFrm {decCtx : DecryptContext L} {packets : List (Packet T)}
    (h : n.Receives decCtx packets) (hlegible : ∀ p ∈ packets, Legible decCtx p.frame) :
    n.readFrm.Receives decCtx packets := by
  have hctx : (n.socket.inner.readFrm T).2.decCtx = decCtx := by
    rw [Inner.readFrm, Inner.readVia_inner]
    exact h.decCtx
  have hreads := readsFrm_readFrm n.socket.inner
  obtain ⟨done, rest, hsplit, hreturned, harriving⟩ := h.split
  have herror := h.no_error
  have hold := h.decCtx
  simp only [Node.readFrm, arriving, returned] at harriving hreturned ⊢
  generalize n.socket.inner.readFrm T = call at hctx hreads ⊢
  obtain ⟨res, i'⟩ := call
  cases hreads with
  | @handsOver _ bytes source hmoved =>
      rw [hmoved] at harriving
      obtain ⟨p, rest', rfl, hp, hrest'⟩ := List.map_eq_cons_iff.mp harriving.symm
      obtain ⟨hbytes, rfl⟩ := Prod.mk.inj hp
      have hmem : p ∈ packets := by
        rw [hsplit]
        exact List.mem_append_right _ List.mem_cons_self
      obtain ⟨value, hlabel, hdecrypt⟩ := (hlegible p hmem).decrypts
      rw [hbytes, ← hold] at hdecrypt
      refine ⟨hctx, ?_, done ++ [p], rest', by simp [hsplit], ?_, hrest'.symm⟩
      · simpa [hdecrypt, Except.map] using herror
      · simpa [returned, hdecrypt, Except.map, hlabel] using hreturned
  | waits hsame hres =>
      refine ⟨hctx, ?_, done, rest, hsplit, ?_, hsame.trans harriving⟩
      · intro e he
        rcases List.mem_append.mp he with he | he
        · exact herror e he
        · rcases hres with rfl | ⟨io, rfl⟩
          · simp at he
          · exact ⟨io, by simpa using he⟩
      · rcases hres with rfl | ⟨io, rfl⟩
        · simpa [returned] using hreturned
        · simpa [returned] using hreturned

/-- What a call of `read_frm` leaves as it is. -/
private structure SameWriter (n n' : Node L T) : Prop where
  log : n'.socket.log = n.socket.log
  outQueue : n'.socket.inner.outQueue2 = n.socket.inner.outQueue2
  currentWrite : n'.socket.inner.currentWrite2 = n.socket.inner.currentWrite2
  encCtx : n'.socket.inner.encCtx = n.socket.inner.encCtx
  offered : n'.socket.inner.sock.offered = n.socket.inner.sock.offered
  sendResults : n'.socket.inner.sock.sendResults = n.socket.inner.sock.sendResults

private theorem Sends.of_sameWriter {n' : Node L T} (h : n.Sends confs a)
    (hsame : SameWriter n n') : n'.Sends confs a := by
  obtain ⟨hlog, houtQueue, hcurrent, henc, hoffered, hscript⟩ := hsame
  have haccounts := h.accounts
  have hsender : n'.socket.sender Inner.sendToPath =
      ⟨⟨n'.socket.inner.sock, n.socket.inner.outQueue2, n.socket.inner.currentWrite2⟩,
        n.socket.log⟩ := by
    rw [← hlog, ← houtQueue, ← hcurrent]
    rfl
  refine ⟨?_, henc.trans h.encCtx, ?_, ?_, ?_⟩
  · rw [hsender]
    exact ⟨haccounts.conf_eq, haccounts.perm, haccounts.droppable,
      hoffered.trans haccounts.offered, haccounts.inOrder, haccounts.retried, haccounts.parked⟩
  · rw [hlog]
    exact h.legible
  · rw [hscript]
    exact h.script
  · rw [hlog]
    exact h.whole

private theorem recvFrom_send (sock : UdpSocket) :
    sock.recvFrom.2.offered = sock.offered ∧ sock.recvFrom.2.sendResults = sock.sendResults := by
  unfold UdpSocket.recvFrom
  split
  · exact ⟨rfl, rfl⟩
  · exact ⟨rfl, rfl⟩
  · exact ⟨rfl, rfl⟩

private theorem sameWriter_readFrm (n : Node L T) : SameWriter n n.readFrm := by
  have hsock : (n.socket.inner.readFrm T).2.sock.offered = n.socket.inner.sock.offered ∧
      (n.socket.inner.readFrm T).2.sock.sendResults = n.socket.inner.sock.sendResults := by
    rw [Inner.readFrm, Inner.readVia_inner]
    refine Incoming.next_rule (L := L) id
      (P := fun sock => sock.offered = n.socket.inner.sock.offered ∧
        sock.sendResults = n.socket.inner.sock.sendResults)
      (fun sock hsock => ?_) (s := ⟨n.socket.inner.sock, n.socket.inner.readBuffer2⟩) ⟨rfl, rfl⟩
    obtain ⟨hoffered, hscript⟩ := recvFrom_send sock
    exact ⟨hoffered.trans hsock.1, hscript.trans hsock.2⟩
  have hinner : (n.socket.inner.readFrm T).2 = Inner.recvFromPath.setIncoming n.socket.inner _ :=
    Inner.readVia_inner Inner.recvFromPath T n.socket.inner
  refine ⟨rfl, ?_, ?_, ?_, hsock.1, hsock.2⟩
  · show (n.socket.inner.readFrm T).2.outQueue2 = _
    rw [hinner]
    rfl
  · show (n.socket.inner.readFrm T).2.currentWrite2 = _
    rw [hinner]
    rfl
  · show (n.socket.inner.readFrm T).2.encCtx = _
    rw [hinner]
    rfl

omit [Serde L T] in
private theorem Receives.of_sameReader {decCtx : DecryptContext L} {packets : List (Packet T)}
    {n' : Node L T} (h : n.Receives decCtx packets) (hsame : SameReader n n') :
    n'.Receives decCtx packets := by
  obtain ⟨hresults, hrecv, hbuffer, hctx⟩ := hsame
  have harriving : n'.arriving = n.arriving := by
    rw [arriving, arriving, UdpSocket.toArrive, UdpSocket.toArrive, hrecv, hbuffer]
  refine ⟨hctx.trans h.decCtx, ?_, ?_⟩
  · rw [hresults]
    exact h.no_error
  · rw [returned, hresults, harriving]
    exact h.split

/-! ### Answers to come -/

omit [Serde L T] in
private theorem sameWriter_offer (n : Node L T) (answer : IoResult (Bytes × SocketAddr)) :
    SameWriter n (n.offer answer) := ⟨rfl, rfl, rfl, rfl, rfl, rfl⟩

omit [Serde L T] in
private theorem arriving_offer (n : Node L T) (answer : IoResult (Bytes × SocketAddr)) :
    (n.offer answer).arriving =
      n.arriving ++ (datagrams [answer]).filter fun d => !d.1.isEmpty := by
  simp [arriving, offer, Inner.offer, UdpSocket.toArrive, datagrams, List.filterMap_append,
    List.append_assoc]

/-- A datagram that is delivered is the last to arrive. -/
private theorem Receives.deliver {decCtx : DecryptContext L} {packets : List (Packet T)}
    (h : n.Receives decCtx packets) {p : Packet T} (hp : Legible decCtx p.frame) :
    (n.offer (.ok (p.frame.bytes, p.source))).Receives decCtx (packets ++ [p]) := by
  obtain ⟨done, rest, hsplit, hreturned, harriving⟩ := h.split
  refine ⟨h.decCtx, h.no_error, done, rest ++ [p], by simp [hsplit], hreturned, ?_⟩
  have hne : p.frame.bytes ≠ [] := List.ne_nil_of_length_pos hp.pos
  rw [arriving_offer, harriving, List.map_append]
  simp [datagrams, List.take_of_length_le hp.fits, hne]

omit [Serde L T] in
private theorem Receives.stop {decCtx : DecryptContext L} {packets : List (Packet T)}
    (h : n.Receives decCtx packets) (e : IoError) :
    (n.offer (.error e)).Receives decCtx packets := by
  obtain ⟨done, rest, hsplit, hreturned, harriving⟩ := h.split
  refine ⟨h.decCtx, h.no_error, done, rest, hsplit, hreturned, ?_⟩
  rw [arriving_offer, harriving]
  simp [datagrams]

end Node

/-! ## The network -/

namespace Network

/-- The datagrams handed to the socket at this address, in order. -/
def deliveredTo (s : Network L T) (b : SocketAddr) : List (Packet T) :=
  s.delivered.filter fun p => p.dest = b

/-- Where the datagrams are that have left their sockets. -/
def out (s : Network L T) : List (Packet T) := s.inFlight ++ s.lost ++ s.delivered

variable [Serde L T] {confs : SocketAddr → SocketConfig L} {s : Network L T}

/-- What holds of the whole network: its sockets are in order, and what was posted
at an address, or is a copy of it, is on its way, lost or delivered. -/
structure Sound (confs : SocketAddr → SocketConfig L) (s : Network L T) : Prop where
  sends : ∀ a, (s.node a).Sends confs a
  receives : ∀ b, (s.node b).Receives (confs b).decCtx (s.deliveredTo b)
  carried : ∀ a, (s.out.filter fun p => p.source = a).Perm
    ((s.node a).posted a ++ s.copied.filter fun p => p.source = a)
  copies : ∀ p ∈ s.copied, p ∈ (s.node p.source).posted p.source
  legible : ∀ p ∈ s.out, Legible (confs p.dest).decCtx p.frame

omit [Serde L T] in
private theorem mem_deliveredTo {p : Packet T} {b : SocketAddr} (h : p ∈ s.deliveredTo b) :
    p ∈ s.out ∧ p.dest = b := by
  obtain ⟨hmem, hdest⟩ := List.mem_filter.mp h
  exact ⟨List.mem_append_right _ hmem, of_decide_eq_true hdest⟩

private theorem sound_start {sendResults : SocketAddr → List SendAnswer}
    (hscript : ∀ a, ∀ answer ∈ sendResults a, answer.WholeOrNone) :
    (Network.start sendResults confs : Network L T).Sound confs where
  sends a :=
    { accounts := Sender.accounts_start (UdpSocket.scripted [] (sendResults a)) rfl
      encCtx := rfl
      legible := nofun
      script := hscript a
      whole := nofun }
  receives _ :=
    { decCtx := rfl
      no_error := nofun
      split := ⟨[], [], rfl, rfl, rfl⟩ }
  carried _ := .nil
  copies := nofun
  legible := nofun

/-- A change at one address that keeps what is known of the socket there. -/
private theorem Sound.change (h : s.Sound confs) {a : SocketAddr} {f : Node L T → Node L T}
    (hsends : (f (s.node a)).Sends confs a)
    (hreceives : (f (s.node a)).Receives (confs a).decCtx (s.deliveredTo a))
    (hlog : (f (s.node a)).socket.log = (s.node a).socket.log) : (s.change a f).Sound confs := by
  have hnode : ∀ c, ((s.change a f).node c).posted c = (s.node c).posted c := by
    intro c
    by_cases hc : c = a
    · subst hc
      simp [Network.change, Node.posted, hlog]
    · simp [Network.change, hc]
  refine ⟨?_, ?_, ?_, ?_, h.legible⟩
  · intro c
    by_cases hc : c = a
    · subst hc
      simpa [Network.change] using hsends
    · simpa [Network.change, hc] using h.sends c
  · intro c
    by_cases hc : c = a
    · subst hc
      simpa [Network.change, deliveredTo] using hreceives
    · simpa [Network.change, hc, deliveredTo] using h.receives c
  · intro c
    rw [hnode]
    exact h.carried c
  · intro p hp
    rw [hnode]
    exact h.copies p hp

/-! ### What the network does to a datagram -/

private theorem perm_takeAt {packets : List (Packet T)} {k : Nat} {p : Packet T}
    (h : packets[k]? = some p) : packets.Perm (p :: packets.eraseIdx k) := by
  obtain ⟨hk, rfl⟩ := List.getElem?_eq_some_iff.mp h
  exact (List.getElem_cons_eraseIdx_perm hk).symm

private theorem Sound.readFrm (h : s.Sound confs) (b : SocketAddr) :
    (s.change b Node.readFrm).Sound confs := by
  refine h.change ((h.sends b).of_sameWriter (Node.sameWriter_readFrm _))
    ((h.receives b).readFrm fun p hp => ?_) rfl
  obtain ⟨hout, rfl⟩ := mem_deliveredTo hp
  exact h.legible p hout

private theorem Sound.stop (h : s.Sound confs) (b : SocketAddr) (e : IoError) :
    (s.change b fun n => n.offer (.error e)).Sound confs :=
  h.change ((h.sends b).of_sameWriter (Node.sameWriter_offer _ _)) ((h.receives b).stop e) rfl

private theorem Sound.deliver (h : s.Sound confs) {k : Nat} {p : Packet T}
    (hp : s.inFlight[k]? = some p) :
    Sound confs
      { s.change p.dest (fun n => n.offer (.ok (p.frame.bytes, p.source))) with
        inFlight := s.inFlight.eraseIdx k
        delivered := s.delivered ++ [p] } := by
  have hmem : p ∈ s.out := by
    simp only [out, List.mem_append]
    exact .inl (.inl (List.mem_of_getElem? hp))
  have hnode : ∀ c, (s.change p.dest fun n => n.offer (.ok (p.frame.bytes, p.source))).node c =
      if c = p.dest then (s.node c).offer (.ok (p.frame.bytes, p.source)) else s.node c := by
    intro c
    by_cases hc : c = p.dest
    · subst hc
      simp [Network.change]
    · simp [Network.change, hc]
  have hperm : (s.inFlight.eraseIdx k ++ s.lost ++ (s.delivered ++ [p])).Perm s.out := by
    have htaken := (perm_takeAt hp).append_right (s.lost ++ s.delivered)
    rw [← List.append_assoc] at htaken
    refine .trans ?_ htaken.symm
    rw [← List.append_assoc]
    refine List.perm_append_comm.trans ?_
    simp [List.append_assoc]
  refine ⟨?_, ?_, ?_, ?_, fun q hq => h.legible q (hperm.mem_iff.mp hq)⟩
  · intro c
    show Node.Sends confs c (_ : Node L T)
    rw [hnode]
    split
    · exact (h.sends c).of_sameWriter (Node.sameWriter_offer _ _)
    · exact h.sends c
  · intro c
    show Node.Receives (confs c).decCtx ((s.delivered ++ [p]).filter fun p => p.dest = c) _
    rw [hnode]
    by_cases hc : c = p.dest
    · subst hc
      simpa [deliveredTo] using (h.receives p.dest).deliver (h.legible p hmem)
    · have hne : p.dest ≠ c := fun heq => hc heq.symm
      simpa [deliveredTo, hc, hne] using h.receives c
  · intro c
    refine (hperm.filter _).trans ?_
    show List.Perm _ (((_ : Node L T).posted c) ++ _)
    rw [hnode]
    split
    · exact h.carried c
    · exact h.carried c
  · intro q hq
    show q ∈ (_ : Node L T).posted q.source
    rw [hnode]
    split
    · exact h.copies q hq
    · exact h.copies q hq

private theorem Sound.lose (h : s.Sound confs) {k : Nat} {p : Packet T}
    (hp : s.inFlight[k]? = some p) :
    Sound confs { s with inFlight := s.inFlight.eraseIdx k, lost := s.lost ++ [p] } := by
  have hperm : (s.inFlight.eraseIdx k ++ (s.lost ++ [p]) ++ s.delivered).Perm s.out := by
    have htaken := (perm_takeAt hp).append_right (s.lost ++ s.delivered)
    rw [← List.append_assoc] at htaken
    refine .trans ?_ htaken.symm
    simp only [List.append_assoc, List.cons_append, List.nil_append]
    exact ((List.perm_middle).append_left _).trans List.perm_middle
  exact ⟨h.sends, h.receives, fun c => (hperm.filter _).trans (h.carried c), h.copies,
    fun q hq => h.legible q (hperm.mem_iff.mp hq)⟩

private theorem Sound.copy (h : s.Sound confs) {k : Nat} {p : Packet T}
    (hp : s.inFlight[k]? = some p) :
    Sound confs { s with inFlight := s.inFlight ++ [p], copied := s.copied ++ [p] } := by
  have hperm : (s.inFlight ++ [p] ++ s.lost ++ s.delivered).Perm (s.out ++ [p]) := by
    simp only [out, List.append_assoc]
    refine List.Perm.append_left _ ?_
    rw [← List.append_assoc s.lost]
    exact List.perm_append_comm
  have hmem : p ∈ s.out := by
    simp only [out, List.mem_append]
    exact .inl (.inl (List.mem_of_getElem? hp))
  refine ⟨h.sends, h.receives, ?_, ?_, ?_⟩
  · intro c
    refine (hperm.filter _).trans ?_
    rw [List.filter_append, List.filter_append, ← List.append_assoc]
    exact (h.carried c).append_right _
  · intro q hq
    rcases List.mem_append.mp hq with hq | hq
    · exact h.copies q hq
    · obtain rfl := List.mem_singleton.mp hq
      -- a copy of a copy is a copy of what was posted
      have hof : q ∈ s.out.filter fun r => r.source = q.source :=
        List.mem_filter.mpr ⟨hmem, by simp⟩
      rcases List.mem_append.mp ((h.carried q.source).mem_iff.mp hof) with hposted | hcopied
      · exact hposted
      · exact h.copies q (List.mem_of_mem_filter hcopied)
  · intro q hq
    rcases List.mem_append.mp (hperm.mem_iff.mp hq) with hq | hq
    · exact h.legible q hq
    · obtain rfl := List.mem_singleton.mp hq
      exact h.legible q hmem

/-- **A call of `write_to`**: the network has what was posted meanwhile. -/
private theorem Sound.writeTo [LawfulSerde L T] (h : s.Sound confs) (source : SocketAddr)
    (clock : Clock) {nonce : L.Nonce} {msg : Option (T × SocketAddr × Priority)}
    (hfits : Udp.Fits confs source nonce msg) :
    (s.step (.writeTo source clock nonce msg)).Sound confs := by
  obtain ⟨hsends, ⟨new, hnew⟩, hsame⟩ := (h.sends source).writeTo clock hfits
  have hnode : ∀ c, (s.step (.writeTo source clock nonce msg)).node c =
      if c = source then (s.node c).writeTo clock nonce msg else s.node c := by
    intro c
    by_cases hc : c = source
    · subst hc
      simp [step, Network.change]
    · simp [step, Network.change, hc]
  have hposted : ((s.node source).writeTo clock nonce msg).posted source =
      (s.node source).posted source ++ new.filterMap (Packet.ofOffer source) := by
    rw [Node.posted, ← hnew, List.filterMap_append, Node.posted]
  have hsource : ∀ p ∈ new.filterMap (Packet.ofOffer source), p.source = source := by
    intro p hp
    refine Node.posted_source (n := (s.node source).writeTo clock nonce msg) ?_
    rw [hposted]
    exact List.mem_append_right _ hp
  have hflight : (s.step (.writeTo source clock nonce msg)).inFlight =
      s.inFlight ++ new.filterMap (Packet.ofOffer source) := by
    simp only [step, Network.change, Function.update_self, ← hnew, List.drop_left]
  have hperm : (s.step (.writeTo source clock nonce msg)).out.Perm
      (s.out ++ new.filterMap (Packet.ofOffer source)) := by
    rw [out, hflight]
    show (s.inFlight ++ _ ++ s.lost ++ s.delivered).Perm _
    simp only [out, List.append_assoc]
    refine List.Perm.append_left _ ?_
    rw [← List.append_assoc s.lost]
    exact List.perm_append_comm
  refine ⟨?_, ?_, ?_, ?_, ?_⟩
  · intro c
    rw [hnode]
    by_cases hc : c = source
    · subst hc
      rw [if_pos rfl]
      exact hsends
    · rw [if_neg hc]
      exact h.sends c
  · intro c
    rw [hnode]
    by_cases hc : c = source
    · subst hc
      rw [if_pos rfl]
      exact (h.receives c).of_sameReader hsame
    · rw [if_neg hc]
      exact h.receives c
  · intro c
    refine (hperm.filter _).trans ?_
    rw [hnode, List.filter_append]
    by_cases hc : c = source
    · subst hc
      rw [if_pos rfl, hposted, List.filter_eq_self.mpr fun p hp => decide_eq_true (hsource p hp)]
      refine ((h.carried c).append_right _).trans ?_
      rw [List.append_assoc, List.append_assoc]
      exact List.perm_append_comm.append_left _
    · have hnone : (new.filterMap (Packet.ofOffer source)).filter (fun p => p.source = c) = [] := by
        refine List.filter_eq_nil_iff.mpr fun p hp => ?_
        rw [hsource p hp]
        simpa using fun heq : source = c => hc heq.symm
      rw [if_neg hc, hnone, List.append_nil]
      exact h.carried c
  · intro p hp
    have hold := h.copies p hp
    rw [hnode]
    by_cases hc : p.source = source
    · rw [if_pos hc]
      rw [hc] at hold ⊢
      rw [hposted]
      exact List.mem_append_left _ hold
    · rw [if_neg hc]
      exact hold
  · intro p hp
    rcases List.mem_append.mp (hperm.mem_iff.mp hp) with hp | hp
    · exact h.legible p hp
    · refine hsends.posted_legible p ?_
      rw [hposted]
      exact List.mem_append_right _ hp

/-- **Every step keeps the network in order.** -/
private theorem Sound.step [LawfulSerde L T] (h : s.Sound confs) {op : NetOp L T}
    (hfits : op.Fits confs) : (s.step op).Sound confs := by
  cases op with
  | writeTo source clock nonce msg => exact h.writeTo source clock hfits
  | readFrm dest => exact h.readFrm dest
  | stop dest e => exact h.stop dest e
  | deliver k =>
      simp only [Network.step]
      split
      · exact h
      · next p hp => exact h.deliver hp
  | lose k =>
      simp only [Network.step]
      split
      · exact h
      · next p hp => exact h.lose hp
  | copy k =>
      simp only [Network.step]
      split
      · exact h
      · next p hp => exact h.copy hp

/-! ## Where the messages are -/

/-- The value of a message, if it is for this address. -/
def valueTo (b : SocketAddr) (m : Addressed T) : Option T :=
  if m.2 = b then m.1.label else none

/-- The value of a datagram, if it goes from the one address to the other. -/
def between (a b : SocketAddr) (p : Packet T) : Option T :=
  if p.source = a ∧ p.dest = b then p.frame.label else none

/-- The values written at one address for another. -/
def written (s : Network L T) (a b : SocketAddr) : List T :=
  (s.node a).socket.log.enqueued.filterMap fun e => valueTo b e.msg

/-- Those of them that are parked or queued. -/
def waiting (s : Network L T) (a b : SocketAddr) : List T :=
  ((s.node a).socket.inner.currentWrite2.toList ++
    (s.node a).socket.inner.outQueue2.entries.map Entry.msg).filterMap (valueTo b)

/-- Those of them that have expired or were given up. -/
def gone (s : Network L T) (a b : SocketAddr) : List T :=
  ((s.node a).socket.log.dropped.map Entry.msg ++
    (s.node a).socket.log.withFate (toWire L T) .lost).filterMap (valueTo b)

/-- The values that were returned at one address under the name of another. -/
def returned (s : Network L T) (a b : SocketAddr) : List T :=
  (s.node b).returned.filterMap fun r => if r.2 = a then some r.1 else none

/-- The datagrams delivered to an address that its socket has not returned. -/
def unread (s : Network L T) (b : SocketAddr) : List (Packet T) :=
  (s.deliveredTo b).drop (s.node b).returned.length

/-- Each message written and each copy made is in exactly one place, and a socket
holds what was delivered to it and not yet returned, in order. -/
structure Accounted (s : Network L T) : Prop where
  onePlace : ∀ a b, (s.written a b ++ s.copied.filterMap (between a b)).Perm
    (s.returned a b ++ (s.unread b).filterMap (between a b) ++
      s.inFlight.filterMap (between a b) ++ s.lost.filterMap (between a b) ++
        s.waiting a b ++ s.gone a b)
  inOrder : ∀ b, (s.deliveredTo b).map (fun p => (p.frame.label, p.source)) =
    (s.node b).returned.map (fun r => (some r.1, r.2)) ++
      (s.unread b).map fun p => (p.frame.label, p.source)
  unread_eq : ∀ b, (s.node b).arriving = (s.unread b).map fun p => (p.frame.bytes, p.source)
  genuine : ∀ a b, ∀ v ∈ s.returned a b, v ∈ s.written a b
  noError : ∀ b e, .error e ∈ (s.node b).results → ∃ io, e = .io io

omit [Serde L T] in
private theorem between_filter (a b : SocketAddr) (packets : List (Packet T)) :
    (packets.filter fun p => p.source = a).filterMap (between a b) =
      packets.filterMap (between a b) := by
  rw [List.filterMap_filter]
  refine List.filterMap_congr fun p _ => ?_
  by_cases ha : p.source = a <;> simp [between, ha]

omit [Serde L T] in
private theorem between_deliveredTo (a b : SocketAddr) :
    (s.deliveredTo b).filterMap (between a b) = s.delivered.filterMap (between a b) := by
  rw [deliveredTo, List.filterMap_filter]
  refine List.filterMap_congr fun p _ => ?_
  by_cases hb : p.dest = b <;> simp [between, hb]

private theorem Sound.onePlace (h : s.Sound confs) {a b : SocketAddr}
    (hdelivered : s.delivered.filterMap (between a b) =
      s.returned a b ++ (s.unread b).filterMap (between a b)) :
    (s.written a b ++ s.copied.filterMap (between a b)).Perm
      (s.returned a b ++ (s.unread b).filterMap (between a b) ++
        s.inFlight.filterMap (between a b) ++ s.lost.filterMap (between a b) ++
          s.waiting a b ++ s.gone a b) := by
  have hposted : ((s.node a).posted a).filterMap (between a b) =
      ((s.node a).socket.log.withFate (toWire L T) .accepted).filterMap (valueTo b) := by
    rw [(h.sends a).posted_eq, List.filterMap_map]
    refine List.filterMap_congr fun m _ => ?_
    simp [between, valueTo]
  have hwritten : (s.written a b).Perm
      (((s.node a).socket.log.withFate (toWire L T) .accepted).filterMap (valueTo b) ++
        s.waiting a b ++ s.gone a b) := by
    have hone := (h.sends a).accounts.conserved.onePlace.filterMap (valueTo b)
    rw [List.filterMap_map] at hone
    refine hone.trans (.of_eq ?_)
    simp only [waiting, gone, List.filterMap_append, List.append_assoc]
    rfl
  have hcarried := (h.carried a).filterMap (between a b)
  rw [List.filterMap_append, between_filter, between_filter, hposted, out, List.filterMap_append,
    List.filterMap_append, hdelivered] at hcarried
  exact accounts_join hwritten hcarried

/-- Only what was written is delivered. -/
private theorem Sound.written_of_delivered (h : s.Sound confs) {a b : SocketAddr} {v : T}
    (hv : v ∈ s.delivered.filterMap (between a b)) : v ∈ s.written a b := by
  obtain ⟨p, hp, hvalue⟩ := List.mem_filterMap.mp hv
  have hsource : p.source = a := by
    by_contra hne
    simp [between, hne] at hvalue
  have hof : p ∈ s.out.filter fun q => q.source = a :=
    List.mem_filter.mpr ⟨List.mem_append_right _ hp, decide_eq_true hsource⟩
  have hposted : p ∈ (s.node a).posted a := by
    rcases List.mem_append.mp ((h.carried a).mem_iff.mp hof) with hposted | hcopied
    · exact hposted
    · rw [← hsource]
      exact h.copies p (List.mem_of_mem_filter hcopied)
  obtain ⟨e, he, rfl⟩ := (h.sends a).enqueued_of_posted hposted
  refine List.mem_filterMap.mpr ⟨e, he, ?_⟩
  simpa [between, valueTo] using hvalue

private theorem Sound.accounted (h : s.Sound confs) : s.Accounted := by
  have hsplit : ∀ b, ∃ done, s.deliveredTo b = done ++ s.unread b ∧
      (s.node b).returned.map (fun r => (some r.1, r.2)) =
        done.map (fun p => (p.frame.label, p.source)) ∧
      (s.node b).arriving = (s.unread b).map fun p => (p.frame.bytes, p.source) := by
    intro b
    obtain ⟨done, rest, hall, hreturned, harriving⟩ := (h.receives b).split
    have hlen : done.length = (s.node b).returned.length := by
      have hlength := congrArg List.length hreturned
      rw [List.length_map, List.length_map] at hlength
      exact hlength.symm
    have hunread : s.unread b = rest := by
      rw [unread, hall, ← hlen, List.drop_left]
    rw [hunread]
    exact ⟨done, hall, hreturned, harriving⟩
  have hone : ∀ a b, s.delivered.filterMap (between a b) =
      s.returned a b ++ (s.unread b).filterMap (between a b) := by
    intro a b
    obtain ⟨done, hall, hreturned, -⟩ := hsplit b
    have hdone : s.returned a b = done.filterMap (between a b) := by
      have hvalues := congrArg
        (List.filterMap fun r : Option T × SocketAddr => if r.2 = a then r.1 else none) hreturned
      rw [List.filterMap_map, List.filterMap_map] at hvalues
      refine hvalues.trans (List.filterMap_congr fun p hp => ?_)
      have hdest : p.dest = b := by
        refine (mem_deliveredTo (s := s) ?_).2
        rw [hall]
        exact List.mem_append_left _ hp
      simp [between, hdest]
    rw [hdone, ← List.filterMap_append, ← hall, between_deliveredTo]
  refine ⟨fun a b => h.onePlace (hone a b), ?_, ?_, ?_, fun b => (h.receives b).no_error⟩
  · intro b
    obtain ⟨done, hall, hreturned, -⟩ := hsplit b
    rw [hreturned, hall, List.map_append]
  · intro b
    obtain ⟨done, -, -, harriving⟩ := hsplit b
    exact harriving
  · intro a b v hv
    refine h.written_of_delivered ?_
    rw [hone]
    exact List.mem_append_left _ hv

end Network

/-- **Every message and every copy is in exactly one place.**  Sockets at any number
of addresses write to each other and read, all in any order, while the network
delivers, loses and copies datagrams as it likes.  Each message is for a socket whose
context decrypts what the writer's encrypts, and its payload is not empty and fits the
receiver's buffer of `bufLen` bytes (`NetOp.Fits`); the sockets take a datagram as a
whole or not at all (`WholeOrNone`).  Then always, between any two addresses, the
messages written and the copies made are those that were returned, those delivered and
not yet read, those on their way, those lost, those that wait to be sent and those
given up or expired; a socket holds what was delivered to it and not yet returned, in
order; and what is returned under the name of an address was written there, for the
one that returns it. -/
theorem network_conserves [Serde L T] [LawfulSerde L T]
    (sendResults : SocketAddr → List SendAnswer)
    (confs : SocketAddr → SocketConfig L) (ops : List (NetOp L T))
    (hscript : ∀ a, ∀ answer ∈ sendResults a, answer.WholeOrNone)
    (hfits : ∀ op ∈ ops, op.Fits confs) :
    Always Network.step Network.Accounted (Network.start sendResults confs) ops :=
  ((each_of_forall hfits).always (Network.sound_start hscript) fun _ _ h hop => h.step hop).mono
    fun _ h => h.accounted

namespace BincodeInstance

open SocketCollection.BincodeInstance

def here : SocketAddr := ⟨.v4 0x7f000001#32, 5001⟩

/-- What is for `peer` is sealed with the secret 7, and the rest goes in the clear. -/
def networkConf (a : SocketAddr) : SocketConfig crates :=
  if a = peer then { (SocketConfig.default : SocketConfig crates) with
      decCtx := .authenticated (7 : UInt8) }
  else { (SocketConfig.default : SocketConfig crates) with encCtx := .authenticated (7 : UInt8) }

/-- Two messages cross each other; the one for `peer` is copied, so that it arrives
although the first of the two datagrams is lost. -/
def networkOps : List (NetOp crates UInt32) :=
  [.writeTo here ⟨0, 0⟩ (1 : UInt8) (some (5, peer, 0)),
    .writeTo peer ⟨0, 0⟩ (1 : UInt8) (some (6, here, 3)), .copy 0, .deliver 2, .lose 0,
    .stop peer .wouldBlock, .readFrm peer, .deliver 0, .readFrm here, .readFrm here]

theorem network_conserves_crossing :
    Always Network.step Network.Accounted
      (Network.start (fun _ => [.whole, .error .wouldBlock]) networkConf) networkOps := by
  apply network_conserves
  · intro a answer hanswer
    simp only [List.mem_cons, List.not_mem_nil, or_false] at hanswer
    rcases hanswer with rfl | rfl <;> trivial
  · intro op hop
    simp only [networkOps, List.mem_cons, List.not_mem_nil, or_false] at hop
    rcases hop with rfl | rfl | rfl | rfl | rfl | rfl | rfl | rfl | rfl | rfl
    · refine ⟨.authenticated rfl, fun payload hpayload => ?_⟩
      obtain rfl : sealed 7 1 [5, 0, 0, 0] = payload := Except.ok.inj hpayload
      decide
    · refine ⟨.null, fun payload hpayload => ?_⟩
      obtain rfl : [6, 0, 0, 0] = payload := Except.ok.inj hpayload
      decide
    all_goals trivial

end BincodeInstance

end SocketCollection.Udp
