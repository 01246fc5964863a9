import SocketCollection.UdpSender
import SocketCollection.UdpRoundTrip

/-!
# Two ways of sending over one socket

A connected `UdpSock` can be written to with `write` and with `write_to`, in any
order.  Each way has a queue and a parked message of its own, and both offer their
datagrams to one socket of the operating system.

They share that socket and nothing else.  A flush depends on the answers that its
own datagrams get, one after the other (`Outgoing.flush_apart`), so each way does
what it would do on a socket of its own that gives these answers.  What holds of a
socket that is written to in one way only holds of each of them.

## Main result

* `ways_of_sending_apart`: in every run each way has the offers, the results and the
  messages that it has alone.
-/

namespace SocketCollection.Udp

variable {L : Crates} {N M : Type}

/-! ## The answers to some offers -/

/-- A socket that is offered the same datagram gives the same answer. -/
def Offer.answer (offer : Offer) : SendAnswer :=
  match offer.result with
  | .ok n => .upTo n
  | .error e => .error e

/-- The socket when it has been offered these as well, and has these answers left. -/
def UdpSocket.offering (s : UdpSocket) (offers : List Offer) (rest : List SendAnswer) :
    UdpSocket :=
  { s with offered := s.offered ++ offers, sendResults := rest }

/-- What was answered once can be answered again. -/
theorem UdpSocket.send_again (s s' : UdpSocket) (data : Bytes) (peer : Option SocketAddr)
    {rest : List SendAnswer}
    (h : s'.sendResults = (Offer.answer ⟨data, peer, (s.send data peer).1⟩) :: rest) :
    s'.send data peer =
      ((s.send data peer).1, s'.offering [⟨data, peer, (s.send data peer).1⟩] rest) := by
  rcases hscript : s.sendResults with _ | ⟨answer, left⟩
  · simp only [send, hscript, Offer.answer] at h ⊢
    simp [h, SendAnswer.result, offering]
  · simp only [send, hscript] at h ⊢
    cases answer with
    | whole | upTo n | error e =>
        simp only [SendAnswer.result, Offer.answer] at h ⊢
        simp [h, offering]

namespace Outgoing

/-- The same, over another socket. -/
def on (o : Outgoing L M) (sock : UdpSocket) : Outgoing L M := { o with sock := sock }

/-- A call makes these offers, for peers it has messages for, and it does the same over
any other socket that has the answers to them in store. -/
structure Replays (wire : Wire M) {R : Type} (call : Outgoing L M → Outgoing L M × R)
    (o : Outgoing L M) (offers : List Offer) : Prop where
  offered : (call o).1.sock.offered = o.sock.offered ++ offers
  peers : ∀ offer ∈ offers, ∃ m, offer.peer = wire.peer m
  again : ∀ sock rest, sock.sendResults = offers.map Offer.answer ++ rest →
    call (o.on sock) = ((call o).1.on (sock.offering offers rest), (call o).2)

variable (wire : Wire M)

theorem takeMsg_on (o : Outgoing L M) (sock : UdpSocket) :
    (o.on sock).takeMsg = (o.takeMsg.1, o.takeMsg.2.on sock) := by
  obtain ⟨_, outQueue, currentWrite⟩ := o
  cases currentWrite <;> rfl

/-- A message that is sent makes one offer. -/
private theorem replays_sendMsg (o : Outgoing L M) (msg : M) :
    Replays wire (fun o => o.sendMsg wire msg) o
      [⟨wire.data msg, wire.peer msg, (o.sock.send (wire.data msg) (wire.peer msg)).1⟩] := by
  have hoffered := o.sock.send_offered (wire.data msg) (wire.peer msg)
  have hsock : (o.sendMsg wire msg).1.sock = (o.sock.send (wire.data msg) (wire.peer msg)).2 := by
    unfold sendMsg
    split
    next hsend =>
      rw [hsend]
      split <;> rfl
  refine ⟨(congrArg UdpSocket.offered hsock).trans hoffered, ?_, fun sock rest hrest => ?_⟩
  · rw [List.forall_mem_singleton]
    exact ⟨msg, rfl⟩
  · have hagain := o.sock.send_again sock (wire.data msg) (wire.peer msg) hrest
    simp only [sendMsg, on, hagain]
    generalize o.sock.send (wire.data msg) (wire.peer msg) = answer
    obtain ⟨res, sock'⟩ := answer
    simp only
    generalize handleSendRes (L := L) res o.currentWrite (wire.data msg).length msg = handled
    obtain ⟨_ | _ | _, currentWrite⟩ := handled <;> rfl

private theorem replays_flushRound (o : Outgoing L M) :
    ∃ offers, Replays wire (flushRound wire) o offers := by
  have hon := o.takeMsg_on
  have hsock := o.takeMsg_sock
  rcases htaken : o.takeMsg with ⟨_ | msg, o₁⟩
  · rw [htaken] at hon hsock
    have hround : o.flushRound wire = (o₁, some (.ok true)) := by rw [flushRound, htaken]
    refine ⟨[], ?_, by simp, fun sock rest hrest => ?_⟩
    · rw [hround, List.append_nil, ← hsock]
    · have hsame : sock.offering [] rest = sock := by
        obtain rfl : sock.sendResults = rest := hrest
        simp [UdpSocket.offering]
      rw [hsame, hround, flushRound, hon]
  · rw [htaken] at hon hsock
    have hround : o.flushRound wire = o₁.sendMsg wire msg := by rw [flushRound, htaken]
    obtain ⟨hoffered, hpeers, hagain⟩ := o₁.replays_sendMsg wire msg
    refine ⟨_, ?_, hpeers, fun sock rest hrest => ?_⟩
    · rw [hround, ← hsock]
      exact hoffered
    · have hnext := hagain sock rest hrest
      rw [hround, flushRound, hon]
      exact hnext

/-- **A flush depends on the answers to its own offers only.** -/
private theorem replays_exec (o : Outgoing L M) :
    ∃ offers, Replays wire (flushLoop wire).exec o offers := by
  induction o using (flushLoop (L := L) wire).rounds with
  | h o ih =>
      obtain ⟨offers, hoffered, hpeers, hagain⟩ := o.replays_flushRound wire
      rcases hbody : (flushLoop wire).body o with ⟨o', _ | res⟩
      · replace hround : o.flushRound wire = (o', none) := hbody
        obtain ⟨more, hoffered', hpeers', hagain'⟩ := ih o' hbody
        rw [hround] at hoffered hagain
        refine ⟨offers ++ more, ?_, ?_, fun sock rest hrest => ?_⟩
        · rw [(flushLoop wire).exec_next hbody, hoffered', hoffered, List.append_assoc]
        · rw [List.forall_mem_append]
          exact ⟨hpeers, hpeers'⟩
        · rw [List.map_append, List.append_assoc] at hrest
          have hnext : (flushLoop wire).body (o.on sock) = _ := hagain sock _ hrest
          have hthen := hagain' (sock.offering offers (more.map Offer.answer ++ rest)) rest rfl
          rw [(flushLoop wire).exec_next hnext, (flushLoop wire).exec_next hbody, hthen]
          simp only [UdpSocket.offering, List.append_assoc]
      · replace hround : o.flushRound wire = (o', some res) := hbody
        rw [hround] at hoffered hagain
        refine ⟨offers, ?_, hpeers, fun sock rest hrest => ?_⟩
        · rw [(flushLoop wire).exec_done hbody]
          exact hoffered
        · have hlast : (flushLoop wire).body (o.on sock) = _ := hagain sock rest hrest
          rw [(flushLoop wire).exec_done hlast, (flushLoop wire).exec_done hbody]

/-- **So does a call of `write` or `write_to`.** -/
theorem replays_write (o : Outgoing L M) (clock : Clock) (msg : Option (Res L M × Priority)) :
    ∃ offers, Replays wire (fun o => ((o.write wire clock msg).2, (o.write wire clock msg).1)) o
      offers := by
  rcases msg with _ | ⟨e | m, priority⟩
  · obtain ⟨offers, hoffered, hpeers, hagain⟩ := replays_exec wire
      { o with outQueue := (o.outQueue.dropExpired clock.dropExpired).2 }
    exact ⟨offers, hoffered, hpeers, hagain⟩
  · refine ⟨[], (List.append_nil _).symm, by simp, fun sock rest hrest => ?_⟩
    obtain rfl : sock.sendResults = rest := hrest
    simp [write, on, UdpSocket.offering]
  · obtain ⟨offers, hoffered, hpeers, hagain⟩ := replays_exec wire
      { o with outQueue :=
          (o.outQueue.dropExpired clock.dropExpired).2.push clock.push m priority }
    exact ⟨offers, hoffered, hpeers, hagain⟩

end Outgoing

/-! ## The socket -/

/-- A call on a socket, of any kind. -/
inductive SocketOp (L : Crates) (N : Type) : Type 1
  | write (T : Type) [Serde L T] (clock : Clock) (nonce : L.Nonce) (label : N)
      (msg : Option (T × Priority))
  | writeTo (T : Type) [Serde L T] (clock : Clock) (nonce : L.Nonce) (label : N)
      (msg : Option (T × SocketAddr × Priority))
  | read (T : Type) [Serde L T]
  | readFrm (T : Type) [Serde L T]
  | setEncryptCtx (encCtx : EncryptContext L)
  | setDecryptCtx (decCtx : DecryptContext L)

namespace SocketOp

/-- The calls that matter to `write`. -/
def forWrite : SocketOp L N → Bool
  | write .. | setEncryptCtx _ => true
  | _ => false

/-- The calls that matter to `write_to`. -/
def forWriteTo : SocketOp L N → Bool
  | writeTo .. | setEncryptCtx _ => true
  | _ => false

end SocketOp

namespace Inner

/-- A call, and what it returns if it sends something. -/
def perform (i : Inner L N) : SocketOp L N → Option (Res L Bool) × Inner L N
  | @SocketOp.write _ _ _ _ clock nonce label msg =>
      let (res, i) := i.write clock nonce label msg
      (some res, i)
  | @SocketOp.writeTo _ _ _ _ clock nonce label msg =>
      let (res, i) := i.writeTo clock nonce label msg
      (some res, i)
  | @SocketOp.read _ _ T _ => (none, (i.read T).2)
  | @SocketOp.readFrm _ _ T _ => (none, (i.readFrm T).2)
  | .setEncryptCtx encCtx => (none, i.setEncryptCtx encCtx)
  | .setDecryptCtx decCtx => (none, i.setDecryptCtx decCtx)

def performAll (i : Inner L N) (ops : List (SocketOp L N)) : Inner L N :=
  ops.foldl (fun i op => (i.perform op).2) i

/-- What the calls return that are kept. -/
def resultsOf (keeps : SocketOp L N → Bool) : Inner L N → List (SocketOp L N) → List (Res L Bool)
  | _, [] => []
  | i, op :: ops =>
      (if keeps op then (i.perform op).1.toList else []) ++ resultsOf keeps (i.perform op).2 ops

/-- How an operation concerns one way of sending: it is a call of it, or sets the
context, or leaves it alone and offers nothing that is its own. -/
inductive Concerns (path : WritePath L N M) (own : Offer → Bool) (op : SocketOp L N) :
    Bool → Prop
  | call (clock : Clock) (msg : EncryptContext L → Option (Res L M × Priority))
      (h : ∀ i : Inner L N, i.perform op = (some (i.writeVia path clock (msg i.encCtx)).1,
        (i.writeVia path clock (msg i.encCtx)).2)) : Concerns path own op true
  | setEncryptCtx (encCtx : EncryptContext L)
      (h : ∀ i : Inner L N, i.perform op = (none, i.setEncryptCtx encCtx)) :
      Concerns path own op true
  | foreign
      (houtgoing : ∀ i : Inner L N,
        path.outgoing (i.perform op).2 = (path.outgoing i).on (i.perform op).2.sock)
      (hctx : ∀ i : Inner L N, (i.perform op).2.encCtx = i.encCtx)
      (hoffers : ∀ i : Inner L N, ∃ offers,
        (i.perform op).2.sock.offered = i.sock.offered ++ offers ∧
          ∀ offer ∈ offers, own offer = false) : Concerns path own op false

/-- The second socket has the messages of the first that are to be sent in this way. -/
structure SameWay (path : WritePath L N M) (i a : Inner L N) : Prop where
  outgoing : path.outgoing a = (path.outgoing i).on a.sock
  encCtx : a.encCtx = i.encCtx

/-- The socket is all that a call changes besides the messages of its way. -/
private theorem sock_setOutgoing (path : WritePath L N M) (i : Inner L N) (o : Outgoing L M) :
    (path.setOutgoing i o).sock = o.sock := by
  rw [← path.outgoing_sock, path.outgoing_set]

/-- A call, over a socket that has the answers to its offers in store. -/
private theorem writeVia_apart (path : WritePath L N M) (i : Inner L N) (clock : Clock)
    (msg : Option (Res L M × Priority)) :
    ∃ offers, (i.writeVia path clock msg).2.sock.offered = i.sock.offered ++ offers ∧
      (∀ offer ∈ offers, ∃ m, offer.peer = path.wire.peer m) ∧
      ∀ (a : Inner L N) rest, SameWay path i a →
        a.sock.sendResults = offers.map Offer.answer ++ rest →
          (a.writeVia path clock msg).1 = (i.writeVia path clock msg).1 ∧
            SameWay path (i.writeVia path clock msg).2 (a.writeVia path clock msg).2 ∧
            (a.writeVia path clock msg).2.sock = a.sock.offering offers rest := by
  obtain ⟨offers, hoffered, hpeers, hagain⟩ :=
    (path.outgoing i).replays_write path.wire clock msg
  refine ⟨offers, ?_, hpeers, fun a rest h hscript => ?_⟩
  · simp only [writeVia, sock_setOutgoing]
    rw [← path.outgoing_sock i]
    exact hoffered
  · have hsame := hagain a.sock rest hscript
    rw [← h.outgoing] at hsame
    obtain ⟨hout, hres⟩ := Prod.mk.inj hsame
    refine ⟨hres, ⟨?_, ?_⟩, ?_⟩
    · simp only [writeVia, path.outgoing_set, sock_setOutgoing, hout]
      rfl
    · simp only [writeVia, path.set_encCtx]
      exact h.encCtx
    · simp only [writeVia, sock_setOutgoing, hout]
      rfl

/-- **Alone, one way of sending does the same**, over the answers to its own offers. -/
private theorem performAll_apart (path : WritePath L N M) (own : Offer → Bool)
    (keeps : SocketOp L N → Bool)
    (hown : ∀ offer m, offer.peer = path.wire.peer m → own offer = true)
    (hconcerns : ∀ op, Concerns path own op (keeps op)) (ops : List (SocketOp L N)) :
    ∀ i : Inner L N, ∃ offers, (i.performAll ops).sock.offered = i.sock.offered ++ offers ∧
      ∀ (a : Inner L N) rest, SameWay path i a →
        a.sock.sendResults = (offers.filter own).map Offer.answer ++ rest →
          SameWay path (i.performAll ops) (a.performAll (ops.filter keeps)) ∧
            (a.performAll (ops.filter keeps)).sock.offered =
              a.sock.offered ++ offers.filter own ∧
            resultsOf keeps a (ops.filter keeps) = resultsOf keeps i ops := by
  induction ops with
  | nil =>
      intro i
      exact ⟨[], (List.append_nil _).symm, fun a rest h _ => ⟨h, (List.append_nil _).symm, rfl⟩⟩
  | cons op ops ih =>
      intro i
      obtain ⟨more, hmore, hthen⟩ := ih (i.perform op).2
      have hop := hconcerns op
      cases hkeeps : keeps op with
      | true =>
          rw [hkeeps] at hop
          rw [List.filter_cons_of_pos hkeeps]
          cases hop with
          | call clock msg h =>
              obtain ⟨offers, hoffered, hpeers, hagain⟩ :=
                i.writeVia_apart path clock (msg i.encCtx)
              have hfilter : offers.filter own = offers := by
                refine List.filter_eq_self.mpr fun offer hoffer => ?_
                obtain ⟨m, hm⟩ := hpeers offer hoffer
                exact hown offer m hm
              rw [h] at hmore hthen
              refine ⟨offers ++ more, ?_, fun a rest hsame hscript => ?_⟩
              · rw [← List.append_assoc, ← hoffered, performAll, List.foldl_cons, h]
                exact hmore
              · rw [List.filter_append, hfilter, List.map_append, List.append_assoc] at hscript
                obtain ⟨hres, hsame', hsock⟩ := hagain a _ hsame hscript
                obtain ⟨hway, hoffered', hresults⟩ := hthen _ rest hsame' (by rw [hsock]; rfl)
                rw [performAll, performAll, List.foldl_cons, List.foldl_cons, resultsOf, resultsOf,
                  hkeeps, h, h, hsame.encCtx]
                refine ⟨hway, ?_, ?_⟩
                · refine hoffered'.trans ?_
                  rw [hsock, List.filter_append, hfilter, ← List.append_assoc]
                  rfl
                · simp only [hres, hresults]
          | setEncryptCtx encCtx h =>
              rw [h] at hmore hthen
              refine ⟨more, ?_, fun a rest hsame hscript => ?_⟩
              · rw [performAll, List.foldl_cons, h]
                exact hmore
              · have hsame' : SameWay path (i.setEncryptCtx encCtx) (a.setEncryptCtx encCtx) := by
                  have hout := hsame.outgoing
                  rw [← path.outgoing_encCtx a encCtx, ← path.outgoing_encCtx i encCtx] at hout
                  exact ⟨hout, rfl⟩
                rw [performAll, performAll, List.foldl_cons, List.foldl_cons, resultsOf, resultsOf,
                  hkeeps, h, h]
                exact hthen _ rest hsame' hscript
      | false =>
          rw [hkeeps] at hop
          cases hop with
          | foreign houtgoing hctx hoffers =>
              obtain ⟨offers, hoffered, hothers⟩ := hoffers i
              have hfilter : offers.filter own = [] := by
                rw [List.filter_eq_nil_iff]
                intro offer hoffer
                simp [hothers offer hoffer]
              refine ⟨offers ++ more, ?_, fun a rest h hscript => ?_⟩
              · rw [← List.append_assoc, ← hoffered]
                exact hmore
              · rw [List.filter_append, hfilter, List.nil_append] at hscript ⊢
                have hsame : SameWay path (i.perform op).2 a := by
                  refine ⟨?_, h.encCtx.trans (hctx i).symm⟩
                  rw [houtgoing]
                  exact h.outgoing
                rw [List.filter_cons_of_neg (by simp [hkeeps])]
                have hrest := hthen a rest hsame hscript
                rw [resultsOf, hkeeps]
                exact hrest

/-- Receiving offers nothing. -/
private theorem readVia_offered [IsEmpty M] (path : ReadPath L N M) (T : Type) [Serde L T]
    (i : Inner L N) : (i.readVia path T).2.sock.offered = i.sock.offered := by
  have hsock : (path.setIncoming i ((path.incoming i).next (L := L) path.view).2).sock =
      ((path.incoming i).next (L := L) path.view).2.sock := by
    rw [← path.incoming_sock, path.incoming_set]
  rw [readVia_inner, hsock]
  refine Incoming.next_rule (L := L) path.view (P := fun sock => sock.offered = i.sock.offered)
    (fun sock hoffered => ?_) (congrArg UdpSocket.offered (path.incoming_sock i))
  unfold UdpSocket.recvFrom
  split <;> exact hoffered

/-- What offers nothing offers nothing of its own. -/
private theorem no_offers {own : Offer → Bool} {i i' : Inner L N}
    (h : i'.sock.offered = i.sock.offered) :
    ∃ offers, i'.sock.offered = i.sock.offered ++ offers ∧ ∀ offer ∈ offers, own offer = false :=
  ⟨[], by rw [h, List.append_nil], by simp⟩

/-- What the other way of sending offers is not its own. -/
private theorem other_offers {own : Offer → Bool} (path : WritePath L N M) (i : Inner L N)
    (clock : Clock) (msg : Option (Res L M × Priority))
    (hpeer : ∀ offer m, offer.peer = path.wire.peer m → own offer = false) :
    ∃ offers, (i.writeVia path clock msg).2.sock.offered = i.sock.offered ++ offers ∧
      ∀ offer ∈ offers, own offer = false := by
  obtain ⟨offers, hoffered, hpeers, -⟩ := i.writeVia_apart path clock msg
  refine ⟨offers, hoffered, fun offer hoffer => ?_⟩
  obtain ⟨m, hm⟩ := hpeers offer hoffer
  exact hpeer offer m hm

/-- Receiving changes a buffer, and the socket it receives from. -/
private theorem read_frame (T : Type) [Serde L T] (i : Inner L N) :
    (i.read T).2 = { i with sock := (i.read T).2.sock, readBuffer := (i.read T).2.readBuffer } := by
  rw [Inner.read, readVia_inner]
  rfl

private theorem readFrm_frame (T : Type) [Serde L T] (i : Inner L N) : (i.readFrm T).2 =
    { i with sock := (i.readFrm T).2.sock, readBuffer2 := (i.readFrm T).2.readBuffer2 } := by
  rw [Inner.readFrm, readVia_inner]
  rfl

private theorem concerns_write (op : SocketOp L N) :
    Concerns (L := L) sendPath (fun offer => offer.peer.isNone) op op.forWrite := by
  cases op with
  | write T clock nonce label msg =>
      exact .call clock (fun ctx => msg.map fun msg =>
        ((ctx.encrypt nonce msg.1).map fun buf => ⟨buf, label⟩, msg.2)) fun i => rfl
  | writeTo T clock nonce label msg =>
      refine .foreign (fun i => rfl) (fun i => rfl) fun i => ?_
      refine i.other_offers sendToPath clock (i.encryptedTo nonce label msg) fun offer m hpeer => ?_
      rw [hpeer]
      rfl
  | read T =>
      exact .foreign (fun i => congrArg sendPath.outgoing (i.read_frame T))
        (fun i => (congrArg Inner.encCtx (i.read_frame T)).trans rfl)
        fun i => no_offers (i.readVia_offered recvPath T)
  | readFrm T =>
      exact .foreign (fun i => congrArg sendPath.outgoing (i.readFrm_frame T))
        (fun i => (congrArg Inner.encCtx (i.readFrm_frame T)).trans rfl)
        fun i => no_offers (i.readVia_offered recvFromPath T)
  | setEncryptCtx encCtx => exact .setEncryptCtx encCtx fun i => rfl
  | setDecryptCtx decCtx => exact .foreign (fun i => rfl) (fun i => rfl) fun i => no_offers rfl

private theorem concerns_writeTo (op : SocketOp L N) :
    Concerns (L := L) sendToPath (fun offer => offer.peer.isSome) op op.forWriteTo := by
  cases op with
  | write T clock nonce label msg =>
      refine .foreign (fun i => rfl) (fun i => rfl) fun i => ?_
      refine i.other_offers sendPath clock (i.encrypted nonce label msg) fun offer m hpeer => ?_
      rw [hpeer]
      rfl
  | writeTo T clock nonce label msg =>
      exact .call clock (fun ctx => msg.map fun msg =>
        ((ctx.encrypt nonce msg.1).map fun buf => (⟨buf, label⟩, msg.2.1), msg.2.2)) fun i => rfl
  | read T =>
      exact .foreign (fun i => congrArg sendToPath.outgoing (i.read_frame T))
        (fun i => (congrArg Inner.encCtx (i.read_frame T)).trans rfl)
        fun i => no_offers (i.readVia_offered recvPath T)
  | readFrm T =>
      exact .foreign (fun i => congrArg sendToPath.outgoing (i.readFrm_frame T))
        (fun i => (congrArg Inner.encCtx (i.readFrm_frame T)).trans rfl)
        fun i => no_offers (i.readVia_offered recvFromPath T)
  | setEncryptCtx encCtx => exact .setEncryptCtx encCtx fun i => rfl
  | setDecryptCtx decCtx => exact .foreign (fun i => rfl) (fun i => rfl) fun i => no_offers rfl

end Inner

/-- **The two ways of sending do not disturb each other.**  In every run of calls of
all kinds on one socket, over any script, `write` has offered the datagrams, returned
the results and kept the messages that it has on a socket where it is used alone and
that answers as its own datagrams were answered; and `write_to` likewise. -/
theorem ways_of_sending_apart (conf : SocketConfig L)
    (recvResults : List (IoResult (Bytes × SocketAddr))) (sendResults : List SendAnswer)
    (ops : List (SocketOp L N)) :
    let fresh : Inner L N := .new (.scripted recvResults sendResults) conf
    let whole := fresh.performAll ops
    let own := whole.sock.offered.filter fun offer => offer.peer.isNone
    let alone : Inner L N := .new (.scripted [] (own.map Offer.answer)) conf
    let ownTo := whole.sock.offered.filter fun offer => offer.peer.isSome
    let aloneTo : Inner L N := .new (.scripted [] (ownTo.map Offer.answer)) conf
    let opsOf := ops.filter SocketOp.forWrite
    let opsTo := ops.filter SocketOp.forWriteTo
    ((alone.performAll opsOf).sock.offered = own ∧
      (alone.performAll opsOf).outQueue = whole.outQueue ∧
      (alone.performAll opsOf).currentWrite = whole.currentWrite ∧
      alone.resultsOf SocketOp.forWrite opsOf = fresh.resultsOf SocketOp.forWrite ops) ∧
    ((aloneTo.performAll opsTo).sock.offered = ownTo ∧
      (aloneTo.performAll opsTo).outQueue2 = whole.outQueue2 ∧
      (aloneTo.performAll opsTo).currentWrite2 = whole.currentWrite2 ∧
      aloneTo.resultsOf SocketOp.forWriteTo opsTo = fresh.resultsOf SocketOp.forWriteTo ops) := by
  intro fresh whole own alone ownTo aloneTo opsOf opsTo
  constructor
  · obtain ⟨offers, hoffered, hapart⟩ := Inner.performAll_apart Inner.sendPath _ _
      (fun offer m hpeer => by rw [hpeer]; rfl) Inner.concerns_write ops fresh
    obtain rfl : whole.sock.offered = offers := hoffered
    obtain ⟨hway, hown, hresults⟩ := hapart alone [] ⟨rfl, rfl⟩ (List.append_nil _).symm
    have hout := hway.outgoing
    exact ⟨hown, congrArg Outgoing.outQueue hout, congrArg Outgoing.currentWrite hout, hresults⟩
  · obtain ⟨offers, hoffered, hapart⟩ := Inner.performAll_apart Inner.sendToPath _ _
      (fun offer m hpeer => by rw [hpeer]; rfl) Inner.concerns_writeTo ops fresh
    obtain rfl : whole.sock.offered = offers := hoffered
    obtain ⟨hway, hown, hresults⟩ := hapart aloneTo [] ⟨rfl, rfl⟩ (List.append_nil _).symm
    have hout := hway.outgoing
    exact ⟨hown, congrArg Outgoing.outQueue hout, congrArg Outgoing.currentWrite hout, hresults⟩

end SocketCollection.Udp
