import SocketCollection.Outbox
import SocketCollection.UdpSender

/-!
# The UDP socket as two outboxes

A UDP socket has two ways of sending, each with a queue and a parked message of
its own.  A `Poster` is the socket together with the logs of both; the labels of
its messages are their stamps.  `send_simulates` and `sendTo_simulates` say that
the calls on a `Poster` are those of an outbox, once for each way: the calls of
`write` are those of the one and leave the other alone, and so with `write_to`.
-/

namespace SocketCollection.Udp

open Outbox Relation StableQueue

variable {L : Crates} {M : Type}

/-! ## One way of sending -/

section Sender

variable (wire : Wire M) (stamp : M → Entry Unit)

/-- The message a round has begun to hand over. -/
def Round.begun (round : Round M) : Option (Begun Unit) :=
  round.offer.bind fun offer =>
    if accepts (wire.data offer.1) offer.2 then
      some ⟨stamp offer.1, round.behind.map Entry.stamp⟩
    else none

/-- The messages that were begun. -/
def Log.begun (log : Log M) : List (Begun Unit) := log.rounds.filterMap (Round.begun wire stamp)

namespace Sender

/-- What a sender holds, as the messages see it. -/
def outbox (s : Sender L M) : Outbox Unit where
  parked := s.out.currentWrite.map stamp
  queued := s.out.outQueue.stamps
  begun := s.log.begun wire stamp

/-- The operating system will take some of the message kept in `current_write`. -/
def takesCurrent (s : Sender L M) : Bool :=
  s.out.currentWrite.any fun msg =>
    takes (wire.data msg) (s.out.sock.sendResults.map (SendAnswer.result (wire.data msg).length))

/-- Every message in the queue has the stamp of its entry. -/
structure Stamped (conf : SocketConfig L) (s : Sender L M) : Prop where
  conf_eq : s.out.outQueue.conf = conf
  entry : ∀ e ∈ s.queued, stamp e.msg = e.stamp

variable {wire stamp} {conf : SocketConfig L} {s : Sender L M}

private theorem outbox_dropExpired (wire : Wire M) (h : s.Stamped stamp conf) (now : Instant) :
    (s.dropExpired now).outbox wire stamp = (s.outbox wire stamp).expire conf now := by
  have hstamps := s.out.outQueue.stamps_dropExpired now
  rw [h.conf_eq] at hstamps
  simp only [outbox, expire, expiryPoint, dropExpired, hstamps]
  rfl

private theorem Stamped.dropExpired (h : s.Stamped stamp conf) (now : Instant) :
    (s.dropExpired now).Stamped stamp conf where
  conf_eq := (s.out.outQueue.dropExpired_entries now).2.trans h.conf_eq
  entry e he := by
    apply h.entry e
    rw [s.queued_dropExpired now]
    exact List.mem_append_left _ he

private theorem outbox_push (s : Sender L M) (e : Entry M) :
    Adds (some e.stamp) (s.outbox wire stamp) ((s.push e).outbox wire stamp) where
  parked := rfl
  queued := s.out.outQueue.stamps_push e.time e.msg e.priority
  sorted := (s.out.outQueue.push e.time e.msg e.priority).sorted_stamps
  begun := rfl

private theorem Stamped.push (h : s.Stamped stamp conf) {e : Entry M} (he : stamp e.msg = e.stamp) :
    (s.push e).Stamped stamp conf where
  conf_eq := h.conf_eq
  entry a ha := by
    rw [(s.queued_push e).mem_iff, List.mem_append, List.mem_singleton] at ha
    rcases ha with ha | rfl
    · exact h.entry a ha
    · exact he

/-- A message is offered, the first of those that wait. -/
private theorem Offered.hands {s' : Sender L M} {first : Option (Entry M)} {msg : M}
    {res : IoResult Nat} (h : Offered wire s first msg res s')
    (hwaiting : (s.outbox wire stamp).waiting = stamp msg :: s'.out.outQueue.stamps)
    (hqueued : s'.out.outQueue.stamps <:+ s.out.outQueue.stamps) :
    Hands (s.outbox wire stamp) (s'.outbox wire stamp) := by
  have hleft : (s'.outbox wire stamp).waiting <:+ (s.outbox wire stamp).waiting := by
    rw [hwaiting, Outbox.waiting, outbox, h.currentWrite]
    by_cases hkept : fate wire (msg, res) = .kept
    · simp [hkept]
    · simp [hkept]
  have hbegun : (s'.outbox wire stamp).begun = (s.outbox wire stamp).begun ++
      if accepts (wire.data msg) res then [⟨stamp msg, s'.out.outQueue.stamps⟩] else [] := by
    simp only [outbox, Log.begun, h.log, List.filterMap_append]
    by_cases haccepts : accepts (wire.data msg) res = true
    · simp [Round.begun, haccepts, SendQueue.stamps, queued]
    · simp [Round.begun, haccepts]
  by_cases haccepts : accepts (wire.data msg) res = true
  · rw [if_pos haccepts] at hbegun
    exact .begins hwaiting hqueued hleft hbegun
  · rw [if_neg haccepts, List.append_nil] at hbegun
    exact .keeps hqueued hleft hbegun

private theorem round_hands (wire : Wire M) (h : s.Stamped stamp conf) :
    (s.round wire).Stamped stamp conf ∧
      Hands (s.outbox wire stamp) ((s.round wire).outbox wire stamp) := by
  have hrounds := s.rounds_round wire
  generalize (s.out.flushRound wire).2 = out at hrounds
  generalize s.round wire = s' at hrounds
  cases hrounds with
  | idle hcurrent hqueued hout hlog =>
      have hbegun : s'.log.begun wire stamp = s.log.begun wire stamp := by
        simp [Log.begun, hlog, Round.begun]
      refine ⟨⟨?_, ?_⟩, .keeps ?_ ?_ hbegun⟩
      · rw [hout]
        exact h.conf_eq
      · rw [queued, hout]
        exact h.entry
      · rw [outbox, hout]
        exact List.suffix_refl _
      · rw [Outbox.waiting, outbox, hout]
        exact List.suffix_refl _
  | @kept msg res hcurrent hqueued hoffered =>
      have hstamps : s'.out.outQueue.stamps = s.out.outQueue.stamps :=
        congrArg (List.map Entry.stamp) hqueued
      refine ⟨⟨hoffered.conf.trans h.conf_eq, ?_⟩, hoffered.hands ?_ ?_⟩
      · rw [hqueued]
        exact h.entry
      · simp [Outbox.waiting, outbox, hcurrent, hstamps]
      · rw [hstamps]
  | @entry e res hcurrent hqueued hoffered =>
      have hstamp := h.entry e (hqueued ▸ List.mem_cons_self)
      have hstamps : s.out.outQueue.stamps = e.stamp :: s'.out.outQueue.stamps :=
        congrArg (List.map Entry.stamp) hqueued
      refine ⟨⟨hoffered.conf.trans h.conf_eq, ?_⟩, hoffered.hands ?_ ?_⟩
      · exact fun a ha => h.entry a (hqueued ▸ List.mem_cons_of_mem _ ha)
      · simp [Outbox.waiting, outbox, hcurrent, hstamps, hstamp]
      · rw [hstamps]
        exact List.suffix_cons _ _

/-- What the operating system takes, one answer at a time. -/
private theorem takes_of_send {sock sock' : UdpSocket} {data : Bytes} {peer : Option SocketAddr}
    {res : IoResult Nat} (h : sock.send data peer = (res, sock')) :
    takes data (sock.sendResults.map (SendAnswer.result data.length)) = (accepts data res ||
      res.isOk && takes data (sock'.sendResults.map (SendAnswer.result data.length))) := by
  unfold UdpSocket.send at h
  split at h
  · next hscript =>
      obtain ⟨rfl, -⟩ := Prod.mk.inj h
      simp [hscript, takes, accepts, Except.isOk, Except.toBool]
  · next answer rest hscript =>
      obtain ⟨rfl, rfl⟩ := Prod.mk.inj h
      rw [hscript, List.map_cons]
      rcases hres : answer.result data.length with e | n
      · simp [takes, accepts, Except.isOk, Except.toBool]
      · simp [takes, Except.isOk, Except.toBool]

/-- What the flush begins first, when a message is kept. -/
private theorem flush_first (wire : Wire M) (stamp : M → Entry Unit) (o : Outgoing L M) {msg : M}
    (hcurrent : o.currentWrite = some msg) :
    if takes (wire.data msg)
        (o.sock.sendResults.map (SendAnswer.result (wire.data msg).length)) = true then
      ∃ started, ((Outgoing.flushLoop wire).history (fun o => [o.round wire]) o).filterMap
        (Round.begun wire stamp) = ⟨stamp msg, o.outQueue.stamps⟩ :: started
    else ((Outgoing.flushLoop wire).history (fun o => [o.round wire]) o).filterMap
        (Round.begun wire stamp) = [] := by
  rw [Loop.history, List.filterMap_flatMap]
  refine history_of_takes (fun o' results => o'.currentWrite = some msg ∧
    o'.outQueue = o.outQueue ∧
    o'.sock.sendResults.map (SendAnswer.result (wire.data msg).length) = results) ?_
    ⟨hcurrent, rfl, rfl⟩
  rintro o₁ results ⟨hcurrent, hqueue, rfl⟩
  have hround : (Outgoing.flushLoop wire).body o₁ =
      Outgoing.sendMsg wire { o₁ with currentWrite := none } msg := by
    show o₁.flushRound wire = _
    simp [Outgoing.flushRound, Outgoing.takeMsg, hcurrent]
  have hbegun : [o₁.round wire].filterMap (Round.begun wire stamp) =
      if accepts (wire.data msg) (o₁.sock.send (wire.data msg) (wire.peer msg)).1 = true then
        [⟨stamp msg, o.outQueue.stamps⟩] else [] := by
    by_cases haccepts :
        accepts (wire.data msg) (o₁.sock.send (wire.data msg) (wire.peer msg)).1 = true
    · simp [Outgoing.round, Round.begun, Outgoing.takeMsg, hcurrent, hqueue, SendQueue.stamps,
        haccepts]
    · simp [Outgoing.round, Round.begun, Outgoing.takeMsg, hcurrent, haccepts]
  unfold Outgoing.sendMsg at hround
  rcases hsend : o₁.sock.send (wire.data msg) (wire.peer msg) with ⟨e | n, sock⟩
  · have hrefused := takes_of_send hsend
    rw [hsend] at hround hbegun
    cases he : e.isRetry with
    | true => exact .stops (by simpa [handleSendRes, he] using hround) hbegun hrefused
    | false => exact .stops (by simpa [handleSendRes, he] using hround) hbegun hrefused
  · have htaken := takes_of_send hsend
    rw [hsend] at hround hbegun
    by_cases haccepts : accepts (wire.data msg) (.ok n) = true
    · rw [if_pos haccepts] at hbegun
      rw [haccepts, Bool.true_or] at htaken
      exact .begins (by simpa [handleSendRes] using hround) hbegun htaken
    · have hpart : n < (wire.data msg).length := by
        simp only [accepts, decide_eq_true_eq] at haccepts
        omega
      rw [if_neg haccepts] at hbegun
      have hagain : (Outgoing.flushLoop wire).body o₁ =
          ({ o₁ with sock := sock, currentWrite := some msg }, none) := by
        simpa [handleSendRes, hpart] using hround
      refine .again hagain hbegun ?_ ⟨rfl, hqueue, rfl⟩
      simpa [haccepts, Except.isOk, Except.toBool] using htaken

private theorem flush_flushes (wire : Wire M) (h : s.Stamped stamp conf) :
    (s.flush wire).Stamped stamp conf ∧
      Flushes (s.takesCurrent wire) (s.outbox wire stamp) ((s.flush wire).outbox wire stamp) := by
  have hflush : (s.flush wire).Stamped stamp conf ∧
      ReflTransGen Hands (s.outbox wire stamp) ((s.flush wire).outbox wire stamp) := by
    refine flush_keeps (P := fun s' => s'.Stamped stamp conf ∧
      ReflTransGen Hands (s.outbox wire stamp) (s'.outbox wire stamp)) ?_ ⟨h, .refl⟩
    rintro s₁ ⟨h₁, hflush⟩
    have hround := round_hands wire h₁
    exact ⟨hround.1, hflush.tail hround.2⟩
  have hbegun : ((s.flush wire).outbox wire stamp).begun = (s.outbox wire stamp).begun ++
      ((Outgoing.flushLoop wire).history (fun o => [o.round wire]) s.out).filterMap
        (Round.begun wire stamp) := by
    simp only [outbox, flush, Log.begun, List.filterMap_append]
  refine ⟨hflush.1, flushes_of_first hflush.2 hbegun ?_⟩
  intro p hp
  obtain ⟨msg, hcurrent, rfl⟩ := Option.map_eq_some_iff.mp hp
  rw [takesCurrent, hcurrent, Option.any_some]
  exact flush_first wire stamp s.out hcurrent

/-- A call of `write` comes to its flush: there is nothing to push, or it could
be encrypted. -/
def flushes (msg : Option (Res L M × Priority)) : Bool := msg.all fun (res, _) => res.isOk

/-- The stamp of the message a call pushes, if it pushes one. -/
def pushed (clock : Clock) : Option (Res L M × Priority) → Option (Entry Unit)
  | some (.ok _, priority) => some ⟨priority, clock.push, ()⟩
  | _ => none

theorem pushed_time {clock : Clock} {msg : Option (Res L M × Priority)} {e : Entry Unit}
    (h : e ∈ pushed clock msg) : e.time = clock.push := by
  unfold pushed at h
  split at h
  · obtain rfl := Option.some.inj h
    rfl
  · cases h

/-- **A call of `write` is a call on the outbox.** -/
theorem Stamped.write_call (h : s.Stamped stamp conf) (clock : Clock)
    (msg : Option (Res L M × Priority))
    (hstamp : ∀ m priority, msg = some (.ok m, priority) → stamp m = ⟨priority, clock.push, ()⟩) :
    (s.write wire clock msg).Stamped stamp conf ∧
      Call conf clock.dropExpired (flushes msg && s.takesCurrent wire) (pushed clock msg)
        (s.outbox wire stamp) ((s.write wire clock msg).outbox wire stamp) := by
  have hexpired := h.dropExpired clock.dropExpired
  have hview := outbox_dropExpired wire h clock.dropExpired
  have hnothing : Adds none ((s.outbox wire stamp).expire conf clock.dropExpired)
      ((s.outbox wire stamp).expire conf clock.dropExpired) := by
    rw [← hview]
    exact adds_none (SendQueue.sorted_stamps _)
  rcases msg with _ | ⟨_ | m, priority⟩
  · obtain ⟨hnext, hflush⟩ := flush_flushes wire hexpired
    rw [hview] at hflush
    exact ⟨hnext, _, hnothing, hflush⟩
  · exact ⟨hexpired, _, hnothing, hview ▸ flushes_refl _⟩
  · have hpushed := hexpired.push (e := ⟨priority, clock.push, m⟩) (hstamp m priority rfl)
    obtain ⟨hnext, hflush⟩ := flush_flushes wire hpushed
    refine ⟨hnext, _, ?_, hflush⟩
    rw [← hview]
    exact (s.dropExpired clock.dropExpired).outbox_push ⟨priority, clock.push, m⟩

end Sender

end Sender

/-! ## The socket -/

/-- A call on a socket that is written to in both ways.  Each call may send a
type of its own. -/
inductive PostOp (L : Crates) : Type 1
  | write (T : Type) [Serde L T] (clock : Clock) (nonce : L.Nonce) (msg : Option (T × Priority))
  | writeTo (T : Type) [Serde L T] (clock : Clock) (nonce : L.Nonce)
      (msg : Option (T × SocketAddr × Priority))
  | setEncryptCtx (encCtx : EncryptContext L)

namespace PostOp

/-- The clock of a call of `write`. -/
def clock? : PostOp L → Option Clock
  | @write _ _ _ clock _ _ => some clock
  | _ => none

/-- The clock of a call of `write_to`. -/
def clockTo? : PostOp L → Option Clock
  | @writeTo _ _ _ clock _ _ => some clock
  | _ => none

/-- The clock readings of a call. -/
def readings (op : PostOp L) : List Instant :=
  ((op.clock?.or op.clockTo?).map Clock.readings).getD []

end PostOp

/-- A socket whose messages are labelled with their stamps, and what has become
of the messages of either way of sending. -/
structure Poster (L : Crates) where
  inner : Inner L (Entry Unit)
  log : Log (Frame (Entry Unit))
  logTo : Log (Frame (Entry Unit) × SocketAddr)

namespace Poster

def start (recvResults : List (IoResult (Bytes × SocketAddr))) (sendResults : List SendAnswer)
    (conf : SocketConfig L) : Poster L where
  inner := Inner.new (UdpSocket.scripted recvResults sendResults) conf
  log := Log.empty
  logTo := Log.empty

/-- The stamp of a message of this priority. -/
def stamp (clock : Clock) (priority : Option Priority) : Entry Unit :=
  ⟨priority.getD 0, clock.push, ()⟩

section Write

variable {T : Type} [Serde L T]

/-- What a call of `write` is to push, labelled with its stamp. -/
def encrypted (p : Poster L) (clock : Clock) (nonce : L.Nonce) (msg : Option (T × Priority)) :
    Option (Res L (Frame (Entry Unit)) × Priority) :=
  p.inner.encrypted nonce (stamp clock (msg.map Prod.snd)) msg

/-- What a call of `write_to` is to push, labelled with its stamp. -/
def encryptedTo (p : Poster L) (clock : Clock) (nonce : L.Nonce)
    (msg : Option (T × SocketAddr × Priority)) :
    Option (Res L (Frame (Entry Unit) × SocketAddr) × Priority) :=
  p.inner.encryptedTo nonce (stamp clock (msg.map fun msg => msg.2.2)) msg

theorem encrypted_label {p : Poster L} {clock : Clock} {nonce : L.Nonce}
    {msg : Option (T × Priority)} {m : Frame (Entry Unit)} {priority : Priority}
    (h : p.encrypted clock nonce msg = some (.ok m, priority)) :
    m.label = ⟨priority, clock.push, ()⟩ := by
  obtain ⟨hlabel, hpriority⟩ := Inner.encrypted_ok h
  rw [hlabel, hpriority]
  rfl

theorem encryptedTo_label {p : Poster L} {clock : Clock} {nonce : L.Nonce}
    {msg : Option (T × SocketAddr × Priority)} {m : Frame (Entry Unit) × SocketAddr}
    {priority : Priority} (h : p.encryptedTo clock nonce msg = some (.ok m, priority)) :
    m.1.label = ⟨priority, clock.push, ()⟩ := by
  obtain ⟨hlabel, hpriority⟩ := Inner.encryptedTo_ok h
  rw [hlabel, hpriority]
  rfl

end Write

def socket (p : Poster L) : Socket L (Entry Unit) (Frame (Entry Unit)) := ⟨p.inner, p.log⟩

def socketTo (p : Poster L) : Socket L (Entry Unit) (Frame (Entry Unit) × SocketAddr) :=
  ⟨p.inner, p.logTo⟩

def step (p : Poster L) : PostOp L → Poster L
  | @PostOp.write _ _ _ clock nonce msg =>
      let s := p.socket.writeVia Inner.sendPath clock (p.encrypted clock nonce msg)
      { p with inner := s.inner, log := s.log }
  | @PostOp.writeTo _ _ _ clock nonce msg =>
      let s := p.socketTo.writeVia Inner.sendToPath clock (p.encryptedTo clock nonce msg)
      { p with inner := s.inner, logTo := s.log }
  | .setEncryptCtx encCtx => { p with inner := p.inner.setEncryptCtx encCtx }

/-- What is sent with `write`, as the messages see it. -/
def sender (p : Poster L) : Sender L (Frame (Entry Unit)) := p.socket.sender Inner.sendPath

def senderTo (p : Poster L) : Sender L (Frame (Entry Unit) × SocketAddr) :=
  p.socketTo.sender Inner.sendToPath

def outbox (p : Poster L) : Outbox Unit :=
  p.sender.outbox (Inner.sendPath (L := L)).wire Frame.label

/-- What is sent with `write_to`, as the messages see it. -/
def outboxTo (p : Poster L) : Outbox Unit :=
  p.senderTo.outbox (Inner.sendToPath (L := L)).wire fun msg => msg.1.label

/-- The stamp of the message a call of `write` pushes, if it pushes one. -/
def new? (p : Poster L) : PostOp L → Option (Entry Unit)
  | @PostOp.write _ _ _ clock nonce msg => Sender.pushed clock (p.encrypted clock nonce msg)
  | _ => none

/-- The stamp of the message a call of `write_to` pushes, if it pushes one. -/
def newTo? (p : Poster L) : PostOp L → Option (Entry Unit)
  | @PostOp.writeTo _ _ _ clock nonce msg => Sender.pushed clock (p.encryptedTo clock nonce msg)
  | _ => none

/-- The operating system will take some of what is kept when a call of `write` is
made. -/
def takesParked (p : Poster L) : PostOp L → Bool
  | @PostOp.write _ _ _ clock nonce msg => Sender.flushes (p.encrypted clock nonce msg) &&
      p.sender.takesCurrent (Inner.sendPath (L := L)).wire
  | _ => false

/-- The operating system will take some of what is kept when a call of `write_to`
is made. -/
def takesParkedTo (p : Poster L) : PostOp L → Bool
  | @PostOp.writeTo _ _ _ clock nonce msg => Sender.flushes (p.encryptedTo clock nonce msg) &&
      p.senderTo.takesCurrent (Inner.sendToPath (L := L)).wire
  | _ => false

section Start

variable (recvResults : List (IoResult (Bytes × SocketAddr))) (sendResults : List SendAnswer)
  (conf : SocketConfig L)

theorem outbox_start : (start recvResults sendResults conf).outbox = .empty := by
  simp [start, outbox, sender, socket, Socket.sender, Inner.sendPath, Sender.outbox, Inner.new,
    Log.begun, Log.empty, SendQueue.stamps_new, Outbox.empty]

theorem outboxTo_start : (start recvResults sendResults conf).outboxTo = .empty := by
  simp [start, outboxTo, senderTo, socketTo, Socket.sender, Inner.sendToPath, Sender.outbox,
    Inner.new, Log.begun, Log.empty, SendQueue.stamps_new, Outbox.empty]

theorem stamped_start : (start recvResults sendResults conf).sender.Stamped Frame.label conf where
  conf_eq := rfl
  entry e he := by
    simp [start, sender, socket, Socket.sender, Inner.sendPath, Sender.queued, Inner.new] at he

theorem stampedTo_start :
    (start recvResults sendResults conf).senderTo.Stamped (fun msg => msg.1.label) conf where
  conf_eq := rfl
  entry e he := by
    simp [start, senderTo, socketTo, Socket.sender, Inner.sendToPath, Sender.queued,
      Inner.new] at he

end Start

/-! ### Each way of sending leaves the other alone -/

section Senders

variable {T : Type} [Serde L T] (p : Poster L) (clock : Clock) (nonce : L.Nonce)

theorem sender_write (msg : Option (T × Priority)) :
    (p.step (.write T clock nonce msg)).sender =
      p.sender.write (Inner.sendPath (L := L)).wire clock (p.encrypted clock nonce msg) :=
  p.socket.sender_writeVia Inner.sendPath clock _

theorem senderTo_writeTo (msg : Option (T × SocketAddr × Priority)) :
    (p.step (.writeTo T clock nonce msg)).senderTo =
      p.senderTo.write (Inner.sendToPath (L := L)).wire clock (p.encryptedTo clock nonce msg) :=
  p.socketTo.sender_writeVia Inner.sendToPath clock _

end Senders

/-- **The calls of `write` are those of an outbox.** -/
theorem send_simulates (conf : SocketConfig L) :
    Simulates conf step (fun p => p.sender.Stamped Frame.label conf) outbox PostOp.clock?
      takesParked new? PostOp.readings where
  keeps p op h := by
    cases op with
    | write T clock nonce msg =>
        rw [sender_write]
        exact (h.write_call clock _ fun m priority hm => encrypted_label hm).1
    | writeTo T clock nonce msg => exact ⟨h.conf_eq, h.entry⟩
    | setEncryptCtx encCtx => exact ⟨h.conf_eq, h.entry⟩
  call p op clock h hclock := by
    cases op with
    | write T clock' nonce msg =>
        obtain rfl := Option.some.inj hclock
        rw [outbox, outbox, sender_write]
        exact (h.write_call clock' _ fun m priority hm => encrypted_label hm).2
    | writeTo T clock' nonce msg => cases hclock
    | setEncryptCtx encCtx => cases hclock
  stamped p op clock hclock e he := by
    cases op with
    | write T clock' nonce msg =>
        obtain rfl := Option.some.inj hclock
        exact Sender.pushed_time he
    | writeTo T clock' nonce msg => cases hclock
    | setEncryptCtx encCtx => cases hclock
  others p op hclock := by
    cases op with
    | write T clock' nonce msg => cases hclock
    | writeTo T clock' nonce msg => rfl
    | setEncryptCtx encCtx => rfl
  readings_eq op clock hclock := by
    rw [PostOp.readings, hclock]
    rfl

/-- **The calls of `write_to` are those of an outbox.** -/
theorem sendTo_simulates (conf : SocketConfig L) :
    Simulates conf step (fun p => p.senderTo.Stamped (fun msg => msg.1.label) conf) outboxTo
      PostOp.clockTo? takesParkedTo newTo? PostOp.readings where
  keeps p op h := by
    cases op with
    | write T clock nonce msg => exact ⟨h.conf_eq, h.entry⟩
    | writeTo T clock nonce msg =>
        rw [senderTo_writeTo]
        exact (h.write_call clock _ fun m priority hm => encryptedTo_label hm).1
    | setEncryptCtx encCtx => exact ⟨h.conf_eq, h.entry⟩
  call p op clock h hclock := by
    cases op with
    | write T clock' nonce msg => cases hclock
    | writeTo T clock' nonce msg =>
        obtain rfl := Option.some.inj hclock
        rw [outboxTo, outboxTo, senderTo_writeTo]
        exact (h.write_call clock' _ fun m priority hm => encryptedTo_label hm).2
    | setEncryptCtx encCtx => cases hclock
  stamped p op clock hclock e he := by
    cases op with
    | write T clock' nonce msg => cases hclock
    | writeTo T clock' nonce msg =>
        obtain rfl := Option.some.inj hclock
        exact Sender.pushed_time he
    | setEncryptCtx encCtx => cases hclock
  others p op hclock := by
    cases op with
    | write T clock' nonce msg => rfl
    | writeTo T clock' nonce msg => cases hclock
    | setEncryptCtx encCtx => rfl
  readings_eq op clock hclock := by
    cases op with
    | write T clock' nonce msg => cases hclock
    | writeTo T clock' nonce msg =>
        obtain rfl := Option.some.inj hclock
        rfl
    | setEncryptCtx encCtx => cases hclock

end Poster

end SocketCollection.Udp
