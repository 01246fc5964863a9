import SocketCollection.TcpOutbox
import SocketCollection.UdpOutbox

/-!
# Which messages are sent, and in which order

Priorities and ages are looked at in the out queue only.  A message that was
taken off the queue and could not be sent is parked, and the next flush offers
it first, however old it has become and whatever has been pushed meanwhile.

The results say that this is all that goes wrong.  A stale message begins to be
sent exactly if one is taken while it is parked, and messages begin out of order
exactly if a parked one is taken while a more urgent one is queued.
-/

namespace SocketCollection

open Outbox Runs

variable {L : Crates}

/-- **When no stale message is sent.**  On a TCP socket, and on a UDP socket
for either way of sending, in every run whose clock never goes back: what was
stale when a call is made begins to be sent neither by that call nor by a later
one, if and only if no call takes a parked message that is stale. -/
theorem no_stale_message_begins [Serde L UInt32] (conf : SocketConfig L) :
    (∀ (writeResults : List (IoResult Nat)) (ops : List (SendOp L Unit)),
      (ops.flatMap SendOp.readings).Pairwise (· ≤ ·) →
        (NothingStale conf Writer.step Writer.outbox SendOp.readings
            (.start writeResults conf) ops ↔
          Each Writer.step (ParkedFresh conf Writer.outbox SendOp.clock? Writer.takesParked)
            (.start writeResults conf) ops)) ∧
    ∀ (recvResults : List (IoResult (Bytes × Udp.SocketAddr)))
      (sendResults : List Udp.SendAnswer) (ops : List (Udp.PostOp L)),
      (ops.flatMap Udp.PostOp.readings).Pairwise (· ≤ ·) →
        (NothingStale conf Udp.Poster.step Udp.Poster.outbox Udp.PostOp.readings
            (.start recvResults sendResults conf) ops ↔
          Each Udp.Poster.step (ParkedFresh conf Udp.Poster.outbox Udp.PostOp.clock?
            Udp.Poster.takesParked) (.start recvResults sendResults conf) ops) ∧
        (NothingStale conf Udp.Poster.step Udp.Poster.outboxTo Udp.PostOp.readings
            (.start recvResults sendResults conf) ops ↔
          Each Udp.Poster.step (ParkedFresh conf Udp.Poster.outboxTo Udp.PostOp.clockTo?
            Udp.Poster.takesParkedTo) (.start recvResults sendResults conf) ops) := by
  constructor
  · intro writeResults ops hclock
    exact (Writer.tcp_simulates conf).spares (Writer.labelled_start writeResults conf)
      (Writer.outbox_start writeResults conf) hclock
  · intro recvResults sendResults ops hclock
    constructor
    · exact (Udp.Poster.send_simulates conf).spares
        (Udp.Poster.stamped_start recvResults sendResults conf)
        (Udp.Poster.outbox_start recvResults sendResults conf) hclock
    · exact (Udp.Poster.sendTo_simulates conf).spares
        (Udp.Poster.stampedTo_start recvResults sendResults conf)
        (Udp.Poster.outboxTo_start recvResults sendResults conf) hclock

namespace BincodeInstance

def defaultConf : SocketConfig crates := .default

/-- A `write` of a TCP socket, so many seconds into the run. -/
def writeAt (secs : Nat) (msg : Option (UInt32 × Priority)) : SendOp crates Unit :=
  .write UInt32 ⟨secs * 10 ^ 9, secs * 10 ^ 9⟩ ⟨(1 : UInt8), (2 : UInt8)⟩ () msg

/-- A `write` of a UDP socket. -/
def postAt (secs : Nat) (msg : Option (UInt32 × Priority)) : Udp.PostOp crates :=
  .write UInt32 ⟨secs * 10 ^ 9, secs * 10 ^ 9⟩ (1 : UInt8) msg

/-- A `write_to` of a UDP socket. -/
def postToAt (secs : Nat) (msg : Option (UInt32 × Udp.SocketAddr × Priority)) :
    Udp.PostOp crates :=
  .writeTo UInt32 ⟨secs * 10 ^ 9, secs * 10 ^ 9⟩ (1 : UInt8) msg

def loopback : Udp.SocketAddr := ⟨.v4 0x7f000001#32, 5000⟩

/-- The stream takes nothing at first. -/
def blockedWriter : Writer crates := .start [.error .wouldBlock, .ok 8, .ok 8] defaultConf

def blockedPoster : Udp.Poster crates :=
  .start [] [.error .wouldBlock, .error .wouldBlock, .whole, .whole] defaultConf

/-- A droppable message is written and, later, the socket flushed. -/
def parkedWrites (later : Nat) : List (SendOp crates Unit) :=
  [writeAt 0 (some (5, 2)), writeAt later none]

def parkedPosts (later : Nat) : List (Udp.PostOp crates) :=
  [postAt 0 (some (5, 2)), postToAt 0 (some (6, loopback, 3)), postAt later none,
    postToAt later none]

theorem no_stale_message_begins_fresh :
    NothingStale defaultConf Writer.step Writer.outbox SendOp.readings blockedWriter
        (parkedWrites 10) ∧
      NothingStale defaultConf Udp.Poster.step Udp.Poster.outbox Udp.PostOp.readings blockedPoster
        (parkedPosts 10) ∧
      NothingStale defaultConf Udp.Poster.step Udp.Poster.outboxTo Udp.PostOp.readings
        blockedPoster (parkedPosts 10) := by
  have hyoung : ∀ priority, ¬ (⟨priority, 0, ()⟩ : Entry Unit).Stale defaultConf (10 * 10 ^ 9) :=
    fun priority hstale => (by decide : ¬ 60 < elapsedSecs 0 (10 * 10 ^ 9)) hstale.2
  refine ⟨?_, ?_, ?_⟩
  · refine ((no_stale_message_begins defaultConf).1 _ (parkedWrites 10) (by decide)).mpr
      ⟨?_, ?_, trivial⟩
    · intro clock _ _ p hp
      cases hp
    · intro clock hclock _ p hp
      obtain rfl := Option.some.inj hclock
      obtain rfl := Option.some.inj hp
      exact hyoung 2
  · refine ((no_stale_message_begins defaultConf).2 [] _ (parkedPosts 10) (by decide)).1.mpr
      ⟨?_, ?_, ?_, ?_, trivial⟩
    · intro clock _ _ p hp
      cases hp
    · intro clock hclock
      cases hclock
    · intro clock hclock _ p hp
      obtain rfl := Option.some.inj hclock
      obtain rfl := Option.some.inj hp
      exact hyoung 2
    · intro clock hclock
      cases hclock
  · refine ((no_stale_message_begins defaultConf).2 [] _ (parkedPosts 10) (by decide)).2.mpr
      ⟨?_, ?_, ?_, ?_, trivial⟩
    · intro clock hclock
      cases hclock
    · intro clock _ _ p hp
      cases hp
    · intro clock hclock
      cases hclock
    · intro clock hclock _ p hp
      obtain rfl := Option.some.inj hclock
      obtain rfl := Option.some.inj hp
      exact hyoung 3

/-- **A stale message is sent.**  It was parked when the socket would block, and
is sent by the next flush although more than a minute has passed. -/
theorem stale_message_begins :
    ((parkedWrites 61).flatMap SendOp.readings).Pairwise (· ≤ ·) ∧
      ((parkedPosts 61).flatMap Udp.PostOp.readings).Pairwise (· ≤ ·) ∧
      ¬ NothingStale defaultConf Writer.step Writer.outbox SendOp.readings blockedWriter
        (parkedWrites 61) ∧
      ¬ NothingStale defaultConf Udp.Poster.step Udp.Poster.outbox Udp.PostOp.readings
        blockedPoster (parkedPosts 61) ∧
      ¬ NothingStale defaultConf Udp.Poster.step Udp.Poster.outboxTo Udp.PostOp.readings
        blockedPoster (parkedPosts 61) := by
  refine ⟨by decide, by decide, ?_, ?_, ?_⟩
  · intro h
    obtain ⟨started, hbegun, hfresh⟩ := h [writeAt 0 (some (5, 2))] (writeAt 61 none) [] rfl _ rfl
    obtain rfl : [⟨⟨2, 0, ()⟩, []⟩] = started := hbegun
    exact hfresh _ List.mem_cons_self ⟨by decide, by decide⟩
  · intro h
    obtain ⟨started, hbegun, hfresh⟩ := h
      [postAt 0 (some (5, 2)), postToAt 0 (some (6, loopback, 3))]
      (postAt 61 none) [postToAt 61 none] rfl _ rfl
    obtain rfl : [⟨⟨2, 0, ()⟩, []⟩] = started := hbegun
    exact hfresh _ List.mem_cons_self ⟨by decide, by decide⟩
  · intro h
    obtain ⟨started, hbegun, hfresh⟩ := h
      [postAt 0 (some (5, 2)), postToAt 0 (some (6, loopback, 3)), postAt 61 none]
      (postToAt 61 none) [] rfl _ rfl
    obtain rfl : [⟨⟨3, 0, ()⟩, []⟩] = started := hbegun
    exact hfresh _ List.mem_cons_self ⟨by decide, by decide⟩

end BincodeInstance

/-- **When the urgent messages are sent first.**  On a TCP socket, and on a UDP
socket for either way of sending, in every run: whenever the operating system
takes the first bytes of a message no message with a smaller priority number is
waiting behind it, if and only if no call takes a parked message while a more
urgent one is queued or written by the call. -/
theorem urgent_messages_first [Serde L UInt32] (conf : SocketConfig L) :
    (∀ (writeResults : List (IoResult Nat)) (ops : List (SendOp L Unit)),
      Always Writer.step (fun w => w.outbox.Urgent) (.start writeResults conf) ops ↔
        Each Writer.step (ParkedUrgent conf Writer.outbox SendOp.clock? Writer.takesParked
          Writer.new?) (.start writeResults conf) ops) ∧
    ∀ (recvResults : List (IoResult (Bytes × Udp.SocketAddr)))
      (sendResults : List Udp.SendAnswer) (ops : List (Udp.PostOp L)),
      (Always Udp.Poster.step (fun p => p.outbox.Urgent) (.start recvResults sendResults conf)
          ops ↔
        Each Udp.Poster.step (ParkedUrgent conf Udp.Poster.outbox Udp.PostOp.clock?
          Udp.Poster.takesParked Udp.Poster.new?) (.start recvResults sendResults conf) ops) ∧
      (Always Udp.Poster.step (fun p => p.outboxTo.Urgent) (.start recvResults sendResults conf)
          ops ↔
        Each Udp.Poster.step (ParkedUrgent conf Udp.Poster.outboxTo Udp.PostOp.clockTo?
          Udp.Poster.takesParkedTo Udp.Poster.newTo?) (.start recvResults sendResults conf)
          ops) := by
  constructor
  · intro writeResults ops
    exact (Writer.tcp_simulates conf).urgent (Writer.labelled_start writeResults conf)
      (Writer.outbox_start writeResults conf)
  · intro recvResults sendResults ops
    constructor
    · exact (Udp.Poster.send_simulates conf).urgent
        (Udp.Poster.stamped_start recvResults sendResults conf)
        (Udp.Poster.outbox_start recvResults sendResults conf)
    · exact (Udp.Poster.sendTo_simulates conf).urgent
        (Udp.Poster.stampedTo_start recvResults sendResults conf)
        (Udp.Poster.outboxTo_start recvResults sendResults conf)

namespace BincodeInstance

/-- **An urgent message is overtaken.**  A message of priority 5 was parked when
the socket would block, and is sent before the one of priority 0 that is written
next. -/
theorem urgent_message_overtaken :
    ¬ Always Writer.step (fun w => w.outbox.Urgent) blockedWriter
        [writeAt 0 (some (5, 5)), writeAt 1 (some (6, 0))] ∧
      ¬ Always Udp.Poster.step (fun p => p.outbox.Urgent)
        (.start [] [.error .wouldBlock, .whole, .whole] defaultConf)
        [postAt 0 (some (5, 5)), postAt 1 (some (6, 0))] := by
  constructor
  · intro h
    have hbegun : ⟨⟨5, 0, ()⟩, [⟨0, 10 ^ 9, ()⟩]⟩ ∈ (List.foldl Writer.step blockedWriter
        [writeAt 0 (some (5, 5)), writeAt 1 (some (6, 0))]).outbox.begun := List.mem_cons_self
    exact absurd (h.last _ hbegun _ List.mem_cons_self) (by decide)
  · intro h
    have hbegun : ⟨⟨5, 0, ()⟩, [⟨0, 10 ^ 9, ()⟩]⟩ ∈ (List.foldl Udp.Poster.step
        (.start [] [.error .wouldBlock, .whole, .whole] defaultConf)
        [postAt 0 (some (5, 5)), postAt 1 (some (6, 0))]).outbox.begun := List.mem_cons_self
    exact absurd (h.last _ hbegun _ List.mem_cons_self) (by decide)

end BincodeInstance

end SocketCollection
