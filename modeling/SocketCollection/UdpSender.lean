import SocketCollection.Udp
import SocketCollection.Runs
import SocketCollection.BincodeInstance

/-!
# Sending datagrams

A `Sender` is one way of sending (`write` or `write_to`) together with what
has become of its messages: which were pushed and which expired, and what each
round of the flush loop took and offered to the operating system.  The history
is ghost state; `write_out`, and `Socket.writeVia_inner` for a whole socket, say
that forgetting it gives back the call of the code.

## Main results

* `write_rule`: the rule for invariants of one call, and of its result.
* `sends_conserved`: every message is in exactly one place, in every run of
  either way of sending.
-/

namespace SocketCollection.Udp

open Runs StableQueue

variable {L : Crates} {G M : Type}

/-! ## One round of the flush loop -/

/-- What became of a datagram that was offered. -/
inductive Fate
  | accepted
  | kept
  | lost
  deriving DecidableEq

/-- A part of a datagram does not count as sent. -/
def fate (wire : Wire M) (offer : M × IoResult Nat) : Fate :=
  match offer.2 with
  | .ok n => if n < (wire.data offer.1).length then .kept else .accepted
  | .error e => if e.isRetry then .kept else .lost

/-- What a round takes off the queue, what it offers and how that is answered,
and what it leaves in the queue. -/
structure Round (M : Type) where
  taken : Option (Entry M)
  offer : Option (M × IoResult Nat)
  behind : List (Entry M)

namespace Outgoing

/-- The round that begins in this state. -/
def round (wire : Wire M) (o : Outgoing L M) : Round M where
  taken := if o.currentWrite.isSome then none else o.outQueue.entries.head?
  offer := o.takeMsg.1.map fun msg => (msg, (o.sock.send (wire.data msg) (wire.peer msg)).1)
  behind := o.takeMsg.2.outQueue.entries

/-- Taking the next message changes the queue and what is kept. -/
theorem takes_takeMsg (o : Outgoing L M) :
    SendQueue.Takes (fun outQueue currentWrite =>
      { o with outQueue := outQueue, currentWrite := currentWrite }) o.outQueue o.currentWrite
        o.takeMsg.1 o.takeMsg.2 := by
  refine SendQueue.takes_of_eq (fun msg hcurrent => ?_) fun hcurrent => ?_
  · rw [takeMsg, hcurrent]
  · rw [takeMsg, hcurrent]

end Outgoing

/-- How a flush loop goes on after an answer. -/
def verdict : IoResult Nat → Option (Res L Bool)
  | .ok _ => none
  | .error e => if e.isRetry then some (.ok false) else some (.error (.io e))

theorem UdpSocket.send_offered (s : UdpSocket) (data : Bytes) (peer : Option SocketAddr) :
    (s.send data peer).2.offered = s.offered ++ [⟨data, peer, (s.send data peer).1⟩] := by
  unfold send
  split <;> rfl

/-- What sending a message does, by its fate. -/
structure Outgoing.Sends (wire : Wire M) (o : Outgoing L M) (msg : M) (res : IoResult Nat)
    (o' : Outgoing L M) (out : Option (Res L Bool)) : Prop where
  outQueue : o'.outQueue = o.outQueue
  currentWrite : o'.currentWrite = if fate wire (msg, res) = .kept then some msg else none
  offered : o'.sock.offered = o.sock.offered ++ [⟨wire.data msg, wire.peer msg, res⟩]
  out : out = verdict res

theorem Outgoing.sends_sendMsg (wire : Wire M) {o : Outgoing L M} (hcurrent : o.currentWrite = none)
    (msg : M) :
    Sends wire o msg (o.sock.send (wire.data msg) (wire.peer msg)).1 (o.sendMsg wire msg).1
      (o.sendMsg wire msg).2 := by
  have hoffered := o.sock.send_offered (wire.data msg) (wire.peer msg)
  unfold sendMsg
  generalize o.sock.send (wire.data msg) (wire.peer msg) = answer at hoffered
  obtain ⟨e | n, sock⟩ := answer
  · cases he : e.isRetry with
    | true =>
        simp only [handleSendRes, he, if_true]
        exact ⟨rfl, by simp [fate, he], hoffered, by simp [verdict, he]⟩
    | false =>
        simp only [handleSendRes, he, Bool.false_eq_true, if_false]
        exact ⟨rfl, by simp [fate, he, hcurrent], hoffered, by simp [verdict, he]⟩
  · simp only [handleSendRes]
    refine ⟨rfl, ?_, hoffered, rfl⟩
    by_cases hn : n < (wire.data msg).length <;> simp [fate, hn, hcurrent]

/-! ## Senders -/

/-- What has become of the messages of one way of sending. -/
structure Log (M : Type) where
  enqueued : List (Entry M)
  dropped : List (Entry M)
  rounds : List (Round M)

namespace Log

def empty : Log M := ⟨[], [], []⟩

/-- The entries taken off the queue, in order. -/
def dequeued (log : Log M) : List (Entry M) := log.rounds.filterMap Round.taken

/-- The datagrams offered to the operating system, in order, and its answers. -/
def offers (log : Log M) : List (M × IoResult Nat) := log.rounds.filterMap Round.offer

/-- The messages whose last offer had this fate. -/
def withFate (wire : Wire M) (f : Fate) (log : Log M) : List M :=
  (log.offers.filter fun offer => fate wire offer = f).map Prod.fst

end Log

structure Sender (L : Crates) (M : Type) where
  out : Outgoing L M
  log : Log M

namespace Sender

/-- The entries waiting in the out queue. -/
def queued (s : Sender L M) : List (Entry M) := s.out.outQueue.entries

/-! ### The phases of a call -/

def dropExpired (s : Sender L M) (now : Instant) : Sender L M where
  out := { s.out with outQueue := (s.out.outQueue.dropExpired now).2 }
  log := { s.log with dropped := s.log.dropped ++ s.out.outQueue.expired now }

def push (s : Sender L M) (e : Entry M) : Sender L M where
  out := { s.out with outQueue := s.out.outQueue.push e.time e.msg e.priority }
  log := { s.log with enqueued := s.log.enqueued ++ [e] }

variable (wire : Wire M)

def round (s : Sender L M) : Sender L M where
  out := (s.out.flushRound wire).1
  log := { s.log with rounds := s.log.rounds ++ [s.out.round wire] }

def flush (s : Sender L M) : Sender L M where
  out := ((Outgoing.flushLoop wire).exec s.out).1
  log := { s.log with
    rounds := s.log.rounds ++
      (Outgoing.flushLoop wire).history (fun o => [o.round wire]) s.out }

def write (s : Sender L M) (clock : Clock) (msg : Option (Res L M × Priority)) : Sender L M :=
  let s := s.dropExpired clock.dropExpired
  match msg with
  | none => s.flush wire
  | some (.error _, _) => s
  | some (.ok msg, priority) => (s.push ⟨priority, clock.push, msg⟩).flush wire

/-- **A sender is the code**, once its history is forgotten. -/
theorem write_out (s : Sender L M) (clock : Clock) (msg : Option (Res L M × Priority)) :
    (s.write wire clock msg).out = (s.out.write wire clock msg).2 := by
  rcases msg with _ | ⟨_ | msg, priority⟩ <;> rfl

variable {wire}

/-- What every round that goes on preserves, and the last one turns into `Q`
of its result, a flush establishes. -/
theorem flush_rule {P : Sender L M → Prop} {Q : Res L Bool → Sender L M → Prop}
    (next : ∀ s, P s → (s.out.flushRound wire).2 = none → P (s.round wire))
    (done : ∀ s r, P s → (s.out.flushRound wire).2 = some r → Q r (s.round wire))
    {s : Sender L M} (hs : P s) : Q (s.out.flush wire).1 (s.flush wire) := by
  refine (Outgoing.flushLoop wire).history_rule (fun o => [o.round wire])
    (fun o past => P ⟨o, { s.log with rounds := past }⟩)
    (fun o r past => Q r ⟨o, { s.log with rounds := past }⟩) ?_ ?_ s.out s.log.rounds hs
  · intro o o' past h hbody
    replace hbody : o.flushRound wire = (o', none) := hbody
    simpa only [round, hbody] using next _ h (by rw [hbody])
  · intro o o' r past h hbody
    replace hbody : o.flushRound wire = (o', some r) := hbody
    simpa only [round, hbody] using done _ r h (by rw [hbody])

/-- What every round preserves, a flush preserves. -/
theorem flush_keeps {P : Sender L M → Prop} (hround : ∀ s, P s → P (s.round wire))
    {s : Sender L M} (hs : P s) : P (s.flush wire) :=
  flush_rule (Q := fun _ s => P s) (fun s h _ => hround s h) (fun s _ h _ => hround s h) hs

/-- **What the phases of a call preserve, the call preserves.** -/
theorem write_rule {P : Sender L M → Prop} {s : Sender L M} {clock : Clock}
    {msg : Option (Res L M × Priority)} (hs : P s)
    (hdrop : P s → P (s.dropExpired clock.dropExpired))
    (hpush : ∀ m priority, msg = some (.ok m, priority) →
      P (s.dropExpired clock.dropExpired) →
        P ((s.dropExpired clock.dropExpired).push ⟨priority, clock.push, m⟩))
    (hround : ∀ s', P s' → P (s'.round wire)) : P (s.write wire clock msg) := by
  rcases msg with _ | ⟨_ | m, priority⟩
  · exact flush_keeps hround (hdrop hs)
  · exact hdrop hs
  · exact flush_keeps hround (hpush m priority rfl (hdrop hs))

/-- A message was offered, and `taken` is the entry that was taken off the
queue for it. -/
structure Offered (wire : Wire M) (s : Sender L M) (taken : Option (Entry M)) (msg : M)
    (res : IoResult Nat) (s' : Sender L M) : Prop where
  currentWrite : s'.out.currentWrite = if fate wire (msg, res) = .kept then some msg else none
  offered : s'.out.sock.offered =
    s.out.sock.offered ++ [⟨wire.data msg, wire.peer msg, res⟩]
  conf : s'.out.outQueue.conf = s.out.outQueue.conf
  log : s'.log =
    { s.log with rounds := s.log.rounds ++ [⟨taken, some (msg, res), s'.queued⟩] }

/-- What a round of the flush can do: nothing is left, or the message that was
kept is offered, or the next entry of the queue. -/
inductive Rounds (wire : Wire M) (s s' : Sender L M) : Option (Res L Bool) → Prop
  | idle (hcurrent : s.out.currentWrite = none) (hqueued : s.queued = []) (hout : s'.out = s.out)
      (hlog : s'.log = { s.log with rounds := s.log.rounds ++ [⟨none, none, []⟩] }) :
      Rounds wire s s' (some (.ok true))
  | kept {msg res} (hcurrent : s.out.currentWrite = some msg) (hqueued : s'.queued = s.queued)
      (h : Offered wire s none msg res s') : Rounds wire s s' (verdict res)
  | entry {e res} (hcurrent : s.out.currentWrite = none) (hqueued : s.queued = e :: s'.queued)
      (h : Offered wire s (some e) e.msg res s') : Rounds wire s s' (verdict res)

/-- **A round does one of the things `Rounds` lists.** -/
theorem rounds_round (wire : Wire M) (s : Sender L M) :
    Rounds wire s (s.round wire) (s.out.flushRound wire).2 := by
  obtain ⟨⟨sock, outQueue, currentWrite⟩, log⟩ := s
  have htakes := Outgoing.takes_takeMsg ⟨sock, outQueue, currentWrite⟩
  unfold round Outgoing.round Outgoing.flushRound
  generalize Outgoing.takeMsg ⟨sock, outQueue, currentWrite⟩ = taken at htakes
  obtain ⟨msg, o⟩ := taken
  cases htakes with
  | nothing hcurrent hentries =>
      exact .idle hcurrent hentries rfl (by simp [hentries])
  | @kept msg hcurrent =>
      obtain rfl : currentWrite = some msg := hcurrent
      have hsends := Outgoing.sends_sendMsg wire (o := ⟨sock, outQueue, none⟩) rfl msg
      have hqueue := hsends.outQueue
      rw [hsends.out]
      refine .kept rfl (congrArg SendQueue.entries hqueue) ⟨hsends.currentWrite,
        hsends.offered, congrArg SendQueue.conf hqueue, ?_⟩
      simp [queued, hqueue]
  | @entry e q hcurrent hentries hconf =>
      obtain rfl : currentWrite = none := hcurrent
      have hsends := Outgoing.sends_sendMsg wire (o := ⟨sock, q, none⟩) rfl e.msg
      have hqueue := hsends.outQueue
      rw [hsends.out]
      refine .entry rfl ?_ ⟨hsends.currentWrite, hsends.offered,
        (congrArg SendQueue.conf hqueue).trans hconf, ?_⟩
      · rw [queued, queued, hqueue, hentries]
      · simp [hentries, queued, hqueue]

/-! ### What the phases do to the queue -/

theorem queued_dropExpired (s : Sender L M) (now : Instant) :
    s.queued = (s.dropExpired now).queued ++ s.out.outQueue.expired now :=
  (s.out.outQueue.dropExpired_entries now).1

theorem queued_push (s : Sender L M) (e : Entry M) :
    Same Entry.priority (s.push e).queued (s.queued ++ [e]) :=
  s.out.outQueue.entries_push e.time e.msg e.priority

end Sender

/-! ## Where the messages are -/

/-- The messages that were offered and not kept, in order. -/
def Log.settled (wire : Wire M) (log : Log M) : List M :=
  (log.offers.filter fun offer => fate wire offer ≠ .kept).map Prod.fst

/-- Every message is in exactly one place, and the operating system was offered
them in the order they were dequeued. -/
structure Sender.Conserved (wire : Wire M) (conf : SocketConfig L) (s : Sender L M) : Prop where
  /-- Sent, parked, queued, expired, or given up. -/
  onePlace : (s.log.enqueued.map Entry.msg).Perm
    (s.log.withFate wire .accepted ++ s.out.currentWrite.toList ++ s.queued.map Entry.msg ++
      s.log.dropped.map Entry.msg ++ s.log.withFate wire .lost)
  droppable : ∀ e ∈ s.log.dropped, conf.msgDropPriority ≤ e.priority
  /-- The log is what the operating system has seen. -/
  offered : s.out.sock.offered =
    s.log.offers.map fun offer => ⟨wire.data offer.1, wire.peer offer.1, offer.2⟩
  inOrder : s.log.settled wire ++ s.out.currentWrite.toList = s.log.dequeued.map Entry.msg
  /-- What was kept is the very next datagram offered. -/
  retried : s.log.offers.IsChain fun a b => fate wire a = .kept → b.1 = a.1
  parked : ∀ a ∈ s.log.offers.getLast?, fate wire a = .kept → s.out.currentWrite = some a.1

namespace Log

variable {wire : Wire M} {log : Log M}

theorem settled_perm (wire : Wire M) (log : Log M) :
    (log.settled wire).Perm (log.withFate wire .accepted ++ log.withFate wire .lost) := by
  have hsplit : ∀ offers : List (M × IoResult Nat),
      (offers.filter fun offer => fate wire offer ≠ .kept).Perm
        ((offers.filter fun offer => fate wire offer = .accepted) ++
          offers.filter fun offer => fate wire offer = .lost) := by
    intro offers
    induction offers with
    | nil => exact .nil
    | cons offer offers ih =>
        cases hfate : fate wire offer with
        | accepted => simpa [hfate] using ih.cons offer
        | kept => simpa [hfate] using ih
        | lost =>
            have hmiddle := (ih.cons offer).trans List.perm_middle.symm
            simpa [hfate] using hmiddle
  simpa only [settled, withFate, List.map_append] using (hsplit log.offers).map Prod.fst

end Log

namespace Sender

variable {wire : Wire M} {conf : SocketConfig L} {s : Sender L M}

/-- The accounts behind `Conserved`: entry by entry, with those taken off the
queue in one list. -/
structure Accounts (wire : Wire M) (conf : SocketConfig L) (s : Sender L M) : Prop where
  conf_eq : s.out.outQueue.conf = conf
  perm : s.log.enqueued.Perm (s.log.dequeued ++ s.queued ++ s.log.dropped)
  droppable : ∀ e ∈ s.log.dropped, conf.msgDropPriority ≤ e.priority
  offered : s.out.sock.offered =
    s.log.offers.map fun offer => ⟨wire.data offer.1, wire.peer offer.1, offer.2⟩
  inOrder : s.log.settled wire ++ s.out.currentWrite.toList = s.log.dequeued.map Entry.msg
  retried : s.log.offers.IsChain fun a b => fate wire a = .kept → b.1 = a.1
  parked : ∀ a ∈ s.log.offers.getLast?, fate wire a = .kept → s.out.currentWrite = some a.1

theorem Accounts.conserved (h : Accounts wire conf s) : s.Conserved wire conf where
  onePlace := by
    have hdequeued : (s.log.dequeued.map Entry.msg).Perm
        (s.log.withFate wire .accepted ++ s.log.withFate wire .lost ++
          s.out.currentWrite.toList) := by
      rw [← h.inOrder]
      exact (s.log.settled_perm wire).append_right _
    have hperm := h.perm.map Entry.msg
    rw [List.map_append, List.map_append] at hperm
    refine (hperm.trans ((hdequeued.append_right _).append_right _)).trans ?_
    generalize s.log.withFate wire .accepted = sent
    generalize s.log.withFate wire .lost = lost
    simp only [List.append_assoc]
    apply List.Perm.append_left
    exact List.perm_append_comm.trans (by simp)
  droppable := h.droppable
  offered := h.offered
  inOrder := h.inOrder
  retried := h.retried
  parked := h.parked

theorem accounts_start (sock : UdpSocket) (hsock : sock.offered = []) :
    Accounts wire conf ⟨⟨sock, SendQueue.new conf, none⟩, Log.empty⟩ where
  conf_eq := rfl
  perm := by simp [Log.empty, Log.dequeued, queued]
  droppable := by simp [Log.empty]
  offered := hsock
  inOrder := rfl
  retried := .nil
  parked := by simp [Log.empty, Log.offers]

private theorem Accounts.dropExpired (h : Accounts wire conf s) (now : Instant) :
    Accounts wire conf (s.dropExpired now) where
  conf_eq := (s.out.outQueue.dropExpired_entries now).2.trans h.conf_eq
  perm := accounts_drop h.perm (s.queued_dropExpired now)
  droppable := by
    intro e he
    rcases List.mem_append.mp he with he | he
    · exact h.droppable e he
    · rw [← h.conf_eq]
      exact s.out.outQueue.expired_droppable now e he
  offered := h.offered
  inOrder := h.inOrder
  retried := h.retried
  parked := h.parked

private theorem Accounts.push (h : Accounts wire conf s) (e : Entry M) :
    Accounts wire conf (s.push e) where
  conf_eq := h.conf_eq
  perm := accounts_add h.perm (s.queued_push e).perm
  droppable := h.droppable
  offered := h.offered
  inOrder := h.inOrder
  retried := h.retried
  parked := h.parked

/-- What an offer adds to the log. -/
private theorem Offered.logged {taken : Option (Entry M)} {msg : M} {res : IoResult Nat}
    {s' : Sender L M} (h : Offered wire s taken msg res s') :
    s'.log.enqueued = s.log.enqueued ∧ s'.log.dropped = s.log.dropped ∧
      s'.log.dequeued = s.log.dequeued ++ taken.toList ∧
      s'.log.offers = s.log.offers ++ [(msg, res)] := by
  rw [h.log]
  refine ⟨rfl, rfl, ?_, ?_⟩
  · cases taken <;> simp [Log.dequeued]
  · simp [Log.offers]

/-- An offer keeps the accounts, whether the message was parked before or has
just been taken off the queue. -/
private theorem Accounts.offer {taken : Option (Entry M)} {msg : M} {res : IoResult Nat}
    {s' : Sender L M} (h : Accounts wire conf s) (hoffer : Offered wire s taken msg res s')
    (hmsg : s.out.currentWrite.toList ++ taken.toList.map Entry.msg = [msg])
    (hqueued : s.queued = taken.toList ++ s'.queued) : Accounts wire conf s' := by
  obtain ⟨henqueued, hdropped, hdequeued, hoffers⟩ := hoffer.logged
  refine ⟨hoffer.conf.trans h.conf_eq, ?_, ?_, ?_, ?_, ?_, ?_⟩
  · rw [henqueued, hdropped, hdequeued]
    have hperm := h.perm
    rwa [hqueued, ← List.append_assoc] at hperm
  · rw [hdropped]
    exact h.droppable
  · rw [hoffer.offered, h.offered, hoffers, List.map_append, List.map_singleton]
  · rw [hdequeued, List.map_append, ← h.inOrder, List.append_assoc, hmsg, hoffer.currentWrite]
    by_cases hkept : fate wire (msg, res) = .kept <;> simp [Log.settled, hoffers, hkept]
  · rw [hoffers, List.isChain_append]
    refine ⟨h.retried, List.IsChain.singleton _, ?_⟩
    intro a ha b hb hkept
    obtain rfl : (msg, res) = b := by simpa using hb
    rw [h.parked a ha hkept] at hmsg
    simp only [Option.toList_some, List.singleton_append, List.cons.injEq] at hmsg
    exact hmsg.1.symm
  · intro a ha hkept
    rw [hoffers, List.getLast?_concat, Option.mem_some_iff] at ha
    subst ha
    rw [hoffer.currentWrite, if_pos hkept]

private theorem Accounts.round (h : Accounts wire conf s) : Accounts wire conf (s.round wire) := by
  have hrounds := s.rounds_round wire
  generalize (s.out.flushRound wire).2 = out at hrounds
  generalize s.round wire = s' at hrounds
  cases hrounds with
  | idle hcurrent hqueued hout hlog =>
      have hsame : s'.queued = s.queued := by rw [queued, hout, queued]
      refine ⟨?_, ?_, ?_, ?_, ?_, ?_, ?_⟩
      · rw [hout]
        exact h.conf_eq
      · rw [hsame, hlog]
        simpa [Log.dequeued] using h.perm
      · rw [hlog]
        exact h.droppable
      · rw [hout, hlog]
        simpa [Log.offers] using h.offered
      · rw [hout, hlog]
        simpa [Log.settled, Log.offers, Log.dequeued] using h.inOrder
      · rw [hlog]
        simpa [Log.offers] using h.retried
      · rw [hout, hlog]
        simpa [Log.offers] using h.parked
  | kept hcurrent hqueued hoffer =>
      apply h.offer hoffer
      · rw [hcurrent]
        rfl
      · rw [hqueued]
        rfl
  | entry hcurrent hqueued hoffer =>
      apply h.offer hoffer
      · rw [hcurrent]
        rfl
      · exact hqueued

theorem Accounts.write (h : Accounts wire conf s) (clock : Clock)
    (msg : Option (Res L M × Priority)) : Accounts wire conf (s.write wire clock msg) :=
  write_rule h (fun h => h.dropExpired _) (fun _ _ _ h => h.push _) fun _ h => h.round

/-! ### Giving up -/

/-- A call gives up one datagram when it returns an error of the socket, and
otherwise none. -/
def GivesUp (wire : Wire M) (before after : Log M) (res : Res L Bool) : Prop :=
  ((∃ e, res = .error (.io e)) →
    ∃ msg, after.withFate wire .lost = before.withFate wire .lost ++ [msg]) ∧
  ((∀ e, res ≠ .error (.io e)) → after.withFate wire .lost = before.withFate wire .lost)

private theorem Offered.lost {taken : Option (Entry M)} {msg : M} {res : IoResult Nat}
    {s' : Sender L M} (h : Offered wire s taken msg res s') :
    s'.log.withFate wire .lost =
      s.log.withFate wire .lost ++ if fate wire (msg, res) = .lost then [msg] else [] := by
  obtain ⟨-, -, -, hoffers⟩ := h.logged
  by_cases hlost : fate wire (msg, res) = .lost <;> simp [Log.withFate, hoffers, hlost]

/-- A round that leaves with an error has lost a message, and no other has. -/
private theorem round_lost (wire : Wire M) (s : Sender L M) :
    match (s.out.flushRound wire).2 with
    | some (.error e) => (∃ io, e = .io io) ∧ ∃ msg,
        (s.round wire).log.withFate wire .lost = s.log.withFate wire .lost ++ [msg]
    | _ => (s.round wire).log.withFate wire .lost = s.log.withFate wire .lost := by
  have hoffered : ∀ (taken : Option (Entry M)) (msg : M) (res : IoResult Nat) (s' : Sender L M),
      Offered wire s taken msg res s' →
        match (verdict res : Option (Res L Bool)) with
        | some (.error e) => (∃ io, e = .io io) ∧
            ∃ msg, s'.log.withFate wire .lost = s.log.withFate wire .lost ++ [msg]
        | _ => s'.log.withFate wire .lost = s.log.withFate wire .lost := by
    intro taken msg res s' h
    have hlost := h.lost
    cases res with
    | ok n =>
        have hfate : fate wire (msg, .ok n) ≠ .lost := by
          simp only [fate]
          split <;> simp
        simpa [verdict, hfate] using hlost
    | error e =>
        cases he : e.isRetry with
        | true => simpa [verdict, fate, he] using hlost
        | false =>
            simp only [fate, he, Bool.false_eq_true, if_false, if_true] at hlost
            simp only [verdict, he, Bool.false_eq_true, if_false]
            exact ⟨⟨e, rfl⟩, msg, hlost⟩
  have hrounds := s.rounds_round wire
  generalize (s.out.flushRound wire).2 = out at hrounds
  generalize s.round wire = s' at hrounds
  cases hrounds with
  | idle _ _ _ hlog => simp [hlog, Log.withFate, Log.offers]
  | kept _ _ h => exact hoffered _ _ _ _ h
  | entry _ _ h => exact hoffered _ _ _ _ h

private theorem flush_givesUp (wire : Wire M) (s : Sender L M) :
    GivesUp wire s.log (s.flush wire).log (s.out.flush wire).1 := by
  refine flush_rule
    (P := fun t => t.log.withFate wire .lost = s.log.withFate wire .lost)
    (Q := fun r t => GivesUp wire s.log t.log r) ?_ ?_ rfl
  · intro t ht hout
    have hround := t.round_lost wire
    rw [hout] at hround
    exact hround.trans ht
  · intro t r ht hout
    have hround := t.round_lost wire
    rw [hout] at hround
    rcases r with e | b
    · obtain ⟨⟨io, rfl⟩, msg, hlost⟩ := hround
      rw [ht] at hlost
      exact ⟨fun _ => ⟨msg, hlost⟩, fun hno => absurd rfl (hno io)⟩
    · exact ⟨nofun, fun _ => hround.trans ht⟩

private theorem write_givesUp (wire : Wire M) (s : Sender L M) (clock : Clock)
    {msg : Option (Res L M × Priority)} (hmsg : ∀ e p, msg ≠ some (.error (.io e), p)) :
    GivesUp wire s.log (s.write wire clock msg).log (s.out.write wire clock msg).1 := by
  rcases msg with _ | ⟨e | m, priority⟩
  · exact (s.dropExpired clock.dropExpired).flush_givesUp wire
  · refine ⟨?_, fun _ => rfl⟩
    rintro ⟨io, hio⟩
    obtain rfl : e = .io io := Except.error.inj hio
    exact absurd rfl (hmsg io priority)
  · exact ((s.dropExpired clock.dropExpired).push ⟨priority, clock.push, m⟩).flush_givesUp wire

end Sender

/-! ## Sockets -/

/-- A call on a socket that is written to with `write`.  Each call may send a
type of its own. -/
inductive WriteOp (L : Crates) (N : Type) : Type 1
  | write (T : Type) [Serde L T] (clock : Clock) (nonce : L.Nonce) (note : N)
      (msg : Option (T × Priority))
  | setEncryptCtx (encCtx : EncryptContext L)

/-- A call on a socket that is written to with `write_to`. -/
inductive WriteToOp (L : Crates) (N : Type) : Type 1
  | writeTo (T : Type) [Serde L T] (clock : Clock) (nonce : L.Nonce) (note : N)
      (msg : Option (T × SocketAddr × Priority))
  | setEncryptCtx (encCtx : EncryptContext L)

/-- A socket, and what has become of the messages of one way of sending. -/
structure Socket (L : Crates) (N M : Type) where
  inner : Inner L N
  log : Log M

namespace Socket

variable {N : Type}

def start (recvResults : List (IoResult (Bytes × SocketAddr))) (sendResults : List SendAnswer)
    (conf : SocketConfig L) : Socket L N M where
  inner := Inner.new (UdpSocket.scripted recvResults sendResults) conf
  log := Log.empty

/-- One way of sending of the socket, with its history. -/
def sender (path : WritePath L N M) (s : Socket L N M) : Sender L M where
  out := path.outgoing s.inner
  log := s.log

def writeVia (path : WritePath L N M) (s : Socket L N M) (clock : Clock)
    (msg : Option (Res L M × Priority)) : Socket L N M :=
  let sender := (s.sender path).write path.wire clock msg
  { inner := path.setOutgoing s.inner sender.out, log := sender.log }

/-- **The socket is that of the code.** -/
theorem writeVia_inner (path : WritePath L N M) (s : Socket L N M) (clock : Clock)
    (msg : Option (Res L M × Priority)) :
    (s.writeVia path clock msg).inner = (s.inner.writeVia path clock msg).2 := by
  simp only [writeVia, Sender.write_out, Inner.writeVia]
  rfl

theorem sender_writeVia (path : WritePath L N M) (s : Socket L N M) (clock : Clock)
    (msg : Option (Res L M × Priority)) :
    (s.writeVia path clock msg).sender path = (s.sender path).write path.wire clock msg := by
  simp only [sender, writeVia, path.outgoing_set]

def setEncryptCtx (s : Socket L N M) (encCtx : EncryptContext L) : Socket L N M :=
  { s with inner := s.inner.setEncryptCtx encCtx }

theorem sender_setEncryptCtx (path : WritePath L N M) (s : Socket L N M)
    (encCtx : EncryptContext L) : (s.setEncryptCtx encCtx).sender path = s.sender path := by
  have hout := path.outgoing_encCtx s.inner encCtx
  simp only [sender, setEncryptCtx, Inner.setEncryptCtx, hout]

/-- A call of `write`. -/
def step (s : Socket L N (Frame N)) : WriteOp L N → Socket L N (Frame N)
  | @WriteOp.write _ _ _ _ clock nonce note msg =>
      s.writeVia Inner.sendPath clock (s.inner.encrypted nonce note msg)
  | .setEncryptCtx encCtx => s.setEncryptCtx encCtx

/-- A call of `write_to`. -/
def stepTo (s : Socket L N (Frame N × SocketAddr)) :
    WriteToOp L N → Socket L N (Frame N × SocketAddr)
  | @WriteToOp.writeTo _ _ _ _ clock nonce note msg =>
      s.writeVia Inner.sendToPath clock (s.inner.encryptedTo nonce note msg)
  | .setEncryptCtx encCtx => s.setEncryptCtx encCtx

/-- A call gives up a datagram only when it returns an error of the socket. -/
def GivesUp (s : Socket L N (Frame N)) : WriteOp L N → Prop
  | @WriteOp.write _ _ T _ clock nonce note msg =>
      Sender.GivesUp (Inner.sendPath (L := L)).wire s.log
        (s.step (.write T clock nonce note msg)).log
        (s.inner.write clock nonce note msg).1
  | .setEncryptCtx _ => True

def GivesUpTo (s : Socket L N (Frame N × SocketAddr)) : WriteToOp L N → Prop
  | @WriteToOp.writeTo _ _ T _ clock nonce note msg =>
      Sender.GivesUp (Inner.sendToPath (L := L)).wire s.log
        (s.stepTo (.writeTo T clock nonce note msg)).log
        (s.inner.writeTo clock nonce note msg).1
  | .setEncryptCtx _ => True

variable {s : Socket L N (Frame N)} {s' : Socket L N (Frame N × SocketAddr)}
  {conf : SocketConfig L}

private theorem map_encrypt_ne_io {T : Type} [Serde L T] (ctx : EncryptContext L)
    (nonce : L.Nonce) (m : T) (pack : Bytes → M) (e : IoError) :
    (ctx.encrypt nonce m).map pack ≠ .error (.io e) := by
  intro h
  cases hm : ctx.encrypt nonce m with
  | error e' =>
      rw [hm, Except.map, Except.error.injEq] at h
      exact ctx.encrypt_ne_io nonce m e (h ▸ hm)
  | ok buf => simp [hm, Except.map] at h

private theorem encrypted_ne_io {T : Type} [Serde L T] (i : Inner L N) (nonce : L.Nonce) (note : N)
    (msg : Option (T × Priority)) (e : IoError) (p : Priority) :
    i.encrypted nonce note msg ≠ some (.error (.io e), p) := by
  rcases msg with _ | ⟨m, priority⟩
  · exact nofun
  · intro h
    exact map_encrypt_ne_io i.encCtx nonce m _ e (Prod.mk.inj (Option.some.inj h)).1

private theorem encryptedTo_ne_io {T : Type} [Serde L T] (i : Inner L N) (nonce : L.Nonce)
    (note : N) (msg : Option (T × SocketAddr × Priority)) (e : IoError) (p : Priority) :
    i.encryptedTo nonce note msg ≠ some (.error (.io e), p) := by
  rcases msg with _ | ⟨m, peer, priority⟩
  · exact nofun
  · intro h
    exact map_encrypt_ne_io i.encCtx nonce m _ e (Prod.mk.inj (Option.some.inj h)).1

private theorem givesUp (s : Socket L N (Frame N)) (op : WriteOp L N) : s.GivesUp op := by
  cases op with
  | write T clock nonce note msg =>
      exact (s.sender Inner.sendPath).write_givesUp _ clock (encrypted_ne_io s.inner nonce note msg)
  | setEncryptCtx encCtx => trivial

private theorem givesUpTo (s : Socket L N (Frame N × SocketAddr)) (op : WriteToOp L N) :
    s.GivesUpTo op := by
  cases op with
  | writeTo T clock nonce note msg =>
      exact (s.sender Inner.sendToPath).write_givesUp _ clock
        (encryptedTo_ne_io s.inner nonce note msg)
  | setEncryptCtx encCtx => trivial

end Socket

/-- **Every message sent over UDP is accounted for.**  On a socket that is
written to with `write` only, or with `write_to` only, in every state of every
run: every message that was pushed has been sent, is parked or queued, has
expired or was given up, exactly one of them; the operating system was offered
the messages in the order they were dequeued, one that it refused at once
again; and a call gives up one datagram when it returns an error of the socket,
and otherwise none. -/
theorem sends_conserved {N : Type} (recvResults : List (IoResult (Bytes × SocketAddr)))
    (sendResults : List SendAnswer) (conf : SocketConfig L) (ops : List (WriteOp L N))
    (opsTo : List (WriteToOp L N)) :
    let fresh : Socket L N (Frame N) := .start recvResults sendResults conf
    let freshTo : Socket L N (Frame N × SocketAddr) := .start recvResults sendResults conf
    (Always Socket.step (fun s =>
        (s.sender Inner.sendPath).Conserved (Inner.sendPath (L := L)).wire conf) fresh ops ∧
      Each Socket.step Socket.GivesUp fresh ops) ∧
    (Always Socket.stepTo (fun s =>
        (s.sender Inner.sendToPath).Conserved (Inner.sendToPath (L := L)).wire conf) freshTo opsTo ∧
      Each Socket.stepTo Socket.GivesUpTo freshTo opsTo) := by
  intro fresh freshTo
  refine ⟨⟨?_, ?_⟩, ?_, ?_⟩
  · refine Always.mono (fun s h => Sender.Accounts.conserved h) (always_of_step
      (Sender.accounts_start (UdpSocket.scripted recvResults sendResults) rfl) ?_)
    intro s op h
    cases op with
    | write T clock nonce note msg =>
        rw [Socket.step, Socket.sender_writeVia]
        exact h.write clock _
    | setEncryptCtx encCtx =>
        rw [Socket.step, Socket.sender_setEncryptCtx]
        exact h
  · exact (always_of_step (P := fun _ => True) trivial fun _ _ _ => trivial).each
      fun s op _ => s.givesUp op
  · refine Always.mono (fun s h => Sender.Accounts.conserved h) (always_of_step
      (Sender.accounts_start (UdpSocket.scripted recvResults sendResults) rfl) ?_)
    intro s op h
    cases op with
    | writeTo T clock nonce note msg =>
        rw [Socket.stepTo, Socket.sender_writeVia]
        exact h.write clock _
    | setEncryptCtx encCtx =>
        rw [Socket.stepTo, Socket.sender_setEncryptCtx]
        exact h
  · exact (always_of_step (P := fun _ => True) trivial fun _ _ _ => trivial).each
      fun s op _ => s.givesUpTo op

end SocketCollection.Udp
