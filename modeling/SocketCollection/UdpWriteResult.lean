import SocketCollection.Backlog
import SocketCollection.UdpReceiver
import SocketCollection.UdpSender
import SocketCollection.Waiting

/-!
# What `write` tells of its message: UDP

The flush of either way of sending as a loop that hands over a backlog: what waits
is the message in `current_write` and the out queue behind it, and a datagram is
handed over when the operating system takes all of it.

## Main results

* `Inner.writeVia_handed`: what a call hands over is what the operating system accepts.
* `Inner.speaksTrue_iff`: when the result of a call is true of its message.
* `UdpNumbered.each_speaksTrue`: the same for every call of a run.
-/

namespace SocketCollection.Udp

open Runs

variable {L : Crates} {G M : Type}

/-- All of the datagram was accepted. -/
def Offer.accepted (offer : Offer) : Bool :=
  match offer.result with
  | .ok bytesTxd => !decide (bytesTxd < offer.data.length)
  | .error _ => false

namespace Outgoing

variable (wire : Wire M) (label : M → G)

/-- The messages that wait, in the order in which they will be sent. -/
def waiting (o : Outgoing L M) : List M := o.outQueue.waiting o.currentWrite

/-- A message, as an item of a backlog. -/
def item (msg : M) : G × Bytes := (label msg, wire.data msg)

/-- What was accepted of a message, by the answer: a part of a datagram does not count. -/
def acceptedBy (msg : M) (sendRes : IoResult Nat) : List (G × Bytes) :=
  match sendRes with
  | .ok bytesTxd => if bytesTxd < (wire.data msg).length then [] else [item wire label msg]
  | .error _ => []

/-- What the operating system accepts in the round that begins in this state. -/
def handed (o : Outgoing L M) : List (G × Bytes) :=
  match o.takeMsg with
  | (none, _) => []
  | (some msg, o) => acceptedBy wire label msg (o.sock.send (wire.data msg) (wire.peer msg)).1

/-- How many of these messages the operating system will accept, by its answers to
come: one of which it takes a part is offered again. -/
def acceptsWhole (o : Outgoing L M) (msgs : List M) : Nat :=
  Backlog.takenWhole (fun answer size => (answer.result size).toOption) (fun size _ => size)
    (msgs.map fun msg => (wire.data msg).length) o.sock.sendResults

/-- The flush, as a loop that hands over what waits. -/
def backlog : Backlog (Outgoing L M) (Res L Bool) G UInt8 where
  loop := flushLoop wire
  waiting o := o.waiting.map (item wire label)
  handed := handed wire label
  count o := o.acceptsWhole wire o.waiting
  done := .ok true
  stuck := .ok false
  done_ne_stuck := SendQueue.done_ne_stuck

theorem mem_labels {o : Outgoing L M} {tag : G} :
    tag ∈ (backlog wire label).labels o ↔ ∃ msg ∈ o.waiting, label msg = tag := by
  have hwaiting : (backlog wire label).waiting o = o.waiting.map (item wire label) := rfl
  exact SendQueue.mem_labels hwaiting

/-- Sending what was taken is a turn of the loop. -/
private theorem turn_sendMsg {o j : Outgoing L M} {msg : M} (hcurrent : j.currentWrite = none)
    (hsock : o.sock = j.sock) (hwaiting : o.waiting = msg :: j.waiting)
    (hround : o.flushRound wire = j.sendMsg wire msg)
    (hhanded : o.handed wire label =
      acceptedBy wire label msg (j.sock.send (wire.data msg) (wire.peer msg)).1) :
    (backlog wire label).Turn o := by
  obtain ⟨⟨received, offered, recvResults, sendResults⟩, outQueue, currentWrite⟩ := j
  obtain rfl : currentWrite = none := hcurrent
  have hitems : (backlog wire label).waiting o =
      item wire label msg :: (outQueue.waiting none).map (item wire label) :=
    congrArg (List.map (item wire label)) hwaiting
  have hcount : (backlog wire label).count o = Backlog.takenWhole
      (fun answer size => (SendAnswer.result size answer).toOption) (fun size _ => size)
      ((wire.data msg).length :: (outQueue.waiting none).map fun msg => (wire.data msg).length)
      sendResults := by
    show o.acceptsWhole wire o.waiting = _
    rw [acceptsWhole, hwaiting, hsock]
    rfl
  have hne : (backlog wire label).waiting o ≠ [] := by
    rw [hitems]
    exact List.cons_ne_nil _ _
  replace hround : (backlog wire label).loop.body o = _ := hround
  replace hhanded : (backlog wire label).handed o = _ := hhanded
  cases sendResults with
  | nil => exact .refused hround hne hitems.symm hhanded hcount
  | cons answer rest =>
      have hsend : UdpSocket.send ⟨received, offered, recvResults, answer :: rest⟩ (wire.data msg)
          (wire.peer msg) = (answer.result (wire.data msg).length,
            ⟨received, offered ++ [⟨wire.data msg, wire.peer msg,
              answer.result (wire.data msg).length⟩], recvResults, rest⟩) := rfl
      rw [hsend] at hhanded
      rw [Backlog.takenWhole] at hcount
      simp only [sendMsg, hsend] at hround
      cases hres : answer.result (wire.data msg).length with
      | error e =>
          rw [hres] at hhanded hcount
          cases he : e.isRetry with
          | true =>
              simp only [hres, handleSendRes, he, if_true] at hround
              exact .refused hround hne hitems.symm hhanded hcount
          | false =>
              simp only [hres, handleSendRes, he, Bool.false_eq_true, if_false] at hround
              refine .failed hround SendQueue.error_ne_ok SendQueue.error_ne_ok ?_
              rw [Backlog.labels, Backlog.labels, hitems]
              exact List.subset_cons_self _ _
      | ok n =>
          rw [hres] at hhanded hcount
          replace hcount : _ = if n < (wire.data msg).length then _ else _ := hcount
          by_cases hlt : n < (wire.data msg).length
          · simp only [hres, handleSendRes, hlt, if_true] at hround
            rw [if_pos hlt] at hcount
            rw [acceptedBy, if_pos hlt] at hhanded
            refine .partly hround hitems rfl ?_ ?_ ?_ hcount
            · rw [ne_eq, ← List.length_eq_zero_iff]
              omega
            · simp [hhanded]
            · simp [hhanded]
          · simp only [hres, handleSendRes, hlt, if_false] at hround
            rw [if_neg hlt] at hcount
            rw [acceptedBy, if_neg hlt] at hhanded
            exact .whole hround hitems hhanded hcount

/-- **Every round is a turn of the loop.** -/
theorem turn (o : Outgoing L M) : (backlog wire label).Turn o := by
  have htakes := o.takes_takeMsg
  have hround : o.flushRound wire = match o.takeMsg with
      | (none, o) => (o, some (.ok true))
      | (some msg, o) => o.sendMsg wire msg := rfl
  have hhanded : o.handed wire label = match o.takeMsg with
      | (none, _) => []
      | (some msg, o) =>
          acceptedBy wire label msg (o.sock.send (wire.data msg) (wire.peer msg)).1 := rfl
  generalize o.takeMsg = taken at htakes hround hhanded
  obtain ⟨msg, j⟩ := taken
  cases htakes with
  | nothing hcurrent hentries =>
      have hwaiting : o.waiting = [] := by
        rw [waiting, hcurrent]
        exact SendQueue.waiting_nil hentries
      have hitems : (backlog wire label).waiting o = [] :=
        congrArg (List.map (item wire label)) hwaiting
      have hcount : (backlog wire label).count o = 0 := by
        show o.acceptsWhole wire o.waiting = 0
        rw [hwaiting]
        exact Backlog.takenWhole_nil _ _ _
      exact .empty hround hitems hitems hhanded hcount
  | @kept msg hcurrent =>
      refine turn_sendMsg wire label (j := { o with currentWrite := none }) rfl rfl ?_ hround
        hhanded
      rw [waiting, hcurrent]
      rfl
  | @entry e q hcurrent hentries hconf =>
      refine turn_sendMsg wire label (j := { o with outQueue := q }) hcurrent rfl ?_ hround hhanded
      rw [waiting, waiting, hcurrent]
      exact SendQueue.waiting_cons hentries

/-! ### What the operating system has accepted -/

private theorem sendMsg_sock (o : Outgoing L M) (msg : M) :
    (o.sendMsg wire msg).1.sock = (o.sock.send (wire.data msg) (wire.peer msg)).2 := by
  simp only [sendMsg]
  split <;> rfl

private theorem flushRound_handed (o : Outgoing L M) :
    ∃ new, (o.flushRound wire).1.sock.offered = o.sock.offered ++ new ∧
      (new.filter Offer.accepted).map Offer.data = (o.handed wire label).map Prod.snd := by
  have hsock := o.takeMsg_sock
  have hround : o.flushRound wire = match o.takeMsg with
      | (none, o) => (o, some (.ok true))
      | (some msg, o) => o.sendMsg wire msg := rfl
  have hhanded : o.handed wire label = match o.takeMsg with
      | (none, _) => []
      | (some msg, o) =>
          acceptedBy wire label msg (o.sock.send (wire.data msg) (wire.peer msg)).1 := rfl
  rw [hround, hhanded]
  generalize o.takeMsg = taken at hsock
  obtain ⟨_ | msg, j⟩ := taken
  · exact ⟨[], by simp [← hsock], rfl⟩
  · replace hsock : j.sock = o.sock := hsock
    have hsend := j.sock.send_offered (wire.data msg) (wire.peer msg)
    refine ⟨[⟨wire.data msg, wire.peer msg, (j.sock.send (wire.data msg) (wire.peer msg)).1⟩],
      ?_, ?_⟩
    · show (j.sendMsg wire msg).1.sock.offered = _
      rw [sendMsg_sock, hsend, hsock]
    · dsimp only
      rcases hres : (j.sock.send (wire.data msg) (wire.peer msg)).1 with e | n
      · rfl
      · by_cases hlt : n < (wire.data msg).length <;> simp [Offer.accepted, acceptedBy, hlt, item]

private theorem flush_handed (o : Outgoing L M) :
    ∃ new, ((flushLoop wire).exec o).1.sock.offered = o.sock.offered ++ new ∧
      (new.filter Offer.accepted).map Offer.data =
        ((flushLoop wire).history (handed wire label) o).map Prod.snd := by
  have hstart : ∃ new, o.sock.offered = o.sock.offered ++ new ∧
      (new.filter Offer.accepted).map Offer.data = ([] : List (G × Bytes)).map Prod.snd :=
    ⟨[], (List.append_nil _).symm, rfl⟩
  refine (flushLoop wire).history_invariant (handed wire label)
    (fun j past => ∃ new, j.sock.offered = o.sock.offered ++ new ∧
      (new.filter Offer.accepted).map Offer.data = past.map Prod.snd) ?_ hstart
  rintro j past ⟨new, hoffered, hnew⟩
  obtain ⟨more, hoffered', hmore⟩ := flushRound_handed wire label j
  refine ⟨new ++ more, ?_, ?_⟩
  · show (j.flushRound wire).1.sock.offered = _
    rw [hoffered', hoffered, List.append_assoc]
  · rw [List.filter_append, List.map_append, List.map_append, hnew, hmore]

/-! ### Results -/

/-- No answer to come is a hard error. -/
def Soft (o : Outgoing L M) : Prop :=
  ∀ e, SendAnswer.error e ∈ o.sock.sendResults → e.isRetry = true

private theorem send_soft {s : UdpSocket}
    (hsoft : ∀ e, SendAnswer.error e ∈ s.sendResults → e.isRetry = true) (data : Bytes)
    (peer : Option SocketAddr) :
    (∀ e, SendAnswer.error e ∈ (s.send data peer).2.sendResults → e.isRetry = true) ∧
      ∀ e, (s.send data peer).1 = .error e → e.isRetry = true := by
  obtain ⟨received, offered, recvResults, sendResults⟩ := s
  rcases sendResults with _ | ⟨answer, rest⟩
  · refine ⟨hsoft, fun e he => ?_⟩
    obtain rfl : IoError.wouldBlock = e := Except.error.inj he
    rfl
  · refine ⟨fun e he => hsoft e (List.mem_cons_of_mem _ he), fun e he => ?_⟩
    cases answer with
    | whole => cases he
    | upTo n => cases he
    | error e' =>
        obtain rfl : e' = e := Except.error.inj he
        exact hsoft e' List.mem_cons_self

variable {wire label}

private theorem Soft.flushRound (wire : Wire M) {o : Outgoing L M} (hsoft : o.Soft) :
    (o.flushRound wire).1.Soft ∧
      ∀ res, (o.flushRound wire).2 = some res → res = .ok true ∨ res = .ok false := by
  have hsock := o.takeMsg_sock
  unfold Outgoing.flushRound
  generalize o.takeMsg = taken at hsock
  obtain ⟨_ | msg, j⟩ := taken
  · replace hsock : j.sock = o.sock := hsock
    refine ⟨?_, fun res hres => .inl (Option.some.inj hres).symm⟩
    show ∀ e, SendAnswer.error e ∈ j.sock.sendResults → e.isRetry = true
    rw [hsock]
    exact hsoft
  · replace hsock : j.sock = o.sock := hsock
    have hsoft' : j.Soft := by
      show ∀ e, SendAnswer.error e ∈ j.sock.sendResults → e.isRetry = true
      rw [hsock]
      exact hsoft
    obtain ⟨hnext, hretry⟩ := send_soft hsoft' (wire.data msg) (wire.peer msg)
    constructor
    · show ∀ e, SendAnswer.error e ∈ (j.sendMsg wire msg).1.sock.sendResults → e.isRetry = true
      rw [sendMsg_sock]
      exact hnext
    · show ∀ res, (j.sendMsg wire msg).2 = some res → res = .ok true ∨ res = .ok false
      intro res hres
      simp only [sendMsg] at hres
      rcases hanswer : (j.sock.send (wire.data msg) (wire.peer msg)).1 with e | n
      · simp only [hanswer, handleSendRes, hretry e hanswer, if_true] at hres
        exact .inr (Option.some.inj hres).symm
      · simp [hanswer, handleSendRes] at hres

/-- Answers without a hard error never make the flush fail. -/
private theorem Soft.leaves {o : Outgoing L M} (hsoft : o.Soft) :
    (backlog wire label).Leaves o := by
  refine (flushLoop wire).exec_result Soft (fun res => res = .ok true ∨ res = .ok false) ?_ ?_
    hsoft
  · intro o hsoft
    exact (hsoft.flushRound wire).1
  · intro o res hsoft hbody
    exact (hsoft.flushRound wire).2 res hbody

/-- The sending side when a message has been pushed. -/
def pushed (o : Outgoing L M) (clock : Clock) (msg : M) (priority : Priority) : Outgoing L M :=
  { o with outQueue := (o.outQueue.dropExpired clock.dropExpired).2.push clock.push msg priority }

/-- The flush after a push, by where the message stands. -/
private theorem pushed_speaks_iff [DecidableEq G] (wire : Wire M) (label : M → G)
    {o : Outgoing L M} (clock : Clock) (msg : M) (priority : Priority)
    (hfresh : ∀ old ∈ o.waiting, label old ≠ label msg) (hsoft : o.Soft) :
    (((flushLoop wire).exec (o.pushed clock msg priority)).2 = .ok true ↔
          Backlog.HandedOver (label msg) (wire.data msg)
            ((flushLoop wire).history (handed wire label) (o.pushed clock msg priority))) ∧
        (((flushLoop wire).exec (o.pushed clock msg priority)).2 = .ok false ↔
          ∃ left ∈ ((flushLoop wire).exec (o.pushed clock msg priority)).1.waiting,
            label left = label msg) ↔
      let queue := (o.outQueue.dropExpired clock.dropExpired).2
      let ahead := queue.ahead o.currentWrite priority
      let behind := queue.behind priority
      let accepted := o.acceptsWhole wire (ahead ++ msg :: behind)
      accepted ≤ ahead.length ∨ accepted = ahead.length + 1 + behind.length := by
  have hwaiting : (backlog wire label).waiting (o.pushed clock msg priority) =
      (((o.outQueue.dropExpired clock.dropExpired).2.push clock.push msg priority).waiting
        o.currentWrite).map (item wire label) := rfl
  have hleaves : (backlog wire label).Leaves (o.pushed clock msg priority) :=
    Soft.leaves (o := o.pushed clock msg priority) hsoft
  have hspeaks := SendQueue.pushed_speaks_iff (turn wire label) hleaves hwaiting hfresh
  have hcount : (backlog wire label).count (o.pushed clock msg priority) =
      o.acceptsWhole wire
        ((o.outQueue.dropExpired clock.dropExpired).2.ahead o.currentWrite priority ++
          msg :: (o.outQueue.dropExpired clock.dropExpired).2.behind priority) :=
    congrArg (o.acceptsWhole wire) (SendQueue.waiting_push _ _ _ _ _)
  rw [hcount] at hspeaks
  rw [← mem_labels wire label]
  exact hspeaks

/-! ### Labels -/

/-- What waits after a call waited before, or is the message of the call. -/
theorem write_labels (o : Outgoing L M) (clock : Clock) {tag : G}
    (msg : Option (Res L M × Priority))
    (htag : ∀ m priority, msg = some (.ok m, priority) → label m = tag) :
    ∀ tag' ∈ (backlog wire label).labels (o.write wire clock msg).2,
      tag' = tag ∨ tag' ∈ (backlog wire label).labels o := by
  have hdropped : ∀ tag' ∈ (backlog wire label).labels ({ o with
      outQueue := (o.outQueue.dropExpired clock.dropExpired).2 } : Outgoing L M),
      tag' = tag ∨ tag' ∈ (backlog wire label).labels o := by
    intro tag' htag'
    obtain ⟨m, hm, rfl⟩ := (mem_labels wire label).mp htag'
    exact .inr ((mem_labels wire label).mpr
      ⟨m, o.outQueue.waiting_dropExpired o.currentWrite _ hm, rfl⟩)
  rcases msg with _ | ⟨_ | msg, priority⟩
  · exact fun tag' htag' => hdropped tag' (Backlog.labels_exec (turn wire label) _ htag')
  · exact hdropped
  · intro tag' htag'
    have hpushed := Backlog.labels_exec (turn wire label) (o.pushed clock msg priority) htag'
    rcases SendQueue.labels_pushed rfl tag' hpushed with heq | hold
    · exact .inl (heq.trans (htag msg priority rfl))
    · exact .inr ((mem_labels wire label).mpr hold)

end Outgoing

namespace Inner

/-! ## One call -/

section Call

variable (path : WritePath L G M) (label : M → G)

/-- What the operating system accepts in a call, datagram by datagram. -/
def writeHanded (i : Inner L G) (clock : Clock) (msg : Option (Res L M × Priority)) :
    List (G × Bytes) :=
  let o := path.outgoing i
  let o := { o with outQueue := (o.outQueue.dropExpired clock.dropExpired).2 }
  match msg with
  | none => (Outgoing.flushLoop path.wire).history (Outgoing.handed path.wire label) o
  | some (.error _, _) => []
  | some (.ok msg, priority) =>
      (Outgoing.flushLoop path.wire).history (Outgoing.handed path.wire label)
        { o with outQueue := o.outQueue.push clock.push msg priority }

/-- **What is handed over in a call is what the operating system accepts**, datagram
by datagram. -/
theorem writeVia_handed (i : Inner L G) (clock : Clock) (msg : Option (Res L M × Priority)) :
    ∃ new, (i.writeVia path clock msg).2.sock.offered = i.sock.offered ++ new ∧
      (new.filter Offer.accepted).map Offer.data =
        (i.writeHanded path label clock msg).map Prod.snd := by
  have hleft : path.outgoing (i.writeVia path clock msg).2 =
      ((path.outgoing i).write path.wire clock msg).2 := path.outgoing_set _ _
  rw [← path.outgoing_sock, ← path.outgoing_sock, hleft]
  rcases msg with _ | ⟨_ | msg, priority⟩
  · exact Outgoing.flush_handed _ _ _
  · exact ⟨[], (List.append_nil _).symm, rfl⟩
  · exact Outgoing.flush_handed _ _ ((path.outgoing i).pushed clock msg priority)

/-- What a call returns is true of its message, which is the one with this label: all
of its datagram was accepted, or it still waits; and it has not expired. -/
structure SpeaksTrue [DecidableEq G] (i : Inner L G) (clock : Clock) (tag : G)
    (msg : Res L M × Priority) : Prop where
  written : (i.writeVia path clock (some msg)).1 = .ok true ↔
    ∃ m, msg.1 = .ok m ∧
      Backlog.HandedOver tag (path.wire.data m) (i.writeHanded path label clock (some msg))
  queued : (i.writeVia path clock (some msg)).1 = .ok false ↔
    ∃ m ∈ (path.outgoing (i.writeVia path clock (some msg)).2).waiting, label m = tag
  spared : ∀ e ∈ (path.outgoing i).outQueue.expired clock.dropExpired, label e.msg ≠ tag

/-- If the message can be encrypted, the operating system refuses it or a message
ahead of it, or accepts all that is behind it as well. -/
def NotCutBehind (i : Inner L G) (clock : Clock) (msg : Res L M × Priority) : Prop :=
  ∀ m, msg.1 = .ok m →
    let o := path.outgoing i
    let queue := (o.outQueue.dropExpired clock.dropExpired).2
    let ahead := queue.ahead o.currentWrite msg.2
    let behind := queue.behind msg.2
    let accepted := o.acceptsWhole path.wire (ahead ++ m :: behind)
    accepted ≤ ahead.length ∨ accepted = ahead.length + 1 + behind.length

variable {path label}

/-- **When the result is true of the message**: the flush stops at the message or
ahead of it, or gets through all that is behind it. -/
theorem speaksTrue_iff [DecidableEq G] {i : Inner L G} {clock : Clock} {tag : G}
    {msg : Res L M × Priority} (htag : ∀ m, msg.1 = .ok m → label m = tag)
    (hfresh : ∀ m ∈ (path.outgoing i).waiting, label m ≠ tag) (hsoft : (path.outgoing i).Soft) :
    i.SpeaksTrue path label clock tag msg ↔ i.NotCutBehind path clock msg := by
  have hspared : ∀ e ∈ (path.outgoing i).outQueue.expired clock.dropExpired, label e.msg ≠ tag := by
    intro e he
    exact hfresh _ ((path.outgoing i).outQueue.expired_subset (path.outgoing i).currentWrite _
      (List.mem_map_of_mem he))
  have hleft : path.outgoing (i.writeVia path clock (some msg)).2 =
      ((path.outgoing i).write path.wire clock (some msg)).2 := path.outgoing_set _ _
  obtain ⟨_ | m, priority⟩ := msg
  · refine iff_of_true ⟨?_, ?_, hspared⟩ nofun
    · exact iff_of_false SendQueue.error_ne_ok nofun
    · rw [hleft]
      refine iff_of_false SendQueue.error_ne_ok ?_
      rintro ⟨m, hm, hlabel⟩
      exact hfresh m ((path.outgoing i).outQueue.waiting_dropExpired _ _ hm) hlabel
  · obtain rfl : label m = tag := htag m rfl
    have hspeaks := Outgoing.pushed_speaks_iff path.wire label clock m priority hfresh hsoft
    have hm : ∀ m', (.ok m : Res L M) = .ok m' ↔ m' = m := by
      intro m'
      rw [Except.ok.injEq]
      exact eq_comm
    constructor
    · rintro ⟨hwritten, hqueued, -⟩ m' hm'
      obtain rfl := (hm m').mp hm'
      simp only [hm, exists_eq_left] at hwritten
      rw [hleft] at hqueued
      exact hspeaks.mp ⟨hwritten, hqueued⟩
    · intro h
      obtain ⟨hwritten, hqueued⟩ := hspeaks.mpr (h m rfl)
      refine ⟨?_, ?_, hspared⟩
      · simp only [hm, exists_eq_left]
        exact hwritten
      · rw [hleft]
        exact hqueued

/-! ### Labels -/

/-- The labels of what waits to be sent in one way. -/
def labels (path : WritePath L G M) (label : M → G) (i : Inner L G) : List G :=
  (Outgoing.backlog path.wire label).labels (path.outgoing i)

theorem writeVia_labels (path : WritePath L G M) (label : M → G) (i : Inner L G) (clock : Clock)
    {tag : G} (msg : Option (Res L M × Priority))
    (htag : ∀ m priority, msg = some (.ok m, priority) → label m = tag) :
    ∀ tag' ∈ (i.writeVia path clock msg).2.labels path label,
      tag' = tag ∨ tag' ∈ i.labels path label := by
  have hleft : path.outgoing (i.writeVia path clock msg).2 =
      ((path.outgoing i).write path.wire clock msg).2 := path.outgoing_set _ _
  intro tag' htag'
  rw [labels, hleft] at htag'
  exact (path.outgoing i).write_labels clock msg htag tag' htag'

end Call

end Inner

/-! ## Runs -/

/-- A call on a UDP socket.  Each may have a type of its own. -/
inductive UdpOp (L : Crates) : Type 1
  | write (T : Type) [Serde L T] (clock : Clock) (nonce : L.Nonce) (msg : Option (T × Priority))
  | writeTo (T : Type) [Serde L T] (clock : Clock) (nonce : L.Nonce)
      (msg : Option (T × SocketAddr × Priority))
  | read (T : Type) [Serde L T]
  | readFrm (T : Type) [Serde L T]
  | setEncryptCtx (encCtx : EncryptContext L)
  | setDecryptCtx (decCtx : DecryptContext L)

/-- A UDP socket whose messages are labelled with the number of the call. -/
structure UdpNumbered (L : Crates) where
  inner : Inner L Nat
  calls : Nat

namespace UdpNumbered

def start (recvResults : List (IoResult (Bytes × SocketAddr))) (sendResults : List SendAnswer)
    (conf : SocketConfig L) : UdpNumbered L where
  inner := Inner.new (.scripted recvResults sendResults) conf
  calls := 0

def step (s : UdpNumbered L) : UdpOp L → UdpNumbered L
  | @UdpOp.write _ _ _ clock nonce msg => ⟨(s.inner.write clock nonce s.calls msg).2, s.calls + 1⟩
  | @UdpOp.writeTo _ _ _ clock nonce msg =>
      ⟨(s.inner.writeTo clock nonce s.calls msg).2, s.calls + 1⟩
  | @UdpOp.read _ T _ => { s with inner := (s.inner.read T).2 }
  | @UdpOp.readFrm _ T _ => { s with inner := (s.inner.readFrm T).2 }
  | .setEncryptCtx encCtx => { s with inner := s.inner.setEncryptCtx encCtx }
  | .setDecryptCtx decCtx => { s with inner := s.inner.setDecryptCtx decCtx }

/-- No answer to come is a hard error. -/
def Soft (s : UdpNumbered L) : Prop :=
  ∀ e, SendAnswer.error e ∈ s.inner.sock.sendResults → e.isRetry = true

/-- If the call writes a message, what it returns is true of the message. -/
def SpeaksTrue (s : UdpNumbered L) : UdpOp L → Prop
  | @UdpOp.write _ _ _ clock nonce msg =>
      ∀ m ∈ s.inner.encrypted nonce s.calls msg,
        s.inner.SpeaksTrue Inner.sendPath Frame.label clock s.calls m
  | @UdpOp.writeTo _ _ _ clock nonce msg =>
      ∀ m ∈ s.inner.encryptedTo nonce s.calls msg,
        s.inner.SpeaksTrue Inner.sendToPath (fun m => m.1.label) clock s.calls m
  | _ => True

/-- If the call writes a message, the flush is not cut short behind it. -/
def NotCutBehind (s : UdpNumbered L) : UdpOp L → Prop
  | @UdpOp.write _ _ _ clock nonce msg =>
      ∀ m ∈ s.inner.encrypted nonce s.calls msg, s.inner.NotCutBehind Inner.sendPath clock m
  | @UdpOp.writeTo _ _ _ clock nonce msg =>
      ∀ m ∈ s.inner.encryptedTo nonce s.calls msg, s.inner.NotCutBehind Inner.sendToPath clock m
  | _ => True

/-- What waits, in either way of sending, was written by an earlier call. -/
private def Earlier (s : UdpNumbered L) : Prop :=
  (∀ tag ∈ s.inner.labels Inner.sendPath Frame.label, tag < s.calls) ∧
    ∀ tag ∈ s.inner.labels Inner.sendToPath (fun m => m.1.label), tag < s.calls

private theorem Earlier.step {s : UdpNumbered L} (h : s.Earlier) (op : UdpOp L) :
    (s.step op).Earlier := by
  have hlater : ∀ tag, tag < s.calls → tag < s.calls + 1 := fun _ => Nat.lt_succ_of_lt
  cases op with
  | write T clock nonce msg =>
      refine ⟨?_, fun tag htag => hlater tag (h.2 tag htag)⟩
      intro tag htag
      have hlabels := s.inner.writeVia_labels Inner.sendPath Frame.label clock
        (s.inner.encrypted nonce s.calls msg)
        (fun m priority hm => (Inner.encrypted_ok hm).1) tag htag
      rcases hlabels with rfl | hold
      · exact Nat.lt_succ_self _
      · exact hlater tag (h.1 tag hold)
  | writeTo T clock nonce msg =>
      refine ⟨fun tag htag => hlater tag (h.1 tag htag), ?_⟩
      intro tag htag
      have hlabels := s.inner.writeVia_labels Inner.sendToPath (fun m => m.1.label) clock
        (s.inner.encryptedTo nonce s.calls msg)
        (fun m priority hm => (Inner.encryptedTo_ok hm).1) tag htag
      rcases hlabels with rfl | hold
      · exact Nat.lt_succ_self _
      · exact hlater tag (h.2 tag hold)
  | read T =>
      show UdpNumbered.Earlier ⟨(s.inner.readVia Inner.recvPath T).2, s.calls⟩
      rw [Inner.readVia_inner]
      exact h
  | readFrm T =>
      show UdpNumbered.Earlier ⟨(s.inner.readVia Inner.recvFromPath T).2, s.calls⟩
      rw [Inner.readVia_inner]
      exact h
  | setEncryptCtx encCtx => exact h
  | setDecryptCtx decCtx => exact h

/-- **In every run**, as long as there are no hard errors to come. -/
theorem each_speaksTrue (recvResults : List (IoResult (Bytes × SocketAddr)))
    (sendResults : List SendAnswer) (conf : SocketConfig L) (ops : List (UdpOp L)) :
    Each step (fun s op => s.Soft → (s.SpeaksTrue op ↔ s.NotCutBehind op))
      (start recvResults sendResults conf) ops := by
  have hearlier : Always step Earlier (start recvResults sendResults conf) ops := by
    refine always_of_step ?_ fun s op h => h.step op
    exact ⟨nofun, nofun⟩
  refine hearlier.each fun s op h hsoft => ?_
  cases op with
  | write T clock nonce msg =>
      refine forall₂_congr fun m hm => ?_
      have hlabel : ∀ data, m.1 = .ok data → data.label = s.calls := by
        obtain ⟨res, priority⟩ := m
        rintro data rfl
        exact (Inner.encrypted_ok hm).1
      refine Inner.speaksTrue_iff hlabel (fun data hdata => Nat.ne_of_lt ?_) hsoft
      exact h.1 _ ((Outgoing.mem_labels _ _).mpr ⟨data, hdata, rfl⟩)
  | writeTo T clock nonce msg =>
      refine forall₂_congr fun m hm => ?_
      have hlabel : ∀ data, m.1 = .ok data → data.1.label = s.calls := by
        obtain ⟨res, priority⟩ := m
        rintro data rfl
        exact (Inner.encryptedTo_ok hm).1
      refine Inner.speaksTrue_iff hlabel (fun data hdata => Nat.ne_of_lt ?_) hsoft
      exact h.2 _ ((Outgoing.mem_labels _ _).mpr ⟨data, hdata, rfl⟩)
  | read T => exact Iff.rfl
  | readFrm T => exact Iff.rfl
  | setEncryptCtx encCtx => exact Iff.rfl
  | setDecryptCtx decCtx => exact Iff.rfl

end UdpNumbered

end SocketCollection.Udp
