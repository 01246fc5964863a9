import SocketCollection.TcpClose
import SocketCollection.TcpFifo

/-!
# Catching up

A stream that is slow, cut up or blocked delays messages, and may make some expire.
The ones that are protected from that it cannot stop for good.

Each write that a stream grants moves at least one byte, and each call of `write`
that leaves something behind has met a `WouldBlock` or `Interrupted`.  So once the
stream grants as many writes as bytes are waiting, more calls than it has refusals
to give leave nothing waiting (`Drains.flushes`), and what the receiver then polls
is everything.

## Main result

* `catches_up`: whatever has happened before, all protected messages arrive.
-/

namespace SocketCollection

open Runs StableQueue

variable {L : Crates} {T G : Type}

/-! ## What a stream grants -/

/-- The answer to a write accepts some bytes. -/
def IoResult.accepts : IoResult Nat → Bool
  | .ok n => 0 < n
  | .error _ => false

/-- The answer to a write refuses it. -/
def IoResult.refuses : IoResult Nat → Bool
  | .ok _ => false
  | .error _ => true

namespace TcpStream

/-- How many of the writes to come accept some bytes. -/
def grants (s : TcpStream) : Nat := s.writeResults.countP IoResult.accepts

/-- How many of the writes to come are refused. -/
def refusals (s : TcpStream) : Nat := s.writeResults.countP IoResult.refuses

/-- What a write uses up: at most as many grants as it has moved bytes, or a
refusal, if there was any left. -/
theorem write_uses (s : TcpStream) {buf : Bytes} (hpos : 0 < buf.length) :
    match s.write buf with
    | (.ok n, s') => s.grants ≤ s'.grants + n ∧ s'.refusals = s.refusals
    | (.error _, s') => s'.grants = s.grants ∧ (s.grants = 0 ∨ s'.refusals < s.refusals) := by
  rcases hscript : s.writeResults with _ | ⟨e | n, rest⟩
  · simp [write, hscript, grants]
  · simp [write, hscript, grants, refusals, List.countP_cons, IoResult.accepts, IoResult.refuses]
  · simp only [write, hscript, grants, refusals, List.countP_cons, IoResult.accepts,
      IoResult.refuses]
    refine ⟨?_, by simp⟩
    by_cases hn : 0 < n
    · simp only [hn, decide_true, if_true]
      omega
    · simp [hn]

end TcpStream

/-! ## Draining -/

namespace Inner

/-- How many bytes are waiting. -/
def outstanding (i : Inner L G) : Nat := i.pending.length + (frames i.outQueue.entries).length

/-- Nothing is waiting. -/
def Idle (i : Inner L G) : Prop := i.currentWrite = none ∧ i.outQueue.entries = []

/-- The stream grants enough writes for what is waiting, and refuses at most `k`. -/
structure Drains (k : Nat) (i : Inner L G) : Prop where
  soft : i.stream.Soft
  enough : i.outstanding ≤ i.stream.grants
  refusals_le : i.stream.refusals ≤ k
  queued_pos : ∀ e ∈ i.outQueue.entries, 0 < e.msg.bytes.length
  current_pos : ∀ data, i.currentWrite = some data → 0 < data.bytes.length

/-- Nothing is waiting any more, or one refusal less is to come. -/
def Nearer (k : Nat) (i : Inner L G) : Prop := i.Idle ∨ ∃ j, k = j + 1 ∧ i.Drains j

variable {i : Inner L G} {k : Nat}

/-- Some data that was taken is written, or a part of it, or none. -/
private theorem drains_writeData {data : Frame G} (hnone : i.currentWrite = none)
    (hsoft : i.stream.Soft)
    (henough : data.bytes.length + (frames i.outQueue.entries).length ≤ i.stream.grants)
    (hrefusals : i.stream.refusals ≤ k)
    (hqueued : ∀ e ∈ i.outQueue.entries, 0 < e.msg.bytes.length)
    (hpos : 0 < data.bytes.length) :
    match i.writeData data with
    | (i', none) => i'.Drains k
    | (i', some _) => i'.Nearer k := by
  have huses := i.stream.write_uses hpos
  have hwrites := i.stream.writes_write data.bytes
  unfold Inner.writeData
  generalize i.stream.write data.bytes = answer at huses hwrites
  obtain ⟨res, stream⟩ := answer
  cases hwrites with
  | @accepts n _ hn haccepted hanswers =>
      obtain ⟨hgrants, hsame⟩ := huses
      by_cases hlt : n < data.bytes.length
      · simp only [hlt, if_true]
        refine ⟨hanswers.soft hsoft, ?_, hsame ▸ hrefusals, hqueued, fun kept hkept => ?_⟩
        · simp only [outstanding, pending, Frame.drop, List.length_drop]
          omega
        · obtain rfl := Option.some.inj hkept
          simp only [Frame.drop, List.length_drop]
          omega
      · simp only [hlt, if_false]
        refine ⟨hanswers.soft hsoft, ?_, hsame ▸ hrefusals, hqueued, fun kept hkept => ?_⟩
        · simp only [outstanding, pending, hnone, List.length_nil]
          omega
        · rw [hnone] at hkept
          cases hkept
  | @refuses e _ haccepted hanswers =>
      obtain ⟨hgrants, hfewer⟩ := huses
      have hsoft' : stream.Soft := hanswers.soft hsoft
      have hanswered : stream.answered = i.stream.answered ++ [.error e] := hanswers.answered
      have he : e.isRetry = true := by
        have hlast := hsoft' (.error e) (by simp [hanswered])
        simpa [IoResult.isHard] using hlast
      simp only [he, if_true]
      -- a stream with nothing left to grant would have too little for this data
      have hlt : stream.refusals < i.stream.refusals := by
        rcases hfewer with hzero | hlt
        · omega
        · exact hlt
      refine .inr ⟨k - 1, by omega, hsoft', ?_, ?_, hqueued, fun kept hkept => ?_⟩
      · simp only [outstanding, pending]
        omega
      · show stream.refusals ≤ k - 1
        omega
      · obtain rfl := Option.some.inj hkept
        exact hpos

private theorem Drains.flushRound (h : i.Drains k) :
    match i.flushRound with
    | (i', none) => i'.Drains k
    | (i', some _) => i'.Nearer k := by
  have htakes := i.takes_takeData
  unfold Inner.flushRound
  generalize i.takeData = taken at htakes
  obtain ⟨data, i₁⟩ := taken
  have henough := h.enough
  cases htakes with
  | nothing hcurrent hentries => exact .inl ⟨hcurrent, hentries⟩
  | @kept data hcurrent =>
      simp only [outstanding, pending, hcurrent] at henough
      exact drains_writeData rfl h.soft henough h.refusals_le h.queued_pos
        (h.current_pos data hcurrent)
  | @entry e q hcurrent hentries _ =>
      have hqueued := h.queued_pos
      rw [hentries, List.forall_mem_cons] at hqueued
      simp only [outstanding, pending, hcurrent, hentries, frames, List.flatMap_cons,
        List.length_append, List.length_nil, Nat.zero_add] at henough
      exact drains_writeData hcurrent h.soft henough h.refusals_le hqueued.2 hqueued.1

/-- **A flush** leaves nothing waiting, or uses up a refusal. -/
private theorem Drains.flush (h : i.Drains k) : i.flushWriteUntilWouldBlock.2.Nearer k := by
  refine flushLoop.exec_rule (Drains k) (fun i _ => i.Nearer k) ?_ ?_ i h
  · intro i i' h hbody
    have hround := h.flushRound
    replace hbody : i.flushRound = (i', none) := hbody
    rwa [hbody] at hround
  · intro i i' res h hbody
    have hround := h.flushRound
    replace hbody : i.flushRound = (i', some res) := hbody
    rwa [hbody] at hround

/-- Where nothing is waiting, a flush has nothing to do. -/
private theorem Idle.flush (h : i.Idle) : i.flushWriteUntilWouldBlock.2.Idle := by
  have htakes := i.takes_takeData
  have hbody : flushLoop.body i = i.flushRound := rfl
  unfold Inner.flushRound at hbody
  generalize i.takeData = taken at hbody htakes
  obtain ⟨data, i₁⟩ := taken
  cases htakes with
  | nothing =>
      rw [flushWriteUntilWouldBlock, flushLoop.exec_done hbody]
      exact h
  | kept hcurrent => cases h.1.symm.trans hcurrent
  | entry hcurrent hentries => cases h.2.symm.trans hentries

/-- Dropping what has expired brings nothing to wait for. -/
private theorem entries_dropExpired (i : Inner L G) (now : Instant) :
    (i.outQueue.dropExpired now).2.entries <+: i.outQueue.entries :=
  ⟨_, (i.outQueue.dropExpired_entries now).1.symm⟩

section Write

variable [Serde L UInt32] [Serde L T]

/-- A call that only flushes. -/
private theorem Idle.write (h : i.Idle) (clock : Clock) (nonces : FrameNonces L) (label : G) :
    (i.write (T := T) clock nonces label none).2.Idle := by
  refine Idle.flush ⟨h.1, ?_⟩
  have hprefix := i.entries_dropExpired clock.dropExpired
  rw [h.2] at hprefix
  exact List.prefix_nil.mp hprefix

private theorem Drains.write (h : i.Drains k) (clock : Clock) (nonces : FrameNonces L)
    (label : G) : (i.write (T := T) clock nonces label none).2.Nearer k := by
  have hfewer := i.entries_dropExpired clock.dropExpired
  refine Drains.flush ⟨h.soft, ?_, h.refusals_le, fun e he => h.queued_pos e (hfewer.subset he),
    h.current_pos⟩
  obtain ⟨expired, hexpired⟩ := hfewer
  have henough := h.enough
  rw [outstanding, ← hexpired, frames_append, List.length_append] at henough
  exact Nat.le_trans (Nat.add_le_add_left (Nat.le_add_right _ _) _) henough

end Write

end Inner

/-! ## A link that catches up -/

namespace Link

variable [Serde L UInt32] [Serde L T]

/-- From now on the sender's stream gives these answers. -/
def writable (s : Link L T) (answers : List (IoResult Nat)) : Link L T :=
  { s with sender := { s.sender with inner := { s.sender.inner with
      stream := { s.sender.inner.stream with writeResults := answers } } } }

/-- The sender is told some times that its stream is writable. -/
def flushes (nonces : FrameNonces L) (clocks : List Clock) : List (PollOp L T) :=
  clocks.map fun clock => .write clock nonces none

/-- The stream goes on, the sender flushes, what it wrote is handed over, and the
receiver polls. -/
def catchUp (s : Link L T) (answers : List (IoResult Nat)) (nonces : FrameNonces L)
    (clocks : List Clock) : Link L T :=
  let s := (flushes nonces clocks).foldl pollStep (s.writable answers)
  (s.step (.deliver s.inFlight.length)).poll

/-- Nothing is waiting, everything sent has been returned, no read has failed, and of
each protected priority everything that had been written has arrived, in order. -/
structure CaughtUp (conf : SocketConfig L) (s s' : Link L T) : Prop where
  idle : s'.sender.inner.Idle
  received_eq : s'.received.map some = s'.sent
  no_error : ∀ res ∈ s'.results, ∃ m, res = .ok m
  arrived_eq : ∀ p < conf.msgDropPriority,
    atKey Prod.fst s'.arrived p = atKey Prod.fst s.written p

/-- Once the stream grants as many writes as bytes are waiting, more calls than it has
refusals to give are enough. -/
def Recovers (conf : SocketConfig L) (s : Link L T) : Prop :=
  ∀ answers nonces clocks, (∀ a ∈ answers, IoResult.isHard a = false) →
    s.sender.inner.outstanding ≤ answers.countP IoResult.accepts →
      answers.countP IoResult.refuses < clocks.length →
        CaughtUp conf s (s.catchUp answers nonces clocks)

variable {sendConf recvConf : SocketConfig L} {s : Link L T}

/-- The calls that flush leave nothing waiting. -/
private theorem idle_flushes (nonces : FrameNonces L) (clocks : List Clock) :
    ∀ (s : Link L T) (k : Nat),
      s.sender.inner.Idle ∨ k < clocks.length ∧ s.sender.inner.Drains k →
        ((flushes nonces clocks).foldl pollStep s).sender.inner.Idle := by
  induction clocks with
  | nil =>
      intro s k h
      exact h.resolve_right fun hk => Nat.not_lt_zero k hk.1
  | cons clock clocks ih =>
      intro s k h
      have hinner : (s.pollStep (.write clock nonces none)).sender.inner =
          (s.sender.inner.write (T := T) clock nonces (s.sender.origin none) none).2 :=
        s.sender.write_inner clock nonces none none
      rcases h with hidle | ⟨hk, hdrains⟩
      · refine ih _ 0 (.inl ?_)
        rw [hinner]
        exact hidle.write clock nonces _
      · rcases hdrains.write (T := T) clock nonces (s.sender.origin none) with hidle | ⟨j, rfl, hj⟩
        · refine ih _ 0 (.inl ?_)
          rw [hinner]
          exact hidle
        · refine ih _ j (.inr ⟨Nat.lt_of_succ_lt_succ hk, ?_⟩)
          rw [hinner]
          exact hj

/-- What a link keeps that is polled. -/
private structure Sound (sendConf recvConf : SocketConfig L) (s : Link L T) : Prop where
  polled : s.Polled sendConf recvConf
  perPriority : s.sender.PerPriority sendConf

/-- What is waiting are frames, none of them empty. -/
private theorem Sound.drains (h : s.Sound sendConf recvConf) {answers : List (IoResult Nat)}
    (hsoft : ∀ a ∈ answers, IoResult.isHard a = false)
    (henough : s.sender.inner.outstanding ≤ answers.countP IoResult.accepts) :
    (s.writable answers).sender.inner.Drains (answers.countP IoResult.refuses) where
  soft := by
    have hanswered := (List.forall_mem_append.mp h.polled.linked.flows.soft).1
    exact List.forall_mem_append.mpr ⟨hanswered, hsoft⟩
  enough := henough
  refusals_le := Nat.le_refl _
  queued_pos := by
    intro e he
    obtain ⟨p, hp⟩ := h.polled.linked.packed.parcels e (List.mem_append_right _ he)
    rw [← hp.single]
    exact p.frame_pos
  current_pos := by
    intro data hdata
    obtain ⟨_, _, _, _, _, hpos⟩ := h.polled.linked.packed.current data hdata
    exact hpos

section Steps

variable [LawfulSerde L UInt32] [LawfulSizeHeader L] [LawfulSerde L T]

private theorem Sound.step (h : s.Sound sendConf recvConf)
    (hmatch : Matching sendConf.encCtx recvConf.decCtx) {op : PollOp L T}
    (hop : op.Fits sendConf recvConf) : (s.pollStep op).Sound sendConf recvConf := by
  refine ⟨h.polled.pollStep hmatch hop, ?_⟩
  cases op with
  | write clock nonces msg => exact h.perPriority.write clock nonces (msg.map Prod.fst) msg
  | deliver n =>
      simp only [pollStep, Link.step]
      split <;> exact h.perPriority
  | poll => exact h.perPriority

private theorem Sound.flushes (hmatch : Matching sendConf.encCtx recvConf.decCtx)
    (nonces : FrameNonces L) (clocks : List Clock) : ∀ {s : Link L T},
      s.Sound sendConf recvConf →
        ((flushes nonces clocks).foldl pollStep s).Sound sendConf recvConf ∧
          ((Link.flushes nonces clocks).foldl pollStep s).written = s.written := by
  induction clocks with
  | nil => exact fun h => ⟨h, rfl⟩
  | cons clock clocks ih =>
      intro s h
      have hfits : (PollOp.write clock nonces none : PollOp L T).Fits sendConf recvConf := trivial
      exact ih (h.step hmatch hfits)

omit [LawfulSerde L UInt32] [LawfulSizeHeader L] [LawfulSerde L T] in
private theorem Sound.writable (h : s.Sound sendConf recvConf) {answers : List (IoResult Nat)}
    (hsoft : ∀ a ∈ answers, IoResult.isHard a = false) :
    (s.writable answers).Sound sendConf recvConf := by
  obtain ⟨⟨hlinked, hsegments⟩, hpriority⟩ := h
  have hanswered := (List.forall_mem_append.mp hlinked.flows.soft).1
  have hjoined : (s.writable answers).Joined recvConf.maxPayloadSize :=
    ⟨⟨List.forall_mem_append.mpr ⟨hanswered, hsoft⟩, hlinked.flows.stream⟩,
      ⟨hlinked.packed.parcels, hlinked.packed.current⟩, hlinked.handedOver_le, hlinked.clean,
      hlinked.results_ok, hlinked.awaiting⟩
  exact ⟨⟨⟨hjoined, hlinked.encCtx, hlinked.entries, hlinked.decCtx⟩, hsegments⟩,
    ⟨hpriority.conf_eq, hpriority.fifo, hpriority.gapless⟩⟩

/-- **When the sender has nothing waiting**, and the rest is handed over, a poll
returns everything. -/
private theorem Sound.caughtUp (h : s.Sound sendConf recvConf)
    (hmatch : Matching sendConf.encCtx recvConf.decCtx) (hidle : s.sender.inner.Idle) :
    CaughtUp sendConf s (s.step (.deliver s.inFlight.length)).poll := by
  obtain ⟨hsender, -, hflight⟩ := s.handedOver_deliver
  have hfits : (PollOp.deliver s.inFlight.length : PollOp L T).Fits sendConf recvConf := trivial
  have hnext : (s.step (.deliver s.inFlight.length)).Sound sendConf recvConf := h.step hmatch hfits
  generalize s.step (.deliver s.inFlight.length) = t at hsender hflight hnext ⊢
  rw [← hsender] at hidle
  have hupToDate := hnext.polled.poll hmatch
  have hpending : t.sender.inner.pending = [] := by rw [Inner.pending, hidle.1]
  -- all bytes of all frames have been handed over
  have hover : (t.sender.dequeued.map fun e => e.msg.bytes).flatten.length ≤ t.handedOver := by
    have hstream := hnext.polled.linked.flows.stream
    rw [hpending, List.append_nil, frames, List.flatMap_def] at hstream
    rw [← hstream]
    exact List.drop_eq_nil_iff.mp hflight
  have hwhole := wholeFrames_append _ [] hover fun _ he => by cases he
  rw [List.append_nil, List.length_map] at hwhole
  have hreceived : t.poll.received.map some = t.poll.sent := by
    have hall := hupToDate.received_eq
    have hlen : t.poll.sent.length = t.sender.dequeued.length := List.length_map _
    rw [show t.poll.handedOver = t.handedOver from rfl, show t.poll.sender = t.sender from rfl,
      hwhole, ← hlen, List.take_length] at hall
    exact hall
  refine ⟨hidle, hreceived, hupToDate.no_error, fun p hp => ?_⟩
  have hlen : t.poll.received.length = t.sender.dequeued.length := by
    have hlen := congrArg List.length hreceived
    rwa [List.length_map, sent, List.length_map] at hlen
  have hkept := hnext.perPriority.gapless p hp
  have hqueued : t.sender.queued = [] := hidle.2
  rw [hqueued, List.append_nil] at hkept
  rw [arrived, written, atKey_marked, atKey_marked, hlen, ← hsender]
  show (atKey Entry.priority (t.sender.dequeued.take t.sender.dequeued.length) p).map _ = _
  rw [List.take_length, hkept]

private theorem Sound.recovers (h : s.Sound sendConf recvConf)
    (hmatch : Matching sendConf.encCtx recvConf.decCtx) : s.Recovers sendConf := by
  intro answers nonces clocks hsoft henough hcalls
  have hidle := idle_flushes nonces clocks (s.writable answers) _
    (.inr ⟨hcalls, h.drains hsoft henough⟩)
  obtain ⟨hsound, hwritten⟩ := (h.writable hsoft).flushes hmatch nonces clocks
  have hcaught := hsound.caughtUp hmatch hidle
  refine ⟨hcaught.idle, hcaught.received_eq, hcaught.no_error, fun p hp => ?_⟩
  have harrived := hcaught.arrived_eq p hp
  rw [hwritten] at harrived
  exact harrived

end Steps

end Link

/-- **Whatever has happened before, everything protected arrives.**  The contexts
match, every message written has a payload the receiver delivers, and the sender's
stream gives no hard errors, neither before nor now.  At any point of any interleaving
of writes, deliveries and polls, let that stream grant at least as many writes as
bytes are waiting, in any mix with refusals, and let the sender flush more often than
it is refused.  Then nothing is waiting any more, and when what was written has been
handed over, one poll returns all that is missing: no protected message has been lost,
and each priority has kept its order. -/
theorem catches_up [Serde L UInt32] [Serde L T] [LawfulSerde L UInt32] [LawfulSizeHeader L]
    [LawfulSerde L T] {sendConf recvConf : SocketConfig L}
    (hmatch : Matching sendConf.encCtx recvConf.decCtx) (writeResults : List (IoResult Nat))
    (hsoft : ∀ a ∈ writeResults, IoResult.isHard a = false) (ops : List (PollOp L T))
    (hops : ∀ op ∈ ops, op.Fits sendConf recvConf) :
    Always Link.pollStep (Link.Recovers sendConf) (.start writeResults sendConf recvConf) ops := by
  have hstart : (Link.start writeResults sendConf recvConf : Link L T).Sound sendConf recvConf :=
    ⟨⟨Link.linked_start hsoft sendConf recvConf, fun _ ha => absurd ha List.not_mem_nil⟩,
      Sender.perPriority_start writeResults⟩
  have hsound := (each_of_forall hops).always hstart fun _ _ h hop => h.step hmatch hop
  exact hsound.mono fun _ h => h.recovers hmatch

namespace BincodeInstance

/-- Two numbers are written to a stream that takes a part of the first frame and then
nothing more. -/
def delayedOps : List (PollOp crates UInt32) :=
  [.write ⟨0, 0⟩ ⟨(1 : UInt8), (2 : UInt8)⟩ (some (5, 0)),
    .write ⟨0, 0⟩ ⟨(1 : UInt8), (2 : UInt8)⟩ (some (6, 3)), .deliver 20, .poll]

theorem catches_up_shared :
    Always Link.pollStep (Link.Recovers sharedConf) (.start [.ok 30] sharedConf sharedConf)
      delayedOps := by
  have hmatch : Matching sharedConf.encCtx sharedConf.decCtx := .authenticated rfl
  apply catches_up hmatch _ (by decide) delayedOps
  intro op hop
  simp only [delayedOps, List.mem_cons, List.not_mem_nil, or_false] at hop
  rcases hop with rfl | rfl | rfl | rfl
  case inl => exact fits_number ⟨0, 0⟩ ⟨(1 : UInt8), (2 : UInt8)⟩ (5, 0)
  case inr.inl => exact fits_number ⟨0, 0⟩ ⟨(1 : UInt8), (2 : UInt8)⟩ (6, 3)
  all_goals trivial

end BincodeInstance

end SocketCollection
