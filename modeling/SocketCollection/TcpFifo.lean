import SocketCollection.TcpEndToEnd

/-!
# First in, first out, at each priority

The out queue reorders what is written, and drops some of it.  Yet the entries
of one priority that have been taken or still wait are always among those
written at it, in the order of the calls (`PerPriority`), and below the drop
priority they are all of them.

Together with `end_to_end` this says in which order the receiver gets what:
messages of one priority overtake each other nowhere between the two callers,
and none of a protected priority is missing.

## Main result

* `fifo_per_priority`: at every point of every interleaving the link is `Orderly`.
-/

namespace SocketCollection

open Runs StableQueue

variable {L : Crates} {N T : Type}

namespace Sender

/-- At each priority, what has been taken or waits was enqueued in this order,
and nothing is missing below the drop priority. -/
structure PerPriority (conf : SocketConfig L) (s : Sender L N) : Prop where
  conf_eq : s.inner.outQueue.conf = conf
  fifo : ∀ p, (atKey Entry.priority (s.dequeued ++ s.queued) p).Sublist
    (atKey Entry.priority s.enqueued p)
  gapless : ∀ p < conf.msgDropPriority,
    atKey Entry.priority (s.dequeued ++ s.queued) p = atKey Entry.priority s.enqueued p

variable {conf : SocketConfig L} {s : Sender L N}

theorem perPriority_start (writeResults : List (IoResult Nat)) :
    PerPriority conf (start writeResults conf : Sender L N) where
  conf_eq := rfl
  fifo p := by simp
  gapless p _ := by simp

/-- What expires is droppable. -/
private theorem PerPriority.dropExpired (h : PerPriority conf s) (now : Instant) :
    PerPriority conf (s.dropExpired now) where
  conf_eq := (s.inner.outQueue.dropExpired_entries now).2.trans h.conf_eq
  fifo p := ((s.dropExpired_sublist now).filter _).trans (h.fifo p)
  gapless p hp := by
    have hexpired : atKey Entry.priority (s.inner.outQueue.expired now) p = [] := by
      rw [atKey, List.filter_eq_nil_iff]
      intro e he hkey
      have hdroppable := s.inner.outQueue.expired_droppable now e he
      rw [h.conf_eq, of_decide_eq_true hkey] at hdroppable
      exact absurd hp (UInt8.not_lt.mpr hdroppable)
    have hsame := h.gapless p hp
    rw [s.queued_dropExpired now, ← List.append_assoc, atKey_append, hexpired,
      List.append_nil] at hsame
    exact hsame

private theorem PerPriority.push (h : PerPriority conf s) (e : Entry.OfFrame L N) :
    PerPriority conf (s.push e) := by
  have hpushed : ∀ p, atKey Entry.priority ((s.push e).dequeued ++ (s.push e).queued) p =
      atKey Entry.priority (s.dequeued ++ s.queued) p ++ atKey Entry.priority [e] p := by
    intro p
    rw [atKey_append, s.queued_push e p, atKey_append, atKey_append, List.append_assoc]
    rfl
  have henqueued : ∀ p, atKey Entry.priority (s.push e).enqueued p =
      atKey Entry.priority s.enqueued p ++ atKey Entry.priority [e] p :=
    fun p => atKey_append _ _ p
  refine ⟨h.conf_eq, fun p => ?_, fun p hp => ?_⟩
  · rw [hpushed, henqueued]
    exact (h.fifo p).append (List.Sublist.refl _)
  · rw [hpushed, henqueued, h.gapless p hp]

private theorem PerPriority.round (h : PerPriority conf s) : PerPriority conf s.round where
  conf_eq := s.round_conf.trans h.conf_eq
  fifo := by
    rw [round_entries]
    exact h.fifo
  gapless := by
    rw [round_entries]
    exact h.gapless

theorem PerPriority.write [Serde L UInt32] [Serde L T] (h : PerPriority conf s) (clock : Clock)
    (nonces : FrameNonces L) (note : N) (msg : Option (T × Priority)) :
    PerPriority conf (s.write clock nonces note msg) :=
  write_rule h (fun h => h.dropExpired _) (fun _ _ _ _ _ _ _ _ h => h.push _) fun _ h => h.round

end Sender

namespace Link

/-- The messages written that could be encoded, each with its priority, in the
order of the calls. -/
def written (s : Link L T) : List (Priority × Option T) :=
  s.sender.enqueued.map fun e => (e.priority, e.msg.label.note)

/-- The messages returned, each with the priority at which it was written. -/
def arrived (s : Link L T) : List (Priority × Option T) :=
  (s.sender.dequeued.take s.received.length).map fun e => (e.priority, e.msg.label.note)

variable [Serde L UInt32] [Serde L T]

/-- Messages of one priority arrive in the order in which they were written, those
of a protected one without a gap, and once nothing is left on the way all of these
have arrived after some reads. -/
structure Orderly (conf : SocketConfig L) (s : Link L T) : Prop where
  received_eq : s.arrived.map Prod.snd = s.received.map some
  fifo : ∀ p, (atKey Prod.fst s.arrived p).Sublist (atKey Prod.fst s.written p)
  gapless : ∀ p < conf.msgDropPriority, atKey Prod.fst s.arrived p <+: atKey Prod.fst s.written p
  complete : s.inFlight = [] → s.receiver.stream.toCome = [] → s.sender.queued = [] →
    s.sender.inner.currentWrite = none → ∃ k, ∀ n, k ≤ n → ∀ p < conf.msgDropPriority,
      atKey Prod.fst (s.reads n).arrived p = atKey Prod.fst s.written p

omit [Serde L UInt32] [Serde L T] in
theorem atKey_marked (entries : List (Entry.OfFrame L (Option T))) (p : Priority) :
    atKey Prod.fst (entries.map fun e => (e.priority, e.msg.label.note)) p =
      (atKey Entry.priority entries p).map fun e => (e.priority, e.msg.label.note) := by
  rw [atKey, List.filter_map, atKey]
  rfl

private theorem reads_sender (n : Nat) : ∀ s : Link L T, (s.reads n).sender = s.sender := by
  induction n with
  | zero => intro s; rfl
  | succ n ih =>
      intro s
      show ((s.step .read).reads n).sender = _
      rw [ih]
      rfl

variable {conf : SocketConfig L} {s : Link L T}

/-- A faithful link over a sender that keeps the order is orderly. -/
private theorem Faithful.orderly (h : s.Faithful) (hkeeps : s.sender.PerPriority conf) :
    s.Orderly conf where
  received_eq := by
    have hlen : (s.received.map some).length = s.received.length := List.length_map _
    have hreceived := List.prefix_iff_eq_take.mp h.in_order
    rw [hlen, sent, ← List.map_take] at hreceived
    rw [hreceived, arrived, List.map_map]
    rfl
  fifo p := by
    rw [arrived, written, atKey_marked, atKey_marked]
    have htaken : (s.sender.dequeued.take s.received.length).Sublist
        (s.sender.dequeued ++ s.sender.queued) :=
      (List.take_sublist _ _).trans (List.sublist_append_left _ _)
    exact ((htaken.filter _).trans (hkeeps.fifo p)).map _
  gapless p hp := by
    rw [arrived, written, atKey_marked, atKey_marked, ← hkeeps.gapless p hp]
    have htaken : s.sender.dequeued.take s.received.length <+:
        s.sender.dequeued ++ s.sender.queued :=
      (List.take_prefix _ _).trans (List.prefix_append _ _)
    exact (htaken.filter _).map _
  complete := by
    intro hflight hcome hqueued hcurrent
    obtain ⟨k, hk⟩ := h.complete hflight hcome
    refine ⟨k, fun n hn p hp => ?_⟩
    have hall := hk n hn
    have hunsent : s.unsent = [] := by rw [unsent, hcurrent]
    have hlen : (s.reads n).received.length = s.sender.dequeued.length := by
      have hlen := congrArg List.length hall
      rwa [hunsent, List.append_nil, List.length_map, sent, List.length_map] at hlen
    have hkept := hkeeps.gapless p hp
    rw [hqueued, List.append_nil] at hkept
    rw [arrived, written, atKey_marked, atKey_marked, reads_sender, hlen, List.take_length, hkept]

/-- The sender keeps the order throughout. -/
private theorem always_perPriority (writeResults : List (IoResult Nat))
    (sendConf recvConf : SocketConfig L) (ops : List (LinkOp L T)) :
    Always step (fun s => s.sender.PerPriority sendConf)
      (start writeResults sendConf recvConf) ops := by
  refine always_of_step (Sender.perPriority_start writeResults) fun s op h => ?_
  cases op with
  | write clock nonces msg => exact h.write clock nonces (msg.map Prod.fst) msg
  | deliver n =>
      simp only [Link.step]
      split
      · exact h
      · exact h
  | stop e => exact h
  | read => exact h

/-- A link over streams that are never broken is faithful and orderly. -/
theorem always_orderly [LawfulSerde L UInt32] [LawfulSizeHeader L] [LawfulSerde L T]
    {sendConf recvConf : SocketConfig L} (hmatch : Matching sendConf.encCtx recvConf.decCtx)
    {writeResults : List (IoResult Nat)} (hsoft : ∀ a ∈ writeResults, IoResult.isHard a = false)
    {ops : List (LinkOp L T)} (hops : ∀ op ∈ ops, op.Fits sendConf recvConf) :
    Always step (fun s => s.Faithful ∧ s.Orderly sendConf)
      (start writeResults sendConf recvConf) ops := by
  have hlinked := always_linked hmatch hsoft hops
  have hkeeps := always_perPriority writeResults sendConf recvConf ops
  refine (hlinked.and hkeeps).mono fun s h => ?_
  have hfaithful := h.1.faithful hmatch
  exact ⟨hfaithful, hfaithful.orderly h.2⟩

end Link

/-- **Messages of one priority arrive in the order in which they were written**, and
protected ones without a gap.  The contexts of the two ends match, the sender's stream
gives no hard errors, every message written has a payload the receiver delivers
(`LinkOp.Fits`: at least a byte, and no more than its limit), and the network's errors
are `WouldBlock` and `Interrupted`.  Then every interleaving of writes, deliveries and
reads is orderly throughout. -/
theorem fifo_per_priority [Serde L UInt32] [Serde L T] [LawfulSerde L UInt32]
    [LawfulSizeHeader L] [LawfulSerde L T] {sendConf recvConf : SocketConfig L}
    (hmatch : Matching sendConf.encCtx recvConf.decCtx) (writeResults : List (IoResult Nat))
    (hsoft : ∀ a ∈ writeResults, IoResult.isHard a = false) (ops : List (LinkOp L T))
    (hops : ∀ op ∈ ops, op.Fits sendConf recvConf) :
    Always Link.step (Link.Orderly sendConf) (.start writeResults sendConf recvConf) ops :=
  (Link.always_orderly hmatch hsoft hops).mono fun _ h => h.2

namespace BincodeInstance

/-- Three numbers are written at two priorities while the stream would block; they
are delivered in two segments. -/
def priorityOps : List (LinkOp crates UInt32) :=
  [.write ⟨0, 0⟩ ⟨(1 : UInt8), (2 : UInt8)⟩ (some (5, 1)),
    .write ⟨0, 0⟩ ⟨(1 : UInt8), (2 : UInt8)⟩ (some (6, 1)),
    .write ⟨0, 0⟩ ⟨(1 : UInt8), (2 : UInt8)⟩ (some (7, 0)),
    .deliver 150, .read, .deliver 200, .read, .read, .read]

theorem fifo_per_priority_shared :
    Always Link.step (Link.Orderly sharedConf)
      (.start [.error .wouldBlock, .error .wouldBlock, .ok 200, .ok 200, .ok 200] sharedConf
        sharedConf) priorityOps := by
  have hmatch : Matching sharedConf.encCtx sharedConf.decCtx := .authenticated rfl
  apply fifo_per_priority hmatch _ (by decide) priorityOps
  intro op hop
  simp only [priorityOps, List.mem_cons, List.not_mem_nil, or_false] at hop
  rcases hop with rfl | rfl | rfl | rfl | rfl | rfl | rfl | rfl | rfl
  case inl => exact fits_number _ _ _
  case inr.inl => exact fits_number _ _ _
  case inr.inr.inl => exact fits_number _ _ _
  all_goals trivial

end BincodeInstance

end SocketCollection
