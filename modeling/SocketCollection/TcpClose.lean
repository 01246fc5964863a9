import SocketCollection.TcpPolling

/-!
# The end of a connection

When a socket is dropped its stream is shut down, and the other end reads no bytes
from then on.  `read` reports this as `ZeroByteRead`, but only when it has nothing
else to return: a handler that is told of the end still gets every message that was
sent as a whole, each by a read of its own, and then the error.

A message counts as sent when the sender takes it off its out queue (`Link.sent`).
What is lost with the sender is the message it was writing, and all that still waits
in the queue.

The end is handed out once for each read of the stream, like any other answer, and
a call that finds the end behind some bytes has used one of them up when it returns
a message.  So the stream is `Ending` with as many ends as there may be calls.

## Main result

* `closing_drains`: at any time, if the connection ends, one poll returns what is
  missing and then the end.
-/

namespace SocketCollection

open Runs LenDelimitedReader

variable {L : Crates} {T G : Type}

namespace TcpStream

/-- The stream hands over some bytes, and then `n` times the end. -/
def Ending (n : Nat) (s : TcpStream) : Prop :=
  ∃ segments, s.readResults = segments ++ List.replicate n (.ok []) ∧
    ∀ a ∈ segments, ∃ b bytes, a = .ok (b :: bytes)

/-- What a read of such a stream can do. -/
private inductive ReadsEnding (n : Nat) (s : TcpStream) : IoResult Bytes → TcpStream → Prop
  | segment {bytes s'} (hne : bytes ≠ []) (hcome : s.toCome = bytes ++ s'.toCome)
      (h : s'.Ending (n + 1)) : ReadsEnding n s (.ok bytes) s'
  | ends {s'} (hcome : s.toCome = []) (hcome' : s'.toCome = []) (h : s'.Ending n) :
      ReadsEnding n s (.ok []) s'

/-- The ends are no bytes. -/
private theorem toCome_ends (s : TcpStream) (n : Nat) :
    toCome { s with readResults := s.readResults ++ List.replicate n (.ok []) } = s.toCome := by
  simp [toCome]

private theorem Ending.reads {n : Nat} {s : TcpStream} (h : s.Ending (n + 1)) :
    ReadsEnding n s s.read.1 s.read.2 := by
  obtain ⟨accepted, answered, writeResults, readResults⟩ := s
  obtain ⟨_ | ⟨first, rest⟩, hscript, hsegments⟩ := h
  · replace hscript : readResults = .ok [] :: List.replicate n (.ok []) := hscript
    subst hscript
    have hends : ∀ m, toCome ⟨accepted, answered, writeResults, List.replicate m (.ok [])⟩ = [] :=
      toCome_ends ⟨accepted, answered, writeResults, []⟩
    exact .ends (hends (n + 1)) (hends n) ⟨[], rfl, nofun⟩
  · obtain ⟨b, bytes, rfl⟩ := hsegments first List.mem_cons_self
    replace hscript : readResults = .ok (b :: bytes) :: (rest ++ List.replicate (n + 1) (.ok [])) :=
      hscript
    subst hscript
    have hrest : ∀ a ∈ rest, ∃ b bytes, a = .ok (b :: bytes) :=
      fun a ha => hsegments a (List.mem_cons_of_mem _ ha)
    simp only [read]
    split
    · exact .segment (List.cons_ne_nil b bytes) (by simp [toCome]) ⟨rest, rfl, hrest⟩
    · next hlong =>
        -- the reading window is full, and the rest of the segment stays
        obtain ⟨c, kept, hkept⟩ := List.exists_cons_of_ne_nil
          (List.ne_nil_of_length_pos (l := (b :: bytes).drop readWindow)
            (by rw [List.length_drop]; omega))
        refine .segment (List.cons_ne_nil b _) ?_
          ⟨.ok ((b :: bytes).drop readWindow) :: rest, rfl, ?_⟩
        · simp only [toCome, List.flatMap_cons]
          rw [← List.append_assoc, List.take_append_drop]
        · rw [List.forall_mem_cons]
          exact ⟨⟨c, kept, congrArg _ hkept⟩, hrest⟩

end TcpStream

/-! ## One call -/

namespace Inner

variable [Serde L UInt32] [Serde L T] {maxPayloadSize : Nat}

/-- A call at the end of a stream returns the next message, or reports the end
when there is no whole one left.  `later` are bytes that will never come. -/
private inductive ReadsEnd (n : Nat) (later : Bytes) (ps : List (Parcel L T maxPayloadSize))
    (ctx : DecryptContext L) : Res L (Option T) → Inner L G → Prop
  | message {i p rest} (m : Nat) (hle : n ≤ m) (hps : ps = p :: rest) (hend : i.stream.Ending m)
      (hctx : i.msgReader.decCtx = ctx)
      (h : Awaiting (i.stream.toCome ++ later) i.msgReader rest) :
      ReadsEnd n later ps ctx (.ok (some p.value)) i
  | ended {i} (h : Awaiting later i.msgReader ps)
      (hmore : ∀ p rest, ps = p :: rest → (wire rest).length < later.length) :
      ReadsEnd n later ps ctx (.error .zeroByteRead) i

/-- The loop's invariant. -/
private structure ReadingEnds (n : Nat) (later : Bytes) (ps : List (Parcel L T maxPayloadSize))
    (ctx : DecryptContext L) (s : Reading L G) : Prop where
  ending : s.inner.stream.Ending (n + 1)
  decCtx : s.inner.msgReader.decCtx = ctx
  awaiting : Awaiting (s.inner.stream.toCome ++ later) s.inner.msgReader ps
  idle : s.isSomethingRead = false → ∀ p rest, ps = p :: rest →
    (wire rest).length < (s.inner.stream.toCome ++ later).length

variable [LawfulSerde L UInt32] [LawfulSizeHeader L] [LawfulSerde L T] {n : Nat} {later : Bytes}
  {ps : List (Parcel L T maxPayloadSize)} {ctx : DecryptContext L}

private theorem ReadingEnds.round {s : Reading L G} (h : ReadingEnds n later ps ctx s)
    (htuned : ∀ p, ps.head? = some p → Matching p.encCtx ctx) :
    match readRound T s with
    | (s', none) => ReadingEnds n later ps ctx s'
    | (s', some res) => ReadsEnd n later ps ctx res s'.inner := by
  have hreads := h.ending.reads
  have hawait := h.awaiting
  have hidle := h.idle
  unfold readRound
  generalize s.inner.stream.read = answer at hreads
  obtain ⟨res, stream⟩ := answer
  cases hreads with
  | @segment bytes _ hne hcome hend =>
      have hlen : bytes.length ≠ 0 := fun h0 => hne (List.length_eq_zero_iff.mp h0)
      rw [hcome, List.append_assoc] at hawait
      simp only [hlen, if_false]
      exact ⟨hend, h.decCtx, hawait.putBuf, nofun⟩
  | ends hcome hcome' hend =>
      rw [hcome, List.nil_append] at hawait hidle
      simp only [List.length_nil, if_true]
      cases hsome : s.isSomethingRead with
      | false => exact .ended hawait (hidle hsome)
      | true =>
          have hmatch : Tuned s.inner.msgReader ps := by
            rw [Tuned, h.decCtx]
            exact htuned
          have hout := hawait.tryRead hmatch
          have hctx := (LenDelimitedReader.tryRead_decCtx (T := T) s.inner.msgReader).trans h.decCtx
          simp only [tryRead, if_true]
          generalize s.inner.msgReader.tryRead T = out at hout hctx
          obtain ⟨res, r'⟩ := out
          cases hout with
          | delivered hps hnext =>
              refine .message n (Nat.le_refl n) hps hend hctx ?_
              rwa [hcome', List.nil_append]
          | waiting hnext hmore => exact .ended hnext hmore

/-- **A call of `read` at the end of a stream.** -/
private theorem read_ending {i : Inner L G} (hend : i.stream.Ending (n + 1))
    (hawait : Awaiting (i.stream.toCome ++ later) i.msgReader ps) (htuned : Tuned i.msgReader ps) :
    ReadsEnd n later ps i.msgReader.decCtx (i.read T).1 (i.read T).2 := by
  have hout := hawait.tryRead htuned
  have hctx := LenDelimitedReader.tryRead_decCtx (T := T) i.msgReader
  simp only [read, tryRead]
  generalize i.msgReader.tryRead T = first at hout hctx
  obtain ⟨res, r'⟩ := first
  cases hout with
  | delivered hps hnext => exact .message (n + 1) (Nat.le_succ n) hps hend hctx hnext
  | waiting hnext hmore =>
      have hstart : ReadingEnds n later ps i.msgReader.decCtx
          ⟨{ i with msgReader := r' }, false⟩ := ⟨hend, hctx, hnext, fun _ => hmore⟩
      refine (readLoop T).exec_rule (ReadingEnds n later ps i.msgReader.decCtx)
        (fun s res => ReadsEnd n later ps i.msgReader.decCtx res s.inner) ?_ ?_ _ hstart
      · intro s s' hs hbody
        have hround := hs.round htuned
        replace hbody : readRound T s = (s', none) := hbody
        rwa [hbody] at hround
      · intro s s' res hs hbody
        have hround := hs.round htuned
        replace hbody : readRound T s = (s', some res) := hbody
        rwa [hbody] at hround

/-! ## One poll -/

/-- **A poll at the end of a stream** returns the messages that are there as a
whole, and then the end. -/
theorem poll_ending {i : Inner L G} (hlt : ps.length < n) (hend : i.stream.Ending n)
    (hawait : Awaiting (i.stream.toCome ++ later) i.msgReader ps)
    (htuned : ∀ p ∈ ps, Matching p.encCtx i.msgReader.decCtx) :
    ∃ done rest r, ps = done ++ rest ∧
      (i.poll T).results = done.map (fun p => .ok (some p.value)) ++ [.error .zeroByteRead] ∧
        Awaiting later r rest ∧
          ∀ p more, rest = p :: more → (wire more).length < later.length := by
  refine (pollLoop T).exec_rule
    (fun s => ∃ done rest m, ps = done ++ rest ∧ rest.length < m ∧ s.inner.stream.Ending m ∧
      s.results = done.map (fun p => .ok (some p.value)) ∧
      (∀ p ∈ rest, Matching p.encCtx s.inner.msgReader.decCtx) ∧
      Awaiting (s.inner.stream.toCome ++ later) s.inner.msgReader rest)
    (fun s _ => ∃ done rest r, ps = done ++ rest ∧
      s.results = done.map (fun p => .ok (some p.value)) ++ [.error .zeroByteRead] ∧
        Awaiting later r rest ∧
          ∀ p more, rest = p :: more → (wire more).length < later.length)
    ?_ ?_ ⟨i, []⟩ ⟨[], ps, n, rfl, hlt, hend, rfl, htuned, hawait⟩
  · rintro s s' ⟨done, rest, m, hsplit, hrest, hending, hresults, hmatch, hawaits⟩ hbody
    obtain ⟨k, rfl⟩ : ∃ k, m = k + 1 := ⟨m - 1, by omega⟩
    have hreads := read_ending hending hawaits fun p hp => hmatch p (List.mem_of_head? hp)
    replace hbody : pollRound T s = (s', none) := hbody
    rw [pollRound_eq] at hbody
    obtain ⟨rfl, hnone⟩ := Prod.mk.inj hbody
    generalize s.inner.read T = answer at hreads hnone
    obtain ⟨res, i'⟩ := answer
    cases hreads with
    | @message _ p rest' m' hle hps hend' hctx' hnext =>
        subst hps
        refine ⟨done ++ [p], rest', m', ?_, ?_, hend', ?_, fun q hq => ?_, hnext⟩
        · simpa using hsplit
        · rw [List.length_cons] at hrest
          omega
        · simp [hresults]
        · rw [hctx']
          exact hmatch q (List.mem_cons_of_mem _ hq)
    | ended => cases hnone
  · rintro s s' res ⟨done, rest, m, hsplit, hrest, hending, hresults, hmatch, hawaits⟩ hbody
    obtain ⟨k, rfl⟩ : ∃ k, m = k + 1 := ⟨m - 1, by omega⟩
    have hreads := read_ending hending hawaits fun p hp => hmatch p (List.mem_of_head? hp)
    replace hbody : pollRound T s = (s', some res) := hbody
    rw [pollRound_eq] at hbody
    obtain ⟨rfl, hsome⟩ := Prod.mk.inj hbody
    generalize s.inner.read T = answer at hreads hsome
    obtain ⟨res', i'⟩ := answer
    cases hreads with
    | message => cases hsome
    | ended hlater hmore => exact ⟨done, rest, _, hsplit, by rw [hresults], hlater, hmore⟩

end Inner

/-! ## A link that is closed -/

namespace Link

variable [Serde L UInt32] [Serde L T]

/-- The stream is at its end: it will say so `n` times. -/
def hangUp (s : Link L T) (n : Nat) : Link L T :=
  { s with receiver := { s.receiver with stream := { s.receiver.stream with
      readResults := s.receiver.stream.readResults ++ List.replicate n (.ok []) } } }

/-- If the rest of what was accepted is handed over now, and then the end, one poll
returns all messages that are missing and then reports the end.  Missing are those
taken off the sender's out queue and not yet returned, but for the one that was being
written; those that are still in the queue will not come either. -/
def Closes (s : Link L T) : Prop :=
  ∀ n, s.sent.length < n → ∃ missing : List T,
    s.received.map some ++ missing.map some ++ s.unsent = s.sent ∧
      ((s.step (.deliver s.inFlight.length)).hangUp n).poll.results =
        s.results ++ missing.map (fun m => .ok (some m)) ++ [.error .zeroByteRead]

/-- What is left when the rest has been handed over. -/
structure HandedOver (s t : Link L T) : Prop where
  sender : t.sender = s.sender
  results : t.results = s.results
  inFlight : t.inFlight = []

theorem handedOver_deliver (s : Link L T) :
    s.HandedOver (s.step (.deliver s.inFlight.length)) := by
  simp only [step, List.take_length]
  cases hflight : s.inFlight with
  | nil => exact ⟨rfl, rfl, hflight⟩
  | cons b bytes =>
      refine ⟨rfl, rfl, ?_⟩
      show s.sender.inner.stream.accepted.drop (s.handedOver + (b :: bytes).length) = []
      rw [← List.drop_drop]
      show s.inFlight.drop (b :: bytes).length = []
      rw [hflight, List.drop_length]

omit [Serde L UInt32] [Serde L T] in
private theorem toCome_hangUp (s : Link L T) (n : Nat) :
    (s.hangUp n).receiver.stream.toCome = s.receiver.stream.toCome :=
  s.receiver.stream.toCome_ends n

omit [Serde L UInt32] [Serde L T] in
/-- A clean stream without interruptions hands over bytes until it is hung up. -/
private theorem ending_hangUp {s : Link L T} (hclean : s.receiver.stream.Clean)
    (hsegments : s.receiver.OnlySegments) (n : Nat) : (s.hangUp n).receiver.stream.Ending n := by
  refine ⟨s.receiver.stream.readResults, rfl, fun a ha => ?_⟩
  obtain ⟨bytes, rfl⟩ := hsegments a ha
  have hne : bytes ≠ [] := hclean _ ha
  obtain ⟨b, rest, rfl⟩ := List.exists_cons_of_ne_nil hne
  exact ⟨b, rest, rfl⟩

variable [LawfulSerde L UInt32] [LawfulSizeHeader L] [LawfulSerde L T]
  {sendConf recvConf : SocketConfig L} {s : Link L T}

/-- **Once everything has been handed over.** -/
private theorem Polled.hangUp (h : s.Polled sendConf recvConf)
    (hmatch : Matching sendConf.encCtx recvConf.decCtx) (hflight : s.inFlight = []) {n : Nat}
    (hn : s.sent.length < n) :
    ∃ missing : List T, s.received.map some ++ missing.map some ++ s.unsent = s.sent ∧
      (s.hangUp n).poll.results =
        s.results ++ missing.map (fun m => .ok (some m)) ++ [.error .zeroByteRead] := by
  obtain ⟨done, rest, hconveys, hreceived, hawait⟩ := h.linked.awaiting
  have hsent := sent_eq hconveys hreceived
  have hlater : s.notHandedOver = s.sender.inner.pending := by
    rw [notHandedOver_eq h.linked.flows h.linked.handedOver_le, hflight, List.nil_append]
  rw [hlater, ← s.toCome_hangUp n] at hawait
  have htuned : ∀ p ∈ rest, Matching p.encCtx (s.hangUp n).receiver.msgReader.decCtx := by
    intro p hp
    show Matching p.encCtx s.receiver.msgReader.decCtx
    rw [h.linked.parcels hconveys p (List.mem_append_right _ hp), h.linked.decCtx]
    exact hmatch
  have hlt : rest.length < n := by
    have hlen := congrArg List.length hsent
    rw [List.length_append, List.length_map, List.length_map] at hlen
    omega
  obtain ⟨returned, left, r, hsplit, hresults, hnext, hmore⟩ :=
    Inner.poll_ending hlt (ending_hangUp h.linked.clean h.segments n) hawait htuned
  refine ⟨returned.map Parcel.value, ?_, ?_⟩
  · -- what is left is the message that is being written, if there is one
    have hleft : left.map (fun p => some p.value) = s.unsent := by
      cases left with
      | nil => exact (h.linked.unsent_length.mp hnext.eq_nil).symm
      | cons p more =>
          rw [hsplit, ← List.append_assoc] at hconveys
          obtain ⟨rfl, hunsent⟩ := h.linked.only_unsent hconveys (hmore p more rfl)
          exact hunsent.symm
    rw [hsent, hsplit, ← hleft, List.map_append, List.map_map, List.append_assoc]
    rfl
  · show s.results ++ ((s.hangUp n).receiver.poll T).results = _
    rw [hresults, List.map_map, List.append_assoc]
    rfl

private theorem Polled.closes (h : s.Polled sendConf recvConf)
    (hmatch : Matching sendConf.encCtx recvConf.decCtx) : s.Closes := by
  intro n hn
  obtain ⟨hsender, hresults, hflight⟩ := s.handedOver_deliver
  have hfits : (PollOp.deliver s.inFlight.length : PollOp L T).Fits sendConf recvConf := trivial
  have hdelivered : (s.step (.deliver s.inFlight.length)).Polled sendConf recvConf :=
    h.pollStep hmatch hfits
  generalize s.step (.deliver s.inFlight.length) = t at hsender hresults hflight hdelivered ⊢
  have hsent : t.sent = s.sent := by rw [sent, sent, hsender]
  rw [← hsent] at hn
  obtain ⟨missing, hmissing, hpoll⟩ := hdelivered.hangUp hmatch hflight hn
  refine ⟨missing, ?_, hresults ▸ hpoll⟩
  rwa [hsent, received, hresults, unsent, hsender] at hmissing

end Link

/-- **A connection that ends has delivered all that was sent.**  The contexts match,
the sender's stream gives no hard errors, and every message written has a payload the
receiver delivers.  At any point of any interleaving of writes, deliveries and polls,
let the rest of the bytes arrive and then the end: one poll returns every message that
is missing, in order, and then `ZeroByteRead`.  Of the messages the sender has taken
off its out queue only the one being written is lost; those it has not taken are lost
with it. -/
theorem closing_drains [Serde L UInt32] [Serde L T] [LawfulSerde L UInt32] [LawfulSizeHeader L]
    [LawfulSerde L T] {sendConf recvConf : SocketConfig L}
    (hmatch : Matching sendConf.encCtx recvConf.decCtx) (writeResults : List (IoResult Nat))
    (hsoft : ∀ a ∈ writeResults, IoResult.isHard a = false) (ops : List (PollOp L T))
    (hops : ∀ op ∈ ops, op.Fits sendConf recvConf) :
    Always Link.pollStep Link.Closes (.start writeResults sendConf recvConf) ops :=
  (Link.always_polled hmatch hsoft hops).mono fun _ h => h.closes hmatch

namespace BincodeInstance

/-- Two numbers are written; the stream takes the first frame, and of the second one
only a part. -/
def closingOps : List (PollOp crates UInt32) :=
  [.write ⟨0, 0⟩ ⟨(1 : UInt8), (2 : UInt8)⟩ (some (5, 0)), .deliver 60, .poll,
    .write ⟨0, 0⟩ ⟨(1 : UInt8), (2 : UInt8)⟩ (some (6, 0)), .deliver 10]

theorem closing_drains_shared :
    Always Link.pollStep Link.Closes
      (.start [.ok 104, .ok 50] sharedConf sharedConf) closingOps := by
  have hmatch : Matching sharedConf.encCtx sharedConf.decCtx := .authenticated rfl
  apply closing_drains hmatch _ (by decide) closingOps
  intro op hop
  simp only [closingOps, List.mem_cons, List.not_mem_nil, or_false] at hop
  rcases hop with rfl | rfl | rfl | rfl | rfl
  case inl => exact fits_number ⟨0, 0⟩ ⟨(1 : UInt8), (2 : UInt8)⟩ (5, 0)
  case inr.inr.inr.inl => exact fits_number ⟨0, 0⟩ ⟨(1 : UInt8), (2 : UInt8)⟩ (6, 0)
  all_goals trivial

end BincodeInstance

end SocketCollection
