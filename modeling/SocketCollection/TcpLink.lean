import SocketCollection.TcpIntegrity
import SocketCollection.TcpReceiver

/-!
# Two TCP sockets joined by a byte stream

A sending and a receiving socket joined by a reliable byte stream, and any
interleaving of the sender's writes, the network's deliveries and the
receiver's reads (`Link`).

The two ends are related through the parcels the sender has taken off its
queue.  The sender's side is that its byte stream flows (`Sender.Flows`) and
that every frame is that of a parcel (`Sender.Packed`); the receiver's side is
that it has returned the first parcels and awaits the others, in its buffer, in
the network and still pending at the sender (`Link.Joined`).

Nothing here says which contexts the two ends use.  What a read needs is that
the receiver is `Attuned`: its context is that of the next parcel.

## Main results

* `Joined.write`, `Joined.deliver`, `Joined.stop`, `Joined.read`: every step
  keeps the two ends joined.
* `Joined.read_none_iff`: once nothing is left in the network, a read returns
  nothing exactly when every message but the one being written has been returned.
-/

namespace SocketCollection

open Runs

variable {L : Crates} {T : Type} [Serde L UInt32] [Serde L T]

/-! ## The system -/

/-- Two sockets and the network between them: how many of the bytes accepted
have been handed to the receiver's stream, and what the receiver's reads have
returned so far. -/
structure Link (L : Crates) (T : Type) where
  sender : Sender L (Option T)
  receiver : Inner L Unit
  handedOver : Nat
  results : List (Res L (Option T))

/-- A step of one of the parties. -/
inductive LinkOp (L : Crates) (T : Type)
  | write (clock : Clock) (nonces : FrameNonces L) (msg : Option (T × Priority))
  | deliver (n : Nat)
  | stop (e : IoError)
  | read

/-- The stream has one more answer to give. -/
def Inner.offer {G : Type} (i : Inner L G) (answer : IoResult Bytes) : Inner L G :=
  { i with stream := { i.stream with readResults := i.stream.readResults ++ [answer] } }

namespace Link

def start (writeResults : List (IoResult Nat)) (sendConf recvConf : SocketConfig L) :
    Link L T where
  sender := .start writeResults sendConf
  receiver := Inner.newWithConf (TcpStream.scripted [] []) recvConf
  handedOver := 0
  results := []

/-- The bytes accepted by the sender's stream that the network still has. -/
def inFlight (s : Link L T) : Bytes := s.sender.inner.stream.accepted.drop s.handedOver

/-- The network hands these bytes to the receiver's stream, as one segment. -/
def handOver (s : Link L T) (segment : Bytes) : Link L T :=
  { s with
    receiver := s.receiver.offer (.ok segment)
    handedOver := s.handedOver + segment.length }

/-- One step: a call on the sender, which notes the message in its frame; the
arrival of some bytes, as one segment; a read that is going to be answered
with an error; or a call on the receiver. -/
def step (s : Link L T) : LinkOp L T → Link L T
  | .write clock nonces msg =>
      { s with sender := s.sender.write clock nonces (msg.map Prod.fst) msg }
  | .deliver n =>
      match s.inFlight.take n with
      | [] => s
      | b :: bytes => s.handOver (b :: bytes)
  | .stop e => { s with receiver := s.receiver.offer (.error e) }
  | .read =>
      let (res, receiver) := s.receiver.read T
      { s with receiver := receiver, results := s.results ++ [res] }

/-- The receiver reads `n` times more. -/
def reads (s : Link L T) (n : Nat) : Link L T := (List.replicate n .read).foldl step s

/-- The messages in the order in which the sender took them. -/
def sent (s : Link L T) : List (Option T) := s.sender.dequeued.map fun e => e.msg.label.note

/-- The message whose frame is still being written. -/
def unsent (s : Link L T) : List (Option T) :=
  match s.sender.inner.currentWrite with
  | some data => [data.label.note]
  | none => []

/-- The messages the receiver has returned. -/
def received (s : Link L T) : List T := delivered s.results

end Link

/-! ## Parcels and entries -/

section Conveys

variable {maxPayloadSize : Nat}

/-- The entries are those of the parcels: the same frames, for the same messages,
under the same contexts. -/
def Conveys (ps : List (Parcel L T maxPayloadSize)) (entries : List (Entry.OfFrame L (Option T))) :
    Prop :=
  (ps.map fun p => (p.frame, some p.value, p.encCtx)) =
    entries.map fun e => (e.msg.bytes, e.msg.label.note, e.msg.label.encCtx)

namespace Conveys

variable {ps qs : List (Parcel L T maxPayloadSize)}
  {entries more : List (Entry.OfFrame L (Option T))}

theorem append (h : Conveys ps entries) (h' : Conveys qs more) :
    Conveys (ps ++ qs) (entries ++ more) := by
  rw [Conveys, List.map_append, List.map_append, h, h']

theorem frames_eq (h : Conveys ps entries) :
    ps.map Parcel.frame = entries.map fun e => e.msg.bytes := by
  have hframes := congrArg (List.map Prod.fst) h
  simpa [Function.comp_def] using hframes

theorem wire_eq (h : Conveys ps entries) : wire ps = frames entries := by
  rw [wire, frames, List.flatMap_def, List.flatMap_def, h.frames_eq]

theorem values_eq (h : Conveys ps entries) :
    ps.map (fun p => some p.value) = entries.map fun e => e.msg.label.note := by
  have hvalues := congrArg (List.map fun mark => mark.2.1) h
  simpa [Function.comp_def] using hvalues

/-- What holds of the contexts of the entries, holds of those of the parcels. -/
theorem forall_encCtx {P : EncryptContext L → Prop} (h : Conveys ps entries)
    (hall : ∀ e ∈ entries, P e.msg.label.encCtx) : ∀ p ∈ ps, P p.encCtx := by
  have hctxs : ps.map Parcel.encCtx = entries.map fun e => e.msg.label.encCtx := by
    have hmarks := congrArg (List.map fun mark => mark.2.2) h
    simpa [Function.comp_def] using hmarks
  intro p hp
  have hmem : p.encCtx ∈ ps.map Parcel.encCtx := List.mem_map_of_mem hp
  rw [hctxs] at hmem
  obtain ⟨e, he, hctx⟩ := List.mem_map.mp hmem
  rw [← hctx]
  exact hall e he

theorem exists_of_forall
    (h : ∀ e ∈ entries, ∃ p : Parcel L T maxPayloadSize, Conveys [p] [e]) :
    ∃ ps : List (Parcel L T maxPayloadSize), Conveys ps entries := by
  induction entries with
  | nil => exact ⟨[], rfl⟩
  | cons e entries ih =>
      obtain ⟨p, hp⟩ := h e List.mem_cons_self
      obtain ⟨ps, hps⟩ := ih fun e he => h e (List.mem_cons_of_mem _ he)
      exact ⟨p :: ps, hp.append hps⟩

/-- The last parcel is that of the last entry. -/
theorem last {p : Parcel L T maxPayloadSize} {e : Entry.OfFrame L (Option T)}
    (h : Conveys (ps ++ [p]) (entries ++ [e])) :
    p.frame = e.msg.bytes ∧ some p.value = e.msg.label.note := by
  have hlast := congrArg List.getLast? h
  rw [List.map_append, List.map_append] at hlast
  simp only [List.map_cons, List.map_nil, List.getLast?_concat, Option.some.injEq,
    Prod.mk.injEq] at hlast
  exact ⟨hlast.1, hlast.2.1⟩

theorem single {p : Parcel L T maxPayloadSize} {e : Entry.OfFrame L (Option T)}
    (h : Conveys [p] [e]) : p.frame = e.msg.bytes := List.singleton_inj.mp h.frames_eq

end Conveys

end Conveys

/-! ## The sender's side -/

namespace Sender

variable {maxPayloadSize : Nat} {s : Sender L (Option T)}

/-- Everything the sender has taken or queued is a parcel, and what it keeps for
later is the end of the frame taken last. -/
structure Packed (maxPayloadSize : Nat) (s : Sender L (Option T)) : Prop where
  parcels : ∀ e ∈ s.dequeued ++ s.queued, ∃ p : Parcel L T maxPayloadSize, Conveys [p] [e]
  current : ∀ data, s.inner.currentWrite = some data → ∃ before e,
    s.dequeued = before ++ [e] ∧ data.label = e.msg.label ∧
      data.bytes <:+ e.msg.bytes ∧ 0 < data.bytes.length

theorem packed_start (writeResults : List (IoResult Nat)) (conf : SocketConfig L) :
    (start writeResults conf : Sender L (Option T)).Packed maxPayloadSize where
  parcels e he := by simp at he
  current data hdata := by simp [start, Inner.newWithConf] at hdata

private theorem Packed.dropExpired (h : s.Packed maxPayloadSize) (now : Instant) :
    (s.dropExpired now).Packed maxPayloadSize where
  parcels e he := h.parcels e ((s.dropExpired_sublist now).subset he)
  current := h.current

private theorem Packed.push (h : s.Packed maxPayloadSize) {e : Entry.OfFrame L (Option T)}
    (he : ∃ p : Parcel L T maxPayloadSize, Conveys [p] [e]) :
    (s.push e).Packed maxPayloadSize where
  parcels := forall_push h.parcels he
  current := h.current

private theorem Packed.round (h : s.Packed maxPayloadSize) : s.round.Packed maxPayloadSize where
  parcels := by
    rw [round_entries]
    exact h.parcels
  current := by
    have hrounds := s.rounds_round
    generalize s.round = s' at hrounds
    cases hrounds with
    | idle => exact h.current
    | remainder hcurrent hwrites =>
        intro kept hkept
        obtain ⟨before, e, hdequeued, hlabel, hsuffix, hpos⟩ := h.current _ hcurrent
        obtain ⟨hlabel', hsuffix', hpos'⟩ := hwrites.current rfl kept hkept
        exact ⟨before, e, hdequeued, hlabel'.trans hlabel, hsuffix'.trans hsuffix, hpos' hpos⟩
    | @entry e q i out hcurrent hqueued hconf hwrites =>
        intro kept hkept
        obtain ⟨p, hp⟩ := h.parcels e (List.mem_append_right _ (by simp [hqueued]))
        have hpos := p.frame_pos
        rw [hp.single] at hpos
        obtain ⟨hlabel, hsuffix, hpos'⟩ := hwrites.current hcurrent kept hkept
        exact ⟨s.dequeued, e, rfl, hlabel, hsuffix, hpos' hpos⟩

/-- A message whose payload is one the receiver delivers is written as a parcel. -/
theorem Packed.write (h : s.Packed maxPayloadSize) {clock : Clock} {nonces : FrameNonces L}
    {msg : Option (T × Priority)}
    (hfits : ∀ m priority, msg = some (m, priority) → ∀ payload,
      s.inner.encCtx.encrypt nonces.payload m = .ok payload → 0 < payload.length ∧
        payload.length ≤ maxPayloadSize ∧ payload.length < 2 ^ 32) :
    (s.write clock nonces (msg.map Prod.fst) msg).Packed maxPayloadSize := by
  refine write_rule h (fun h => h.dropExpired _) ?_ (fun _ h => h.round)
  rintro s' m priority buf rfl hctx - hser h'
  apply h'.push
  obtain ⟨header, payload, hpayload, -, -⟩ := serializeWithLen_ok hser
  obtain ⟨hpos, hle, hu32⟩ := hfits m priority rfl payload (hctx ▸ hpayload)
  exact ⟨⟨m, s'.inner.encCtx, nonces, payload, buf, hpayload, hser, hpos, hle, hu32⟩, rfl⟩

end Sender

/-- A call takes more entries, and more bytes are accepted. -/
theorem write_grows (s : Sender L (Option T)) (clock : Clock) (nonces : FrameNonces L)
    (note : Option T) (msg : Option (T × Priority)) :
    s.dequeued <+: (s.write clock nonces note msg).dequeued ∧
      s.inner.stream.accepted <+: (s.write clock nonces note msg).inner.stream.accepted := by
  refine Sender.write_rule
    (P := fun s' => s.dequeued <+: s'.dequeued ∧
      s.inner.stream.accepted <+: s'.inner.stream.accepted)
    ⟨List.prefix_refl _, List.prefix_refl _⟩ id (fun _ _ _ _ _ _ _ _ h => h) fun s' h => ?_
  refine ⟨h.1.trans (List.prefix_append _ _), h.2.trans ?_⟩
  have hrounds := s'.rounds_round
  generalize s'.round = s'' at hrounds
  cases hrounds with
  | idle => exact List.prefix_refl _
  | remainder _ hwrites => exact hwrites.accepted
  | entry _ _ _ hwrites => exact hwrites.accepted

/-! ## The two sides together -/

namespace Link

variable {maxPayloadSize : Nat} {s : Link L T}

/-- The bytes the receiver's stream has not been handed yet, those pending at
the sender included. -/
def notHandedOver (s : Link L T) : Bytes := (frames s.sender.dequeued).drop s.handedOver

/-- **The relation between the two ends.**  The receiver has returned the
first of the parcels the sender has taken, and awaits the others. -/
structure Joined (maxPayloadSize : Nat) (s : Link L T) : Prop where
  flows : s.sender.Flows
  packed : s.sender.Packed maxPayloadSize
  handedOver_le : s.handedOver ≤ s.sender.inner.stream.accepted.length
  clean : s.receiver.stream.Clean
  results_ok : ∀ res ∈ s.results, ∃ m, res = .ok m
  awaiting : ∃ done rest : List (Parcel L T maxPayloadSize),
    Conveys (done ++ rest) s.sender.dequeued ∧ s.received = done.map Parcel.value ∧
      Awaiting (s.receiver.stream.toCome ++ s.notHandedOver) s.receiver.msgReader rest

/-- The receiver's context reads the next parcel. -/
def Attuned (maxPayloadSize : Nat) (s : Link L T) : Prop :=
  ∀ done rest : List (Parcel L T maxPayloadSize), Conveys (done ++ rest) s.sender.dequeued →
    s.received = done.map Parcel.value → Tuned s.receiver.msgReader rest

theorem joined_start {writeResults : List (IoResult Nat)}
    (hsoft : ∀ a ∈ writeResults, IoResult.isHard a = false) (sendConf recvConf : SocketConfig L) :
    (start writeResults sendConf recvConf : Link L T).Joined recvConf.maxPayloadSize where
  flows := Sender.flows_start hsoft sendConf
  packed := Sender.packed_start writeResults sendConf
  handedOver_le := Nat.zero_le _
  clean := by simp [start, Inner.newWithConf, TcpStream.scripted, TcpStream.Clean]
  results_ok := by simp [start]
  awaiting := ⟨[], [], rfl, rfl, .header rfl rfl rfl⟩

omit [Serde L UInt32] [Serde L T] in
/-- What the network has, and what is pending behind it. -/
theorem notHandedOver_eq (hflows : s.sender.Flows)
    (hle : s.handedOver ≤ s.sender.inner.stream.accepted.length) :
    s.notHandedOver = s.inFlight ++ s.sender.inner.pending := by
  rw [notHandedOver, ← hflows.stream, List.drop_append_of_le_length hle, inFlight]

omit [Serde L UInt32] [Serde L T] in
theorem toCome_offer {G : Type} (i : Inner L G) (answer : IoResult Bytes) :
    (i.offer answer).stream.toCome = i.stream.toCome ++
      (match answer with | .ok bytes => bytes | .error _ => []) := by
  cases answer <;> simp [Inner.offer, TcpStream.toCome]

omit [Serde L UInt32] [Serde L T] in
theorem clean_offer {G : Type} {i : Inner L G} (h : i.stream.Clean)
    {answer : IoResult Bytes} (hanswer : TcpStream.Harmless answer) :
    (i.offer answer).stream.Clean := by
  show ∀ a ∈ i.stream.readResults ++ [answer], TcpStream.Harmless a
  rw [List.forall_mem_append, List.forall_mem_singleton]
  exact ⟨h, hanswer⟩

/-! ### The steps -/

theorem Joined.write (h : s.Joined maxPayloadSize) {clock : Clock} {nonces : FrameNonces L}
    {msg : Option (T × Priority)}
    (hfits : ∀ m priority, msg = some (m, priority) → ∀ payload,
      s.sender.inner.encCtx.encrypt nonces.payload m = .ok payload → 0 < payload.length ∧
        payload.length ≤ maxPayloadSize ∧ payload.length < 2 ^ 32) :
    (s.step (.write clock nonces msg)).Joined maxPayloadSize := by
  have hpacked : (s.sender.write clock nonces (msg.map Prod.fst) msg).Packed maxPayloadSize :=
    h.packed.write hfits
  have hflows := h.flows.step (.write T clock nonces (msg.map Prod.fst) msg)
  obtain ⟨⟨new, hnew⟩, haccepted⟩ := write_grows s.sender clock nonces (msg.map Prod.fst) msg
  obtain ⟨done, rest, hconveys, hreceived, hawait⟩ := h.awaiting
  obtain ⟨qs, hqs⟩ : ∃ qs : List (Parcel L T maxPayloadSize), Conveys qs new := by
    refine Conveys.exists_of_forall fun e he => hpacked.parcels e (List.mem_append_left _ ?_)
    rw [← hnew]
    exact List.mem_append_right _ he
  refine ⟨hflows, hpacked, Nat.le_trans h.handedOver_le haccepted.length_le, h.clean,
    h.results_ok, done, rest ++ qs, ?_, hreceived, ?_⟩
  · rw [← List.append_assoc]
    show Conveys (done ++ rest ++ qs) (s.sender.write clock nonces _ msg).dequeued
    rw [← hnew]
    exact hconveys.append hqs
  · have hle : s.handedOver ≤ (frames s.sender.dequeued).length := by
      have hlen := congrArg List.length h.flows.stream
      have hover := h.handedOver_le
      rw [List.length_append] at hlen
      omega
    have hmore := hawait.more qs
    rw [hqs.wire_eq, List.append_assoc, notHandedOver, ← List.drop_append_of_le_length hle,
      ← frames_append, hnew] at hmore
    exact hmore

private theorem Joined.handOver (h : s.Joined maxPayloadSize) {segment : Bytes}
    (hne : segment ≠ []) (hsegment : segment <+: s.inFlight) :
    (s.handOver segment).Joined maxPayloadSize := by
  obtain ⟨done, rest, hconveys, hreceived, hawait⟩ := h.awaiting
  obtain ⟨left, hleft⟩ := hsegment
  have hover := h.handedOver_le
  have hlen := congrArg List.length hleft
  simp only [List.length_append, inFlight, List.length_drop] at hlen
  have hsplit : s.notHandedOver = segment ++ (left ++ s.sender.inner.pending) := by
    rw [notHandedOver_eq h.flows hover, ← hleft, List.append_assoc]
  have hafter : (s.handOver segment).notHandedOver = left ++ s.sender.inner.pending := by
    show (frames s.sender.dequeued).drop (s.handedOver + segment.length) = _
    rw [← List.drop_drop]
    show s.notHandedOver.drop segment.length = _
    rw [hsplit, List.drop_left' rfl]
  refine ⟨h.flows, h.packed, ?_, clean_offer h.clean hne, h.results_ok, done, rest, hconveys,
    hreceived, ?_⟩
  · show s.handedOver + segment.length ≤ s.sender.inner.stream.accepted.length
    omega
  · rw [hafter]
    show Awaiting ((s.receiver.offer (.ok segment)).stream.toCome ++ _) _ rest
    rw [toCome_offer, List.append_assoc]
    rwa [hsplit] at hawait

theorem Joined.deliver (h : s.Joined maxPayloadSize) (n : Nat) :
    (s.step (.deliver n)).Joined maxPayloadSize := by
  simp only [step]
  cases hsegment : s.inFlight.take n with
  | nil => exact h
  | cons b bytes => exact h.handOver (List.cons_ne_nil b bytes) (hsegment ▸ List.take_prefix n _)

theorem Joined.stop (h : s.Joined maxPayloadSize) {e : IoError} (he : e.isRetry = true) :
    (s.step (.stop e)).Joined maxPayloadSize := by
  obtain ⟨done, rest, hconveys, hreceived, hawait⟩ := h.awaiting
  refine ⟨h.flows, h.packed, h.handedOver_le, clean_offer h.clean he, h.results_ok, done, rest,
    hconveys, hreceived, ?_⟩
  show Awaiting ((s.receiver.offer (.error e)).stream.toCome ++ s.notHandedOver) _ rest
  rw [toCome_offer, List.append_nil]
  exact hawait

/-- A delivery leaves the sender and the reader alone. -/
theorem deliver_frame (s : Link L T) (n : Nat) :
    (s.step (.deliver n)).sender = s.sender ∧
      (s.step (.deliver n)).receiver.msgReader = s.receiver.msgReader := by
  simp only [step]
  split <;> exact ⟨rfl, rfl⟩

/-! ### What is not sent -/

/-- What is kept at the sender is what is not sent. -/
theorem Joined.unsent_length (h : s.Joined maxPayloadSize) :
    s.sender.inner.pending = [] ↔ s.unsent = [] := by
  cases hcurrent : s.sender.inner.currentWrite with
  | none => simp [Inner.pending, unsent, hcurrent]
  | some data =>
      obtain ⟨_, _, _, _, _, hpos⟩ := h.packed.current data hcurrent
      have hne : data.bytes ≠ [] := List.ne_nil_of_length_pos hpos
      simp [Inner.pending, unsent, hcurrent, hne]

/-- If all that is to come is shorter than the frames behind the first, there
is just the first, and it is the one that is being written. -/
theorem Joined.only_unsent (h : s.Joined maxPayloadSize)
    {done rest : List (Parcel L T maxPayloadSize)} {p : Parcel L T maxPayloadSize}
    (hconveys : Conveys (done ++ p :: rest) s.sender.dequeued)
    (hshort : (wire rest).length < s.sender.inner.pending.length) :
    rest = [] ∧ s.unsent = [some p.value] := by
  cases hcurrent : s.sender.inner.currentWrite with
  | none => simp [Inner.pending, hcurrent] at hshort
  | some data =>
      obtain ⟨before, e, hdequeued, hlabel, hsuffix, -⟩ := h.packed.current data hcurrent
      simp only [Inner.pending, hcurrent] at hshort
      have hle := hsuffix.length_le
      rw [hdequeued] at hconveys
      -- were there more frames, the last of them alone would be as long as what is kept
      rcases List.eq_nil_or_concat' rest with rfl | ⟨front, q, rfl⟩
      · simp [unsent, hcurrent, hlabel, hconveys.last.2]
      · have hregroup : done ++ p :: (front ++ [q]) = (done ++ p :: front) ++ [q] := by simp
        rw [hregroup] at hconveys
        rw [wire_append, List.length_append, wire_cons, wire_nil, List.append_nil,
          hconveys.last.1] at hshort
        omega

/-- What was taken, in terms of the parcels. -/
theorem sent_eq {done rest : List (Parcel L T maxPayloadSize)}
    (hconveys : Conveys (done ++ rest) s.sender.dequeued)
    (hreceived : s.received = done.map Parcel.value) :
    s.sent = s.received.map some ++ rest.map fun p => some p.value := by
  rw [sent, ← hconveys.values_eq, List.map_append, hreceived, List.map_map]
  rfl

/-- What has been returned is the first of what was taken. -/
theorem Joined.received_prefix (h : s.Joined maxPayloadSize) : s.received.map some <+: s.sent := by
  obtain ⟨done, rest, hconveys, hreceived, -⟩ := h.awaiting
  rw [sent_eq hconveys hreceived]
  exact List.prefix_append _ _

/-! ### Reads -/

section Read

variable [LawfulSerde L UInt32] [LawfulSizeHeader L] [LawfulSerde L T]

/-- What a read does is what it does to a receiver that awaits the parcels left. -/
theorem Joined.read_outcome (h : s.Joined maxPayloadSize) (hattuned : s.Attuned maxPayloadSize) :
    ∃ done rest : List (Parcel L T maxPayloadSize),
      Conveys (done ++ rest) s.sender.dequeued ∧ s.received = done.map Parcel.value ∧
        Inner.ReadOutcome s.receiver.stream.toCome s.notHandedOver rest
          s.receiver.msgReader.decCtx (s.receiver.read T).1 (s.receiver.read T).2 := by
  obtain ⟨done, rest, hconveys, hreceived, hawait⟩ := h.awaiting
  exact ⟨done, rest, hconveys, hreceived,
    Inner.read_awaiting h.clean hawait (hattuned done rest hconveys hreceived)⟩

theorem Joined.read (h : s.Joined maxPayloadSize) (hattuned : s.Attuned maxPayloadSize) :
    (s.step .read).Joined maxPayloadSize := by
  obtain ⟨done, rest, hconveys, hreceived, hread⟩ := h.read_outcome hattuned
  simp only [step]
  generalize s.receiver.read T = answer at hread
  obtain ⟨res, receiver⟩ := answer
  have hok : (∃ m, res = .ok m) → ∀ res' ∈ s.results ++ [res], ∃ m, res' = .ok m := by
    intro hres
    rw [List.forall_mem_append, List.forall_mem_singleton]
    exact ⟨h.results_ok, hres⟩
  have hout := hread.outcome
  rw [Link.received] at hreceived
  cases hout with
  | @delivered p rest r' hps hnext =>
      refine ⟨h.flows, h.packed, h.handedOver_le, hread.clean, hok ⟨_, rfl⟩, done ++ [p], rest,
        ?_, ?_, hnext⟩
      · rwa [List.append_assoc, List.singleton_append, ← hps]
      · simp [Link.received, hreceived]
  | waiting hnext _ =>
      refine ⟨h.flows, h.packed, h.handedOver_le, hread.clean, hok ⟨_, rfl⟩, done, rest, hconveys,
        ?_, hnext⟩
      simp [Link.received, hreceived]

theorem Joined.read_decCtx (h : s.Joined maxPayloadSize) (hattuned : s.Attuned maxPayloadSize) :
    (s.step .read).receiver.msgReader.decCtx = s.receiver.msgReader.decCtx := by
  obtain ⟨_, _, _, _, hread⟩ := h.read_outcome hattuned
  exact hread.decCtx

/-- **Once nothing is left in the network**, a read returns nothing exactly
when every message but the one being written has been returned. -/
theorem Joined.read_none_iff (h : s.Joined maxPayloadSize) (hattuned : s.Attuned maxPayloadSize)
    (hflight : s.inFlight = []) (hcome : s.receiver.stream.toCome = []) :
    (s.receiver.read T).1 = .ok none ↔ s.received.map some ++ s.unsent = s.sent := by
  obtain ⟨done, rest, hconveys, hreceived, hread⟩ := h.read_outcome hattuned
  have hlater : s.notHandedOver = s.sender.inner.pending := by
    rw [notHandedOver_eq h.flows h.handedOver_le, hflight, List.nil_append]
  rw [sent_eq hconveys hreceived, List.append_cancel_left_eq]
  generalize s.receiver.read T = answer at hread
  obtain ⟨res, receiver⟩ := answer
  have hdrained : receiver.stream.toCome = [] := by
    have hsuffix := hread.drained
    rwa [hcome, List.suffix_nil] at hsuffix
  have hout := hread.outcome
  simp only [hdrained, List.nil_append, hlater] at hout
  cases hout with
  | @delivered p rest r' hps hnext =>
      subst hps
      refine ⟨fun hnone => (by cases hnone), fun hunsent => ?_⟩
      cases hcurrent : s.sender.inner.currentWrite with
      | none => simp [unsent, hcurrent] at hunsent
      | some data =>
          obtain rfl : rest = [] := by
            have hlen := congrArg List.length hunsent
            simpa [unsent, hcurrent] using hlen
          have hpending := h.unsent_length.mp hnext.eq_nil
          simp [hpending] at hunsent
  | waiting hnext hmore =>
      refine ⟨fun _ => ?_, fun _ => rfl⟩
      cases rest with
      | nil => exact h.unsent_length.mp hnext.eq_nil
      | cons p rest =>
          obtain ⟨rfl, hunsent⟩ := h.only_unsent hconveys (hmore p rest rfl)
          exact hunsent

/-- A read of an empty network leaves it empty. -/
theorem Joined.toCome_read (h : s.Joined maxPayloadSize) (hattuned : s.Attuned maxPayloadSize)
    (hcome : s.receiver.stream.toCome = []) : (s.step .read).receiver.stream.toCome = [] := by
  obtain ⟨_, _, _, _, hread⟩ := h.read_outcome hattuned
  have hsuffix := hread.drained
  rwa [hcome, List.suffix_nil] at hsuffix

end Read

end Link

end SocketCollection
