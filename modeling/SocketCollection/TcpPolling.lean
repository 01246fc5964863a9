import SocketCollection.TcpEndToEnd

/-!
# Reading until nothing is left

The sockets are made for an edge-triggered event loop: it reports once that a
socket is readable, and the handler reads until a call returns no message.
`Inner.pollLoop` is that handler.

It ends whatever the peer sends, since each message costs some of the bytes that
have come (`poll_bounded`).  And it misses nothing: over a stream that says
`WouldBlock` only when it is out of bytes, the messages that have been returned
when the handler ends are those whose frames have arrived completely, to the byte
(`polling_exact`).

## Main results

* `poll_bounded`: a handler's reads are bounded by the bytes.
* `polling_exact`: after each poll, in every interleaving, nothing is overlooked.
-/

namespace SocketCollection

open Runs LenDelimitedReader

variable {L : Crates} {T G : Type}

/-! ## The bytes a call uses up -/

namespace LenDelimitedReader

variable [Serde L UInt32] [Serde L T]

/-- The buffer gets no longer, and a message takes some of it. -/
theorem Reads.uses {r r' : LenDelimitedReader L} {res : Res L (Option T)} (h : Reads T r res r') :
    r'.readBuffer.length ≤ r.readBuffer.length ∧
      ∀ v, res = .ok (some v) → r'.readBuffer.length < r.readBuffer.length := by
  induction h with
  | noHeader | badHeader | oversize | noPayload | badPayload => exact ⟨Nat.le_refl _, nofun⟩
  | emptyFrame =>
      refine ⟨?_, nofun⟩
      rw [stripHeader, List.length_drop]
      exact Nat.sub_le _ _
  | header h0 hlen hdec hmax hn rest ih =>
      simp only [stripHeader, List.length_drop] at ih
      refine ⟨by omega, fun v hv => ?_⟩
      have hlt := ih.2 v hv
      omega
  | payload h0 hlen hdec =>
      simp only [stripPayload, List.length_drop]
      exact ⟨Nat.sub_le _ _, fun _ _ => Nat.sub_lt (by omega) (by omega)⟩

end LenDelimitedReader

/-- The bytes of an answer to a read. -/
def IoResult.bytes : IoResult Bytes → Bytes
  | .ok bytes => bytes
  | .error _ => []

/-- What a read hands over leaves the stream. -/
theorem TcpStream.toCome_read (s : TcpStream) :
    s.toCome = s.read.1.bytes ++ s.read.2.toCome := by
  obtain ⟨accepted, answered, writeResults, _ | ⟨e | bytes, rest⟩⟩ := s
  · rfl
  · simp [toCome, read, IoResult.bytes]
  · simp only [read]
    split
    · simp [toCome, IoResult.bytes]
    · simp only [toCome, IoResult.bytes, List.flatMap_cons]
      rw [← List.append_assoc, List.take_append_drop]

namespace Inner

/-- The bytes that have come or are going to: those in the buffer, and those the
stream has to hand over. -/
def bytesLeft (i : Inner L G) : Nat := i.msgReader.readBuffer.length + i.stream.toCome.length

variable [Serde L UInt32] [Serde L T]

/-- Some bytes may have been used up, and have if there is a message. -/
private structure Uses (before : Nat) (out : Option (Res L (Option T))) (i : Inner L G) :
    Prop where
  le : i.bytesLeft ≤ before
  lt : ∀ v, out = some (.ok (some v)) → i.bytesLeft < before

omit [Serde L UInt32] [Serde L T] in
private theorem bytesLeft_read {i : Inner L G} {answer : IoResult Bytes} {stream : TcpStream}
    (hread : i.stream.read = (answer, stream)) :
    i.bytesLeft = i.msgReader.readBuffer.length + answer.bytes.length + stream.toCome.length := by
  have hcome := i.stream.toCome_read
  rw [hread] at hcome
  rw [bytesLeft, hcome, List.length_append, Nat.add_assoc]

private theorem tryRead_uses {r r' : LenDelimitedReader L} {res : Res L (Option T)}
    (htry : r.tryRead T = (res, r')) : r'.readBuffer.length ≤ r.readBuffer.length ∧
      ∀ v, some res = some (.ok (some v)) → r'.readBuffer.length < r.readBuffer.length := by
  have huses := (Reads.of_eq htry).uses
  exact ⟨huses.1, fun v hv => huses.2 v (Option.some.inj hv)⟩

/-- **A message costs bytes**, whatever the stream answers. -/
private theorem read_uses (i : Inner L G) :
    Uses i.bytesLeft (some (i.read T).1) (i.read T).2 := by
  refine read_rule (P := Uses i.bytesLeft) ?_ ?_ ?_
  · intro res r htry _
    obtain ⟨hle, hlt⟩ := tryRead_uses htry
    exact ⟨Nat.add_le_add_right hle _, fun v hv => Nat.add_lt_add_right (hlt v hv) _⟩
  · intro r htry
    exact ⟨Nat.add_le_add_right (tryRead_uses htry).1 _, fun v hv => by cases hv⟩
  · intro s s' out h hround
    generalize i.bytesLeft = before at h ⊢
    have hbefore := h.le
    cases hround with
    | segment hread =>
        rw [bytesLeft_read hread, IoResult.bytes] at hbefore
        refine ⟨?_, fun v hv => by cases hv⟩
        simp only [bytesLeft, putBuf, List.length_append]
        omega
    | asks hread htry =>
        rw [bytesLeft_read hread] at hbefore
        obtain ⟨hle, hlt⟩ := tryRead_uses htry
        refine ⟨?_, fun v hv => ?_⟩
        · simp only [bytesLeft]
          omega
        · have hless := hlt v hv
          simp only [bytesLeft]
          omega
    | ended hread htry =>
        rw [bytesLeft_read hread] at hbefore
        have hle := (tryRead_uses htry).1
        refine ⟨?_, fun v hv => by cases hv⟩
        simp only [bytesLeft]
        omega
    | idle hread | closed hread | failed hread =>
        rw [bytesLeft_read hread] at hbefore
        refine ⟨?_, fun v hv => by cases hv⟩
        simp only [bytesLeft]
        omega

/-! ## The handler -/

/-- The state of a handler: the socket, and what its reads have returned. -/
structure Polling (L : Crates) (G T : Type) where
  inner : Inner L G
  results : List (Res L (Option T))

/-- One round: a read, and another one if it returned a message. -/
def pollRound (T : Type) [Serde L T] (s : Polling L G T) :
    Polling L G T × Option (Res L (Option T)) :=
  let (res, i) := s.inner.read T
  let s := ⟨i, s.results ++ [res]⟩
  match res with
  | .ok (some _) => (s, none)
  | res => (s, some res)

private theorem pollRound_decreases (s s' : Polling L G T) (h : pollRound T s = (s', none)) :
    s'.inner.bytesLeft < s.inner.bytesLeft := by
  have huses := s.inner.read_uses (T := T)
  unfold pollRound at h
  generalize s.inner.read T = answer at h huses
  obtain ⟨e | _ | message, i⟩ := answer
  · cases h
  · cases h
  · obtain ⟨rfl, -⟩ := Prod.mk.inj h
    exact huses.lt message rfl

/-- Read until a call returns no message. -/
def pollLoop (T : Type) [Serde L T] : Loop (Polling L G T) (Res L (Option T)) where
  body := pollRound T
  measure s := s.inner.bytesLeft
  decreases := pollRound_decreases

/-- Read until a call returns no message, and collect what the calls return. -/
def poll (T : Type) [Serde L T] (i : Inner L G) : Polling L G T :=
  ((pollLoop T).exec ⟨i, []⟩).1

/-- What a round does. -/
theorem pollRound_eq (s : Polling L G T) :
    pollRound T s = (⟨(s.inner.read T).2, s.results ++ [(s.inner.read T).1]⟩,
      match (s.inner.read T).1 with
      | .ok (some _) => none
      | res => some res) := by
  unfold pollRound
  rcases s.inner.read T with ⟨_ | _ | message, i⟩
  · rfl
  · rfl
  · rfl

end Inner

/-- **A handler's reads are bounded by the bytes**: it gets some messages and then
something else, and each message has cost a byte. -/
theorem poll_bounded [Serde L UInt32] [Serde L T] (i : Inner L G) :
    ∃ (messages : List T) (last : Res L (Option T)),
      (i.poll T).results = messages.map (fun m => .ok (some m)) ++ [last] ∧
        (∀ m, last ≠ .ok (some m)) ∧
          messages.length + (i.poll T).inner.bytesLeft ≤ i.bytesLeft := by
  refine (Inner.pollLoop T).exec_rule
    (fun s => ∃ messages : List T, s.results = messages.map (fun m => .ok (some m)) ∧
      messages.length + s.inner.bytesLeft ≤ i.bytesLeft)
    (fun s _ => ∃ (messages : List T) (last : Res L (Option T)),
      s.results = messages.map (fun m => .ok (some m)) ++ [last] ∧
        (∀ m, last ≠ .ok (some m)) ∧ messages.length + s.inner.bytesLeft ≤ i.bytesLeft)
    ?_ ?_ ⟨i, []⟩ ⟨[], rfl, by simp⟩
  · rintro s s' ⟨messages, hresults, hle⟩ hbody
    replace hbody : Inner.pollRound T s = (s', none) := hbody
    have huses := s.inner.read_uses (T := T)
    rw [Inner.pollRound_eq] at hbody
    obtain ⟨rfl, hnone⟩ := Prod.mk.inj hbody
    generalize s.inner.read T = answer at hnone huses
    obtain ⟨_ | _ | message, i'⟩ := answer
    · cases hnone
    · cases hnone
    · have hlt : i'.bytesLeft < s.inner.bytesLeft := huses.lt message rfl
      refine ⟨messages ++ [message], by simp [hresults], ?_⟩
      show (messages ++ [message]).length + i'.bytesLeft ≤ i.bytesLeft
      rw [List.length_append, List.length_singleton]
      omega
  · rintro s s' res ⟨messages, hresults, hle⟩ hbody
    replace hbody : Inner.pollRound T s = (s', some res) := hbody
    have huses := s.inner.read_uses (T := T)
    rw [Inner.pollRound_eq] at hbody
    obtain ⟨rfl, hsome⟩ := Prod.mk.inj hbody
    refine ⟨messages, (s.inner.read T).1, by rw [hresults], ?_,
      Nat.le_trans (Nat.add_le_add_left huses.le _) hle⟩
    intro m hm
    simp [hm] at hsome

/-! ## Over a stream without interruptions -/

namespace Inner

/-- The stream hands over bytes, and says `WouldBlock` only when it has none. -/
def OnlySegments (i : Inner L G) : Prop := ∀ a ∈ i.stream.readResults, ∃ bytes, a = .ok bytes

variable [Serde L UInt32] [Serde L T]

/-- A call keeps the stream as it is, and has read it to its end if it returned
nothing. -/
private structure ReadsOn (out : Option (Res L (Option T))) (i : Inner L G) : Prop where
  segments : i.OnlySegments
  exhausted : out = some (.ok none) → i.stream.readResults = []

omit [Serde L UInt32] [Serde L T] in
private theorem OnlySegments.read {i : Inner L G} (h : i.OnlySegments) {answer : IoResult Bytes}
    {stream : TcpStream} (hread : i.stream.read = (answer, stream)) :
    (∀ a ∈ stream.readResults, ∃ bytes, a = .ok bytes) ∧
      ∀ e, answer = .error e → stream.readResults = [] := by
  obtain ⟨⟨accepted, answered, writeResults, readResults⟩, msgReader, outQueue, currentWrite,
    encCtx⟩ := i
  cases readResults with
  | nil =>
      obtain ⟨rfl, rfl⟩ := Prod.mk.inj hread
      exact ⟨h, fun _ _ => rfl⟩
  | cons first rest =>
      obtain ⟨bytes, rfl⟩ := h first List.mem_cons_self
      have hrest : ∀ a ∈ rest, ∃ bytes, a = .ok bytes := fun a ha => h a (List.mem_cons_of_mem _ ha)
      simp only [TcpStream.read] at hread
      split at hread
      · obtain ⟨rfl, rfl⟩ := Prod.mk.inj hread
        exact ⟨hrest, nofun⟩
      · obtain ⟨rfl, rfl⟩ := Prod.mk.inj hread
        refine ⟨?_, nofun⟩
        rw [List.forall_mem_cons]
        exact ⟨⟨_, rfl⟩, hrest⟩

private theorem read_readsOn {i : Inner L G} (h : i.OnlySegments) :
    ReadsOn (some (i.read T).1) (i.read T).2 := by
  refine read_rule (P := ReadsOn) ?_ ?_ ?_
  · exact fun res r _ hres => ⟨h, fun hnone => absurd (Option.some.inj hnone) hres⟩
  · exact fun r _ => ⟨h, nofun⟩
  · intro s s' out hs hround
    cases hround with
    | segment hread => exact ⟨(hs.segments.read hread).1, nofun⟩
    | asks hread _ hnone =>
        obtain ⟨hsegments, hend⟩ := hs.segments.read hread
        refine ⟨hsegments, fun hout => ?_⟩
        obtain ⟨e, he⟩ := hnone (Option.some.inj hout)
        exact hend e he
    | idle hread =>
        obtain ⟨hsegments, hend⟩ := hs.segments.read hread
        exact ⟨hsegments, fun _ => hend _ rfl⟩
    | ended hread | closed hread | failed hread => exact ⟨(hs.segments.read hread).1, nofun⟩

end Inner

/-! ## Polling in a link -/

/-- How many of the frames lie within the first `n` bytes. -/
def wholeFrames : Nat → List Bytes → Nat
  | _, [] => 0
  | n, frame :: rest => if frame.length ≤ n then wholeFrames (n - frame.length) rest + 1 else 0

/-- Some frames that have come, and of the next one not all bytes. -/
theorem wholeFrames_append (done rest : List Bytes) : ∀ {n : Nat},
    done.flatten.length ≤ n →
      (∀ frame, rest.head? = some frame → n < done.flatten.length + frame.length) →
        wholeFrames n (done ++ rest) = done.length := by
  induction done with
  | nil =>
      intro n _ hnext
      cases rest with
      | nil => rfl
      | cons frame rest =>
          have hshort := hnext frame rfl
          rw [List.flatten_nil, List.length_nil, Nat.zero_add] at hshort
          exact if_neg (Nat.not_le.mpr hshort)
  | cons frame done ih =>
      intro n hle hnext
      rw [List.flatten_cons, List.length_append] at hle hnext
      have hframe : frame.length ≤ n := by omega
      rw [List.cons_append, wholeFrames, if_pos hframe, List.length_cons,
        ih (by omega) fun next hhead => by have := hnext next hhead; omega]

/-- The bytes to come belong to the frames that are awaited. -/
theorem Awaiting.future_le [Serde L UInt32] [Serde L T] {maxPayloadSize : Nat}
    {future : Bytes} {r : LenDelimitedReader L} {ps : List (Parcel L T maxPayloadSize)}
    (h : Awaiting future r ps) : future.length ≤ (wire ps).length := by
  cases h with
  | header _ _ hbytes =>
      rw [← hbytes, List.length_append]
      exact Nat.le_add_left _ _
  | @payload p ps _ _ hbytes =>
      obtain ⟨header, payload, hpayload, -, hframe⟩ := serializeWithLen_ok p.framed
      obtain rfl : p.payload = payload := Except.ok.inj (p.encrypted.symm.trans hpayload)
      have hlen := congrArg List.length hbytes
      rw [List.length_append, List.length_append] at hlen
      rw [wire_cons, hframe, List.length_append, List.length_append]
      omega

/-- A step of a party, where the receiver polls. -/
inductive PollOp (L : Crates) (T : Type)
  | write (clock : Clock) (nonces : FrameNonces L) (msg : Option (T × Priority))
  | deliver (n : Nat)
  | poll

/-- A message that is written is one the receiver delivers. -/
def PollOp.Fits [Serde L T] (sendConf recvConf : SocketConfig L) : PollOp L T → Prop
  | .write clock nonces msg => (LinkOp.write clock nonces msg).Fits sendConf recvConf
  | _ => True

namespace Link

variable [Serde L UInt32] [Serde L T]

/-- The receiver is told that its stream is readable. -/
def poll (s : Link L T) : Link L T :=
  { s with
    receiver := (s.receiver.poll T).inner
    results := s.results ++ (s.receiver.poll T).results }

def pollStep (s : Link L T) : PollOp L T → Link L T
  | .write clock nonces msg => s.step (.write clock nonces msg)
  | .deliver n => s.step (.deliver n)
  | .poll => s.poll

/-- The receiver has returned the messages whose frames have come completely, no
read has failed, and another one would return nothing. -/
structure UpToDate (s : Link L T) : Prop where
  received_eq : s.received.map some =
    s.sent.take (wholeFrames s.handedOver (s.sender.dequeued.map fun e => e.msg.bytes))
  no_error : ∀ res ∈ s.results, ∃ m, res = .ok m
  nothing_left : (s.receiver.read T).1 = .ok none

/-! ### A poll is some reads -/

/-- The link while its receiver polls. -/
private def during (s : Link L T) (p : Inner.Polling L Unit T) : Link L T :=
  { s with receiver := p.inner, results := s.results ++ p.results }

private theorem step_during (s : Link L T) (p : Inner.Polling L Unit T) :
    (s.during p).step .read = s.during (Inner.pollRound T p).1 := by
  rw [Inner.pollRound_eq]
  simp only [step, during, List.append_assoc]

private theorem during_reads (s : Link L T) (p : Inner.Polling L Unit T) :
    ∃ n, s.during ((Inner.pollLoop T).exec p).1 = ((s.during p).reads n).step .read ∧
      ∀ m, (((s.during p).reads n).receiver.read T).1 ≠ .ok (some m) := by
  have hround : ∀ p : Inner.Polling L Unit T, (Inner.pollLoop T).body p = Inner.pollRound T p :=
    fun _ => rfl
  generalize Inner.pollLoop (G := Unit) (L := L) T = loop at hround
  induction p using loop.rounds with
  | h p ih =>
      have hstep := s.step_during p
      rw [← hround] at hstep
      rcases hbody : loop.body p with ⟨p', _ | res⟩
      · obtain ⟨n, hexec, hlast⟩ := ih p' hbody
        rw [hbody] at hstep
        rw [← hstep] at hexec hlast
        refine ⟨n + 1, ?_, hlast⟩
        rw [loop.exec_next hbody]
        exact hexec
      · rw [hbody] at hstep
        refine ⟨0, ?_, ?_⟩
        · rw [loop.exec_done hbody]
          exact hstep.symm
        · intro m hm
          replace hm : (p.inner.read T).1 = .ok (some m) := hm
          rw [hround, Inner.pollRound_eq, hm] at hbody
          cases hbody

/-- The last of the reads is the first that returns no message. -/
private theorem poll_reads (s : Link L T) :
    ∃ n, s.poll = (s.reads n).step .read ∧ ∀ m, ((s.reads n).receiver.read T).1 ≠ .ok (some m) := by
  have hstart : s.during ⟨s.receiver, []⟩ = s := by simp [during]
  have hreads := s.during_reads ⟨s.receiver, []⟩
  rwa [hstart] at hreads

/-! ### What has come completely -/

variable [LawfulSerde L UInt32] [LawfulSizeHeader L] [LawfulSerde L T]
  {sendConf recvConf : SocketConfig L} {s : Link L T}

/-- The two ends are related, and the receiver's stream is not interrupted. -/
structure Polled (sendConf recvConf : SocketConfig L) (s : Link L T) : Prop where
  linked : s.Linked recvConf.maxPayloadSize sendConf.encCtx recvConf.decCtx
  segments : s.receiver.OnlySegments

private theorem Polled.read (h : s.Polled sendConf recvConf)
    (hmatch : Matching sendConf.encCtx recvConf.decCtx) :
    (s.step .read).Polled sendConf recvConf :=
  ⟨h.linked.step hmatch trivial, (Inner.read_readsOn h.segments).segments⟩

private theorem Polled.reads (hmatch : Matching sendConf.encCtx recvConf.decCtx) (n : Nat) :
    ∀ {s : Link L T}, s.Polled sendConf recvConf → (s.reads n).Polled sendConf recvConf := by
  induction n with
  | zero => exact id
  | succ n ih => exact fun h => ih (h.read hmatch)

omit [LawfulSerde L UInt32] [LawfulSizeHeader L] [LawfulSerde L T] in
/-- What has been handed over are the frames of the messages returned, and some
bytes of the next one. -/
private theorem Polled.wholeFrames_eq (h : s.Polled sendConf recvConf)
    {done rest : List (Parcel L T recvConf.maxPayloadSize)}
    (hconveys : Conveys (done ++ rest) s.sender.dequeued)
    (hle : s.notHandedOver.length ≤ (wire rest).length)
    (hmore : ∀ p later, rest = p :: later → (wire later).length < s.notHandedOver.length) :
    wholeFrames s.handedOver (s.sender.dequeued.map fun e => e.msg.bytes) = done.length := by
  have hframes : (s.sender.dequeued.map fun e => e.msg.bytes) =
      done.map Parcel.frame ++ rest.map Parcel.frame := by
    rw [← hconveys.frames_eq, List.map_append]
  have htotal : (frames s.sender.dequeued).length = (wire done).length + (wire rest).length := by
    rw [← hconveys.wire_eq, wire_append, List.length_append]
  have hover : s.handedOver ≤ (frames s.sender.dequeued).length := by
    have hlen := congrArg List.length h.linked.flows.stream
    have hover := h.linked.handedOver_le
    rw [List.length_append] at hlen
    omega
  rw [notHandedOver, List.length_drop] at hle hmore
  have hwire : ∀ ps : List (Parcel L T recvConf.maxPayloadSize),
      (ps.map Parcel.frame).flatten.length = (wire ps).length := by
    intro ps
    rw [wire, List.flatMap_def]
  rw [hframes, wholeFrames_append, List.length_map]
  · rw [hwire]
    omega
  · intro frame hhead
    rw [hwire]
    cases rest with
    | nil => cases hhead
    | cons p later =>
        obtain rfl := Option.some.inj hhead
        have hshort := hmore p later rfl
        rw [wire_cons, List.length_append] at htotal
        omega

/-- **A read that returns nothing** has left the receiver up to date. -/
private theorem Polled.upToDate (h : s.Polled sendConf recvConf)
    (hmatch : Matching sendConf.encCtx recvConf.decCtx)
    (hlast : ∀ m, (s.receiver.read T).1 ≠ .ok (some m)) : (s.step .read).UpToDate := by
  have hnext := h.read hmatch
  have hexhausted := (Inner.read_readsOn (T := T) h.segments).exhausted
  obtain ⟨done, rest, hconveys, hreceived, hawait⟩ := h.linked.awaiting
  have htuned := h.linked.attuned hmatch done rest hconveys hreceived
  have hread := Inner.read_awaiting h.linked.clean hawait htuned
  simp only [step] at hnext ⊢
  generalize s.receiver.read T = answer at hread hexhausted hlast hnext
  obtain ⟨res, receiver⟩ := answer
  have hctx := hread.decCtx
  have hout := hread.outcome
  cases hout with
  | delivered => exact absurd rfl (hlast _)
  | waiting hwait hmore =>
      have hcome : receiver.stream.toCome = [] := by
        rw [TcpStream.toCome, hexhausted rfl]
        rfl
      rw [hcome, List.nil_append] at hmore
      have hle := hwait.future_le
      rw [hcome, List.nil_append] at hle
      have hwhole := h.wholeFrames_eq hconveys hle hmore
      refine ⟨?_, hnext.linked.results_ok, ?_⟩
      · have hsame : delivered (s.results ++ [.ok none]) = s.received := by simp [received]
        show (delivered (s.results ++ [.ok none])).map some = s.sent.take
          (wholeFrames s.handedOver (s.sender.dequeued.map fun e => e.msg.bytes))
        rw [hsame, hwhole, sent_eq hconveys hreceived, hreceived, List.map_map,
          List.take_left' (List.length_map _)]
      · have htuned' : Tuned receiver.msgReader rest := by
          intro p hp
          rw [hctx]
          exact htuned p hp
        have hagain := (Inner.read_awaiting hread.clean hwait htuned').outcome
        generalize receiver.read T = answer at hagain
        obtain ⟨res, receiver'⟩ := answer
        cases hagain with
        | waiting => rfl
        | delivered hps hlater =>
            -- the next frame has not come completely
            have hshort := hmore _ _ hps
            have hlong := hlater.future_le
            rw [List.length_append] at hlong
            omega

theorem Polled.pollStep (h : s.Polled sendConf recvConf)
    (hmatch : Matching sendConf.encCtx recvConf.decCtx) {op : PollOp L T}
    (hop : op.Fits sendConf recvConf) : (s.pollStep op).Polled sendConf recvConf := by
  cases op with
  | write clock nonces msg => exact ⟨h.linked.step hmatch hop, h.segments⟩
  | deliver n =>
      have hlinked : (s.step (.deliver n)).Linked _ _ _ := h.linked.step hmatch trivial
      refine ⟨hlinked, ?_⟩
      simp only [Link.pollStep, step]
      cases s.inFlight.take n with
      | nil => exact h.segments
      | cons b bytes =>
          show ∀ a ∈ s.receiver.stream.readResults ++ [.ok (b :: bytes)], ∃ bytes, a = .ok bytes
          rw [List.forall_mem_append, List.forall_mem_singleton]
          exact ⟨h.segments, _, rfl⟩
  | poll =>
      obtain ⟨n, hreads, -⟩ := s.poll_reads
      rw [Link.pollStep, hreads]
      exact (h.reads hmatch n).read hmatch

/-- They stay so throughout. -/
theorem always_polled (hmatch : Matching sendConf.encCtx recvConf.decCtx)
    {writeResults : List (IoResult Nat)} (hsoft : ∀ a ∈ writeResults, IoResult.isHard a = false)
    {ops : List (PollOp L T)} (hops : ∀ op ∈ ops, op.Fits sendConf recvConf) :
    Always Link.pollStep (Polled sendConf recvConf) (.start writeResults sendConf recvConf)
      ops := by
  have hstart : (start writeResults sendConf recvConf : Link L T).Polled sendConf recvConf :=
    ⟨linked_start hsoft sendConf recvConf, fun _ ha => absurd ha List.not_mem_nil⟩
  exact (each_of_forall hops).always hstart fun _ _ h hop => h.pollStep hmatch hop

theorem Polled.poll (h : s.Polled sendConf recvConf)
    (hmatch : Matching sendConf.encCtx recvConf.decCtx) : s.poll.UpToDate := by
  obtain ⟨n, hreads, hlast⟩ := s.poll_reads
  rw [hreads]
  exact (h.reads hmatch n).upToDate hmatch hlast

end Link

/-- **Polling misses nothing.**  The contexts match, the sender's stream gives no hard
errors, and every message written has a payload the receiver delivers; the receiver's
stream says `WouldBlock` only when it is out of bytes, and is never interrupted.  Then
in every interleaving of writes, deliveries and polls the receiver is up to date after
each poll. -/
theorem polling_exact [Serde L UInt32] [Serde L T] [LawfulSerde L UInt32] [LawfulSizeHeader L]
    [LawfulSerde L T] {sendConf recvConf : SocketConfig L}
    (hmatch : Matching sendConf.encCtx recvConf.decCtx) (writeResults : List (IoResult Nat))
    (hsoft : ∀ a ∈ writeResults, IoResult.isHard a = false) (ops : List (PollOp L T))
    (hops : ∀ op ∈ ops, op.Fits sendConf recvConf) :
    Each Link.pollStep (fun s op => op = .poll → (s.pollStep op).UpToDate)
      (.start writeResults sendConf recvConf) ops := by
  refine (Link.always_polled hmatch hsoft hops).each fun s op h hpoll => ?_
  rw [hpoll]
  exact h.poll hmatch

namespace BincodeInstance

/-- Three numbers are written, and each poll comes when some of a frame is still
on its way. -/
def pollOps : List (PollOp crates UInt32) :=
  [.write ⟨0, 0⟩ ⟨(1 : UInt8), (2 : UInt8)⟩ (some (5, 0)),
    .write ⟨0, 0⟩ ⟨(1 : UInt8), (2 : UInt8)⟩ (some (6, 0)), .deliver 103, .poll, .deliver 60, .poll,
    .write ⟨0, 0⟩ ⟨(1 : UInt8), (2 : UInt8)⟩ (some (7, 0)), .deliver 200, .poll]

theorem polling_exact_shared :
    Each Link.pollStep (fun s op => op = .poll → (s.pollStep op).UpToDate)
      (.start [.ok 104, .ok 104, .ok 104] sharedConf sharedConf) pollOps := by
  have hmatch : Matching sharedConf.encCtx sharedConf.decCtx := .authenticated rfl
  apply polling_exact hmatch _ (by decide) pollOps
  intro op hop
  simp only [pollOps, List.mem_cons, List.not_mem_nil, or_false] at hop
  rcases hop with rfl | rfl | rfl | rfl | rfl | rfl | rfl | rfl | rfl
  case inl => exact fits_number ⟨0, 0⟩ ⟨(1 : UInt8), (2 : UInt8)⟩ (5, 0)
  case inr.inl => exact fits_number ⟨0, 0⟩ ⟨(1 : UInt8), (2 : UInt8)⟩ (6, 0)
  case inr.inr.inr.inr.inr.inr.inl =>
    exact fits_number ⟨0, 0⟩ ⟨(1 : UInt8), (2 : UInt8)⟩ (7, 0)
  all_goals trivial

end BincodeInstance

end SocketCollection
