import SocketCollection.Socket
import SocketCollection.UdpRoundTrip

/-!
# The errors of a socket

An error of the operating system is for the caller to know, unless it only says that
there is nothing to do at the moment.  Whatever the calls are and whatever the
operating system answers, each of its errors is returned by the call that meets it,
in order, each once, and nothing else is returned as one: `WouldBlock` and
`Interrupted` never surface, and an error that a loop meets on its way is not lost.

## Main results

* `Socket.uninitialised_iff`: a socket that wraps nothing refuses every call of a run, and
  one that wraps something none for this reason.
* `errors_conserved`: in every run on either kind of socket, the errors returned and
  those still to come are the ones that were to come; every other error has its reason.
-/

namespace SocketCollection

open Runs

variable {L : Crates} {G α β T : Type}

/-! ## Failures -/

/-- The error that a caller has to know about. -/
def IoResult.failure? : IoResult α → Option IoError
  | .ok _ => none
  | .error e => if e.isRetry then none else some e

/-- The errors to come that a caller will have to know about. -/
def failures (script : List (IoResult α)) : List IoError := script.filterMap IoResult.failure?

def IoResult.error? : IoResult α → Option IoError
  | .ok _ => none
  | .error e => some e

/-- The error of the operating system that a call returns. -/
def surfaced : Res L α → List IoError
  | .error (.io e) => [e]
  | _ => []

/-- The error is one of serialising or encrypting, or of the opposite. -/
def SocketError.ofCodec : SocketError L → Bool
  | .serialisation _ | .crypto _ => true
  | _ => false

/-- The error is one of a reader of frames. -/
def SocketError.ofReader : SocketError L → Bool
  | .payloadSizeProhibitive => true
  | e => e.ofCodec

theorem failures_cons (answer : IoResult α) (rest : List (IoResult α)) :
    failures (answer :: rest) = answer.failure?.toList ++ failures rest := by
  rw [failures, List.filterMap_cons]
  cases answer.failure? <;> rfl

@[simp] theorem surfaced_ok (a : α) : surfaced (.ok a : Res L α) = [] := rfl

@[simp] theorem surfaced_io (e : IoError) : surfaced (.error (.io e) : Res L α) = [e] := rfl

theorem SocketError.ofReader_of_ofCodec {e : SocketError L} (h : e.ofCodec = true) :
    e.ofReader = true := by
  cases e <;> first | rfl | exact h

@[simp] theorem surfaced_map (f : α → β) (res : Res L α) : surfaced (res.map f) = surfaced res := by
  rcases res with e | a
  · cases e <;> rfl
  · rfl

theorem surfaced_error (e : SocketError L) :
    surfaced (.error e : Res L α) = surfaced (.error e : Res L β) := by
  cases e <;> rfl

/-- Neither kind is the operating system's. -/
theorem surfaced_ofReader {res : Res L α} (h : ∀ e, res = .error e → e.ofReader = true) :
    surfaced res = [] := by
  rcases res with e | a
  · have hreader := h e rfl
    cases e with
    | io e => cases hreader
    | _ => rfl
  · rfl

theorem surfaced_ofCodec {res : Res L α} (h : ∀ e, res = .error e → e.ofCodec = true) :
    surfaced res = [] :=
  surfaced_ofReader fun e he => SocketError.ofReader_of_ofCodec (h e he)

theorem encrypt_ofCodec [Serde L T] {ctx : EncryptContext L} {nonce : L.Nonce} {msg : T}
    {e : SocketError L} (h : ctx.encrypt nonce msg = .error e) : e.ofCodec = true := by
  cases ctx with
  | null =>
      cases hs : Serde.serialise (L := L) msg with
      | ok b => simp [EncryptContext.encrypt, hs, Except.mapError] at h
      | error x =>
          rw [EncryptContext.encrypt, hs] at h
          obtain rfl := Except.error.inj h
          rfl
  | authenticated k =>
      cases hs : Serde.encrypt k nonce msg with
      | ok b => simp [EncryptContext.encrypt, hs, Except.mapError] at h
      | error x =>
          rw [EncryptContext.encrypt, hs] at h
          obtain rfl := Except.error.inj h
          rfl
  | anonymousEncrypt pk =>
      cases hs : Serde.anonymouslyEncrypt pk nonce msg with
      | ok b => simp [EncryptContext.encrypt, hs, Except.mapError] at h
      | error x =>
          rw [EncryptContext.encrypt, hs] at h
          obtain rfl := Except.error.inj h
          rfl

theorem decrypt_ofCodec [Serde L T] {ctx : DecryptContext L} {msg : Bytes} {e : SocketError L}
    (h : ctx.decrypt (T := T) msg = .error e) : e.ofCodec = true := by
  rcases DecryptContext.decrypt_error h with ⟨x, rfl⟩ | ⟨x, rfl⟩ <;> rfl

/-! ## TCP -/

namespace TcpStream

/-- A read takes its failure off the script. -/
private theorem failures_read (s : TcpStream) :
    s.read.1.failure?.toList ++ failures s.read.2.readResults = failures s.readResults ∧
      s.read.2.writeResults = s.writeResults := by
  unfold read
  split
  · exact ⟨rfl, rfl⟩
  · next e rest hscript =>
      rw [hscript, failures_cons]
      exact ⟨rfl, rfl⟩
  · next bytes rest hscript =>
      rw [hscript]
      split <;> exact ⟨rfl, rfl⟩

/-- So does a write. -/
private theorem failures_write (s : TcpStream) (buf : Bytes) :
    (s.write buf).1.failure?.toList ++ failures (s.write buf).2.writeResults =
        failures s.writeResults ∧ (s.write buf).2.readResults = s.readResults := by
  unfold write
  split
  · next hscript => exact ⟨rfl, rfl⟩
  · next e rest hscript =>
      rw [hscript, failures_cons]
      exact ⟨rfl, rfl⟩
  · next n rest hscript =>
      rw [hscript]
      exact ⟨rfl, rfl⟩

end TcpStream

namespace Inner

private theorem tryRead_ofReader [Serde L UInt32] [Serde L T] (r : LenDelimitedReader L) :
    ∀ e, (r.tryRead T).1 = .error e → e.ofReader = true := by
  have hreads := r.reads_tryRead (T := T)
  generalize r.tryRead T = answer at hreads
  obtain ⟨res, r'⟩ := answer
  replace hreads : LenDelimitedReader.Reads T r res r' := hreads
  show ∀ e, res = .error e → _
  induction hreads with
  | badHeader _ _ hdec | badPayload _ _ hdec =>
      intro e he
      obtain rfl := Except.error.inj he
      exact SocketError.ofReader_of_ofCodec (decrypt_ofCodec hdec)
  | oversize =>
      intro e he
      obtain rfl := Except.error.inj he
      rfl
  | header _ _ _ _ _ _ ih => exact ih
  | noHeader | emptyFrame | noPayload | payload =>
      intro e he
      cases he

/-- A call reads: it reports the failures it takes off the script, it does not write,
and its other errors are the end of the stream and those of the reader. -/
private structure ReadsOff (i : Inner L G) (res : Option (Res L (Option T))) (i' : Inner L G) :
    Prop where
  reads : res.elim [] surfaced ++ failures i'.stream.readResults = failures i.stream.readResults
  writes : i'.stream.writeResults = i.stream.writeResults
  kind : ∀ e, res = some (.error e) → (∃ x, e = .io x) ∨ e = .zeroByteRead ∨ e.ofReader = true

/-- A call leaves with what the reader says. -/
private theorem ReadsOff.asks {i i' : Inner L G} {res : Res L (Option T)}
    (hres : ∀ e, res = .error e → e.ofReader = true)
    (hreads : failures i'.stream.readResults = failures i.stream.readResults)
    (hwrites : i'.stream.writeResults = i.stream.writeResults) : ReadsOff i (some res) i' := by
  refine ⟨?_, hwrites, fun e he => .inr (.inr (hres e (Option.some.inj he)))⟩
  simp only [Option.elim_some, surfaced_ofReader hres]
  exact hreads

/-- A call goes on, or leaves with no error of the reader. -/
private theorem ReadsOff.leaves {i i' : Inner L G} {res : Option (Res L (Option T))}
    (hres : ∀ e, res = some (.error e) → (∃ x, e = .io x) ∨ e = .zeroByteRead)
    (hreads : res.elim [] surfaced ++ failures i'.stream.readResults =
      failures i.stream.readResults)
    (hwrites : i'.stream.writeResults = i.stream.writeResults) : ReadsOff i res i' :=
  ⟨hreads, hwrites, fun e he => (hres e he).imp id .inl⟩

/-- One round of the loop. -/
private theorem ReadsOff.round [Serde L UInt32] [Serde L T] {i : Inner L G} {s : Reading L G}
    (h : ReadsOff (T := T) i none s.inner) :
    ReadsOff i (readRound T s).2 (readRound T s).1.inner := by
  obtain ⟨hreads, hwrites, -⟩ := h
  obtain ⟨hfailures, hsame⟩ := s.inner.stream.failures_read
  replace hreads : failures s.inner.stream.readResults = failures i.stream.readResults := hreads
  rw [hreads] at hfailures
  rw [hwrites] at hsame
  have hreader := tryRead_ofReader (T := T) s.inner.msgReader
  unfold readRound
  generalize s.inner.stream.read = answer at hfailures hsame
  obtain ⟨e | bytes, stream⟩ := answer
  · cases he : e.isRetry with
    | true =>
        simp only [he, if_true, IoResult.failure?] at hfailures ⊢
        split
        · exact .asks hreader hfailures hsame
        · exact .leaves (by simp) hfailures hsame
    | false =>
        simp only [he, Bool.false_eq_true, if_false, IoResult.failure?] at hfailures ⊢
        refine .leaves (fun e' he' => .inl ⟨e, ?_⟩) hfailures hsame
        exact (Except.error.inj (Option.some.inj he')).symm
  · have hend : ∀ e, some (.error .zeroByteRead : Res L (Option T)) = some (.error e) →
        (∃ x, e = .io x) ∨ e = .zeroByteRead :=
      fun e he => .inr (Except.error.inj (Option.some.inj he)).symm
    simp only
    split
    · split
      · simp only [tryRead]
        generalize s.inner.msgReader.tryRead T = answer at hreader
        obtain ⟨e | _ | message, msgReader⟩ := answer
        · exact .asks hreader hfailures hsame
        · exact .leaves hend hfailures hsame
        · exact .leaves (by simp) hfailures hsame
      · exact .leaves hend hfailures hsame
    · exact .leaves (by simp) hfailures hsame

/-- **A call of `read`.** -/
private theorem readsOff_read [Serde L UInt32] [Serde L T] (i : Inner L G) :
    ReadsOff i (some (i.read T).1) (i.read T).2 := by
  have hreader := tryRead_ofReader (T := T) i.msgReader
  simp only [read, tryRead]
  generalize i.msgReader.tryRead T = answer at hreader
  obtain ⟨e | _ | message, msgReader⟩ := answer
  · exact .asks hreader rfl rfl
  · refine (readLoop T).exec_rule (fun s => ReadsOff (T := T) i none s.inner)
      (fun s res => ReadsOff i (some res) s.inner) ?_ ?_ _ (.leaves (by simp) rfl rfl)
    · intro s s' h hbody
      have hround := h.round
      replace hbody : readRound T s = (s', none) := hbody
      rwa [hbody] at hround
    · intro s s' res h hbody
      have hround := h.round
      replace hbody : readRound T s = (s', some res) := hbody
      rwa [hbody] at hround
  · exact .leaves (by simp) rfl rfl

/-- A call writes: it reports the failures it takes off the script, it does not read,
and its other errors are those of encrypting. -/
private structure WritesOff (i : Inner L G) (res : Option (Res L Bool)) (i' : Inner L G) :
    Prop where
  writes : res.elim [] surfaced ++ failures i'.stream.writeResults =
    failures i.stream.writeResults
  reads : i'.stream.readResults = i.stream.readResults
  kind : ∀ e, res = some (.error e) → (∃ x, e = .io x) ∨ e.ofCodec = true

private theorem WritesOff.round {i s : Inner L G} (h : WritesOff i none s) :
    WritesOff i s.flushRound.2 s.flushRound.1 := by
  have htakes := s.takes_takeData
  unfold flushRound
  generalize s.takeData = taken at htakes
  obtain ⟨data, s₁⟩ := taken
  have hstream : s₁.stream = s.stream := by cases htakes <;> rfl
  obtain ⟨hwrites, hreads, -⟩ := h
  replace hwrites : failures s.stream.writeResults = failures i.stream.writeResults := hwrites
  rw [← hstream] at hwrites hreads
  cases data with
  | none => exact ⟨hwrites, hreads, by simp⟩
  | some data =>
      obtain ⟨hfailures, hsame⟩ := s₁.stream.failures_write data.bytes
      rw [hwrites] at hfailures
      rw [hreads] at hsame
      simp only [writeData]
      generalize s₁.stream.write data.bytes = answer at hfailures hsame
      obtain ⟨e | n, stream⟩ := answer
      · cases he : e.isRetry with
        | true =>
            simp only [he, if_true, IoResult.failure?] at hfailures ⊢
            exact ⟨hfailures, hsame, by simp⟩
        | false =>
            simp only [he, Bool.false_eq_true, if_false, IoResult.failure?] at hfailures ⊢
            refine ⟨hfailures, hsame, fun e' he' => .inl ⟨e, ?_⟩⟩
            exact (Except.error.inj (Option.some.inj he')).symm
      · simp only
        split <;> exact ⟨hfailures, hsame, by simp⟩

private theorem writesOff_flush {i s : Inner L G} (h : WritesOff i none s) :
    WritesOff i (some s.flushWriteUntilWouldBlock.1) s.flushWriteUntilWouldBlock.2 := by
  refine flushLoop.exec_rule (fun s => WritesOff i none s) (fun s res => WritesOff i (some res) s)
    ?_ ?_ s h
  · intro s s' h hbody
    have hround := h.round
    replace hbody : s.flushRound = (s', none) := hbody
    rwa [hbody] at hround
  · intro s s' res h hbody
    have hround := h.round
    replace hbody : s.flushRound = (s', some res) := hbody
    rwa [hbody] at hround

private theorem serializeWithLen_ofCodec [Serde L UInt32] [Serde L T] {nonces : FrameNonces L}
    {value : T} {ctx : EncryptContext L} {e : SocketError L}
    (h : serializeWithLen nonces value ctx = .error e) : e.ofCodec = true := by
  unfold serializeWithLen at h
  cases hpayload : ctx.encrypt nonces.payload value with
  | error e' =>
      rw [hpayload] at h
      obtain rfl : e' = e := Except.error.inj h
      exact encrypt_ofCodec hpayload
  | ok payload =>
      rw [hpayload] at h
      cases hheader : ctx.encrypt nonces.header (lenAsU32 payload) with
      | error e' =>
          simp only [bind, Except.bind, hheader] at h
          obtain rfl := Except.error.inj h
          exact encrypt_ofCodec hheader
      | ok header => simp [bind, Except.bind, hheader, pure, Except.pure] at h

/-- **A call of `write`.** -/
private theorem writesOff_write [Serde L UInt32] [Serde L T] (i : Inner L G) (clock : Clock)
    (nonces : FrameNonces L) (label : G) (msg : Option (T × Priority)) :
    WritesOff i (some (i.write clock nonces label msg).1) (i.write clock nonces label msg).2 := by
  rcases msg with _ | ⟨m, priority⟩
  · exact writesOff_flush ⟨rfl, rfl, by simp⟩
  · simp only [write, enqueueData]
    cases hser : serializeWithLen nonces m i.encCtx with
    | error e =>
        have hcodec := serializeWithLen_ofCodec hser
        have hnone : surfaced (.error e : Res L Bool) = [] :=
          surfaced_ofCodec fun e' he => Except.error.inj he ▸ hcodec
        refine ⟨?_, rfl, fun e' he => .inr ?_⟩
        · simp only [Option.elim_some, hnone]
          rfl
        · obtain rfl := Except.error.inj (Option.some.inj he)
          exact hcodec
    | ok buf => exact writesOff_flush ⟨rfl, rfl, by simp⟩

end Inner

/-! ## UDP -/

namespace Udp

namespace UdpSocket

/-- The errors that the receives to come will have to report. -/
def recvFailures (s : UdpSocket) : List IoError := failures s.recvResults

/-- The errors that the sends to come will have to report. -/
def sendFailures (s : UdpSocket) : List IoError :=
  failures (s.sendResults.map fun answer => answer.result 0)

private theorem failures_recvFrom (s : UdpSocket) :
    s.recvFrom.1.failure?.toList ++ s.recvFrom.2.recvFailures = s.recvFailures ∧
      s.recvFrom.2.sendResults = s.sendResults := by
  unfold recvFrom recvFailures
  split
  · exact ⟨rfl, rfl⟩
  · next e rest hscript =>
      rw [hscript, failures_cons]
      exact ⟨rfl, rfl⟩
  · next payload sender rest hscript =>
      rw [hscript]
      exact ⟨rfl, rfl⟩

private theorem failures_send (s : UdpSocket) (data : Bytes) (peer : Option SocketAddr) :
    (s.send data peer).1.failure?.toList ++ (s.send data peer).2.sendFailures = s.sendFailures ∧
      (s.send data peer).2.recvResults = s.recvResults := by
  unfold send sendFailures
  split
  · exact ⟨rfl, rfl⟩
  · next answer rest hscript =>
      rw [hscript, List.map_cons, failures_cons]
      cases answer <;> exact ⟨rfl, rfl⟩

end UdpSocket

/-- A call receives: it reports the failures it takes off the script, and sends
nothing. -/
private structure ReceivesOff (s : UdpSocket) (res : Option (Res L α)) (s' : UdpSocket) : Prop where
  reads : res.elim [] surfaced ++ s'.recvFailures = s.recvFailures
  writes : s'.sendResults = s.sendResults
  kind : ∀ e, res = some (.error e) → (∃ x, e = .io x) ∨ e.ofCodec = true

private theorem ReceivesOff.round {M : Type} [IsEmpty M] (view : Bytes × SocketAddr → M)
    {sock : UdpSocket} {s : Incoming M}
    (h : ReceivesOff (L := L) sock (none : Option (Res L (Option M))) s.sock) :
    ReceivesOff (L := L) sock (s.recvRound view).2 (s.recvRound (L := L) view).1.sock := by
  obtain ⟨hreads, hwrites, -⟩ := h
  obtain ⟨hfailures, hsame⟩ := s.sock.failures_recvFrom
  replace hreads : s.sock.recvFailures = sock.recvFailures := hreads
  rw [hreads] at hfailures
  rw [hwrites] at hsame
  unfold Incoming.recvRound UdpSocket.recvAs
  generalize s.sock.recvFrom = answer at hfailures hsame
  obtain ⟨e | d, sock'⟩ := answer
  · cases he : e.isRetry with
    | true =>
        simp only [Except.map, handleRecvRes, he, if_true, IoResult.failure?] at hfailures ⊢
        exact ⟨hfailures, hsame, by simp⟩
    | false =>
        simp only [Except.map, handleRecvRes, he, Bool.false_eq_true, if_false,
          IoResult.failure?] at hfailures ⊢
        refine ⟨hfailures, hsame, fun e' he' => .inl ⟨e, ?_⟩⟩
        exact (Except.error.inj (Option.some.inj he')).symm
  · exact ⟨hfailures, hsame, by simp [Except.map, handleRecvRes]⟩

private theorem receivesOff_next {M : Type} [IsEmpty M] (view : Bytes × SocketAddr → M)
    (s : Incoming M) :
    ReceivesOff (L := L) s.sock (some (s.next view).1) (s.next (L := L) view).2.sock := by
  obtain ⟨sock, _ | ⟨msg, readBuffer⟩⟩ := s
  · refine (Incoming.recvLoop (L := L) view).exec_rule
      (fun s => ReceivesOff sock (none : Option (Res L (Option M))) s.sock)
      (fun s res => ReceivesOff sock (some res) s.sock) ?_ ?_ ⟨sock, []⟩ ⟨rfl, rfl, by simp⟩
    · intro s s' h hbody
      have hround := h.round view
      replace hbody : s.recvRound view = (s', none) := hbody
      rwa [hbody] at hround
    · intro s s' res h hbody
      have hround := h.round view
      replace hbody : s.recvRound view = (s', some res) := hbody
      rwa [hbody] at hround
  · exact ⟨rfl, rfl, by simp [Incoming.next]⟩

/-- **A call of `read`.** -/
private theorem receivesOff_read (T : Type) [Serde L T] (i : Inner L G) :
    ReceivesOff i.sock (some (i.read T).1) (i.read T).2.sock := by
  have hnext : ReceivesOff i.sock
      (some ((Inner.recvPath.incoming i).next (L := L) (Inner.recvPath (L := L) (G := G)).view).1)
      ((Inner.recvPath.incoming i).next (L := L) (Inner.recvPath (L := L) (G := G)).view).2.sock :=
    receivesOff_next Prod.fst (Inner.recvPath.incoming i)
  unfold Inner.read Inner.readVia
  generalize (Inner.recvPath.incoming i).next (L := L) Inner.recvPath.view = answer at hnext
  obtain ⟨hreads, hwrites, hkind⟩ := hnext
  obtain ⟨e | _ | data, incoming⟩ := answer
  · refine ⟨(congrArg (· ++ _) (surfaced_error e)).trans hreads, hwrites, fun e' he' => hkind e' ?_⟩
    obtain rfl := Except.error.inj (Option.some.inj he')
    rfl
  · exact ⟨hreads, hwrites, fun e he => by cases he⟩
  · have hcodec : ∀ e, (i.decCtx.decrypt (T := T) data).map some = .error e → e.ofCodec = true := by
      intro e he
      cases hdec : i.decCtx.decrypt (T := T) data with
      | ok v => simp [hdec, Except.map] at he
      | error e' =>
          rw [hdec] at he
          obtain rfl := Except.error.inj he
          exact decrypt_ofCodec hdec
    refine ⟨?_, hwrites, fun e he => .inr (hcodec e (Option.some.inj he))⟩
    have hnone := surfaced_ofCodec hcodec
    show surfaced ((i.decCtx.decrypt (T := T) data).map some) ++ _ = _
    rw [hnone]
    exact hreads

/-- A call sends: it reports the failures it takes off the script, and receives
nothing. -/
private structure SendsOff (s : UdpSocket) (res : Option (Res L Bool)) (s' : UdpSocket) : Prop where
  writes : res.elim [] surfaced ++ s'.sendFailures = s.sendFailures
  reads : s'.recvResults = s.recvResults
  kind : ∀ e, res = some (.error e) → (∃ x, e = .io x) ∨ e.ofCodec = true

variable {M : Type} (wire : Wire M)

private theorem SendsOff.round {sock : UdpSocket} {o : Outgoing L M}
    (h : SendsOff (L := L) sock none o.sock) :
    SendsOff sock (o.flushRound wire).2 (o.flushRound wire).1.sock := by
  have hsock := o.takeMsg_sock
  obtain ⟨hwrites, hreads, -⟩ := h
  replace hwrites : o.sock.sendFailures = sock.sendFailures := hwrites
  unfold Outgoing.flushRound
  generalize o.takeMsg = taken at hsock
  obtain ⟨_ | msg, o₁⟩ := taken
  · rw [← hsock] at hwrites hreads
    exact ⟨hwrites, hreads, by simp⟩
  · obtain ⟨hfailures, hsame⟩ := o₁.sock.failures_send (wire.data msg) (wire.peer msg)
    replace hsock : o₁.sock = o.sock := hsock
    rw [← hsock] at hwrites hreads
    rw [hwrites] at hfailures
    rw [hreads] at hsame
    simp only [Outgoing.sendMsg]
    generalize o₁.sock.send (wire.data msg) (wire.peer msg) = answer at hfailures hsame
    obtain ⟨e | n, sock'⟩ := answer
    · cases he : e.isRetry with
      | true =>
          simp only [handleSendRes, he, if_true, IoResult.failure?] at hfailures ⊢
          exact ⟨hfailures, hsame, by simp⟩
      | false =>
          simp only [handleSendRes, he, Bool.false_eq_true, if_false, IoResult.failure?]
            at hfailures ⊢
          refine ⟨hfailures, hsame, fun e' he' => .inl ⟨e, ?_⟩⟩
          exact (Except.error.inj (Option.some.inj he')).symm
    · exact ⟨hfailures, hsame, by simp [handleSendRes]⟩

private theorem sendsOff_flush (o : Outgoing L M) :
    SendsOff o.sock (some (o.flush wire).1) (o.flush wire).2.sock := by
  refine (Outgoing.flushLoop wire).exec_rule (fun s => SendsOff (L := L) o.sock none s.sock)
    (fun s res => SendsOff o.sock (some res) s.sock) ?_ ?_ o ⟨rfl, rfl, by simp⟩
  · intro s s' h hbody
    have hround := h.round wire
    replace hbody : s.flushRound wire = (s', none) := hbody
    rwa [hbody] at hround
  · intro s s' res h hbody
    have hround := h.round wire
    replace hbody : s.flushRound wire = (s', some res) := hbody
    rwa [hbody] at hround

private theorem sendsOff_outgoing (o : Outgoing L M) (clock : Clock)
    {msg : Option (Res L M × Priority)}
    (hcodec : ∀ e p, msg = some (.error e, p) → e.ofCodec = true) :
    SendsOff o.sock (some (o.write wire clock msg).1) (o.write wire clock msg).2.sock := by
  rcases msg with _ | ⟨e | m, priority⟩
  · exact sendsOff_flush wire { o with outQueue := (o.outQueue.dropExpired clock.dropExpired).2 }
  · have he := hcodec e priority rfl
    have hnone : surfaced (.error e : Res L Bool) = [] :=
      surfaced_ofCodec fun e' he' => Except.error.inj he' ▸ he
    refine ⟨?_, rfl, fun e' he' => .inr (Except.error.inj (Option.some.inj he') ▸ he)⟩
    show surfaced (.error e : Res L Bool) ++ _ = _
    rw [hnone]
    rfl
  · exact sendsOff_flush wire { o with outQueue :=
      (o.outQueue.dropExpired clock.dropExpired).2.push clock.push m priority }

/-- **A call of `write`.** -/
private theorem sendsOff_write [Serde L T] (i : Inner L G) (clock : Clock) (nonce : L.Nonce)
    (label : G) (msg : Option (T × Priority)) :
    SendsOff i.sock (some (i.write clock nonce label msg).1)
      (i.write clock nonce label msg).2.sock := by
  refine sendsOff_outgoing Inner.sendPath.wire (Inner.sendPath.outgoing i) clock fun e p h => ?_
  rcases msg with _ | ⟨m, priority⟩
  · cases h
  · obtain ⟨hres, -⟩ := Prod.mk.inj (Option.some.inj h)
    cases henc : i.encCtx.encrypt nonce m with
    | ok buf => simp [henc, Except.map] at hres
    | error e' =>
        rw [henc] at hres
        obtain rfl := Except.error.inj hres
        exact encrypt_ofCodec henc

end Udp

/-! ## Either of them -/

/-- A call on a socket. -/
inductive SocketCall (L : Crates) (G : Type) : Type 1
  | setEncryptCtx (encCtx : EncryptContext L)
  | setDecryptCtx (decCtx : DecryptContext L)
  | localAddr (os : Os)
  | peerAddr (os : Os)
  | setTtl (os : Os) (value : UInt32)
  | ttl (os : Os)
  | takeError (os : Os)
  | setLinger (os : Os) (dur : Option Duration)
  | read (T : Type) [Serde L T]
  | write (T : Type) [Serde L T] (clock : Clock) (nonces : FrameNonces L) (label : G)
      (msg : Option (T × Priority))

/-- The error that the operating system answers to a call that asks it. -/
def SocketCall.refusal : SocketCall L G → Option IoError
  | .localAddr os => os.localAddr.error?
  | .peerAddr os => os.peerAddr.error?
  | .setTtl os value => (os.setTtl value).error?
  | .ttl os => os.ttl.error?
  | .takeError os => os.takeError.error?
  | .setLinger os dur => (os.setLinger dur).error?
  | _ => none

namespace Socket

variable [Serde L UInt32]

/-- A call, without the value that it returns. -/
def perform (s : Socket L G) : SocketCall L G → Res L Unit × Socket L G
  | .setEncryptCtx encCtx => s.setEncryptCtx encCtx
  | .setDecryptCtx decCtx => s.setDecryptCtx decCtx
  | .localAddr os => ((s.localAddr os).map fun _ => (), s)
  | .peerAddr os => ((s.peerAddr os).map fun _ => (), s)
  | .setTtl os value => (s.setTtl os value, s)
  | .ttl os => ((s.ttl os).map fun _ => (), s)
  | .takeError os => ((s.takeError os).map fun _ => (), s)
  | .setLinger os dur => (s.setLinger os dur, s)
  | @SocketCall.read _ _ T _ => ((s.read T).1.map fun _ => (), (s.read T).2)
  | @SocketCall.write _ _ _ _ clock nonces label msg =>
      ((s.write clock nonces label msg).1.map fun _ => (), (s.write clock nonces label msg).2)

def step (s : Socket L G) (call : SocketCall L G) : Socket L G := (s.perform call).2

omit [Serde L UInt32] in
def initialised : Socket L G → Bool
  | .udp sock => sock.sock.inner.isSome
  | .tcp sock => sock.inner.isSome

omit [Serde L UInt32] in
/-- The errors that reads will have to report. -/
def readFailures : Socket L G → List IoError
  | .udp sock => sock.sock.inner.elim [] fun i => i.sock.recvFailures
  | .tcp sock => sock.inner.elim [] fun i => failures i.stream.readResults

omit [Serde L UInt32] in
/-- The errors that writes will have to report. -/
def writeFailures : Socket L G → List IoError
  | .udp sock => sock.sock.inner.elim [] fun i => i.sock.sendFailures
  | .tcp sock => sock.inner.elim [] fun i => failures i.stream.writeResults

/-- The error of the operating system that a call of `read` returns. -/
def readReports (s : Socket L G) (call : SocketCall L G) : List IoError :=
  match call with
  | @SocketCall.read _ _ _ _ => surfaced (s.perform call).1
  | _ => []

/-- The error of the operating system that a call of `write` returns. -/
def writeReports (s : Socket L G) (call : SocketCall L G) : List IoError :=
  match call with
  | @SocketCall.write _ _ _ _ _ _ _ _ => surfaced (s.perform call).1
  | _ => []

omit [Serde L UInt32] in
/-- The reasons why a call may fail. -/
inductive Explained (s : Socket L G) : SocketCall L G → SocketError L → Prop
  | uninitialised {call} (h : s.initialised = false) : Explained s call .uninitialisedSocket
  | refused {call e} (h : call.refusal = some e) : Explained s call (.io e)
  | unconnected {os sock} (hs : s = .udp sock) (hpeer : sock.peer = none) :
      Explained s (.peerAddr os) .unconnectedUdpSocket
  | readFails {T e rest} [Serde L T] (h : s.readFailures = e :: rest) :
      Explained s (.read T) (.io e)
  | ended {T sock} [Serde L T] (hs : s = .tcp sock) : Explained s (.read T) .zeroByteRead
  | frame {T sock e} [Serde L T] (hs : s = .tcp sock) (he : e.ofReader = true) :
      Explained s (.read T) e
  | datagram {T sock e} [Serde L T] (hs : s = .udp sock) (he : e.ofCodec = true) :
      Explained s (.read T) e
  | writeFails {T clock nonces label msg e rest} [Serde L T] (h : s.writeFailures = e :: rest) :
      Explained s (.write T clock nonces label msg) (.io e)
  | encoding {T clock nonces label msg e} [Serde L T] (he : e.ofCodec = true) :
      Explained s (.write T clock nonces label msg) e

/-- What a call does to the errors. -/
private structure Performs (s : Socket L G) (call : SocketCall L G) : Prop where
  reads : s.readReports call ++ (s.step call).readFailures = s.readFailures
  writes : s.writeReports call ++ (s.step call).writeFailures = s.writeFailures
  initialised : (s.step call).initialised = s.initialised
  explained : ∀ e, (s.perform call).1 = .error e → s.Explained call e

variable {s : Socket L G}

/-- A call that only asks. -/
private theorem performs_ask {call : SocketCall L G} {res : Res L Unit}
    (hperform : s.perform call = (res, s)) (hreads : s.readReports call = [])
    (hwrites : s.writeReports call = []) (hexplained : ∀ e, res = .error e → s.Explained call e) :
    s.Performs call := by
  have hstep : s.step call = s := by rw [step, hperform]
  refine ⟨?_, ?_, ?_, ?_⟩
  · rw [hreads, hstep]
    rfl
  · rw [hwrites, hstep]
    rfl
  · rw [hstep]
  · rw [hperform]
    exact hexplained

omit [Serde L UInt32] in
private theorem error_of_map {f : α → β} {res : Res L α} {e : SocketError L}
    (h : res.map f = .error e) : res = .error e := by
  cases res with
  | error e' =>
      obtain rfl := Except.error.inj h
      rfl
  | ok a => cases h

omit [Serde L UInt32] in
private theorem explained_askStream {sock : TcpSock L G} {call : SocketCall L G}
    {answer : IoResult α} {e : SocketError L} (hcall : call.refusal = answer.error?)
    (he : sock.askStream answer = .error e) : (Socket.tcp sock).Explained call e := by
  obtain ⟨_ | i⟩ := sock
  · obtain rfl := Except.error.inj he
    exact .uninitialised rfl
  · cases answer with
    | ok a => cases he
    | error x =>
        obtain rfl := Except.error.inj he
        exact .refused hcall

omit [Serde L UInt32] in
private theorem explained_askSock {sock : Udp.PeerSock L G} {call : SocketCall L G}
    {answer : IoResult α} {e : SocketError L} (hcall : call.refusal = answer.error?)
    (he : sock.askSock answer = .error e) : (Socket.udp sock).Explained call e := by
  obtain ⟨⟨_ | i⟩, peer⟩ := sock
  · obtain rfl := Except.error.inj he
    exact .uninitialised rfl
  · cases answer with
    | ok a => cases he
    | error x =>
        obtain rfl := Except.error.inj he
        exact .refused hcall

omit [Serde L UInt32] in
private theorem explained_peerAddr {sock : Udp.PeerSock L G} {os : Os} {e : SocketError L}
    (he : sock.peerAddr = .error e) : (Socket.udp sock).Explained (.peerAddr os) e := by
  obtain ⟨⟨_ | i⟩, _ | peer⟩ := sock
  · obtain rfl := Except.error.inj he
    exact .uninitialised rfl
  · obtain rfl := Except.error.inj he
    exact .uninitialised rfl
  · obtain rfl := Except.error.inj he
    exact .unconnected rfl rfl
  · cases he

private theorem performs_udp (sock : Udp.PeerSock L G) (call : SocketCall L G) :
    (Socket.udp sock).Performs call := by
  cases call with
  | setEncryptCtx encCtx | setDecryptCtx decCtx =>
      obtain ⟨⟨_ | i⟩, peer⟩ := sock
      · refine ⟨rfl, rfl, rfl, fun e he => ?_⟩
        obtain rfl := Except.error.inj he
        exact .uninitialised rfl
      · exact ⟨rfl, rfl, rfl, fun e he => by cases he⟩
  | localAddr os | ttl os | takeError os =>
      exact performs_ask rfl rfl rfl fun e he => explained_askSock rfl (error_of_map he)
  | setTtl os value => exact performs_ask rfl rfl rfl fun e he => explained_askSock rfl he
  | peerAddr os => exact performs_ask rfl rfl rfl fun e he => explained_peerAddr (error_of_map he)
  | setLinger os dur => exact performs_ask rfl rfl rfl fun e he => by cases he
  | read T =>
      obtain ⟨⟨_ | i⟩, peer⟩ := sock
      · refine ⟨rfl, rfl, rfl, fun e he => ?_⟩
        obtain rfl := Except.error.inj he
        exact .uninitialised rfl
      · obtain ⟨hreads, hwrites, hkind⟩ := Udp.receivesOff_read T i
        refine ⟨?_, ?_, rfl, fun e he => ?_⟩
        · show surfaced ((i.read T).1.map fun _ => ()) ++ _ = _
          rw [surfaced_map]
          exact hreads
        · show (i.read T).2.sock.sendFailures = i.sock.sendFailures
          rw [Udp.UdpSocket.sendFailures, hwrites]
          rfl
        · have hres : (i.read T).1 = .error e := error_of_map he
          rcases hkind e (congrArg some hres) with ⟨x, rfl⟩ | hcodec
          · rw [hres] at hreads
            exact .readFails hreads.symm
          · exact .datagram rfl hcodec
  | write T clock nonces label msg =>
      obtain ⟨⟨_ | i⟩, peer⟩ := sock
      · refine ⟨rfl, rfl, rfl, fun e he => ?_⟩
        obtain rfl := Except.error.inj he
        exact .uninitialised rfl
      · obtain ⟨hwrites, hreads, hkind⟩ := Udp.sendsOff_write i clock nonces.payload label msg
        refine ⟨?_, ?_, rfl, fun e he => ?_⟩
        · show (i.write clock nonces.payload label msg).2.sock.recvFailures = i.sock.recvFailures
          rw [Udp.UdpSocket.recvFailures, hreads]
          rfl
        · show surfaced ((i.write clock nonces.payload label msg).1.map fun _ => ()) ++ _ = _
          rw [surfaced_map]
          exact hwrites
        · have hres : (i.write clock nonces.payload label msg).1 = .error e := error_of_map he
          rcases hkind e (congrArg some hres) with ⟨x, rfl⟩ | hcodec
          · rw [hres] at hwrites
            exact .writeFails hwrites.symm
          · exact .encoding hcodec

private theorem performs_tcp (sock : TcpSock L G) (call : SocketCall L G) :
    (Socket.tcp sock).Performs call := by
  cases call with
  | setEncryptCtx encCtx | setDecryptCtx decCtx =>
      obtain ⟨_ | i⟩ := sock
      · refine ⟨rfl, rfl, rfl, fun e he => ?_⟩
        obtain rfl := Except.error.inj he
        exact .uninitialised rfl
      · exact ⟨rfl, rfl, rfl, fun e he => by cases he⟩
  | localAddr os | peerAddr os | ttl os | takeError os =>
      exact performs_ask rfl rfl rfl fun e he => explained_askStream rfl (error_of_map he)
  | setTtl os value => exact performs_ask rfl rfl rfl fun e he => explained_askStream rfl he
  | setLinger os dur => exact performs_ask rfl rfl rfl fun e he => explained_askStream rfl he
  | read T =>
      obtain ⟨_ | i⟩ := sock
      · refine ⟨rfl, rfl, rfl, fun e he => ?_⟩
        obtain rfl := Except.error.inj he
        exact .uninitialised rfl
      · obtain ⟨hreads, hwrites, hkind⟩ := i.readsOff_read (T := T)
        refine ⟨?_, ?_, rfl, fun e he => ?_⟩
        · show surfaced ((i.read T).1.map fun _ => ()) ++ _ = _
          rw [surfaced_map]
          exact hreads
        · show failures (i.read T).2.stream.writeResults = failures i.stream.writeResults
          rw [hwrites]
        · have hres : (i.read T).1 = .error e := error_of_map he
          rcases hkind e (congrArg some hres) with ⟨x, rfl⟩ | rfl | hreader
          · rw [hres] at hreads
            exact .readFails hreads.symm
          · exact .ended rfl
          · exact .frame rfl hreader
  | write T clock nonces label msg =>
      obtain ⟨_ | i⟩ := sock
      · refine ⟨rfl, rfl, rfl, fun e he => ?_⟩
        obtain rfl := Except.error.inj he
        exact .uninitialised rfl
      · obtain ⟨hwrites, hreads, hkind⟩ := i.writesOff_write clock nonces label msg
        refine ⟨?_, ?_, rfl, fun e he => ?_⟩
        · show failures (i.write clock nonces label msg).2.stream.readResults =
            failures i.stream.readResults
          rw [hreads]
        · show surfaced ((i.write clock nonces label msg).1.map fun _ => ()) ++ _ = _
          rw [surfaced_map]
          exact hwrites
        · have hres : (i.write clock nonces label msg).1 = .error e := error_of_map he
          rcases hkind e (congrArg some hres) with ⟨x, rfl⟩ | hcodec
          · rw [hres] at hwrites
            exact .writeFails hwrites.symm
          · exact .encoding hcodec

private theorem performs (s : Socket L G) (call : SocketCall L G) : s.Performs call := by
  cases s with
  | udp sock => exact performs_udp sock call
  | tcp sock => exact performs_tcp sock call

/-! ### Sockets that wrap nothing -/

omit [Serde L UInt32] in
/-- What the constructors make: a socket that wraps one of the operating system, with
any configuration, or a default one, that wraps none. -/
inductive Made : Socket L G → Bool → Prop
  | tcp (stream : TcpStream) (conf : SocketConfig L) : Made (.tcp (.wrapWithConf stream conf)) true
  | udp (sock : Udp.UdpSocket) (conf : SocketConfig L) : Made (.udp (.wrapWithConf sock conf)) true
  | tcpDefault : Made (.tcp .default) false
  | udpDefault : Made (.udp ⟨.default, none⟩) false

omit [Serde L UInt32] in
/-- The call is passed on: all are, but that on UDP there is no linger time to set. -/
def PassedOn : Socket L G → SocketCall L G → Prop
  | .udp _, .setLinger _ _ => False
  | _, _ => True

omit [Serde L UInt32] in
private theorem Made.initialised_eq {wrapped : Bool} (h : s.Made wrapped) :
    s.initialised = wrapped := by
  cases h <;> rfl

/-- An uninitialised socket refuses all calls. -/
private theorem perform_uninitialised {call : SocketCall L G} (hinit : s.initialised = false)
    (hpassed : s.PassedOn call) : (s.perform call).1 = .error .uninitialisedSocket := by
  cases s with
  | udp sock =>
      obtain ⟨⟨_ | i⟩, peer⟩ := sock
      · cases call with
        | setLinger os dur => exact hpassed.elim
        | _ => rfl
      · cases hinit
  | tcp sock =>
      obtain ⟨_ | i⟩ := sock
      · cases call <;> rfl
      · cases hinit

omit [Serde L UInt32] in
/-- And an initialised one has no reason to say that it is not. -/
private theorem Explained.not_initialised {call : SocketCall L G}
    (h : s.Explained call .uninitialisedSocket) : s.initialised = false := by
  cases h with
  | uninitialised h => exact h
  | frame hs he | datagram hs he | encoding he => cases he

/-- **Which sockets are uninitialised.**  In any run of calls on a socket that was just
made, those that are passed on answer `UninitialisedSocket` if the socket wraps nothing,
and never otherwise. -/
theorem uninitialised_iff {wrapped : Bool} (hmade : s.Made wrapped)
    (calls : List (SocketCall L G)) :
    Each step (fun s call => s.PassedOn call →
      ((s.perform call).1 = .error .uninitialisedSocket ↔ wrapped = false)) s calls := by
  have hinit : Always step (fun s => s.initialised = wrapped) s calls :=
    always_of_step hmade.initialised_eq fun s call h => (s.performs call).initialised.trans h
  refine hinit.each fun s call h hpassed => ?_
  rw [← h]
  exact ⟨fun hres => ((s.performs call).explained _ hres).not_initialised,
    fun hnone => perform_uninitialised hnone hpassed⟩

end Socket

/-- **No error of the operating system is swallowed, repeated or made up.**  In every
run of calls on a socket of either kind, over any script, the errors that `read` has
returned, followed by those still to come, are those that were to come at the start,
`WouldBlock` and `Interrupted` left out; so are those of `write`.  Every error that a
call returns is explained, and a socket stays initialised or uninitialised. -/
theorem errors_conserved [Serde L UInt32] (s : Socket L G) (calls : List (SocketCall L G)) :
    yields Socket.step Socket.readReports s calls ++ (calls.foldl Socket.step s).readFailures =
        s.readFailures ∧
      yields Socket.step Socket.writeReports s calls ++
        (calls.foldl Socket.step s).writeFailures = s.writeFailures ∧
      Each Socket.step (fun s call => ∀ e, (s.perform call).1 = .error e → s.Explained call e)
        s calls ∧
      Always Socket.step (fun s' => s'.initialised = s.initialised) s calls := by
  refine ⟨yields_append_store (fun s call => (s.performs call).reads) s calls,
    yields_append_store (fun s call => (s.performs call).writes) s calls, ?_, ?_⟩
  · have hall : Always Socket.step (fun _ : Socket L G => True) s calls :=
      always_of_step trivial fun _ _ _ => trivial
    exact hall.each fun s call _ => (s.performs call).explained
  · exact always_of_step rfl fun s call h => (s.performs call).initialised.trans h

end SocketCollection
