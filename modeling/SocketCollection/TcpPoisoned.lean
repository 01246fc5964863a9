import SocketCollection.ReaderRetry
import SocketCollection.TcpConnection

/-!
# A frame that cannot be decoded

A frame in front of the reader that cannot be decrypted or deserialised stays
where it is.  `Inner::read` asks the reader first, and returns its error before it
looks at the stream.  So a peer that sends one such frame has closed this
direction of the connection: until the context or the type that is asked for is
changed, every later read returns the same error, leaves the socket as it is, and
never reads from the stream again.  The other direction goes on.

## Main result

* `decode_error_sticks`: from the first decode error on, in every run.
-/

namespace SocketCollection

open Runs LenDelimitedReader

variable {L : Crates} {T N G : Type} [Serde L UInt32] [Serde L T]

/-! ## The reader -/

namespace LenDelimitedReader

/-- The frame in front has come far enough to be found undecodable as a `T`. -/
inductive Stuck (T : Type) [Serde L T] (e : SocketError L) (r : LenDelimitedReader L) : Prop
  | header (h0 : r.readLen = 0) (hlen : r.decCtx.encryptedSizeLen ≤ r.readBuffer.length)
      (hdec : r.decCtx.decrypt (T := UInt32) r.header = .error e) : Stuck T e r
  | payload (h0 : r.readLen ≠ 0) (hlen : r.readLen ≤ r.readBuffer.length)
      (hdec : r.decCtx.decrypt (T := T) (r.readBuffer.take r.readLen) = .error e) : Stuck T e r

variable {r r' : LenDelimitedReader L} {e : SocketError L}

theorem Stuck.tryRead (h : Stuck T e r) : r.tryRead T = (.error e, r) := by
  cases h with
  | header h0 hlen hdec => exact tryRead_bad_header h0 hlen hdec
  | payload h0 hlen hdec => exact tryRead_bad_payload h0 hlen hdec

/-- A call that fails to decode leaves the reader stuck. -/
private theorem Reads.stuck {res : Res L (Option T)} (h : Reads T r res r')
    (hres : res = .error e) (he : e.IsDecode) : Stuck T e r' := by
  induction h with
  | noHeader | emptyFrame | noPayload | payload => cases hres
  | badHeader h0 hlen hdec =>
      cases hres
      exact .header h0 hlen hdec
  | badPayload h0 hlen hdec =>
      cases hres
      exact .payload h0 hlen hdec
  | oversize =>
      cases hres
      rcases he with ⟨x, hx⟩ | ⟨x, hx⟩ <;> cases hx
  | header h0 hlen hdec hmax hn rest ih => exact ih hres

end LenDelimitedReader

/-! ## The socket -/

namespace Inner

/-- A decode error leaves the reader stuck. -/
private def Sticks (out : Option (Res L (Option T))) (i : Inner L G) : Prop :=
  ∀ e, out = some (.error e) → e.IsDecode → Stuck T e i.msgReader

private theorem tryRead_stuck {r r' : LenDelimitedReader L} {res : Res L (Option T)}
    (htry : r.tryRead T = (res, r')) {e : SocketError L} (hout : some res = some (.error e))
    (he : e.IsDecode) : Stuck T e r' :=
  (Reads.of_eq htry).stuck (Option.some.inj hout) he

/-- **A read that fails to decode** leaves its frame in front. -/
private theorem read_sticks (i : Inner L G) : Sticks (some (i.read T).1) (i.read T).2 := by
  refine read_rule (P := Sticks) ?_ ?_ ?_
  · exact fun res r htry _ e hout he => tryRead_stuck htry hout he
  · exact fun r _ e hout => nomatch hout
  · intro s s' out _ hround e hout he
    cases hround with
    | segment | idle => cases hout
    | asks _ htry => exact tryRead_stuck htry hout he
    | ended | closed | failed =>
        cases hout
        rcases he with ⟨x, hx⟩ | ⟨x, hx⟩ <;> cases hx

/-- A stuck reader answers before the stream is looked at. -/
private theorem read_of_stuck {i : Inner L G} {e : SocketError L} (h : Stuck T e i.msgReader) :
    i.read T = (.error e, i) := by
  simp only [read, tryRead, h.tryRead]

end Inner

/-! ## The runs of a socket -/

/-- What may happen to a socket: a call that sends or changes the context it sends
under, an answer the stream will give to a read, or a read. -/
inductive SockOp (L : Crates) (N : Type) : Type 1
  | send (op : SendOp L N)
  | arrive (answer : IoResult Bytes)
  | read

namespace Sender

/-- The socket after an operation; its reads ask for a `T`. -/
def after (T : Type) [Serde L T] (s : Sender L N) : SockOp L N → Sender L N
  | .send op => s.step op
  | .arrive answer => { s with inner := s.inner.offer answer }
  | .read => { s with inner := (s.inner.read T).2 }

omit [Serde L T] in
private theorem step_msgReader (s : Sender L N) (op : SendOp L N) :
    (s.step op).inner.msgReader = s.inner.msgReader := by
  cases op with
  | write T clock nonces note msg =>
      have hhalf := s.write_reading s.inner.outQueue.conf clock nonces note msg
      exact congrArg (fun half => half.msgReader) hhalf
  | setEncryptCtx encCtx => rfl

end Sender

/-- **A decode error stays.**  After a read has failed to decrypt or to deserialise
a message, every later read of the same type returns the same error and changes
nothing, whatever is sent and whatever arrives. -/
theorem decode_error_sticks (s : Sender L N) {e : SocketError L}
    (hread : (s.inner.read T).1 = .error e) (he : e.IsDecode) (ops : List (SockOp L N)) :
    Each (Sender.after T) (fun s op => op = .read → s.inner.read T = (.error e, s.inner))
      (s.after T .read) ops := by
  have hstuck : Stuck T e (s.after T .read).inner.msgReader :=
    s.inner.read_sticks e (congrArg some hread) he
  have halways : Always (Sender.after T) (fun s => Stuck T e s.inner.msgReader)
      (s.after T .read) ops := by
    refine always_of_step hstuck fun s op h => ?_
    cases op with
    | send op =>
        show Stuck T e (s.step op).inner.msgReader
        rwa [Sender.step_msgReader]
    | arrive answer => exact h
    | read =>
        show Stuck T e (s.inner.read T).2.msgReader
        rwa [Inner.read_of_stuck h]
  exact halways.each fun s op h _ => Inner.read_of_stuck h

namespace BincodeInstance

/-- A socket that shares the secret 7 has been sent a frame with another one. -/
def poisonedSender : Sender crates Unit :=
  { (Sender.start [] sharedConf : Sender crates Unit) with
    inner := (Sender.start [] sharedConf : Sender crates Unit).inner.offer
      (.ok (sealed 9 2 [52, 0, 0, 0] ++ sealed 9 1 [5, 0, 0, 0])) }

/-- A sound frame arrives behind it. -/
def poisonedOps : List (SockOp crates Unit) :=
  [.read, .arrive (.ok (sealed 7 2 [52, 0, 0, 0] ++ sealed 7 1 [5, 0, 0, 0])), .read,
    .send (.write UInt32 ⟨0, 0⟩ ⟨(1 : UInt8), (2 : UInt8)⟩ () (some (5, 0))), .read]

theorem decode_error_sticks_sealed :
    Each (Sender.after UInt32)
      (fun s op => op = .read →
        s.inner.read UInt32 = (.error (.crypto CodecError.decryptVerify), s.inner))
      (poisonedSender.after UInt32 .read) poisonedOps :=
  decode_error_sticks poisonedSender rfl (.inr ⟨_, rfl⟩) poisonedOps

end BincodeInstance

end SocketCollection
