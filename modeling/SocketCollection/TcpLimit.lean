import SocketCollection.TcpSender
import SocketCollection.BincodeInstance

/-!
# The size limit on the sending side

`max_payload_size` is documented as the maximum data size that the socket will
send, but only the reader looks at it: `serialize_with_len` builds a frame for
a payload of any length, and announces that length modulo `2 ^ 32`.

`SizesEnforced` is what the limit promises over a whole run.
`sizesEnforced_iff` says that the socket keeps the promise in exactly those
runs in which its caller never asks for a payload beyond it.
-/

namespace SocketCollection

open Runs

variable {L : Crates} {N : Type} [Serde L UInt32]

/-! ## What the limit promises -/

/-- The frame's header decrypts to the length of its payload, which is within
the limit. -/
def Announced (maxPayloadSize : Nat) (encCtx : EncryptContext L) (frame : Bytes) : Prop :=
  ∃ (header payload : Bytes) (n : UInt32), frame = header ++ payload ∧
    header.length = encCtx.encryptedSizeLen ∧ n.toNat = payload.length ∧
    payload.length ≤ maxPayloadSize ∧
    ∀ decCtx, Matching encCtx decCtx → decCtx.decrypt header = .ok n

namespace Sender

/-- Every frame on the wire, being written or queued is announced. -/
def AllAnnounced (maxPayloadSize : Nat) (s : Sender L N) : Prop :=
  ∀ e ∈ s.dequeued ++ s.queued, Announced maxPayloadSize e.msg.label.encCtx e.msg.bytes

/-- A write whose payload is too large is refused, and nothing is queued. -/
def RejectsOversize (maxPayloadSize : Nat) (s : Sender L N) : SendOp L N → Prop
  | @SendOp.write _ _ _ _ clock nonces note (some (msg, priority)) =>
      ∀ payload, s.inner.encCtx.encrypt nonces.payload msg = .ok payload →
        maxPayloadSize < payload.length →
          (s.inner.write clock nonces (s.origin note) (some (msg, priority))).1 =
              .error .payloadSizeProhibitive ∧
            (s.write clock nonces note (some (msg, priority))).enqueued = s.enqueued
  | _ => True

/-- The payload of a write is within the limit, and its length fits the
header. -/
def WithinLimit (maxPayloadSize : Nat) (s : Sender L N) : SendOp L N → Prop
  | @SendOp.write _ _ _ _ _ nonces _ (some (msg, _)) =>
      ∀ payload, s.inner.encCtx.encrypt nonces.payload msg = .ok payload →
        payload.length ≤ maxPayloadSize ∧
          ∀ frame, serializeWithLen nonces msg s.inner.encCtx = .ok frame →
            payload.length < 2 ^ 32
  | _ => True

/-- The sending limit over a run. -/
structure SizesEnforced (maxPayloadSize : Nat) (s : Sender L N) (ops : List (SendOp L N)) :
    Prop where
  announced : Always step (AllAnnounced maxPayloadSize) s ops
  rejects : Each step (RejectsOversize maxPayloadSize) s ops

/-! ## No write is refused for its size -/

end Sender

omit [Serde L UInt32] in
/-- The limit's error is the reader's: encoding never returns it. -/
private theorem encrypt_ne_prohibitive {T : Type} [Serde L T] (encCtx : EncryptContext L)
    (nonce : L.Nonce) (msg : T) :
    encCtx.encrypt nonce msg ≠ .error .payloadSizeProhibitive := by
  cases encCtx with
  | null =>
      cases h : Serde.serialise (L := L) msg <;>
        simp [EncryptContext.encrypt, h, Except.mapError]
  | authenticated k =>
      cases h : Serde.encrypt k nonce msg <;> simp [EncryptContext.encrypt, h, Except.mapError]
  | anonymousEncrypt pk =>
      cases h : Serde.anonymouslyEncrypt pk nonce msg <;>
        simp [EncryptContext.encrypt, h, Except.mapError]

private theorem serializeWithLen_ne_prohibitive {T : Type} [Serde L T] (nonces : FrameNonces L)
    (msg : T) (encCtx : EncryptContext L) :
    serializeWithLen nonces msg encCtx ≠ .error .payloadSizeProhibitive := by
  intro h
  unfold serializeWithLen at h
  cases hp : encCtx.encrypt nonces.payload msg with
  | error e =>
      simp only [hp, bind, Except.bind, Except.error.injEq] at h
      exact encrypt_ne_prohibitive encCtx nonces.payload msg (h ▸ hp)
  | ok payload =>
      cases hh : encCtx.encrypt nonces.header (lenAsU32 payload) with
      | error e =>
          simp only [hp, hh, bind, Except.bind, Except.error.injEq] at h
          exact encrypt_ne_prohibitive encCtx nonces.header (lenAsU32 payload) (h ▸ hh)
      | ok header => simp [hp, hh, bind, Except.bind, pure, Except.pure] at h

omit [Serde L UInt32] in
private theorem flush_ne_prohibitive {G : Type} (i : Inner L G) :
    i.flushWriteUntilWouldBlock.1 ≠ .error .payloadSizeProhibitive := by
  refine Inner.flushLoop.exec_rule (fun _ => True)
    (fun _ res => res ≠ .error .payloadSizeProhibitive) (fun _ _ _ _ => trivial) ?_ i trivial
  intro i i' r _ hbody
  replace hbody : i.flushRound = (i', some r) := hbody
  rw [Inner.flushRound] at hbody
  generalize i.takeData = taken at hbody
  obtain ⟨_ | data, i₁⟩ := taken
  · obtain ⟨-, h⟩ := Prod.mk.inj hbody
    simp [← Option.some.inj h]
  · have hwrites := i₁.writesData_writeData data
    replace hbody : i₁.writeData data = (i', some r) := hbody
    rw [hbody] at hwrites
    generalize hout : some r = out at hwrites
    cases hwrites with
    | partly | wholly => cases hout
    | blocked | failed => simp [Option.some.inj hout]

/-- **No write is ever refused for its size.** -/
theorem write_ne_prohibitive {G T : Type} [Serde L T] (i : Inner L G) (clock : Clock)
    (nonces : FrameNonces L) (label : G) (msg : Option (T × Priority)) :
    (i.write clock nonces label msg).1 ≠ .error .payloadSizeProhibitive := by
  rcases msg with _ | ⟨msg, priority⟩
  · exact flush_ne_prohibitive _
  · simp only [Inner.write, Inner.enqueueData]
    cases hser : serializeWithLen nonces msg i.encCtx with
    | error e =>
        intro h
        obtain rfl : e = .payloadSizeProhibitive := by simpa using h
        exact serializeWithLen_ne_prohibitive nonces msg i.encCtx hser
    | ok buf => exact flush_ne_prohibitive _

/-! ## What a frame announces -/

section Announced

variable {T : Type} [Serde L T] [LawfulSerde L UInt32] [LawfulSizeHeader L]
  {nonces : FrameNonces L} {msg : T} {encCtx : EncryptContext L} {payload frame : Bytes}
  {maxPayloadSize : Nat}

/-- **A frame is announced exactly when its payload is within the limit and
its length fits a `u32`.** -/
theorem announced_iff (hpayload : encCtx.encrypt nonces.payload msg = .ok payload)
    (hframe : serializeWithLen nonces msg encCtx = .ok frame) :
    Announced maxPayloadSize encCtx frame ↔
      payload.length ≤ maxPayloadSize ∧ payload.length < 2 ^ 32 := by
  obtain ⟨header, payload', hpayload', hheader, rfl⟩ := serializeWithLen_ok hframe
  obtain rfl : payload = payload' := Except.ok.inj (hpayload.symm.trans hpayload')
  have hsize := EncryptContext.encrypt_u32_length hheader
  constructor
  · rintro ⟨header', payload', n, hsplit, hsize', hn, hle, -⟩
    obtain ⟨-, rfl⟩ := List.append_inj hsplit (hsize.trans hsize'.symm)
    have hlt := n.toNat_lt
    exact ⟨hle, by omega⟩
  · rintro ⟨hle, hlt⟩
    exact ⟨header, payload, lenAsU32 payload, rfl, hsize, lenAsU32_toNat hlt, hle,
      fun decCtx hmatch => hmatch.decrypt_encrypt hheader⟩

end Announced

/-! ## The limit over a run -/

namespace Sender

variable {maxPayloadSize : Nat} {s : Sender L N}

/-- The entry of a write that can be encoded is on the wire or queued after
the call. -/
private theorem mem_write {T : Type} [Serde L T] (clock : Clock) {nonces : FrameNonces L}
    (note : N) {msg : T} (priority : Priority) {buf : Bytes}
    (hser : serializeWithLen nonces msg s.inner.encCtx = .ok buf) :
    ∃ e ∈ (s.write clock nonces note (some (msg, priority))).dequeued ++
        (s.write clock nonces note (some (msg, priority))).queued,
      e.msg.bytes = buf ∧ e.msg.label.encCtx = s.inner.encCtx := by
  have hser' : serializeWithLen nonces msg (s.dropExpired clock.dropExpired).inner.encCtx =
      .ok buf := hser
  simp only [write, hser']
  generalize he : (⟨priority, clock.push, ⟨buf, (s.dropExpired clock.dropExpired).origin note⟩⟩ :
    Entry.OfFrame L N) = e
  refine ⟨e, ?_, by rw [← he], by rw [← he]; rfl⟩
  apply flush_rule (P := fun s => e ∈ s.dequeued ++ s.queued)
  · intro s' h
    rwa [round_entries]
  · exact List.mem_append_right _ ((mem_queued_push _).mpr (.inr rfl))

section Step

variable [LawfulSerde L UInt32] [LawfulSizeHeader L]

private theorem AllAnnounced.step (h : s.AllAnnounced maxPayloadSize) {op : SendOp L N}
    (hlimit : s.WithinLimit maxPayloadSize op) : (s.step op).AllAnnounced maxPayloadSize := by
  cases op with
  | write T clock nonces note msg =>
      apply write_forall h
      rintro m priority buf rfl hser
      obtain ⟨header, payload, hpayload, -, -⟩ := serializeWithLen_ok hser
      have hbound := hlimit payload hpayload
      show Announced maxPayloadSize s.inner.encCtx buf
      exact (announced_iff hpayload hser).mpr ⟨hbound.1, hbound.2 buf hser⟩
  | setEncryptCtx encCtx => exact h

/-- A write that leaves only announced frames, and was not to be refused,
was within the limit. -/
private theorem withinLimit_of_announced {op : SendOp L N}
    (hannounced : (s.step op).AllAnnounced maxPayloadSize)
    (hrejects : s.RejectsOversize maxPayloadSize op) : s.WithinLimit maxPayloadSize op := by
  cases op with
  | setEncryptCtx encCtx => trivial
  | write T clock nonces note msg =>
      rcases msg with _ | ⟨msg, priority⟩
      · trivial
      · intro payload hpayload
        have hle : payload.length ≤ maxPayloadSize := by
          by_contra hgt
          have hrefused := (hrejects payload hpayload (by omega)).1
          exact write_ne_prohibitive _ _ _ _ _ hrefused
        refine ⟨hle, fun frame hframe => ?_⟩
        obtain ⟨e, hmem, rfl, hctx⟩ := mem_write clock note priority hframe
        have hann := hannounced e hmem
        rw [hctx] at hann
        exact ((announced_iff hpayload hframe).mp hann).2

omit [LawfulSerde L UInt32] [LawfulSizeHeader L] in
/-- A write within the limit is not one to be refused. -/
private theorem WithinLimit.rejects {op : SendOp L N} (h : s.WithinLimit maxPayloadSize op) :
    s.RejectsOversize maxPayloadSize op := by
  cases op with
  | setEncryptCtx encCtx => trivial
  | write T clock nonces note msg =>
      rcases msg with _ | ⟨msg, priority⟩
      · trivial
      · intro payload hpayload hgt
        have hle := (h payload hpayload).1
        omega

end Step

end Sender

/-- **The sending limit is kept exactly by the callers who keep it
themselves.**  A run sends only announced frames and refuses what is too large
if and only if no write of the run has a payload beyond the limit or one whose
length does not fit its header. -/
theorem sizesEnforced_iff [LawfulSerde L UInt32] [LawfulSizeHeader L]
    (writeResults : List (IoResult Nat)) (conf : SocketConfig L) (ops : List (SendOp L N)) :
    (Sender.start writeResults conf).SizesEnforced conf.maxPayloadSize ops ↔
      Each Sender.step (Sender.WithinLimit conf.maxPayloadSize) (.start writeResults conf)
        ops := by
  constructor
  · intro h
    exact (h.announced.each_next.and h.rejects).mono fun s op h =>
      Sender.withinLimit_of_announced h.1 h.2
  · intro h
    refine ⟨h.always (by simp [Sender.AllAnnounced]) fun s op hs hop => hs.step hop, ?_⟩
    exact h.mono fun s op hop => hop.rejects

namespace BincodeInstance

/-- A configuration that allows payloads of up to 2 bytes. -/
def tightConf : SocketConfig crates := { SocketConfig.default with maxPayloadSize := 2 }

def tightSender : Sender crates Unit := .start [.ok 8] tightConf

/-- A write of a number, which is a payload of 4 bytes. -/
def wideWrite : SendOp crates Unit :=
  .write UInt32 ⟨0, 0⟩ ⟨(0 : UInt8), (0 : UInt8)⟩ () (some (1, 0))

theorem sizesEnforced_iff_tight :
    tightSender.SizesEnforced 2 [wideWrite] ↔
      Each Sender.step (Sender.WithinLimit 2) tightSender [wideWrite] :=
  sizesEnforced_iff [.ok 8] tightConf [wideWrite]

/-- **A sender emits what its peer must reject.**  With a limit of 2 bytes, a
payload of 4 bytes is written successfully, and a reader with the same
configuration rejects the frame. -/
theorem oversize_frame_sent :
    ¬ tightSender.SizesEnforced 2 [wideWrite] ∧
      (tightSender.inner.write ⟨0, 0⟩ ⟨(0 : UInt8), (0 : UInt8)⟩ (tightSender.origin ())
        (some ((1 : UInt32), 0))).1 = .ok true ∧
      (tightSender.step wideWrite).inner.stream.accepted = [4, 0, 0, 0, 1, 0, 0, 0] ∧
      (((LenDelimitedReader.new tightConf.maxPayloadSize : LenDelimitedReader crates).putBuf
        [4, 0, 0, 0, 1, 0, 0, 0]).tryRead UInt32).1 = .error .payloadSizeProhibitive := by
  refine ⟨fun h => ?_, rfl, rfl, rfl⟩
  obtain ⟨hrefused, -⟩ := h.rejects.1 [1, 0, 0, 0] rfl (by decide)
  have hsent : (tightSender.inner.write ⟨0, 0⟩ ⟨(0 : UInt8), (0 : UInt8)⟩
    (tightSender.origin ()) (some ((1 : UInt32), 0))).1 = .ok true := rfl
  rw [hsent] at hrefused
  cases hrefused

end BincodeInstance

end SocketCollection
