import Mathlib
import SocketCollection.Crypto

/-!
# Length-delimited frames

The encoder and the decoder of the TCP byte stream (`tcp.rs`).  A frame is an
encrypted `u32`, the length of the encrypted payload, followed by that
payload.  `serializeWithLen` builds one; `LenDelimitedReader` buffers received
bytes and takes frames off the front.

The reader is a `&mut self` object whose methods may return early with an
error, so each method returns its result together with the state it leaves.
`tryReadExec` and `tryReadHeaderExec` follow the source with its slices;
`tryRead_never_panics` shows that no slice is ever out of range, whatever the
state, and `tryRead` is the function without the panics.

The reader moves through two phases, told apart by `readLen`: zero while it
waits for a header, the payload length while it waits for a payload.
`tryRead_header` and `tryRead_payload` say what a call does in each.
-/

namespace SocketCollection

variable {L : Crates} {T : Type}

/-! ## The encoder -/

/-- `data.len() as u32`: the length modulo `2 ^ 32`. -/
def lenAsU32 (data : Bytes) : UInt32 := UInt32.ofNat data.length

theorem lenAsU32_toNat {data : Bytes} (h : data.length < 2 ^ 32) :
    (lenAsU32 data).toNat = data.length := by
  rw [lenAsU32, UInt32.toNat_ofNat']
  exact Nat.mod_eq_of_lt h

/-- The randomness the two encryptions of one frame draw. -/
structure FrameNonces (L : Crates) where
  payload : L.Nonce
  header : L.Nonce

/-- Serialise a value into a frame.  The payload is encrypted first, then its
length; the length goes in front. -/
def serializeWithLen [Serde L UInt32] [Serde L T] (nonces : FrameNonces L) (value : T)
    (encCtx : EncryptContext L) : Res L Bytes := do
  let encryptedData ← encCtx.encrypt nonces.payload value
  let encryptedLen ← encCtx.encrypt nonces.header (lenAsU32 encryptedData)
  return encryptedLen ++ encryptedData

/-- The parts of a frame: what its bytes are made of. -/
theorem serializeWithLen_ok [Serde L UInt32] [Serde L T] {nonces : FrameNonces L} {value : T}
    {encCtx : EncryptContext L} {frame : Bytes}
    (h : serializeWithLen nonces value encCtx = .ok frame) :
    ∃ header payload, encCtx.encrypt nonces.payload value = .ok payload ∧
      encCtx.encrypt nonces.header (lenAsU32 payload) = .ok header ∧
      frame = header ++ payload := by
  unfold serializeWithLen at h
  cases hp : encCtx.encrypt nonces.payload value with
  | error e => simp [hp, bind, Except.bind] at h
  | ok payload =>
      cases hh : encCtx.encrypt nonces.header (lenAsU32 payload) with
      | error e => simp [hp, hh, bind, Except.bind] at h
      | ok header =>
          simp only [hp, hh, bind, Except.bind, pure, Except.pure, Except.ok.injEq] at h
          exact ⟨header, payload, rfl, hh, h.symm⟩

/-- A frame has at least a header. -/
theorem serializeWithLen_pos [Serde L UInt32] [Serde L T] [LawfulSizeHeader L]
    {nonces : FrameNonces L} {value : T} {encCtx : EncryptContext L} {frame : Bytes}
    (h : serializeWithLen nonces value encCtx = .ok frame) : 0 < frame.length := by
  obtain ⟨header, payload, -, hheader, rfl⟩ := serializeWithLen_ok h
  have hlen := EncryptContext.encrypt_u32_length hheader
  have hpos : 0 < encCtx.encryptedSizeLen := by
    cases encCtx <;>
      simp [EncryptContext.encryptedSizeLen, serializedU32Len, encryptedU32Len]
  rw [List.length_append]
  omega

/-! ## The decoder -/

/-- Reads length delimited data frames. -/
structure LenDelimitedReader (L : Crates) where
  readBuffer : Bytes
  readLen : Nat
  maxPayloadSize : Nat
  decCtx : DecryptContext L

namespace LenDelimitedReader

/-- A reader with an empty read buffer. -/
def new (maxPayloadSize : Nat) : LenDelimitedReader L where
  readBuffer := []
  readLen := 0
  maxPayloadSize := maxPayloadSize
  decCtx := .null

def putBuf (r : LenDelimitedReader L) (buf : Bytes) : LenDelimitedReader L :=
  { r with readBuffer := r.readBuffer ++ buf }

def setDecryptCtx (r : LenDelimitedReader L) (ctx : DecryptContext L) : LenDelimitedReader L :=
  { r with decCtx := ctx }

variable [Serde L UInt32]

/-- Take the length header off the buffer.  `readLen` is set before the size
limit is checked, and the header is stripped only after the check. -/
def tryReadHeaderExec (r : LenDelimitedReader L) :
    Exec (Res L Bool × LenDelimitedReader L) := do
  if r.readBuffer.length < r.decCtx.encryptedSizeLen then
    return (.ok false, r)
  let header ← sliceTo r.readBuffer r.decCtx.encryptedSizeLen
  match r.decCtx.decrypt (T := UInt32) header with
  | .error e => return (.error e, r)
  | .ok dataLen =>
      let r := { r with readLen := dataLen.toNat }
      if r.readLen > r.maxPayloadSize then
        return (.error .payloadSizeProhibitive, r)
      let rest ← sliceFrom r.readBuffer r.decCtx.encryptedSizeLen
      return (.ok (decide (r.readLen > 0)), { r with readBuffer := rest })

/-- Reset the read buffer to the beginning of the next message. -/
def markReadExec (r : LenDelimitedReader L) : Exec (LenDelimitedReader L) := do
  let rest ← sliceFrom r.readBuffer r.readLen
  return { r with readBuffer := rest, readLen := 0 }

/-- The part of `try_read` behind the header: wait for the payload, then
decrypt it. -/
def tryReadPayloadExec (T : Type) [Serde L T] (r : LenDelimitedReader L) :
    Exec (Res L (Option T) × LenDelimitedReader L) := do
  if r.readLen > r.readBuffer.length then
    return (.ok none, r)
  let payload ← sliceTo r.readBuffer r.readLen
  match r.decCtx.decrypt payload with
  | .error e => return (.error e, r)
  | .ok result =>
      let r ← r.markReadExec
      return (.ok (some result), r)

/-- Read one message, if the buffer holds a whole one. -/
def tryReadExec (T : Type) [Serde L T] (r : LenDelimitedReader L) :
    Exec (Res L (Option T) × LenDelimitedReader L) := do
  if r.readLen = 0 then
    match ← r.tryReadHeaderExec with
    | (.error e, r) => return (.error e, r)
    | (.ok false, r) => return (.ok none, r)
    | (.ok true, r) => r.tryReadPayloadExec T
  else
    r.tryReadPayloadExec T

/-! ## No slice is out of range -/

/-- The length header at the front of the buffer. -/
def header (r : LenDelimitedReader L) : Bytes := r.readBuffer.take r.decCtx.encryptedSizeLen

/-- The reader after a header announcing `n` bytes has been taken off. -/
def stripHeader (r : LenDelimitedReader L) (n : Nat) : LenDelimitedReader L :=
  { r with readLen := n, readBuffer := r.readBuffer.drop r.decCtx.encryptedSizeLen }

/-- The reader after the payload it waited for has been taken off. -/
def stripPayload (r : LenDelimitedReader L) : LenDelimitedReader L :=
  { r with readLen := 0, readBuffer := r.readBuffer.drop r.readLen }

/-- Without a whole header nothing happens. -/
theorem tryReadHeaderExec_short {r : LenDelimitedReader L}
    (hlen : r.readBuffer.length < r.decCtx.encryptedSizeLen) :
    r.tryReadHeaderExec = .ok (.ok false, r) := by
  simp [tryReadHeaderExec, hlen, pure, Except.pure]

/-- A whole header is decrypted and compared with the limit. -/
theorem tryReadHeaderExec_whole {r : LenDelimitedReader L}
    (hlen : r.decCtx.encryptedSizeLen ≤ r.readBuffer.length) :
    r.tryReadHeaderExec = .ok (match r.decCtx.decrypt (T := UInt32) r.header with
      | .error e => (.error e, r)
      | .ok n =>
          if n.toNat > r.maxPayloadSize then
            (.error .payloadSizeProhibitive, { r with readLen := n.toNat })
          else (.ok (decide (n.toNat > 0)), r.stripHeader n.toNat)) := by
  have hnot : ¬ r.readBuffer.length < r.decCtx.encryptedSizeLen := by omega
  unfold tryReadHeaderExec header
  cases hdec : r.decCtx.decrypt (T := UInt32)
      (r.readBuffer.take r.decCtx.encryptedSizeLen) with
  | error e => simp [hnot, hlen, hdec, bind, Except.bind, pure, Except.pure]
  | ok n =>
      by_cases hmax : n.toNat > r.maxPayloadSize <;>
        simp [hnot, hlen, hdec, hmax, stripHeader, bind, Except.bind, pure, Except.pure]

private theorem tryReadHeader_never_panics (r : LenDelimitedReader L) :
    ∃ out, r.tryReadHeaderExec = .ok out := by
  by_cases hlen : r.readBuffer.length < r.decCtx.encryptedSizeLen
  · exact ⟨_, tryReadHeaderExec_short hlen⟩
  · exact ⟨_, tryReadHeaderExec_whole (by omega)⟩

section Payload

omit [Serde L UInt32]

variable [Serde L T] {r : LenDelimitedReader L}

/-- Without a whole payload nothing happens. -/
private theorem tryReadPayloadExec_short (hlen : r.readBuffer.length < r.readLen) :
    r.tryReadPayloadExec T = .ok (.ok none, r) := by
  simp [tryReadPayloadExec, hlen, pure, Except.pure]

/-- A whole payload is decrypted, and taken off if that succeeds. -/
private theorem tryReadPayloadExec_whole (hlen : r.readLen ≤ r.readBuffer.length) :
    r.tryReadPayloadExec T =
      .ok (match r.decCtx.decrypt (T := T) (r.readBuffer.take r.readLen) with
        | .error e => (.error e, r)
        | .ok v => (.ok (some v), r.stripPayload)) := by
  have hnot : ¬ r.readBuffer.length < r.readLen := by omega
  unfold tryReadPayloadExec
  cases hdec : r.decCtx.decrypt (T := T) (r.readBuffer.take r.readLen) <;>
    simp [hnot, hlen, hdec, markReadExec, stripPayload, bind, Except.bind, pure, Except.pure]

private theorem tryReadPayload_never_panics (r : LenDelimitedReader L) :
    ∃ out, r.tryReadPayloadExec T = .ok out := by
  by_cases hlen : r.readBuffer.length < r.readLen
  · exact ⟨_, tryReadPayloadExec_short hlen⟩
  · exact ⟨_, tryReadPayloadExec_whole (by omega)⟩

end Payload

/-- **Every slice `try_read` takes is in range**, in every state of the
reader. -/
theorem tryRead_never_panics [Serde L T] (r : LenDelimitedReader L) :
    ∃ out, r.tryReadExec T = .ok out := by
  unfold tryReadExec
  by_cases hzero : r.readLen = 0
  · obtain ⟨⟨res, r'⟩, hh⟩ := tryReadHeader_never_panics r
    rcases res with e | _ | _
    · simp [hzero, hh, bind, Except.bind, pure, Except.pure]
    · simp [hzero, hh, bind, Except.bind, pure, Except.pure]
    · simpa [hzero, hh, bind, Except.bind] using tryReadPayload_never_panics r'
  · simpa [hzero] using tryReadPayload_never_panics r

/-- `try_read`: the result of a call and the reader it leaves. -/
def tryRead (T : Type) [Serde L T] (r : LenDelimitedReader L) :
    Res L (Option T) × LenDelimitedReader L :=
  (r.tryReadExec T).get r.tryRead_never_panics

theorem tryReadExec_eq [Serde L T] (r : LenDelimitedReader L) :
    r.tryReadExec T = .ok (r.tryRead T) := Exec.ok_get _ _

/-! ## What a call does -/

section Calls

variable [Serde L T] {r : LenDelimitedReader L}

private theorem tryRead_of_exec {out : Res L (Option T) × LenDelimitedReader L}
    (h : r.tryReadExec T = .ok out) : r.tryRead T = out := by
  have heq := tryReadExec_eq (T := T) r
  rw [h, Except.ok.injEq] at heq
  exact heq.symm

/-- Waiting for a header that is not there yet. -/
theorem tryRead_no_header (h0 : r.readLen = 0)
    (hlen : r.readBuffer.length < r.decCtx.encryptedSizeLen) :
    r.tryRead T = (.ok none, r) := by
  apply tryRead_of_exec
  simp [tryReadExec, h0, tryReadHeaderExec_short hlen, bind, Except.bind, pure, Except.pure]

/-- A header that cannot be decrypted is reported and stays where it is. -/
theorem tryRead_bad_header (h0 : r.readLen = 0)
    (hlen : r.decCtx.encryptedSizeLen ≤ r.readBuffer.length) {e : SocketError L}
    (hdec : r.decCtx.decrypt (T := UInt32) r.header = .error e) :
    r.tryRead T = (.error e, r) := by
  apply tryRead_of_exec
  simp [tryReadExec, h0, tryReadHeaderExec_whole hlen, hdec, bind, Except.bind, pure,
    Except.pure]

/-- A header that announces too much is reported, and `readLen` keeps what it
announced. -/
theorem tryRead_oversize (h0 : r.readLen = 0)
    (hlen : r.decCtx.encryptedSizeLen ≤ r.readBuffer.length) {n : UInt32}
    (hdec : r.decCtx.decrypt (T := UInt32) r.header = .ok n)
    (hmax : r.maxPayloadSize < n.toNat) :
    r.tryRead T = (.error .payloadSizeProhibitive, { r with readLen := n.toNat }) := by
  apply tryRead_of_exec
  simp [tryReadExec, h0, tryReadHeaderExec_whole hlen, hdec, hmax, bind, Except.bind, pure,
    Except.pure]

/-- A header that announces nothing is skipped. -/
theorem tryRead_empty_frame (h0 : r.readLen = 0)
    (hlen : r.decCtx.encryptedSizeLen ≤ r.readBuffer.length) {n : UInt32}
    (hdec : r.decCtx.decrypt (T := UInt32) r.header = .ok n) (hn : n.toNat = 0) :
    r.tryRead T = (.ok none, r.stripHeader 0) := by
  apply tryRead_of_exec
  simp [tryReadExec, h0, tryReadHeaderExec_whole hlen, hdec, hn, bind, Except.bind, pure,
    Except.pure]

/-- Any other header is taken off, and the call goes on to the payload. -/
theorem tryRead_header (h0 : r.readLen = 0)
    (hlen : r.decCtx.encryptedSizeLen ≤ r.readBuffer.length) {n : UInt32}
    (hdec : r.decCtx.decrypt (T := UInt32) r.header = .ok n)
    (hmax : n.toNat ≤ r.maxPayloadSize) (hn : n.toNat ≠ 0) :
    r.tryRead T = (r.stripHeader n.toNat).tryRead T := by
  apply tryRead_of_exec
  rw [← tryReadExec_eq]
  have hnot : ¬ r.maxPayloadSize < n.toNat := by omega
  have hpos : 0 < n.toNat := by omega
  have hphase : (r.stripHeader n.toNat).readLen ≠ 0 := hn
  simp [tryReadExec, h0, tryReadHeaderExec_whole hlen, hdec, hnot, hpos, hphase, bind,
    Except.bind]

/-- Waiting for a payload that is not all there. -/
theorem tryRead_no_payload (h0 : r.readLen ≠ 0) (hlen : r.readBuffer.length < r.readLen) :
    r.tryRead T = (.ok none, r) := by
  apply tryRead_of_exec
  simp [tryReadExec, h0, tryReadPayloadExec_short hlen]

/-- A payload that cannot be decrypted is reported and stays where it is. -/
theorem tryRead_bad_payload (h0 : r.readLen ≠ 0) (hlen : r.readLen ≤ r.readBuffer.length)
    {e : SocketError L}
    (hdec : r.decCtx.decrypt (T := T) (r.readBuffer.take r.readLen) = .error e) :
    r.tryRead T = (.error e, r) := by
  apply tryRead_of_exec
  simp [tryReadExec, h0, tryReadPayloadExec_whole hlen, hdec]

/-- A payload that can be decrypted is delivered and taken off. -/
theorem tryRead_payload (h0 : r.readLen ≠ 0) (hlen : r.readLen ≤ r.readBuffer.length) {v : T}
    (hdec : r.decCtx.decrypt (r.readBuffer.take r.readLen) = .ok v) :
    r.tryRead T = (.ok (some v), r.stripPayload) := by
  apply tryRead_of_exec
  simp [tryReadExec, h0, tryReadPayloadExec_whole hlen, hdec]

end Calls

/-- Everything a call can do: what it returns and the reader it leaves, one
case for each way through `try_read`. -/
inductive Reads (T : Type) [Serde L T] :
    LenDelimitedReader L → Res L (Option T) → LenDelimitedReader L → Prop
  | noHeader {r} (h0 : r.readLen = 0)
      (hlen : r.readBuffer.length < r.decCtx.encryptedSizeLen) : Reads T r (.ok none) r
  | badHeader {r e} (h0 : r.readLen = 0)
      (hlen : r.decCtx.encryptedSizeLen ≤ r.readBuffer.length)
      (hdec : r.decCtx.decrypt (T := UInt32) r.header = .error e) : Reads T r (.error e) r
  | oversize {r} {n : UInt32} (h0 : r.readLen = 0)
      (hlen : r.decCtx.encryptedSizeLen ≤ r.readBuffer.length)
      (hdec : r.decCtx.decrypt r.header = .ok n) (hmax : r.maxPayloadSize < n.toNat) :
      Reads T r (.error .payloadSizeProhibitive) { r with readLen := n.toNat }
  | emptyFrame {r} {n : UInt32} (h0 : r.readLen = 0)
      (hlen : r.decCtx.encryptedSizeLen ≤ r.readBuffer.length)
      (hdec : r.decCtx.decrypt r.header = .ok n) (hn : n.toNat = 0) :
      Reads T r (.ok none) (r.stripHeader 0)
  | header {r res r'} {n : UInt32} (h0 : r.readLen = 0)
      (hlen : r.decCtx.encryptedSizeLen ≤ r.readBuffer.length)
      (hdec : r.decCtx.decrypt r.header = .ok n) (hmax : n.toNat ≤ r.maxPayloadSize)
      (hn : n.toNat ≠ 0) (rest : Reads T (r.stripHeader n.toNat) res r') : Reads T r res r'
  | noPayload {r} (h0 : r.readLen ≠ 0) (hlen : r.readBuffer.length < r.readLen) :
      Reads T r (.ok none) r
  | badPayload {r e} (h0 : r.readLen ≠ 0) (hlen : r.readLen ≤ r.readBuffer.length)
      (hdec : r.decCtx.decrypt (T := T) (r.readBuffer.take r.readLen) = .error e) :
      Reads T r (.error e) r
  | payload {r} {v : T} (h0 : r.readLen ≠ 0) (hlen : r.readLen ≤ r.readBuffer.length)
      (hdec : r.decCtx.decrypt (r.readBuffer.take r.readLen) = .ok v) :
      Reads T r (.ok (some v)) r.stripPayload

private theorem reads_payload [Serde L T] {r : LenDelimitedReader L} (h0 : r.readLen ≠ 0) :
    Reads T r (r.tryRead T).1 (r.tryRead T).2 := by
  by_cases hlen : r.readBuffer.length < r.readLen
  · rw [tryRead_no_payload h0 hlen]
    exact .noPayload h0 hlen
  · have hle : r.readLen ≤ r.readBuffer.length := by omega
    cases hdec : r.decCtx.decrypt (T := T) (r.readBuffer.take r.readLen) with
    | error e =>
        rw [tryRead_bad_payload h0 hle hdec]
        exact .badPayload h0 hle hdec
    | ok v =>
        rw [tryRead_payload h0 hle hdec]
        exact .payload h0 hle hdec

/-- **A call of `tryRead` does one of the things `Reads` lists.** -/
theorem reads_tryRead [Serde L T] (r : LenDelimitedReader L) :
    Reads T r (r.tryRead T).1 (r.tryRead T).2 := by
  by_cases h0 : r.readLen = 0
  · by_cases hlen : r.readBuffer.length < r.decCtx.encryptedSizeLen
    · rw [tryRead_no_header h0 hlen]
      exact .noHeader h0 hlen
    · have hle : r.decCtx.encryptedSizeLen ≤ r.readBuffer.length := by omega
      cases hdec : r.decCtx.decrypt (T := UInt32) r.header with
      | error e =>
          rw [tryRead_bad_header h0 hle hdec]
          exact .badHeader h0 hle hdec
      | ok n =>
          by_cases hmax : r.maxPayloadSize < n.toNat
          · rw [tryRead_oversize h0 hle hdec hmax]
            exact .oversize h0 hle hdec hmax
          · by_cases hn : n.toNat = 0
            · rw [tryRead_empty_frame h0 hle hdec hn]
              exact .emptyFrame h0 hle hdec hn
            · rw [tryRead_header h0 hle hdec (by omega) hn]
              exact .header h0 hle hdec (by omega) hn (reads_payload hn)
  · exact reads_payload h0

theorem Reads.of_eq [Serde L T] {r r' : LenDelimitedReader L} {res : Res L (Option T)}
    (h : r.tryRead T = (res, r')) : Reads T r res r' := by
  have hreads := reads_tryRead (T := T) r
  rwa [h] at hreads

/-- A call changes neither the context nor the limit. -/
theorem Reads.frame [Serde L T] {r r' : LenDelimitedReader L} {res : Res L (Option T)}
    (h : Reads T r res r') : r'.decCtx = r.decCtx ∧ r'.maxPayloadSize = r.maxPayloadSize := by
  induction h with
  | header _ _ _ _ _ _ ih => exact ih
  | _ => exact ⟨rfl, rfl⟩

@[simp] theorem tryRead_decCtx [Serde L T] (r : LenDelimitedReader L) :
    (r.tryRead T).2.decCtx = r.decCtx := (reads_tryRead r).frame.1

end LenDelimitedReader

end SocketCollection
