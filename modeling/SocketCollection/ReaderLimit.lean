import SocketCollection.Reader
import SocketCollection.Runs
import SocketCollection.BincodeInstance

/-!
# The incoming size limit, and what happens after it is hit

`try_read_header` assigns `read_len` before it compares it with
`max_payload_size`, and it strips the header only after the comparison.  A
header that announces too much is therefore rejected once: the reader is left
waiting for a payload of the rejected length, and takes it from the bytes of
the rejected frame, its header included.

`LimitHolds` is what the limit is for, over a whole run of calls that may go
on after an error.  `limitHolds_iff` says in which runs the code provides it:
exactly in those in which no `try_read` ever meets such a header.
-/

namespace SocketCollection

open Runs

variable {L : Crates} [Serde L UInt32]

/-! ## Runs that go on after errors -/

/-- A call on the reader.  Each `try_read` may ask for a type of its own. -/
inductive ReaderCall (L : Crates) : Type 1
  | putBuf (buf : Bytes)
  | tryRead (T : Type) [Serde L T]

namespace LenDelimitedReader

/-- The reader a call leaves, whatever the call returned. -/
def after (r : LenDelimitedReader L) : ReaderCall L → LenDelimitedReader L
  | .putBuf buf => r.putBuf buf
  | @ReaderCall.tryRead _ T _ => (r.tryRead T).2

/-- The payload that a reader past the header hands to `decrypt`. -/
def payloadSlice (r : LenDelimitedReader L) : Option Bytes :=
  if r.readLen > r.readBuffer.length then none else some (r.readBuffer.take r.readLen)

/-- The payload that a `try_read` made now hands to `decrypt`, if it gets that
far. -/
def payloadPassed (r : LenDelimitedReader L) : Option Bytes :=
  if r.readLen = 0 then
    match r.tryReadHeaderExec with
    | .ok (.ok true, r) => r.payloadSlice
    | _ => none
  else r.payloadSlice

/-- A `try_read` made now meets a header that announces more than the
limit. -/
def MeetsOversize (r : LenDelimitedReader L) : Prop :=
  r.readLen = 0 ∧ r.decCtx.encryptedSizeLen ≤ r.readBuffer.length ∧
    ∃ n : UInt32, r.decCtx.decrypt r.header = .ok n ∧ r.maxPayloadSize < n.toNat

end LenDelimitedReader

open LenDelimitedReader

/-- The call is a `try_read` that meets an oversize header. -/
def ReaderCall.MeetsOversize (r : LenDelimitedReader L) : ReaderCall L → Prop
  | .putBuf _ => False
  | @ReaderCall.tryRead _ _ _ => r.MeetsOversize

/-- The call hands no payload above the limit to `decrypt`. -/
def ReaderCall.PassesWithinLimit (r : LenDelimitedReader L) : ReaderCall L → Prop
  | .putBuf _ => True
  | @ReaderCall.tryRead _ _ _ => ∀ payload, r.payloadPassed = some payload →
      payload.length ≤ r.maxPayloadSize

/-- The call is not a `try_read` that succeeds. -/
def ReaderCall.ReadFails (r : LenDelimitedReader L) : ReaderCall L → Prop
  | .putBuf _ => True
  | @ReaderCall.tryRead _ T _ => ∃ e, (r.tryRead T).1 = .error e

/-- The incoming limit over a run: `readLen` never exceeds it, no payload
above it is decrypted, and after an oversize header has been met every
`try_read` fails. -/
structure LimitHolds (r : LenDelimitedReader L) (calls : List (ReaderCall L)) : Prop where
  readLen_le : Always after (fun r => r.readLen ≤ r.maxPayloadSize) r calls
  passed_le : Each after ReaderCall.PassesWithinLimit r calls
  rejects : ∀ before call later, calls = before ++ call :: later →
    ReaderCall.MeetsOversize (before.foldl after r) call →
      Each after ReaderCall.ReadFails ((before ++ [call]).foldl after r) later

namespace LenDelimitedReader

/-! ## What a call does to the limit -/

/-- A header that is taken off was there, could be decrypted and passed the
check. -/
private theorem tryReadHeaderExec_true {r r' : LenDelimitedReader L}
    (h : r.tryReadHeaderExec = .ok (.ok true, r')) :
    ∃ n : UInt32, r.decCtx.encryptedSizeLen ≤ r.readBuffer.length ∧
      r.decCtx.decrypt r.header = .ok n ∧ n.toNat ≤ r.maxPayloadSize ∧ n.toNat ≠ 0 ∧
      r' = r.stripHeader n.toNat := by
  by_cases hlen : r.readBuffer.length < r.decCtx.encryptedSizeLen
  · rw [tryReadHeaderExec_short hlen] at h
    cases h
  · have hle : r.decCtx.encryptedSizeLen ≤ r.readBuffer.length := by omega
    rw [tryReadHeaderExec_whole hle] at h
    cases hdec : r.decCtx.decrypt (T := UInt32) r.header with
    | error e => simp [hdec] at h
    | ok n =>
        by_cases hmax : n.toNat > r.maxPayloadSize
        · simp [hdec, hmax] at h
        · simp only [hdec, hmax, if_false, Except.ok.injEq, Prod.mk.injEq,
            decide_eq_true_eq] at h
          exact ⟨n, hle, rfl, by omega, by omega, h.2.symm⟩

omit [Serde L UInt32] in
private theorem payloadSlice_eq_some {r : LenDelimitedReader L} {payload : Bytes}
    (h : r.payloadSlice = some payload) :
    r.readLen ≤ r.readBuffer.length ∧ payload = r.readBuffer.take r.readLen := by
  by_cases hlen : r.readLen > r.readBuffer.length
  · simp [payloadSlice, hlen] at h
  · simp only [payloadSlice, hlen, if_false, Option.some.injEq] at h
    exact ⟨by omega, h.symm⟩

private theorem tryRead_of_payloadSlice {T : Type} [Serde L T] {r : LenDelimitedReader L}
    {payload : Bytes} (h0 : r.readLen ≠ 0) (h : r.payloadSlice = some payload) :
    (r.tryRead T).1 = (r.decCtx.decrypt payload).map some := by
  obtain ⟨hlen, rfl⟩ := payloadSlice_eq_some h
  cases hdec : r.decCtx.decrypt (T := T) (r.readBuffer.take r.readLen) with
  | error e =>
      rw [tryRead_bad_payload h0 hlen hdec]
      rfl
  | ok v =>
      rw [tryRead_payload h0 hlen hdec]
      rfl

/-- The slice `payloadPassed` speaks of is the one the call decrypts: the
result of the call is made of it. -/
theorem tryRead_of_payloadPassed {T : Type} [Serde L T] {r : LenDelimitedReader L}
    {payload : Bytes} (h : r.payloadPassed = some payload) :
    (r.tryRead T).1 = (r.decCtx.decrypt payload).map some := by
  unfold payloadPassed at h
  by_cases h0 : r.readLen = 0
  · rw [if_pos h0] at h
    split at h
    · next r' hexec =>
        obtain ⟨n, hlen, hdec, hmax, hn, rfl⟩ := tryReadHeaderExec_true hexec
        rw [tryRead_header h0 hlen hdec hmax hn]
        exact tryRead_of_payloadSlice (T := T) hn h
    · cases h
  · rw [if_neg h0] at h
    exact tryRead_of_payloadSlice h0 h

/-- While `readLen` respects the limit, so does every payload passed. -/
theorem length_payloadPassed {r : LenDelimitedReader L} (hle : r.readLen ≤ r.maxPayloadSize)
    {payload : Bytes} (h : r.payloadPassed = some payload) :
    payload.length ≤ r.maxPayloadSize := by
  unfold payloadPassed at h
  by_cases h0 : r.readLen = 0
  · rw [if_pos h0] at h
    split at h
    · next r' hexec =>
        obtain ⟨n, -, -, hmax, -, rfl⟩ := tryReadHeaderExec_true hexec
        obtain ⟨-, rfl⟩ := payloadSlice_eq_some h
        have htake := List.length_take_le n.toNat (r.stripHeader n.toNat).readBuffer
        exact Nat.le_trans htake hmax
    · cases h
  · rw [if_neg h0] at h
    obtain ⟨-, rfl⟩ := payloadSlice_eq_some h
    exact Nat.le_trans (List.length_take_le _ _) hle

private theorem Reads.readLen_le {T : Type} [Serde L T] {r r' : LenDelimitedReader L}
    {res : Res L (Option T)} (h : Reads T r res r') (hle : r.readLen ≤ r.maxPayloadSize)
    (hmeet : ¬ r.MeetsOversize) : r'.readLen ≤ r'.maxPayloadSize := by
  induction h with
  | oversize h0 hlen hdec hmax => exact absurd ⟨h0, hlen, _, hdec, hmax⟩ hmeet
  | emptyFrame => exact Nat.zero_le _
  | header h0 hlen hdec hmax hn _ ih => exact ih hmax fun hmeet' => hn hmeet'.1
  | payload => exact Nat.zero_le _
  | noHeader | badHeader | noPayload | badPayload => exact hle

/-- One call, made where no oversize header is met, keeps `readLen` within the
limit. -/
theorem after_readLen_le {r : LenDelimitedReader L} {call : ReaderCall L}
    (hle : r.readLen ≤ r.maxPayloadSize) (hmeet : ¬ ReaderCall.MeetsOversize r call) :
    (r.after call).readLen ≤ (r.after call).maxPayloadSize := by
  cases call with
  | putBuf buf => exact hle
  | tryRead T => exact (reads_tryRead (T := T) r).readLen_le hle hmeet

/-- **The call that meets an oversize header leaves it in `readLen`.** -/
theorem lt_after_readLen {r : LenDelimitedReader L} {call : ReaderCall L}
    (hmeet : ReaderCall.MeetsOversize r call) :
    (r.after call).maxPayloadSize < (r.after call).readLen := by
  cases call with
  | putBuf buf => exact hmeet.elim
  | tryRead T =>
      obtain ⟨h0, hlen, n, hdec, hmax⟩ := hmeet
      rw [after, tryRead_oversize h0 hlen hdec hmax]
      exact hmax

end LenDelimitedReader

/-- **The incoming limit holds in a run exactly when no `try_read` of it meets
an oversize header.** -/
theorem limitHolds_iff (ctx : DecryptContext L) (maxPayloadSize : Nat)
    (calls : List (ReaderCall L)) :
    LimitHolds ((LenDelimitedReader.new maxPayloadSize).setDecryptCtx ctx) calls ↔
      Each after (fun r call => ¬ ReaderCall.MeetsOversize r call)
        ((LenDelimitedReader.new maxPayloadSize).setDecryptCtx ctx) calls := by
  constructor
  · intro h
    apply h.readLen_le.each_next.mono
    intro r call hle hmeet
    have hlt := lt_after_readLen hmeet
    omega
  · intro h
    have hbound : Always after (fun r => r.readLen ≤ r.maxPayloadSize)
        ((LenDelimitedReader.new maxPayloadSize).setDecryptCtx ctx) calls :=
      h.always (Nat.zero_le _) fun r call hle hmeet => after_readLen_le hle hmeet
    refine ⟨hbound, ?_, ?_⟩
    · apply hbound.each
      intro r call hle
      cases call with
      | putBuf buf => trivial
      | tryRead T => exact fun payload hp => length_payloadPassed hle hp
    · rintro before call later rfl hmeet
      exact absurd hmeet ((each_append.mp h).2.1)

/-! ## The limit bypassed -/

namespace BincodeInstance

/-- A reader that accepts payloads of up to 4 bytes. -/
def strictReader : LenDelimitedReader crates :=
  (LenDelimitedReader.new 4).setDecryptCtx .null

/-- The peer announces 8 bytes; the caller reads on after the error. -/
def oversizeCalls : List (ReaderCall crates) :=
  [.putBuf [8, 0, 0, 0], .tryRead UInt32, .putBuf [1, 0, 0, 0], .tryRead (UInt32 × UInt32)]

/-- **The limit is bypassed.**  The header announcing 8 bytes is rejected, and
the next `try_read` returns a message of 8 bytes, made of the rejected header
and the bytes behind it. -/
theorem limit_bypassed :
    ¬ LimitHolds strictReader oversizeCalls ∧
      ((oversizeCalls.take 1).foldl after strictReader |>.tryRead UInt32).1 =
        .error .payloadSizeProhibitive ∧
      ((oversizeCalls.take 3).foldl after strictReader |>.tryRead (UInt32 × UInt32)).1 =
        .ok (some (8, 1)) := by
  refine ⟨fun h => ?_, rfl, rfl⟩
  have hle : (8 : Nat) ≤ 4 := h.readLen_le.2.2.1
  omega

end BincodeInstance

end SocketCollection
