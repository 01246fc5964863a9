import SocketCollection.ReaderLimit

/-!
# Reading again after a failure

A `try_read` that cannot decrypt or deserialise leaves the frame in the buffer,
but it may have taken the header off and remembered the length it announced.
`SameFrames` relates the two states: a reader that has passed a header, and the
one that has still to pass it.  Every later call does the same to both, so that
a run in which failed calls are left out gives the results of the full run.
-/

namespace SocketCollection

open Runs

variable {L : Crates} [Serde L UInt32]

/-- What a call returns. -/
def ReaderCall.Result : ReaderCall L → Type
  | .putBuf _ => Unit
  | @ReaderCall.tryRead _ T _ => Res L (Option T)

/-- The result of a call. -/
def ReaderCall.result (r : LenDelimitedReader L) : (call : ReaderCall L) → call.Result
  | .putBuf _ => ()
  | @ReaderCall.tryRead _ T _ => (r.tryRead T).1

/-- The error of a value that could not be deserialised or decrypted. -/
def SocketError.IsDecode (e : SocketError L) : Prop :=
  (∃ x, e = .serialisation x) ∨ ∃ x, e = .crypto x

/-- The call is a `try_read` that fails to decrypt or to deserialise. -/
def ReaderCall.DecodeFails (r : LenDelimitedReader L) : ReaderCall L → Prop
  | .putBuf _ => False
  | @ReaderCall.tryRead _ T _ => ∃ e, (r.tryRead T).1 = .error e ∧ e.IsDecode

namespace LenDelimitedReader

/-- The two readers are equal, or the first has passed a header that the second
has still to pass. -/
inductive SameFrames : LenDelimitedReader L → LenDelimitedReader L → Prop
  | same {r} : SameFrames r r
  | passed {r} {n : UInt32} (h0 : r.readLen = 0)
      (hlen : r.decCtx.encryptedSizeLen ≤ r.readBuffer.length)
      (hdec : r.decCtx.decrypt r.header = .ok n) (hmax : n.toNat ≤ r.maxPayloadSize)
      (hn : n.toNat ≠ 0) : SameFrames (r.stripHeader n.toNat) r

/-- **A call does the same to both**, and leaves one reader. -/
theorem SameFrames.tryRead {T : Type} [Serde L T] {r r' : LenDelimitedReader L}
    (h : SameFrames r r') : r.tryRead T = r'.tryRead T := by
  cases h with
  | same => rfl
  | passed h0 hlen hdec hmax hn => exact (tryRead_header h0 hlen hdec hmax hn).symm

theorem SameFrames.putBuf {r r' : LenDelimitedReader L} (h : SameFrames r r') (buf : Bytes) :
    SameFrames (r.putBuf buf) (r'.putBuf buf) := by
  cases h with
  | same => exact .same
  | @passed _ n h0 hlen hdec hmax hn =>
      have hlen' : r'.decCtx.encryptedSizeLen ≤ (r'.putBuf buf).readBuffer.length := by
        rw [LenDelimitedReader.putBuf, List.length_append]
        omega
      have hheader : (r'.putBuf buf).header = r'.header :=
        List.take_append_of_le_length hlen
      have hstrip : (r'.stripHeader n.toNat).putBuf buf = (r'.putBuf buf).stripHeader n.toNat := by
        simp only [LenDelimitedReader.putBuf, stripHeader, List.drop_append_of_le_length hlen]
      rw [hstrip]
      refine .passed h0 hlen' ?_ hmax hn
      rw [hheader]
      exact hdec

/-- A call that fails to decode passes a header at most. -/
theorem sameFrames_of_decodeFails {T : Type} [Serde L T] {r r' : LenDelimitedReader L}
    {e : SocketError L} (h : r.tryRead T = (.error e, r')) (he : e.IsDecode) :
    SameFrames r' r := by
  have hreads := Reads.of_eq h
  generalize hres : (.error e : Res L (Option T)) = res at hreads
  cases hreads with
  | noHeader | emptyFrame | noPayload | payload => cases hres
  | badHeader | badPayload => exact .same
  | oversize =>
      cases hres
      rcases he with ⟨x, hx⟩ | ⟨x, hx⟩ <;> cases hx
  | header h0 hlen hdec hmax hn rest =>
      cases rest with
      | noHeader hzero | emptyFrame hzero | oversize hzero | header hzero | badHeader hzero =>
          exact absurd hzero hn
      | noPayload | payload => cases hres
      | badPayload => exact .passed h0 hlen hdec hmax hn

end LenDelimitedReader

open LenDelimitedReader

/-! ## Runs with calls left out -/

/-- A call of a run, and whether it is left out of the other run. -/
structure MarkedCall (L : Crates) where
  call : ReaderCall L
  deleted : Bool

/-- A reader in the full run, and one in the run without the deleted calls. -/
structure Retried (L : Crates) where
  full : LenDelimitedReader L
  cut : LenDelimitedReader L

namespace Retried

def step (s : Retried L) (c : MarkedCall L) : Retried L where
  full := s.full.after c.call
  cut := if c.deleted then s.cut else s.cut.after c.call

/-- Only calls that fail to decode are deleted. -/
def DeletesFailed (s : Retried L) (c : MarkedCall L) : Prop :=
  c.deleted = true → c.call.DecodeFails s.full

/-- A call that is made in both runs has the same result. -/
def SameResult (s : Retried L) (c : MarkedCall L) : Prop :=
  c.deleted = false → c.call.result s.full = c.call.result s.cut

private theorem step_sameFrames {s : Retried L} {c : MarkedCall L}
    (h : SameFrames s.full s.cut) (hc : s.DeletesFailed c) :
    SameFrames (s.step c).full (s.step c).cut := by
  obtain ⟨call, deleted⟩ := c
  cases deleted with
  | true =>
      have hfails : call.DecodeFails s.full := hc rfl
      cases call with
      | putBuf buf => exact hfails.elim
      | tryRead T =>
          -- the reader that is left alone would fail in the same way
          obtain ⟨e, hres, he⟩ := hfails
          have hcut : s.cut.tryRead T = (.error e, (s.full.tryRead T).2) := by
            rw [← h.tryRead, ← hres]
          exact sameFrames_of_decodeFails hcut he
  | false =>
      cases call with
      | putBuf buf => exact h.putBuf buf
      | tryRead T =>
          show SameFrames (s.full.tryRead T).2 (s.cut.tryRead T).2
          rw [h.tryRead]
          exact .same

private theorem sameResult_of_sameFrames {s : Retried L} (h : SameFrames s.full s.cut)
    (c : MarkedCall L) : s.SameResult c := by
  intro _
  obtain ⟨call, deleted⟩ := c
  cases call with
  | putBuf buf => rfl
  | tryRead T => exact congrArg Prod.fst h.tryRead

end Retried

/-- **A failed decode is harmless to the stream.**  Leaving out of a run any
calls of `try_read` that failed to decrypt or to deserialise changes the result
of no other call; and after any number of such calls a `try_read` returns what
it would have returned without them, and leaves the same reader. -/
theorem failed_decode_harmless (r : LenDelimitedReader L) :
    (∀ calls : List (MarkedCall L), Each Retried.step Retried.DeletesFailed ⟨r, r⟩ calls →
      Each Retried.step Retried.SameResult ⟨r, r⟩ calls) ∧
    ∀ failed : List (ReaderCall L), Each after ReaderCall.DecodeFails r failed →
      ∀ (T : Type) [Serde L T], (failed.foldl after r).tryRead T = r.tryRead T := by
  constructor
  · intro calls hdeletes
    have hsame := hdeletes.always (P := fun s => SameFrames s.full s.cut) .same
      fun s c h hc => Retried.step_sameFrames h hc
    exact hsame.each fun s c h => Retried.sameResult_of_sameFrames h c
  · intro failed hfails T _
    have hsame : SameFrames (failed.foldl after r) r := by
      refine hfails.last (P := fun r' => SameFrames r' r) .same fun r' call h hcall => ?_
      exact Retried.step_sameFrames (s := ⟨r', r⟩) (c := ⟨call, true⟩) h fun _ => hcall
    exact hsame.tryRead

namespace BincodeInstance

/-- A reader that has been given a frame with a `u32` in it. -/
def heldReader : LenDelimitedReader crates :=
  ((LenDelimitedReader.new 100).setDecryptCtx .null).putBuf [4, 0, 0, 0, 5, 0, 0, 0]

/-- The frame is read as a pair first, and in vain. -/
def retriedCalls : List (MarkedCall crates) :=
  [⟨.tryRead (UInt32 × UInt32), true⟩, ⟨.putBuf [4, 0], false⟩, ⟨.tryRead UInt32, false⟩]

theorem failed_decode_harmless_pair :
    Each Retried.step Retried.SameResult ⟨heldReader, heldReader⟩ retriedCalls ∧
      ((heldReader.after (.tryRead (UInt32 × UInt32))).tryRead UInt32).1 = .ok (some 5) := by
  have hfails : ReaderCall.DecodeFails heldReader (.tryRead (UInt32 × UInt32)) :=
    ⟨.serialisation CodecError.malformed, rfl, .inl ⟨_, rfl⟩⟩
  constructor
  · apply (failed_decode_harmless heldReader).1 retriedCalls
    exact ⟨fun _ => hfails, fun h => (Bool.noConfusion h), fun h => (Bool.noConfusion h), trivial⟩
  · have hread := (failed_decode_harmless heldReader).2 [.tryRead (UInt32 × UInt32)]
      ⟨hfails, trivial⟩ UInt32
    exact congrArg Prod.fst hread

end BincodeInstance

end SocketCollection
