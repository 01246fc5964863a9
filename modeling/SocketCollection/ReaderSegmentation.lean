import SocketCollection.Reader
import SocketCollection.Decoder

/-!
# The reader does not see how the stream was cut

A peer decides which bytes arrive, the network decides in which pieces, and
the event loop decides when `try_read` is called.  Only the first matters.

`reference` is the parser a reader of the whole byte string at once would use.
`remaining` reads off a state of the incremental reader what the reference
parser would still return, and explains the reader in the sense of
`Decoder.Denotes` (`denotes_remaining`); the results about runs are those of
`Decoder` at this instance.  They hold for arbitrary bytes, malformed and
hostile ones included.
-/

namespace SocketCollection

open Decoder (Call)

variable {L : Crates} {T : Type} [Serde L UInt32] [Serde L T]

/-! ## The reference parser -/

/-- What follows a header that announces `n` bytes: the payload, then
whatever `next` finds. -/
def referencePayload (ctx : DecryptContext L) (n : Nat) (bytes : Bytes)
    (next : Bytes → Parsed T (SocketError L)) : Parsed T (SocketError L) :=
  if bytes.length < n then .empty
  else
    match ctx.decrypt (bytes.take n) with
    | .error e => .fail e
    | .ok v => (next (bytes.drop n)).cons v

/-- The messages in a byte string, up to the first failure: take a header,
decrypt the length `n`, fail when that is not possible or too much is
announced, skip the frame when `n` is zero, and otherwise decrypt the next `n`
bytes.  An incomplete frame ends the parse. -/
def reference (T : Type) [Serde L T] (ctx : DecryptContext L) (maxPayloadSize : Nat)
    (bytes : Bytes) : Parsed T (SocketError L) :=
  if bytes.length < ctx.encryptedSizeLen then .empty
  else
    match ctx.decrypt (T := UInt32) (bytes.take ctx.encryptedSizeLen) with
    | .error e => .fail e
    | .ok n =>
        if maxPayloadSize < n.toNat then .fail .payloadSizeProhibitive
        else
          let rest := bytes.drop ctx.encryptedSizeLen
          if n.toNat = 0 then reference T ctx maxPayloadSize rest
          else if rest.length < n.toNat then .empty
          else
            match ctx.decrypt (T := T) (rest.take n.toNat) with
            | .error e => .fail e
            | .ok v => (reference T ctx maxPayloadSize (rest.drop n.toNat)).cons v
termination_by bytes.length
decreasing_by
  all_goals
    have hpos := ctx.encryptedSizeLen_pos
    simp only [List.length_drop]
    omega

section Reference

variable {ctx : DecryptContext L} {maxPayloadSize : Nat} {bytes : Bytes}

theorem reference_short (hlen : bytes.length < ctx.encryptedSizeLen) :
    reference T ctx maxPayloadSize bytes = .empty := by
  rw [reference, if_pos hlen]

theorem reference_bad_header (hlen : ctx.encryptedSizeLen ≤ bytes.length) {e : SocketError L}
    (hdec : ctx.decrypt (T := UInt32) (bytes.take ctx.encryptedSizeLen) = .error e) :
    reference T ctx maxPayloadSize bytes = .fail e := by
  rw [reference, if_neg (by omega), hdec]

theorem reference_oversize (hlen : ctx.encryptedSizeLen ≤ bytes.length) {n : UInt32}
    (hdec : ctx.decrypt (bytes.take ctx.encryptedSizeLen) = .ok n)
    (hmax : maxPayloadSize < n.toNat) :
    reference T ctx maxPayloadSize bytes = .fail .payloadSizeProhibitive := by
  rw [reference, if_neg (by omega), hdec]
  simp [hmax]

theorem reference_empty_frame (hlen : ctx.encryptedSizeLen ≤ bytes.length) {n : UInt32}
    (hdec : ctx.decrypt (bytes.take ctx.encryptedSizeLen) = .ok n) (hn : n.toNat = 0) :
    reference T ctx maxPayloadSize bytes =
      reference T ctx maxPayloadSize (bytes.drop ctx.encryptedSizeLen) := by
  rw [reference, if_neg (by omega), hdec]
  simp [hn]

theorem reference_header (hlen : ctx.encryptedSizeLen ≤ bytes.length) {n : UInt32}
    (hdec : ctx.decrypt (bytes.take ctx.encryptedSizeLen) = .ok n)
    (hmax : n.toNat ≤ maxPayloadSize) (hn : n.toNat ≠ 0) :
    reference T ctx maxPayloadSize bytes =
      referencePayload ctx n.toNat (bytes.drop ctx.encryptedSizeLen)
        (reference T ctx maxPayloadSize) := by
  have hnot : ¬ maxPayloadSize < n.toNat := by omega
  rw [reference, if_neg (by omega), hdec, referencePayload]
  simp only [hnot, hn, if_false]

end Reference

/-! ## The reader as an incremental decoder -/

namespace LenDelimitedReader

/-- The reader's two calls. -/
def decoder (T : Type) [Serde L T] :
    Decoder UInt8 (LenDelimitedReader L) T (SocketError L) where
  put := putBuf
  step r := r.tryRead T

/-- What the reference parser would still return. -/
def remaining (T : Type) [Serde L T] (r : LenDelimitedReader L) : Parsed T (SocketError L) :=
  if r.readLen = 0 then reference T r.decCtx r.maxPayloadSize r.readBuffer
  else referencePayload r.decCtx r.readLen r.readBuffer (reference T r.decCtx r.maxPayloadSize)

section HeaderPhase

variable {r : LenDelimitedReader L} (h0 : r.readLen = 0)
  (hlen : r.decCtx.encryptedSizeLen ≤ r.readBuffer.length) (a : Bytes)
include h0 hlen

omit h0 [Serde L UInt32] in
private theorem length_putBuf :
    r.decCtx.encryptedSizeLen ≤ (r.readBuffer ++ a).length := by
  rw [List.length_append]
  omega

omit h0 [Serde L UInt32] in
/-- A whole header reads the same whatever follows it. -/
private theorem header_putBuf :
    (r.readBuffer ++ a).take r.decCtx.encryptedSizeLen = r.header :=
  List.take_append_of_le_length hlen

private theorem remaining_bad_header {e : SocketError L}
    (hdec : r.decCtx.decrypt (T := UInt32) r.header = .error e) :
    (r.putBuf a).remaining T = .fail e := by
  rw [← header_putBuf hlen a] at hdec
  simpa [remaining, putBuf, h0] using reference_bad_header (length_putBuf hlen a) hdec

private theorem remaining_oversize {n : UInt32} (hdec : r.decCtx.decrypt r.header = .ok n)
    (hmax : r.maxPayloadSize < n.toNat) :
    (r.putBuf a).remaining T = .fail .payloadSizeProhibitive := by
  rw [← header_putBuf hlen a] at hdec
  simpa [remaining, putBuf, h0] using reference_oversize (length_putBuf hlen a) hdec hmax

private theorem remaining_empty_frame {n : UInt32} (hdec : r.decCtx.decrypt r.header = .ok n)
    (hn : n.toNat = 0) : (r.putBuf a).remaining T = ((r.stripHeader 0).putBuf a).remaining T := by
  rw [← header_putBuf hlen a] at hdec
  have href : reference T r.decCtx r.maxPayloadSize (r.readBuffer ++ a) = _ :=
    reference_empty_frame (length_putBuf hlen a) hdec hn
  rw [List.drop_append_of_le_length hlen] at href
  simpa [remaining, putBuf, stripHeader, h0] using href

private theorem remaining_header {n : UInt32} (hdec : r.decCtx.decrypt r.header = .ok n)
    (hmax : n.toNat ≤ r.maxPayloadSize) (hn : n.toNat ≠ 0) :
    (r.putBuf a).remaining T = ((r.stripHeader n.toNat).putBuf a).remaining T := by
  rw [← header_putBuf hlen a] at hdec
  have href := reference_header (T := T) (length_putBuf hlen a) hdec hmax hn
  rw [List.drop_append_of_le_length hlen] at href
  simp only [remaining, putBuf, stripHeader, h0, if_true, hn, if_false, href]

omit h0 [Serde L UInt32] in
private theorem length_stripHeader (n : Nat) :
    (r.stripHeader n).readBuffer.length < r.readBuffer.length := by
  have hpos := r.decCtx.encryptedSizeLen_pos
  simp only [stripHeader, List.length_drop]
  omega

end HeaderPhase

section PayloadPhase

variable {r : LenDelimitedReader L} (h0 : r.readLen ≠ 0)
  (hlen : r.readLen ≤ r.readBuffer.length) (a : Bytes)
include h0 hlen

private theorem remaining_whole_payload : (r.putBuf a).remaining T =
    match r.decCtx.decrypt (T := T) (r.readBuffer.take r.readLen) with
    | .error e => .fail e
    | .ok v => ((r.stripPayload.putBuf a).remaining T).cons v := by
  have hnot : ¬ (r.readBuffer ++ a).length < r.readLen := by
    rw [List.length_append]
    omega
  simp only [remaining, putBuf, stripPayload, h0, if_true, if_false, referencePayload, hnot,
    List.take_append_of_le_length hlen, List.drop_append_of_le_length hlen]

end PayloadPhase

/-- What one call means for the result that is still to come, whatever is put
later. -/
private theorem Reads.explained {r r' : LenDelimitedReader L} {res : Res L (Option T)}
    (h : Reads T r res r') :
    match res with
    | .error e => ∀ a, (r.putBuf a).remaining T = .fail e
    | .ok none =>
        (r' = r ∧ r.remaining T = .empty ∨ r'.readBuffer.length < r.readBuffer.length) ∧
          ∀ a, (r.putBuf a).remaining T = (r'.putBuf a).remaining T
    | .ok (some v) =>
        r'.readBuffer.length < r.readBuffer.length ∧
          ∀ a, (r.putBuf a).remaining T = ((r'.putBuf a).remaining T).cons v := by
  induction h with
  | noHeader h0 hlen =>
      refine ⟨.inl ⟨rfl, ?_⟩, fun _ => rfl⟩
      simp [remaining, h0, reference_short hlen]
  | badHeader h0 hlen hdec => exact fun a => remaining_bad_header h0 hlen a hdec
  | oversize h0 hlen hdec hmax => exact fun a => remaining_oversize h0 hlen a hdec hmax
  | emptyFrame h0 hlen hdec hn =>
      exact ⟨.inr (length_stripHeader hlen 0), fun a => remaining_empty_frame h0 hlen a hdec hn⟩
  | @header r res r' n h0 hlen hdec hmax hn _ ih =>
      have hshort := length_stripHeader hlen n.toNat
      have hsame := fun a => remaining_header (T := T) h0 hlen a hdec hmax hn
      rcases res with e | _ | v
      · exact fun a => (hsame a).trans (ih a)
      · refine ⟨.inr ?_, fun a => (hsame a).trans (ih.2 a)⟩
        rcases ih.1 with ⟨rfl, -⟩ | hlt
        · exact hshort
        · omega
      · exact ⟨by omega, fun a => (hsame a).trans (ih.2 a)⟩
  | noPayload h0 hlen =>
      refine ⟨.inl ⟨rfl, ?_⟩, fun _ => rfl⟩
      simp [remaining, h0, referencePayload, hlen]
  | badPayload h0 hlen hdec =>
      intro a
      rw [remaining_whole_payload h0 hlen, hdec]
  | @payload r v h0 hlen hdec =>
      refine ⟨?_, fun a => ?_⟩
      · simp only [stripPayload, List.length_drop]
        omega
      · rw [remaining_whole_payload h0 hlen, hdec]

/-- **`remaining` explains the reader.** -/
theorem denotes_remaining :
    (decoder (L := L) T).Denotes (fun _ => True) (remaining T) fun r => r.readBuffer.length where
  put_nil r := by simp [decoder, putBuf]
  put_append r a b := by simp [decoder, putBuf]
  put_inv _ _ _ := trivial
  item _ _ _ _ h := by
    have hexp := (Reads.of_eq h).explained
    exact ⟨trivial, hexp.1, hexp.2⟩
  idle _ _ _ h := by
    have hexp := (Reads.of_eq h).explained
    exact ⟨trivial, hexp.1, hexp.2⟩
  failed _ _ _ _ h := (Reads.of_eq h).explained

/-! ## Runs of the reader -/

/-- A run of `put_buf` and `try_read::<T>` calls up to the first error, panics
included. -/
def runExec (T : Type) [Serde L T] : List (Call UInt8) → LenDelimitedReader L →
    Exec (Parsed T (SocketError L) × LenDelimitedReader L)
  | [], r => return (.empty, r)
  | .put buf :: calls, r => runExec T calls (r.putBuf buf)
  | .step :: calls, r => do
      match ← r.tryReadExec T with
      | (.error e, r) => return (.fail e, r)
      | (.ok none, r) => runExec T calls r
      | (.ok (some v), r) =>
          let (p, r) ← runExec T calls r
          return (p.cons v, r)

private theorem runExec_eq (calls : List (Call UInt8)) :
    ∀ r : LenDelimitedReader L, r.runExec T calls = .ok ((decoder T).run calls r) := by
  induction calls with
  | nil => intro r; rfl
  | cons call calls ih =>
      intro r
      cases call with
      | put buf => exact ih (r.putBuf buf)
      | step =>
          rcases hstep : r.tryRead T with ⟨e | _ | v, r'⟩ <;>
            simp [runExec, Decoder.run, decoder, tryReadExec_eq, hstep, ih, bind, Except.bind,
              pure, Except.pure]

end LenDelimitedReader

open LenDelimitedReader in
/-- **The reader delivers what the reference parser finds in the whole byte
string**, however that was cut and whenever the reader was asked.  No run
panics on a slice; what a run delivers is a prefix of the reference result and
all of it once there is an error; after all bytes are put, enough further
calls deliver the whole reference result; and so two runs over the same bytes
end up with the same messages and the same error. -/
theorem tryRead_segmentation_independent (ctx : DecryptContext L) (maxPayloadSize : Nat)
    (calls : List (Call UInt8)) :
    let fresh := (LenDelimitedReader.new maxPayloadSize).setDecryptCtx ctx
    let whole := reference T ctx maxPayloadSize (Decoder.input calls)
    (∃ p r, fresh.runExec T calls = .ok (p, r) ∧ p.items <+: whole.items ∧
      ∀ e, p.failure = some e → p = whole) ∧
    (∃ k, ∀ n, k ≤ n → ∃ r,
      fresh.runExec T (calls ++ List.replicate n .step) = .ok (whole, r)) ∧
    ∀ calls', Decoder.input calls' = Decoder.input calls → ∃ k, ∀ n, k ≤ n → ∃ p r r',
      fresh.runExec T (calls ++ List.replicate n .step) = .ok (p, r) ∧
      fresh.runExec T (calls' ++ List.replicate n .step) = .ok (p, r') := by
  intro fresh whole
  have hwhole : ∀ calls', Decoder.input calls' = Decoder.input calls →
      ((decoder T).put fresh (Decoder.input calls')).remaining T = whole := by
    intro calls' h
    simp [whole, fresh, h, decoder, remaining, putBuf, setDecryptCtx, LenDelimitedReader.new]
  have hcomplete : ∀ calls', Decoder.input calls' = Decoder.input calls → ∃ k, ∀ n, k ≤ n →
      ∃ r, fresh.runExec T (calls' ++ List.replicate n .step) = .ok (whole, r) := by
    intro calls' h
    obtain ⟨k, hk⟩ := (denotes_remaining (T := T)).run_complete calls' (s := fresh) trivial
    refine ⟨k, fun n hn => ⟨((decoder T).run (calls' ++ List.replicate n .step) fresh).2, ?_⟩⟩
    rw [runExec_eq, ← hwhole calls' h, ← hk n hn]
  refine ⟨⟨_, _, runExec_eq calls fresh, ?_, ?_⟩, hcomplete calls rfl, ?_⟩
  · rw [← hwhole calls rfl]
    exact denotes_remaining.run_prefix calls trivial
  · intro e he
    rw [← hwhole calls rfl]
    exact ((denotes_remaining.run_spec calls fresh trivial).2 e he).symm
  · intro calls' h
    obtain ⟨k, hk⟩ := hcomplete calls rfl
    obtain ⟨k', hk'⟩ := hcomplete calls' h
    refine ⟨max k k', fun n hn => ?_⟩
    obtain ⟨r, hr⟩ := hk n (by omega)
    obtain ⟨r', hr'⟩ := hk' n (by omega)
    exact ⟨whole, r, r', hr, hr'⟩

end SocketCollection
