import SocketCollection.ReaderLimit
import SocketCollection.ReaderStream

/-!
# Changing the decryption context

The context of a reader may be changed at any time, also while a frame is half
read.  The reader takes the header off as soon as it can decrypt it, and does
not remember under which context that was; the payload is decrypted under
whatever context is in force when it is complete.

A `Watched` reader remembers it, and lists the pair of contexts under which
each frame was decoded.  The two are always the same in the runs that set no
other context between the header and the payload of a frame, and a frame is
delivered although calls under other contexts have been made on it, if none of
these calls could decrypt its header.

## Main result

* `one_frame_one_context`: both conditions are enough, and a context that is set
  against the first one crosses the frame it is set in.
-/

namespace SocketCollection

open LenDelimitedReader Runs

variable {L : Crates} {T : Type}

/-- A call on a reader whose context may be changed.  Each `try_read` may ask
for a type of its own. -/
inductive ContextCall (L : Crates) : Type 1
  | putBuf (buf : Bytes)
  | setDecryptCtx (ctx : DecryptContext L)
  | tryRead (T : Type) [Serde L T]

/-- The bytes put by some calls. -/
def ContextCall.input (calls : List (ContextCall L)) : Bytes :=
  calls.flatMap fun
    | .putBuf buf => buf
    | _ => []

/-- The call returned a message. -/
def delivers : Res L (Option T) → Bool
  | .ok (some _) => true
  | _ => false

variable [Serde L UInt32]

namespace LenDelimitedReader

/-- The reader a call leaves, whatever the call returned. -/
def afterCall (r : LenDelimitedReader L) : ContextCall L → LenDelimitedReader L
  | .putBuf buf => r.putBuf buf
  | .setDecryptCtx ctx => r.setDecryptCtx ctx
  | @ContextCall.tryRead _ T _ => (r.tryRead T).2

end LenDelimitedReader

/-- A context that is set while a header has been read and its payload has not is the
one in force.  (A header that was refused for its length counts as read.) -/
def ContextCall.Steady (r : LenDelimitedReader L) : ContextCall L → Prop
  | .setDecryptCtx ctx => r.readLen ≠ 0 → ctx = r.decCtx
  | _ => True

/-! ## The contexts of a frame -/

/-- A reader, the context under which the header that it has read last was
decrypted, and the contexts of header and payload of each frame decoded. -/
structure Watched (L : Crates) where
  reader : LenDelimitedReader L
  headCtx : Option (DecryptContext L)
  decoded : List (DecryptContext L × DecryptContext L)

namespace Watched

def start (maxPayloadSize : Nat) (ctx : DecryptContext L) : Watched L where
  reader := (LenDelimitedReader.new maxPayloadSize).setDecryptCtx ctx
  headCtx := none
  decoded := []

/-- The context of the header of the frame in front: that of the header that
was read, or the one a header would be decrypted under now. -/
def frameCtx (s : Watched L) : Option (DecryptContext L) :=
  if s.reader.readLen = 0 then some s.reader.decCtx else s.headCtx

def step (s : Watched L) : ContextCall L → Watched L
  | .putBuf buf => { s with reader := s.reader.putBuf buf }
  | .setDecryptCtx ctx => { s with reader := s.reader.setDecryptCtx ctx }
  | @ContextCall.tryRead _ T _ =>
      let (res, r) := s.reader.tryRead T
      { reader := r
        headCtx := if r.readLen = 0 then none else s.frameCtx
        decoded := s.decoded ++
          if delivers res then s.frameCtx.toList.map fun ctx => (ctx, s.reader.decCtx) else [] }

/-- Every frame was decoded under one context. -/
def OneContext (s : Watched L) : Prop := ∀ d ∈ s.decoded, d.1 = d.2

/-- With the context set to `ctx` now, the frame whose header was read is decoded under
two contexts as soon as its payload is whole and can be decrypted. -/
def Crosses (s : Watched L) (ctx : DecryptContext L) : Prop :=
  ∀ (T : Type) [Serde L T] (bytes : Bytes) (v : T),
    s.reader.readLen ≤ (s.reader.readBuffer ++ bytes).length →
      ctx.decrypt ((s.reader.readBuffer ++ bytes).take s.reader.readLen) = .ok v →
        ¬ ([.setDecryptCtx ctx, .putBuf bytes, .tryRead T].foldl step s).OneContext

theorem step_reader (s : Watched L) (call : ContextCall L) :
    (s.step call).reader = s.reader.afterCall call := by
  cases call <;> rfl

/-- Every frame was decoded under one context, and a header whose payload is awaited
was decrypted under the one in force. -/
private structure Together (s : Watched L) : Prop where
  oneContext : s.OneContext
  headCtx : s.reader.readLen ≠ 0 → s.headCtx = some s.reader.decCtx

omit [Serde L UInt32] in
private theorem Together.frameCtx_eq {s : Watched L} (h : s.Together) :
    s.frameCtx = some s.reader.decCtx := by
  rw [frameCtx]
  split
  · rfl
  · next h0 => exact h.headCtx h0

/-- **A call that sets no other context within a frame keeps the contexts of frames
together.** -/
private theorem Together.step {s : Watched L} (h : s.Together) {call : ContextCall L}
    (hcall : ContextCall.Steady s.reader call) : (s.step call).Together := by
  cases call with
  | putBuf buf => exact ⟨h.oneContext, h.headCtx⟩
  | setDecryptCtx ctx =>
      refine ⟨h.oneContext, fun h0 => ?_⟩
      have hsame : ctx = s.reader.decCtx := hcall h0
      show s.headCtx = some ctx
      rw [hsame]
      exact h.headCtx h0
  | tryRead T =>
      have hframe := h.frameCtx_eq
      refine ⟨?_, fun h0 => ?_⟩
      · simp only [OneContext, Watched.step, List.forall_mem_append]
        refine ⟨h.oneContext, ?_⟩
        rw [hframe]
        cases delivers (s.reader.tryRead T).1 <;> simp
      · rw [step_reader] at h0 ⊢
        replace h0 : (s.reader.tryRead T).2.readLen ≠ 0 := h0
        show (if (s.reader.tryRead T).2.readLen = 0 then none else s.frameCtx) =
          some (s.reader.tryRead T).2.decCtx
        rw [if_neg h0, hframe, tryRead_decCtx]

/-- **A context that is set within a frame, and is not the one in force, crosses the
frame.** -/
private theorem Together.crosses {s : Watched L} (h : s.Together) {ctx : DecryptContext L}
    (hctx : ¬ ContextCall.Steady s.reader (.setDecryptCtx ctx)) : s.Crosses ctx := by
  intro T _ bytes v hlen hv hone
  obtain ⟨h0, hne⟩ := Classical.not_imp.mp hctx
  have hpassed : ((s.reader.setDecryptCtx ctx).putBuf bytes).payloadPassed =
      some ((s.reader.readBuffer ++ bytes).take s.reader.readLen) := by
    have h0' : ((s.reader.setDecryptCtx ctx).putBuf bytes).readLen ≠ 0 := h0
    rw [payloadPassed, if_neg h0', payloadSlice]
    exact if_neg (Nat.not_lt.mpr hlen)
  have hread := tryRead_of_payloadPassed (T := T) hpassed
  replace hread : (((s.reader.setDecryptCtx ctx).putBuf bytes).tryRead T).1 = .ok (some v) :=
    hread.trans (congrArg (Except.map some) hv)
  -- the call decodes the frame, under the new context
  have hdecoded : (s.reader.decCtx, ctx) ∈
      ([.setDecryptCtx ctx, .putBuf bytes, .tryRead T].foldl Watched.step s).decoded := by
    have hframe : ((s.step (.setDecryptCtx ctx)).step (.putBuf bytes)).frameCtx =
        some s.reader.decCtx := (if_neg h0).trans (h.headCtx h0)
    show _ ∈ s.decoded ++ if delivers (((s.reader.setDecryptCtx ctx).putBuf bytes).tryRead T).1
      then ((s.step (.setDecryptCtx ctx)).step (.putBuf bytes)).frameCtx.toList.map
        fun headCtx => (headCtx, ctx) else []
    rw [hread, hframe]
    exact List.mem_append_right _ List.mem_cons_self
  exact hne (hone _ hdecoded).symm

private theorem always_together {maxPayloadSize : Nat} {ctx : DecryptContext L}
    {calls : List (ContextCall L)}
    (hsteady : Each afterCall ContextCall.Steady
      ((LenDelimitedReader.new maxPayloadSize).setDecryptCtx ctx) calls) :
    Always step Together (start maxPayloadSize ctx) calls :=
  (each_of_part step_reader hsteady).always
    ⟨fun _ hd => absurd hd List.not_mem_nil, fun h0 => absurd rfl h0⟩
    fun _ _ h hcall => h.step hcall

end Watched

/-! ## Waiting for a frame -/

section Waiting

variable [Serde L T] {maxPayloadSize : Nat}

/-- A `try_read` that returns no message. -/
def ContextCall.Unsuccessful (r : LenDelimitedReader L) : ContextCall L → Prop
  | @ContextCall.tryRead _ T _ => delivers (r.tryRead T).1 = false
  | _ => True

/-- A `try_read` that finds a header whole and can decrypt it is made under a
context that reads what was encrypted under `enc`. -/
def ContextCall.HeaderMatches (enc : EncryptContext L) (r : LenDelimitedReader L) :
    ContextCall L → Prop
  | @ContextCall.tryRead _ _ _ =>
      r.readLen = 0 → r.decCtx.encryptedSizeLen ≤ r.readBuffer.length →
        (∃ n : UInt32, r.decCtx.decrypt r.header = .ok n) → Matching enc r.decCtx
  | _ => True

/-- The parcel's frame is in front of what the reader holds and what is still
to come; its header may have been taken off. -/
private inductive InFront (p : Parcel L T maxPayloadSize) (rest future : Bytes)
    (r : LenDelimitedReader L) : Prop
  | header (hmax : r.maxPayloadSize = maxPayloadSize) (h0 : r.readLen = 0)
      (hbytes : r.readBuffer ++ future = p.frame ++ rest)
  | payload (hmax : r.maxPayloadSize = maxPayloadSize) (hlen : r.readLen = p.payload.length)
      (hbytes : r.readBuffer ++ future = p.payload ++ rest)

variable {p : Parcel L T maxPayloadSize} {rest future : Bytes} {r : LenDelimitedReader L}

/-- Waiting for the payload, an unsuccessful call changes nothing. -/
private theorem tryRead_waiting {U : Type} [Serde L U] (h0 : r.readLen ≠ 0)
    (hfails : delivers (r.tryRead U).1 = false) : (r.tryRead U).2 = r := by
  have hreads := reads_tryRead (T := U) r
  generalize r.tryRead U = out at hreads hfails
  obtain ⟨res, r'⟩ := out
  cases hreads with
  | noPayload | badPayload => rfl
  | payload => cases hfails
  | noHeader h | badHeader h | oversize h | emptyFrame h | header h => exact absurd h h0

private theorem InFront.tryRead [LawfulSerde L UInt32] [LawfulSizeHeader L] {U : Type} [Serde L U]
    (h : InFront p rest future r)
    (hfails : delivers (r.tryRead U).1 = false)
    (hmatches : ContextCall.HeaderMatches p.encCtx r (.tryRead U)) :
    InFront p rest future (r.tryRead U).2 := by
  have hpos := p.payload_pos
  cases h with
  | payload hmax hlen hbytes =>
      rw [tryRead_waiting (by omega) hfails]
      exact .payload hmax hlen hbytes
  | header hmax h0 hbytes =>
      by_cases hshort : r.readBuffer.length < r.decCtx.encryptedSizeLen
      · rw [tryRead_no_header h0 hshort]
        exact .header hmax h0 hbytes
      · have hle : r.decCtx.encryptedSizeLen ≤ r.readBuffer.length := by omega
        cases hdec : r.decCtx.decrypt (T := UInt32) r.header with
        | error e =>
            rw [tryRead_bad_header h0 hle hdec]
            exact .header hmax h0 hbytes
        | ok n =>
            -- the header has been read, and so as the sender wrote it
            have hmatch := hmatches h0 hle ⟨n, hdec⟩
            obtain ⟨header, hframe, hheader⟩ := frame_parts p.encrypted p.framed
            obtain ⟨hsize, hdec'⟩ := hheader r.decCtx hmatch
            have hparts : r.readBuffer ++ future = header ++ (p.payload ++ rest) := by
              rw [hbytes, hframe, List.append_assoc]
            rw [header_of_bytes hparts hsize hle, hdec', Except.ok.injEq] at hdec
            have hn : n.toNat = p.payload.length := by
              rw [← hdec]
              exact lenAsU32_toNat p.payload_u32
            have hbound := p.payload_le
            rw [← header_of_bytes hparts hsize hle, hdec] at hdec'
            rw [tryRead_header h0 hle hdec' (by omega) (by omega)] at hfails ⊢
            have hn0 : (r.stripHeader n.toNat).readLen ≠ 0 := by
              show n.toNat ≠ 0
              omega
            rw [tryRead_waiting hn0 hfails]
            exact .payload hmax hn (stripHeader_bytes hparts hsize hle _)

/-- **Whatever contexts are in force meanwhile**, the frame stays in front. -/
private theorem InFront.run [LawfulSerde L UInt32] [LawfulSizeHeader L]
    (calls : List (ContextCall L)) : ∀ {r : LenDelimitedReader L} {future : Bytes},
      InFront p rest (ContextCall.input calls ++ future) r →
        Each afterCall ContextCall.Unsuccessful r calls →
          Each afterCall (ContextCall.HeaderMatches p.encCtx) r calls →
            InFront p rest future (calls.foldl afterCall r) := by
  induction calls with
  | nil => intro r future h _ _; exact h
  | cons call calls ih =>
      intro r future h hfails hmatches
      refine ih ?_ hfails.2 hmatches.2
      cases call with
      | putBuf buf =>
          cases h with
          | header hmax h0 hbytes =>
              refine .header hmax h0 ?_
              simpa [afterCall, putBuf, ContextCall.input] using hbytes
          | payload hmax hlen hbytes =>
              refine .payload hmax hlen ?_
              simpa [afterCall, putBuf, ContextCall.input] using hbytes
      | setDecryptCtx ctx =>
          cases h with
          | header hmax h0 hbytes => exact .header hmax h0 hbytes
          | payload hmax hlen hbytes => exact .payload hmax hlen hbytes
      | tryRead U => exact InFront.tryRead h hfails.1 hmatches.1

/-- A whole frame in front is delivered under a context that matches. -/
private theorem InFront.delivered [LawfulSerde L UInt32] [LawfulSizeHeader L] [LawfulSerde L T]
    (h : InFront p rest [] r) (hmatch : Matching p.encCtx r.decCtx) :
    r.tryRead T = (.ok (some p.value), { r with readBuffer := rest, readLen := 0 }) := by
  have hpos := p.payload_pos
  have hbound := p.payload_le
  cases h with
  | header hmax h0 hbytes =>
      rw [List.append_nil] at hbytes
      rw [tryRead_frame_in_front hmatch p.encrypted p.framed (by omega) p.payload_u32 h0 hbytes,
        if_neg (by omega), ← h0]
  | payload hmax hlen hbytes =>
      have hle : r.readLen ≤ r.readBuffer.length := by
        have hcount := congrArg List.length hbytes
        simp only [List.append_nil, List.length_append] at hcount
        omega
      have hdec : r.decCtx.decrypt (r.readBuffer.take r.readLen) = .ok p.value := by
        rw [payload_of_bytes hbytes hlen hle]
        exact hmatch.decrypt_encrypt p.encrypted
      have hrest := stripPayload_bytes hbytes hlen hle
      rw [tryRead_payload (by omega) hle hdec]
      rw [List.append_nil] at hrest
      rw [← hrest]
      rfl

end Waiting

/-- A frame that waits in front of a reader, all of it put in the end, is
delivered by the first `try_read` that follows the unsuccessful ones, if that
is made under a context which matches the sender's. -/
def DeliveredAfter (T : Type) [Serde L T] {maxPayloadSize : Nat} (p : Parcel L T maxPayloadSize)
    (rest : Bytes) (r : LenDelimitedReader L) (calls : List (ContextCall L)) : Prop :=
  r.maxPayloadSize = maxPayloadSize → r.readLen = 0 →
    r.readBuffer ++ ContextCall.input calls = p.frame ++ rest →
      Each afterCall ContextCall.Unsuccessful r calls →
        Matching p.encCtx (calls.foldl afterCall r).decCtx →
          (calls.foldl afterCall r).tryRead T =
            (.ok (some p.value),
              { calls.foldl afterCall r with readBuffer := rest, readLen := 0 })

/-- **When one frame means one context.**  In a run from a fresh reader that sets no
other context than the one in force between the header and the payload of a frame,
every frame is decoded under one context.  The first context set against this crosses
the frame it is set in.  And a frame is delivered after any unsuccessful calls on it,
if those of them that could decrypt its header were made under contexts which match
the sender's. -/
theorem one_frame_one_context [LawfulSerde L UInt32] [LawfulSizeHeader L] (maxPayloadSize : Nat)
    (ctx : DecryptContext L) (calls : List (ContextCall L)) :
    (Each afterCall ContextCall.Steady ((LenDelimitedReader.new maxPayloadSize).setDecryptCtx ctx)
        calls →
      Always Watched.step Watched.OneContext (.start maxPayloadSize ctx) calls ∧
        ∀ ctx', ¬ ContextCall.Steady
            (calls.foldl Watched.step (.start maxPayloadSize ctx)).reader (.setDecryptCtx ctx') →
          (calls.foldl Watched.step (.start maxPayloadSize ctx)).Crosses ctx') ∧
    ∀ (T : Type) [Serde L T] [LawfulSerde L T] (p : Parcel L T maxPayloadSize) (rest : Bytes)
      (later : List (ContextCall L)),
      Each afterCall (ContextCall.HeaderMatches p.encCtx)
        (calls.foldl Watched.step (.start maxPayloadSize ctx)).reader later →
      DeliveredAfter T p rest (calls.foldl Watched.step (.start maxPayloadSize ctx)).reader
        later := by
  constructor
  · intro hsteady
    have htogether := Watched.always_together hsteady
    exact ⟨htogether.mono fun _ h => h.oneContext, fun _ hctx => htogether.last.crosses hctx⟩
  · intro T _ _ p rest later hmatches hmax h0 hbytes hfails hmatch
    have hfront : InFront p rest (ContextCall.input later ++ [])
        (calls.foldl Watched.step (.start maxPayloadSize ctx)).reader :=
      .header hmax h0 (by rwa [List.append_nil])
    exact (hfront.run later hfails hmatches).delivered hmatch

namespace BincodeInstance

/-- A wrong key is tried on a frame before the right one. -/
def wrongKeyCalls : List (ContextCall crates) :=
  [.setDecryptCtx (.authenticated (9 : UInt8)), .putBuf sharedParcel.frame, .tryRead UInt32,
    .setDecryptCtx (.authenticated (7 : UInt8))]

/-- A peer announces 52 bytes in the clear. -/
def announcedCalls : List (ContextCall crates) := [.putBuf [52, 0, 0, 0], .tryRead UInt32]

/-- A peer announces 52 bytes in the clear, and then sends a sealed number. -/
def crossedCalls : List (ContextCall crates) :=
  [.putBuf [52, 0, 0, 0], .tryRead UInt32, .setDecryptCtx (.authenticated (7 : UInt8)),
    .putBuf (sealed 7 1 [5, 0, 0, 0]), .tryRead UInt32]

theorem one_frame_one_context_wrong_key :
    Always Watched.step Watched.OneContext (.start 100 .null) wrongKeyCalls ∧
      ((wrongKeyCalls.foldl afterCall ((LenDelimitedReader.new 100).setDecryptCtx .null)).tryRead
        UInt32).1 = .ok (some 6) ∧
      (announcedCalls.foldl Watched.step (.start 100 .null)).Crosses
        (.authenticated (7 : UInt8)) := by
  have hrefused : ∀ n : UInt32, DecryptContext.decrypt (L := crates) (.authenticated (9 : UInt8))
      (sharedParcel.frame.take 52) ≠ .ok n := by
    intro n h
    cases h
  refine ⟨?_, ?_, ?_⟩
  · refine ((one_frame_one_context 100 .null wrongKeyCalls).1
      ⟨fun h0 => absurd rfl h0, trivial, trivial, fun h0 => absurd ?_ h0, trivial⟩).1
    rfl
  · have hdelivered := (one_frame_one_context 100 .null ([] : List (ContextCall crates))).2 UInt32
      sharedParcel [] wrongKeyCalls
      ⟨trivial, trivial, fun _ _ ⟨n, hn⟩ => absurd hn (hrefused n), trivial, trivial⟩ rfl rfl rfl
      ⟨trivial, trivial, rfl, trivial, trivial⟩ (.authenticated rfl)
    exact congrArg Prod.fst hdelivered
  · refine ((one_frame_one_context 100 .null announcedCalls).1 ⟨trivial, trivial, trivial⟩).2 _ ?_
    intro hsame
    cases hsame (by decide)

/-- The reader is asked before its context is switched. -/
def lateCalls : List (ContextCall crates) :=
  [.putBuf sharedParcel.frame, .tryRead UInt32, .setDecryptCtx (.authenticated (7 : UInt8))]

/-- **A frame is decoded under two contexts, and another is lost.**  A header
read in the clear goes with a payload that is decrypted under a secret.  And
when `try_read` is called on a sealed frame before the context is switched, the
frame is not delivered afterwards. -/
theorem contexts_crossed :
    ¬ (crossedCalls.foldl Watched.step (.start 100 .null)).OneContext ∧
      ¬ DeliveredAfter UInt32 sharedParcel [] ((LenDelimitedReader.new 100).setDecryptCtx .null)
        lateCalls := by
  constructor
  · intro h
    have hpair := h (.null, .authenticated (7 : UInt8)) List.mem_cons_self
    cases hpair
  · intro h
    have hdelivered := h rfl rfl rfl ⟨trivial, rfl, trivial, trivial⟩ (.authenticated rfl)
    have hmessage := congrArg (fun out => delivers out.1) hdelivered
    cases hmessage

end BincodeInstance

end SocketCollection
