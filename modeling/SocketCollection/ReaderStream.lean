import SocketCollection.Reader
import SocketCollection.Runs
import SocketCollection.BincodeInstance

/-!
# Reading frames back

The encoder and the decoder are separate code.  They agree on what a frame is
when the reader's context matches the one the frame was built under: the
header is as long as the reader expects and decrypts to the length of the
payload, and the payload decrypts to the value (`frame_parts`).

A `Parcel` is a value together with its frame, with a payload the reader
accepts.  `Awaiting` relates a reader to the parcels it has not delivered and
the bytes it has not got; it is preserved by every call
(`Awaiting.putBuf`, `Awaiting.tryRead`), whatever the chunks.

## Main results

* `tryRead_serializeWithLen`: one frame, with anything behind it, read back in
  one call.  A frame whose payload is empty is skipped.
* `upgrade_exact`: a stream of frames, each under a context of its own, with
  the reader's context switched between messages.
-/

namespace SocketCollection

open LenDelimitedReader Runs

variable {L : Crates} {T : Type} [Serde L UInt32] [Serde L T]

/-! ## The two sides of a frame -/

section Frame

variable [LawfulSerde L UInt32] [LawfulSizeHeader L] {enc : EncryptContext L}
  {nonces : FrameNonces L} {value : T} {payload frame : Bytes}

/-- **What a matching context finds in a frame.** -/
theorem frame_parts (hpayload : enc.encrypt nonces.payload value = .ok payload)
    (hframe : serializeWithLen nonces value enc = .ok frame) :
    ∃ header, frame = header ++ payload ∧ ∀ dec, Matching enc dec →
      header.length = dec.encryptedSizeLen ∧ dec.decrypt header = .ok (lenAsU32 payload) := by
  obtain ⟨header, payload', hpayload', hheader, rfl⟩ := serializeWithLen_ok hframe
  obtain rfl : payload = payload' := Except.ok.inj (hpayload.symm.trans hpayload')
  refine ⟨header, rfl, fun dec hmatch => ⟨?_, hmatch.decrypt_encrypt hheader⟩⟩
  rw [EncryptContext.encrypt_u32_length hheader, hmatch.encryptedSizeLen_eq]

end Frame

/-! ## The buffer and the bytes to come

A byte string is split in two ways: into what the buffer holds and what is
still to come, and into a front the reader is waiting for and the rest. -/

section Buffer

variable {a b front back : Bytes}

private theorem take_of_append_eq (h : a ++ b = front ++ back) (hle : front.length ≤ a.length) :
    a.take front.length = front := by
  have htake := congrArg (List.take front.length) h
  rwa [List.take_append_of_le_length hle, List.take_left' rfl] at htake

private theorem drop_of_append_eq (h : a ++ b = front ++ back) (hle : front.length ≤ a.length) :
    a.drop front.length ++ b = back := by
  have hdrop := congrArg (List.drop front.length) h
  rwa [List.drop_append_of_le_length hle, List.drop_left' rfl] at hdrop

omit [Serde L UInt32]

variable {r : LenDelimitedReader L}

theorem header_of_bytes (h : r.readBuffer ++ b = front ++ back)
    (hsize : front.length = r.decCtx.encryptedSizeLen)
    (hle : r.decCtx.encryptedSizeLen ≤ r.readBuffer.length) : r.header = front := by
  rw [LenDelimitedReader.header, ← hsize]
  exact take_of_append_eq h (by omega)

theorem stripHeader_bytes (h : r.readBuffer ++ b = front ++ back)
    (hsize : front.length = r.decCtx.encryptedSizeLen)
    (hle : r.decCtx.encryptedSizeLen ≤ r.readBuffer.length) (n : Nat) :
    (r.stripHeader n).readBuffer ++ b = back := by
  rw [stripHeader, ← hsize]
  exact drop_of_append_eq h (by omega)

theorem payload_of_bytes (h : r.readBuffer ++ b = front ++ back)
    (hsize : r.readLen = front.length) (hle : r.readLen ≤ r.readBuffer.length) :
    r.readBuffer.take r.readLen = front := by
  rw [hsize]
  exact take_of_append_eq h (by omega)

theorem stripPayload_bytes (h : r.readBuffer ++ b = front ++ back)
    (hsize : r.readLen = front.length) (hle : r.readLen ≤ r.readBuffer.length) :
    r.stripPayload.readBuffer ++ b = back := by
  rw [stripPayload, hsize]
  exact drop_of_append_eq h (by omega)

end Buffer

/-! ## One frame -/

section OneFrame

variable [LawfulSerde L UInt32] [LawfulSizeHeader L] [LawfulSerde L T]
  {enc : EncryptContext L} {r : LenDelimitedReader L} {nonces : FrameNonces L} {value : T}
  {payload frame rest : Bytes}

/-- A frame in front of the buffer, met by a reader that awaits a header. -/
theorem tryRead_frame_in_front (hmatch : Matching enc r.decCtx)
    (hpayload : enc.encrypt nonces.payload value = .ok payload)
    (hframe : serializeWithLen nonces value enc = .ok frame)
    (hmax : payload.length ≤ r.maxPayloadSize) (hu32 : payload.length < 2 ^ 32)
    (h0 : r.readLen = 0) (hbuf : r.readBuffer = frame ++ rest) :
    r.tryRead T = (.ok (if payload.length = 0 then none else some value),
      { r with readBuffer := rest }) := by
  obtain ⟨header, rfl, hheader⟩ := frame_parts hpayload hframe
  obtain ⟨hsize, hdec⟩ := hheader r.decCtx hmatch
  have hn : (lenAsU32 payload).toNat = payload.length := lenAsU32_toNat hu32
  have hbytes : r.readBuffer ++ [] = header ++ (payload ++ rest) := by simp [hbuf]
  have hle : r.decCtx.encryptedSizeLen ≤ r.readBuffer.length := by
    rw [hbuf, ← hsize, List.append_assoc, List.length_append]
    omega
  rw [← header_of_bytes hbytes hsize hle] at hdec
  have hstrip : (r.stripHeader payload.length).readBuffer = payload ++ rest := by
    simpa using stripHeader_bytes hbytes hsize hle payload.length
  by_cases hempty : payload.length = 0
  · obtain rfl : payload = [] := List.length_eq_zero_iff.mp hempty
    have hrest : r.readBuffer.drop r.decCtx.encryptedSizeLen = rest := hstrip
    rw [tryRead_empty_frame h0 hle hdec hn, if_pos hempty, stripHeader, hrest, ← h0]
  · have hlep : payload.length ≤ (r.stripHeader payload.length).readBuffer.length := by
      rw [hstrip, List.length_append]
      omega
    have hdecp : r.decCtx.decrypt
        ((r.stripHeader payload.length).readBuffer.take payload.length) = .ok value := by
      rw [hstrip, List.take_left' rfl]
      exact hmatch.decrypt_encrypt hpayload
    have hrest : (r.stripHeader payload.length).readBuffer.drop payload.length = rest := by
      rw [hstrip, List.drop_left' rfl]
    rw [tryRead_header h0 hle hdec (by omega) (by omega), hn, tryRead_payload hempty hlep hdecp,
      if_neg hempty, stripPayload]
    simp only [stripHeader] at hrest ⊢
    rw [hrest, ← h0]

/-- **One frame is read back in one call**, whatever follows it: the reader
keeps what follows and waits for the next header.  An empty payload is the
exception: its frame is taken off without a result. -/
theorem tryRead_serializeWithLen (hmatch : Matching enc r.decCtx)
    (hpayload : enc.encrypt nonces.payload value = .ok payload)
    (hframe : serializeWithLen nonces value enc = .ok frame)
    (hmax : payload.length ≤ r.maxPayloadSize) (hu32 : payload.length < 2 ^ 32)
    (hbuf : r.readBuffer = []) (h0 : r.readLen = 0) :
    (r.putBuf (frame ++ rest)).tryRead T =
      (.ok (if payload.length = 0 then none else some value),
        { r with readBuffer := rest, readLen := 0 }) := by
  have hfront : (r.putBuf (frame ++ rest)).readBuffer = frame ++ rest := by simp [putBuf, hbuf]
  rw [tryRead_frame_in_front (r := r.putBuf (frame ++ rest)) hmatch hpayload hframe hmax hu32 h0
    hfront]
  simp [putBuf, h0]

end OneFrame

namespace BincodeInstance

/-- A reader that shares the secret 7 with its peer. -/
def sharedReader : LenDelimitedReader crates :=
  (LenDelimitedReader.new 100).setDecryptCtx (.authenticated (7 : UInt8))

theorem tryRead_serializeWithLen_shared :
    (sharedReader.putBuf (sealed 7 2 [52, 0, 0, 0] ++ sealed 7 1 [5, 0, 0, 0] ++ [9])).tryRead
        UInt32 = (.ok (some 5), { sharedReader with readBuffer := [9], readLen := 0 }) := by
  have hmatch : Matching (L := crates) (.authenticated (7 : UInt8)) sharedReader.decCtx :=
    .authenticated rfl
  have hpayload : EncryptContext.encrypt (L := crates) (.authenticated (7 : UInt8)) (1 : UInt8)
      (5 : UInt32) = .ok (sealed 7 1 [5, 0, 0, 0]) := rfl
  have hframe : serializeWithLen (L := crates) ⟨(1 : UInt8), (2 : UInt8)⟩ (5 : UInt32)
      (.authenticated (7 : UInt8)) =
        .ok (sealed 7 2 [52, 0, 0, 0] ++ sealed 7 1 [5, 0, 0, 0]) := rfl
  exact tryRead_serializeWithLen hmatch hpayload hframe (by decide) (by decide) rfl rfl

/-- **A value that is serialised in no bytes is lost.**  The unit value makes
a frame with an empty payload, and the reader skips it. -/
theorem unit_frame_skipped :
    EncryptContext.null.encrypt (L := crates) (0 : UInt8) () = .ok [] ∧
      serializeWithLen (L := crates) ⟨(0 : UInt8), (0 : UInt8)⟩ () .null = .ok [0, 0, 0, 0] ∧
      (((LenDelimitedReader.new 4 : LenDelimitedReader crates).putBuf
        ([0, 0, 0, 0] ++ [9])).tryRead Unit).1 ≠ .ok (some ()) ∧
      (((LenDelimitedReader.new 4 : LenDelimitedReader crates).putBuf
        ([0, 0, 0, 0] ++ [9])).tryRead Unit).1 = .ok none :=
  ⟨rfl, rfl, nofun, rfl⟩

end BincodeInstance

/-! ## A stream of frames -/

/-- A value together with the frame `serialize_with_len` makes of it, where
the payload is one that a reader with this limit delivers. -/
structure Parcel (L : Crates) (T : Type) [Serde L UInt32] [Serde L T] (maxPayloadSize : Nat) where
  value : T
  encCtx : EncryptContext L
  nonces : FrameNonces L
  payload : Bytes
  frame : Bytes
  encrypted : encCtx.encrypt nonces.payload value = .ok payload
  framed : serializeWithLen nonces value encCtx = .ok frame
  payload_pos : 0 < payload.length
  payload_le : payload.length ≤ maxPayloadSize
  payload_u32 : payload.length < 2 ^ 32

variable {maxPayloadSize : Nat}

/-- The parcels' frames, one after the other. -/
def wire (parcels : List (Parcel L T maxPayloadSize)) : Bytes := parcels.flatMap Parcel.frame

@[simp] theorem wire_nil : wire ([] : List (Parcel L T maxPayloadSize)) = [] := rfl

@[simp] theorem wire_cons (p : Parcel L T maxPayloadSize) (ps : List (Parcel L T maxPayloadSize)) :
    wire (p :: ps) = p.frame ++ wire ps := List.flatMap_cons

@[simp] theorem wire_append (ps qs : List (Parcel L T maxPayloadSize)) :
    wire (ps ++ qs) = wire ps ++ wire qs := List.flatMap_append

/-- A frame is longer than its payload, and so not empty. -/
theorem Parcel.frame_pos (p : Parcel L T maxPayloadSize) : 0 < p.frame.length := by
  obtain ⟨header, payload, hpayload, -, hframe⟩ := serializeWithLen_ok p.framed
  obtain rfl : p.payload = payload := Except.ok.inj (p.encrypted.symm.trans hpayload)
  have hpos := p.payload_pos
  rw [hframe, List.length_append]
  omega

/-- The reader has delivered everything but `parcels`: what it holds and what
is still to come are their frames, of which the first header may have been
taken off already. -/
inductive Awaiting (future : Bytes) :
    LenDelimitedReader L → List (Parcel L T maxPayloadSize) → Prop
  | header {r ps} (hmax : r.maxPayloadSize = maxPayloadSize) (h0 : r.readLen = 0)
      (hbytes : r.readBuffer ++ future = wire ps) : Awaiting future r ps
  | payload {r p ps} (hmax : r.maxPayloadSize = maxPayloadSize)
      (hlen : r.readLen = p.payload.length)
      (hbytes : r.readBuffer ++ future = p.payload ++ wire ps) : Awaiting future r (p :: ps)

/-- The reader's context reads the next parcel. -/
def Tuned (r : LenDelimitedReader L) (parcels : List (Parcel L T maxPayloadSize)) : Prop :=
  ∀ p, parcels.head? = some p → Matching p.encCtx r.decCtx

namespace Awaiting

variable {r : LenDelimitedReader L} {ps : List (Parcel L T maxPayloadSize)} {future : Bytes}

theorem putBuf {buf : Bytes} (h : Awaiting (buf ++ future) r ps) :
    Awaiting future (r.putBuf buf) ps := by
  cases h with
  | header hmax h0 hbytes =>
      refine .header hmax h0 ?_
      simpa [LenDelimitedReader.putBuf] using hbytes
  | payload hmax hlen hbytes =>
      refine .payload hmax hlen ?_
      simpa [LenDelimitedReader.putBuf] using hbytes

/-- The context is not part of what a reader holds. -/
theorem setDecryptCtx (h : Awaiting future r ps) (ctx : DecryptContext L) :
    Awaiting future (r.setDecryptCtx ctx) ps := by
  cases h with
  | header hmax h0 hbytes => exact .header hmax h0 hbytes
  | payload hmax hlen hbytes => exact .payload hmax hlen hbytes

/-- More frames may follow. -/
theorem more (h : Awaiting future r ps) (qs : List (Parcel L T maxPayloadSize)) :
    Awaiting (future ++ wire qs) r (ps ++ qs) := by
  cases h with
  | header hmax h0 hbytes =>
      refine .header hmax h0 ?_
      rw [wire_append, ← hbytes, List.append_assoc]
  | @payload p ps hmax hlen hbytes =>
      have hall : r.readBuffer ++ (future ++ wire qs) = p.payload ++ wire (ps ++ qs) := by
        rw [wire_append, ← List.append_assoc, hbytes, List.append_assoc]
      exact .payload hmax hlen hall

/-- A reader that awaits nothing gets nothing more. -/
theorem eq_nil (h : Awaiting future r ([] : List (Parcel L T maxPayloadSize))) : future = [] := by
  cases h with
  | header hmax h0 hbytes => exact (List.append_eq_nil_iff.mp hbytes).2

/-- What a `try_read` does to an awaiting reader: it delivers the next parcel,
or nothing for want of bytes of that parcel. -/
inductive Outcome (future : Bytes) (ps : List (Parcel L T maxPayloadSize)) :
    Res L (Option T) × LenDelimitedReader L → Prop
  | delivered {p rest r'} (hps : ps = p :: rest) (h : Awaiting future r' rest) :
      Outcome future ps (.ok (some p.value), r')
  | waiting {r'} (h : Awaiting future r' ps)
      (hmore : ∀ p rest, ps = p :: rest → (wire rest).length < future.length) :
      Outcome future ps (.ok none, r')

section TryRead

variable [LawfulSerde L T]

private theorem tryRead_payload_phase {p : Parcel L T maxPayloadSize}
    (hmax : r.maxPayloadSize = maxPayloadSize) (hlen : r.readLen = p.payload.length)
    (hbytes : r.readBuffer ++ future = p.payload ++ wire ps)
    (hmatch : Matching p.encCtx r.decCtx) : Outcome future (p :: ps) (r.tryRead T) := by
  have h0 : r.readLen ≠ 0 := by
    have hpos := p.payload_pos
    omega
  by_cases hshort : r.readBuffer.length < r.readLen
  · rw [tryRead_no_payload h0 hshort]
    refine .waiting (.payload hmax hlen hbytes) fun p' rest hps => ?_
    obtain ⟨rfl, rfl⟩ := List.cons.inj hps
    have hcount := congrArg List.length hbytes
    simp only [List.length_append] at hcount
    omega
  · have hle : r.readLen ≤ r.readBuffer.length := by omega
    have hdec : r.decCtx.decrypt (r.readBuffer.take r.readLen) = .ok p.value := by
      rw [payload_of_bytes hbytes hlen hle]
      exact hmatch.decrypt_encrypt p.encrypted
    rw [tryRead_payload h0 hle hdec]
    exact .delivered rfl (.header hmax rfl (stripPayload_bytes hbytes hlen hle))

/-- **A call of `try_read` on an awaiting reader** whose context reads the next
parcel. -/
theorem tryRead [LawfulSerde L UInt32] [LawfulSizeHeader L] (h : Awaiting future r ps)
    (htuned : Tuned r ps) : Outcome future ps (r.tryRead T) := by
  cases h with
  | payload hmax hlen hbytes =>
      exact tryRead_payload_phase hmax hlen hbytes (htuned _ rfl)
  | header hmax h0 hbytes =>
      cases ps with
      | nil =>
          have hempty : r.readBuffer = [] := (List.append_eq_nil_iff.mp hbytes).1
          have hshort : r.readBuffer.length < r.decCtx.encryptedSizeLen := by
            rw [hempty]
            exact r.decCtx.encryptedSizeLen_pos
          rw [tryRead_no_header h0 hshort]
          exact .waiting (.header hmax h0 hbytes) nofun
      | cons p ps =>
          have hmatch := htuned p rfl
          obtain ⟨header, hframe, hheader⟩ := frame_parts p.encrypted p.framed
          obtain ⟨hsize, hdec⟩ := hheader r.decCtx hmatch
          have hn := lenAsU32_toNat p.payload_u32
          have hparts : r.readBuffer ++ future = header ++ (p.payload ++ wire ps) := by
            rw [hbytes, wire_cons, hframe, List.append_assoc]
          by_cases hshort : r.readBuffer.length < r.decCtx.encryptedSizeLen
          · rw [tryRead_no_header h0 hshort]
            refine .waiting (.header hmax h0 hbytes) fun p' rest hps => ?_
            obtain ⟨rfl, rfl⟩ := List.cons.inj hps
            have hcount := congrArg List.length hparts
            simp only [List.length_append] at hcount
            omega
          · have hle : r.decCtx.encryptedSizeLen ≤ r.readBuffer.length := by omega
            have hbound := p.payload_le
            have hpos := p.payload_pos
            rw [← header_of_bytes hparts hsize hle] at hdec
            rw [tryRead_header h0 hle hdec (by omega) (by omega), hn]
            exact tryRead_payload_phase hmax rfl (stripHeader_bytes hparts hsize hle _) hmatch

end TryRead

end Awaiting

/-- The messages in the results of some calls. -/
def delivered (results : List (Res L (Option T))) : List T :=
  results.filterMap fun
    | .ok m => m
    | .error _ => none

omit [Serde L UInt32] [Serde L T] in
@[simp] theorem delivered_message (results : List (Res L (Option T))) (m : T) :
    delivered (results ++ [.ok (some m)]) = delivered results ++ [m] := by
  simp [delivered]

omit [Serde L UInt32] [Serde L T] in
@[simp] theorem delivered_nothing (results : List (Res L (Option T))) :
    delivered (results ++ [.ok none]) = delivered results := by
  simp [delivered]

/-! ## Switching contexts between messages -/

/-- A call on a reader whose context may be switched. -/
inductive UpgradeCall (L : Crates)
  | putBuf (buf : Bytes)
  | setDecryptCtx (ctx : DecryptContext L)
  | tryRead

/-- A reader in use, with the bytes put so far and the results of the
`try_read` calls so far. -/
structure Session (L : Crates) (T : Type) where
  reader : LenDelimitedReader L
  put : Bytes
  results : List (Res L (Option T))

namespace Session

def start (maxPayloadSize : Nat) (ctx : DecryptContext L) : Session L T where
  reader := (LenDelimitedReader.new maxPayloadSize).setDecryptCtx ctx
  put := []
  results := []

def step (s : Session L T) : UpgradeCall L → Session L T
  | .putBuf buf => { s with reader := s.reader.putBuf buf, put := s.put ++ buf }
  | .setDecryptCtx ctx => { s with reader := s.reader.setDecryptCtx ctx }
  | .tryRead =>
      let (res, reader) := s.reader.tryRead T
      { s with reader := reader, results := s.results ++ [res] }

/-- The messages returned so far. -/
def messages (s : Session L T) : List T := delivered s.results

/-- What is put are the parcels' frames, and every `try_read` is made under a
context that reads the parcel after those that have been returned. -/
def Follows (parcels : List (Parcel L T maxPayloadSize)) (s : Session L T) :
    UpgradeCall L → Prop
  | .putBuf buf => s.put ++ buf <+: wire parcels
  | .setDecryptCtx _ => True
  | .tryRead => Tuned s.reader (parcels.drop s.messages.length)

/-- The session has returned the first parcels and awaits the others. -/
def InOrder (parcels : List (Parcel L T maxPayloadSize)) (s : Session L T) : Prop :=
  ∃ done rest future, parcels = done ++ rest ∧ s.messages = done.map Parcel.value ∧
    (∀ res ∈ s.results, ∃ m, res = .ok m) ∧ s.put ++ future = wire parcels ∧
      Awaiting future s.reader rest

variable {parcels : List (Parcel L T maxPayloadSize)}

private theorem drop_messages {s : Session L T} {done rest : List (Parcel L T maxPayloadSize)}
    (hsplit : parcels = done ++ rest) (hmessages : s.messages = done.map Parcel.value) :
    parcels.drop s.messages.length = rest := by
  rw [hsplit, hmessages, List.length_map, List.drop_left' rfl]

private theorem inOrder_start (ctx : DecryptContext L) :
    (start maxPayloadSize ctx : Session L T).InOrder parcels :=
  ⟨[], parcels, wire parcels, rfl, rfl, by simp [start], rfl, .header rfl rfl rfl⟩

section Step

variable [LawfulSerde L UInt32] [LawfulSizeHeader L] [LawfulSerde L T] {s : Session L T}

/-- **One call.** -/
theorem InOrder.step {call : UpgradeCall L} (h : s.InOrder parcels)
    (hfollows : s.Follows parcels call) : (s.step call).InOrder parcels := by
  obtain ⟨done, rest, future, hsplit, hmessages, hok, hput, hawait⟩ := h
  cases call with
  | putBuf buf =>
      obtain ⟨later, hlater⟩ := hfollows
      obtain rfl : future = buf ++ later := by
        rw [← hput, List.append_assoc, List.append_cancel_left_eq] at hlater
        exact hlater.symm
      exact ⟨done, rest, later, hsplit, hmessages, hok, hlater, hawait.putBuf⟩
  | setDecryptCtx ctx =>
      exact ⟨done, rest, future, hsplit, hmessages, hok, hput, hawait.setDecryptCtx ctx⟩
  | tryRead =>
      have htuned : Tuned s.reader rest := by
        rwa [Follows, drop_messages hsplit hmessages] at hfollows
      have hout := hawait.tryRead htuned
      rcases hres : s.reader.tryRead T with ⟨res, r'⟩
      rw [hres] at hout
      have hstep : s.step .tryRead = { s with reader := r', results := s.results ++ [res] } := by
        simp [Session.step, hres]
      have hok' : (∃ m, res = .ok m) → ∀ res' ∈ s.results ++ [res], ∃ m, res' = .ok m := by
        intro hres'
        rw [List.forall_mem_append, List.forall_mem_singleton]
        exact ⟨hok, hres'⟩
      rw [hstep]
      cases hout with
      | @delivered p rest r' hps hnext =>
          refine ⟨done ++ [p], rest, future, ?_, ?_, hok' ⟨_, rfl⟩, hput, hnext⟩
          · simp [hsplit, hps]
          · rw [messages] at hmessages ⊢
            simp [hmessages]
      | waiting hnext hmore =>
          refine ⟨done, rest, future, hsplit, ?_, hok' ⟨_, rfl⟩, hput, hnext⟩
          rw [messages] at hmessages ⊢
          simp [hmessages]

/-- Once all bytes are put, a call returns nothing only if everything has been
returned. -/
private theorem InOrder.tryRead_none_iff (h : s.InOrder parcels) (hput : s.put = wire parcels)
    (hfollows : s.Follows parcels .tryRead) :
    (s.reader.tryRead T).1 = .ok none ↔ s.messages = parcels.map Parcel.value := by
  obtain ⟨done, rest, future, hsplit, hmessages, hok, hbytes, hawait⟩ := h
  obtain rfl : future = [] := by
    rw [hput] at hbytes
    simpa using hbytes
  have htuned : Tuned s.reader rest := by
    rwa [Follows, drop_messages hsplit hmessages] at hfollows
  have hall : s.messages = parcels.map Parcel.value ↔ rest = [] := by
    rw [hmessages, hsplit, List.map_append, List.self_eq_append_right, List.map_eq_nil_iff]
  rw [hall]
  have hout := hawait.tryRead htuned
  generalize s.reader.tryRead T = out at hout
  cases hout with
  | delivered hps _ => simp [hps]
  | waiting _ hmore =>
      cases rest with
      | nil => simp
      | cons p rest => exact absurd (hmore p rest rfl) (Nat.not_lt_zero _)

end Step

end Session

/-- **Switching the context at message boundaries is exact.**  In any session
that is fed the frames in pieces and whose context, at each `try_read`, reads
the next parcel, no call fails, the messages returned are the first values in
order, and once all bytes are put a call returns nothing exactly when all of
them have been returned. -/
theorem upgrade_exact [LawfulSerde L UInt32] [LawfulSizeHeader L] [LawfulSerde L T]
    (parcels : List (Parcel L T maxPayloadSize)) (ctx : DecryptContext L)
    (calls : List (UpgradeCall L))
    (hfollows : Each Session.step (Session.Follows parcels) (.start maxPayloadSize ctx) calls) :
    let s : Session L T := calls.foldl Session.step (.start maxPayloadSize ctx)
    (∀ res ∈ s.results, ∃ m, res = .ok m) ∧
      s.messages <+: parcels.map Parcel.value ∧
      (s.put = wire parcels → s.Follows parcels .tryRead →
        ((s.reader.tryRead T).1 = .ok none ↔ s.messages = parcels.map Parcel.value)) := by
  intro s
  have h : s.InOrder parcels :=
    hfollows.last (Session.inOrder_start ctx) fun _ _ hs hcall => hs.step hcall
  refine ⟨?_, ?_, h.tryRead_none_iff⟩
  · obtain ⟨_, _, _, _, _, hok, _⟩ := h
    exact hok
  · obtain ⟨done, rest, _, hsplit, hmessages, _⟩ := h
    rw [hsplit, hmessages, List.map_append]
    exact List.prefix_append _ _

namespace BincodeInstance

/-- A frame sent in the clear. -/
def clearParcel : Parcel crates UInt32 100 where
  value := 5
  encCtx := .null
  nonces := ⟨(1 : UInt8), (2 : UInt8)⟩
  payload := [5, 0, 0, 0]
  frame := [4, 0, 0, 0, 5, 0, 0, 0]
  encrypted := rfl
  framed := rfl
  payload_pos := by decide
  payload_le := by decide
  payload_u32 := by decide

/-- A frame sent after the sender has switched to a shared secret. -/
def sharedParcel : Parcel crates UInt32 100 where
  value := 6
  encCtx := .authenticated (7 : UInt8)
  nonces := ⟨(3 : UInt8), (4 : UInt8)⟩
  payload := sealed 7 3 [6, 0, 0, 0]
  frame := sealed 7 4 [52, 0, 0, 0] ++ sealed 7 3 [6, 0, 0, 0]
  encrypted := rfl
  framed := rfl
  payload_pos := by decide
  payload_le := by decide
  payload_u32 := by decide

/-- Both frames are buffered before the first is read and the context
switched. -/
def upgradeCalls : List (UpgradeCall crates) :=
  [.putBuf (wire [clearParcel, sharedParcel]), .tryRead,
    .setDecryptCtx (.authenticated (7 : UInt8)), .tryRead]

theorem upgrade_exact_shared :
    let s : Session crates UInt32 := upgradeCalls.foldl Session.step (.start 100 .null)
    (∀ res ∈ s.results, ∃ m, res = .ok m) ∧
      s.messages <+: [clearParcel, sharedParcel].map Parcel.value ∧
      (s.put = wire [clearParcel, sharedParcel] →
        s.Follows [clearParcel, sharedParcel] .tryRead →
          ((s.reader.tryRead UInt32).1 = .ok none ↔
            s.messages = [clearParcel, sharedParcel].map Parcel.value)) := by
  refine upgrade_exact [clearParcel, sharedParcel] .null upgradeCalls ⟨List.prefix_refl _, ?_⟩
  refine ⟨?_, trivial, ?_, trivial⟩
  · intro p hp
    obtain rfl : clearParcel = p := Option.some.inj hp
    exact .null
  · intro p hp
    obtain rfl : sharedParcel = p := Option.some.inj hp
    exact .authenticated rfl

end BincodeInstance

end SocketCollection
