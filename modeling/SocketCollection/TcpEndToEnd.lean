import SocketCollection.TcpLink

/-!
# Two TCP sockets, end to end

A link whose two ends keep one pair of matching contexts: every entry is
encrypted under the one, and the receiver uses the other (`Linked`), so that it
is attuned at every read.

## Main result

* `end_to_end`: at every point of every interleaving the link is `Faithful`.
-/

namespace SocketCollection

open Runs

variable {L : Crates} {T : Type} [Serde L UInt32] [Serde L T]

namespace Link

/-- What the receiver may rely on: no read has failed; the messages returned
are the first messages the sender took, in order and unchanged; and once
nothing is left in the network, a read returns nothing exactly when every
message but the one being written has been returned, which enough reads bring
about. -/
structure Faithful (s : Link L T) : Prop where
  no_error : ∀ res ∈ s.results, ∃ m, res = .ok m
  in_order : s.received.map some <+: s.sent
  none_iff : s.inFlight = [] → s.receiver.stream.toCome = [] →
    ((s.receiver.read T).1 = .ok none ↔ s.received.map some ++ s.unsent = s.sent)
  complete : s.inFlight = [] → s.receiver.stream.toCome = [] →
    ∃ k, ∀ n, k ≤ n → (s.reads n).received.map some ++ s.unsent = s.sent

end Link

/-- The payload of a message that is written is one the receiver delivers, and
the network's errors are `WouldBlock` and `Interrupted`. -/
def LinkOp.Fits (sendConf recvConf : SocketConfig L) : LinkOp L T → Prop
  | .write _ nonces (some (msg, _)) =>
      ∀ payload, sendConf.encCtx.encrypt nonces.payload msg = .ok payload →
        0 < payload.length ∧ payload.length ≤ recvConf.maxPayloadSize ∧
          payload.length < 2 ^ 32
  | .stop e => e.isRetry = true
  | _ => True

/-! ## The relation between the two ends -/

namespace Link

variable {maxPayloadSize : Nat} {enc : EncryptContext L} {dec : DecryptContext L} {s : Link L T}

/-- The two ends are joined, and use these contexts. -/
structure Linked (maxPayloadSize : Nat) (enc : EncryptContext L) (dec : DecryptContext L)
    (s : Link L T) : Prop extends s.Joined maxPayloadSize where
  encCtx : s.sender.inner.encCtx = enc
  entries : ∀ e ∈ s.sender.dequeued ++ s.sender.queued, e.msg.label.encCtx = enc
  decCtx : s.receiver.msgReader.decCtx = dec

theorem Linked.parcels (h : s.Linked maxPayloadSize enc dec)
    {ps : List (Parcel L T maxPayloadSize)} (hconveys : Conveys ps s.sender.dequeued) :
    ∀ p ∈ ps, p.encCtx = enc :=
  hconveys.forall_encCtx (P := fun ctx => ctx = enc) fun e he =>
    h.entries e (List.mem_append_left _ he)

/-- The receiver's context reads every parcel. -/
theorem Linked.attuned (h : s.Linked maxPayloadSize enc dec) (hmatch : Matching enc dec) :
    s.Attuned maxPayloadSize := by
  intro done rest hconveys _ p hp
  rw [h.parcels hconveys p (List.mem_append_right _ (List.mem_of_head? hp)), h.decCtx]
  exact hmatch

private theorem Linked.write (h : s.Linked maxPayloadSize enc dec) {clock : Clock}
    {nonces : FrameNonces L} {msg : Option (T × Priority)}
    (hfits : ∀ m priority, msg = some (m, priority) → ∀ payload,
      enc.encrypt nonces.payload m = .ok payload → 0 < payload.length ∧
        payload.length ≤ maxPayloadSize ∧ payload.length < 2 ^ 32) :
    (s.step (.write clock nonces msg)).Linked maxPayloadSize enc dec where
  toJoined := h.toJoined.write (by rwa [h.encCtx])
  encCtx := (s.sender.write_encCtx clock nonces (msg.map Prod.fst) msg).trans h.encCtx
  entries := s.sender.write_forall h.entries fun _ _ _ _ _ => h.encCtx
  decCtx := h.decCtx

private theorem Linked.deliver (h : s.Linked maxPayloadSize enc dec) (n : Nat) :
    (s.step (.deliver n)).Linked maxPayloadSize enc dec := by
  obtain ⟨hsender, hreader⟩ := s.deliver_frame n
  refine ⟨h.toJoined.deliver n, ?_, ?_, ?_⟩
  · rw [hsender]
    exact h.encCtx
  · rw [hsender]
    exact h.entries
  · rw [hreader]
    exact h.decCtx

private theorem Linked.stop (h : s.Linked maxPayloadSize enc dec) {e : IoError}
    (he : e.isRetry = true) : (s.step (.stop e)).Linked maxPayloadSize enc dec :=
  ⟨h.toJoined.stop he, h.encCtx, h.entries, h.decCtx⟩

section Read

variable [LawfulSerde L UInt32] [LawfulSizeHeader L] [LawfulSerde L T]

private theorem Linked.read (h : s.Linked maxPayloadSize enc dec) (hmatch : Matching enc dec) :
    (s.step .read).Linked maxPayloadSize enc dec :=
  ⟨h.toJoined.read (h.attuned hmatch), h.encCtx, h.entries,
    (h.toJoined.read_decCtx (h.attuned hmatch)).trans h.decCtx⟩

private theorem Linked.received_read (h : s.Linked maxPayloadSize enc dec)
    (hmatch : Matching enc dec) (hsome : (s.receiver.read T).1 ≠ .ok none) :
    ∃ m, (s.step .read).received = s.received ++ [m] := by
  obtain ⟨m, hm⟩ := (h.read hmatch).results_ok (s.receiver.read T).1 (by simp [step])
  cases m with
  | none => exact absurd hm hsome
  | some m => exact ⟨m, by simp [step, received, hm]⟩

/-- When everything has been returned, further reads change nothing. -/
private theorem Linked.stays (n : Nat) : ∀ {s : Link L T}, s.Linked maxPayloadSize enc dec →
    Matching enc dec → s.inFlight = [] → s.receiver.stream.toCome = [] →
      s.received.map some ++ s.unsent = s.sent →
        (s.reads n).received.map some ++ s.unsent = s.sent := by
  induction n with
  | zero => intro s _ _ _ _ hall; exact hall
  | succ n ih =>
      intro s h hmatch hflight hcome hall
      have hnone := (h.read_none_iff (h.attuned hmatch) hflight hcome).mpr hall
      have hsame : (s.step .read).received = s.received := by simp [step, received, hnone]
      have hall' : (s.step .read).received.map some ++ s.unsent = s.sent := by rwa [hsame]
      exact ih (h.read hmatch) hmatch hflight (h.toCome_read (h.attuned hmatch) hcome) hall'

/-- Enough reads of an empty network return everything that can be. -/
private theorem Linked.drains (h : s.Linked maxPayloadSize enc dec) (hmatch : Matching enc dec)
    (hflight : s.inFlight = []) (hcome : s.receiver.stream.toCome = []) :
    ∃ k, ∀ n, k ≤ n → (s.reads n).received.map some ++ s.unsent = s.sent := by
  induction hm : s.sent.length - s.received.length using Nat.strongRecOn generalizing s with
  | ind m ih =>
      by_cases hall : s.received.map some ++ s.unsent = s.sent
      · exact ⟨0, fun n _ => h.stays n hmatch hflight hcome hall⟩
      · have hsome : (s.receiver.read T).1 ≠ .ok none := fun hnone =>
          hall ((h.read_none_iff (h.attuned hmatch) hflight hcome).mp hnone)
        obtain ⟨v, hv⟩ := h.received_read hmatch hsome
        have hnext := h.read hmatch
        -- the read returned one message more, and never more than were taken
        have hle := hnext.received_prefix.length_le
        have hlen := congrArg List.length hv
        have hsent : (s.step .read).sent = s.sent := rfl
        rw [List.length_map, hsent] at hle
        rw [List.length_append, List.length_singleton] at hlen
        obtain ⟨k, hk⟩ := ih _ (by rw [hsent]; omega) hnext hflight
          (h.toCome_read (h.attuned hmatch) hcome) rfl
        refine ⟨k + 1, fun n hn => ?_⟩
        obtain ⟨n, rfl⟩ : ∃ j, n = j + 1 := ⟨n - 1, by omega⟩
        exact hk n (by omega)

end Read

theorem linked_start {writeResults : List (IoResult Nat)}
    (hsoft : ∀ a ∈ writeResults, IoResult.isHard a = false) (sendConf recvConf : SocketConfig L) :
    (start writeResults sendConf recvConf : Link L T).Linked recvConf.maxPayloadSize
      sendConf.encCtx recvConf.decCtx :=
  ⟨joined_start hsoft sendConf recvConf, rfl, fun _ he => by simp [start] at he, rfl⟩

/-- **Every step keeps the two ends related.** -/
theorem Linked.step [LawfulSerde L UInt32] [LawfulSizeHeader L] [LawfulSerde L T]
    {sendConf recvConf : SocketConfig L}
    (h : s.Linked recvConf.maxPayloadSize sendConf.encCtx recvConf.decCtx)
    (hmatch : Matching sendConf.encCtx recvConf.decCtx) {op : LinkOp L T}
    (hop : op.Fits sendConf recvConf) :
    (s.step op).Linked recvConf.maxPayloadSize sendConf.encCtx recvConf.decCtx := by
  cases op with
  | write clock nonces msg =>
      apply h.write
      intro m priority hmsg
      subst hmsg
      exact hop
  | deliver n => exact h.deliver n
  | stop e => exact h.stop hop
  | read => exact h.read hmatch

/-- The relation holds throughout. -/
theorem always_linked [LawfulSerde L UInt32] [LawfulSizeHeader L] [LawfulSerde L T]
    {sendConf recvConf : SocketConfig L} (hmatch : Matching sendConf.encCtx recvConf.decCtx)
    {writeResults : List (IoResult Nat)} (hsoft : ∀ a ∈ writeResults, IoResult.isHard a = false)
    {ops : List (LinkOp L T)} (hops : ∀ op ∈ ops, op.Fits sendConf recvConf) :
    Always step (Linked recvConf.maxPayloadSize sendConf.encCtx recvConf.decCtx)
      (start writeResults sendConf recvConf : Link L T) ops :=
  (each_of_forall hops).always (linked_start hsoft sendConf recvConf) fun _ _ h hop =>
    h.step hmatch hop

theorem Linked.faithful [LawfulSerde L UInt32] [LawfulSizeHeader L] [LawfulSerde L T]
    (h : s.Linked maxPayloadSize enc dec) (hmatch : Matching enc dec) : s.Faithful :=
  ⟨h.results_ok, h.received_prefix, h.read_none_iff (h.attuned hmatch), h.drains hmatch⟩

end Link

/-- **Two sockets end to end.**  The sender and the receiver have matching
contexts, the sender's stream gives no hard errors, and every message written
has a payload the receiver delivers.  Then every interleaving of writes,
deliveries and reads is faithful throughout. -/
theorem end_to_end [LawfulSerde L UInt32] [LawfulSizeHeader L] [LawfulSerde L T]
    {sendConf recvConf : SocketConfig L} (hmatch : Matching sendConf.encCtx recvConf.decCtx)
    (writeResults : List (IoResult Nat))
    (hsoft : ∀ a ∈ writeResults, IoResult.isHard a = false) (ops : List (LinkOp L T))
    (hops : ∀ op ∈ ops, op.Fits sendConf recvConf) :
    Always Link.step Link.Faithful (.start writeResults sendConf recvConf) ops :=
  (Link.always_linked hmatch hsoft hops).mono fun _ h => h.faithful hmatch

namespace BincodeInstance

/-- Two ends that share the secret 7. -/
def sharedConf : SocketConfig crates :=
  { (SocketConfig.default : SocketConfig crates) with
    encCtx := .authenticated (7 : UInt8)
    decCtx := .authenticated (7 : UInt8) }

/-- A number is small enough for the ends that share the secret 7. -/
theorem fits_number (clock : Clock) (nonces : FrameNonces crates) (msg : UInt32 × Priority) :
    (LinkOp.write clock nonces (some msg)).Fits sharedConf sharedConf := by
  obtain ⟨value, priority⟩ := msg
  intro payload hpayload
  obtain rfl : sealed 7 nonces.payload (Bincode.encode value) = payload := Except.ok.inj hpayload
  have hlen : (sealed 7 nonces.payload (Bincode.encode value)).length = 52 :=
    length_sealed_u32 _ _ _
  rw [hlen]
  decide

/-- A number is written, its frame is cut by the sender's stream and cut again
on its way, and the receiver reads in between. -/
def linkOps : List (LinkOp crates UInt32) :=
  [.write ⟨0, 0⟩ ⟨(1 : UInt8), (2 : UInt8)⟩ (some (5, 0)), .deliver 3, .read,
    .write ⟨0, 0⟩ ⟨(3 : UInt8), (4 : UInt8)⟩ none, .deliver 60, .stop .wouldBlock,
    .deliver 60, .read, .read]

theorem end_to_end_shared :
    Always Link.step Link.Faithful
      (.start [.ok 30, .error .wouldBlock, .ok 200] sharedConf sharedConf) linkOps := by
  have hmatch : Matching sharedConf.encCtx sharedConf.decCtx := .authenticated rfl
  apply end_to_end hmatch _ (by decide) linkOps
  intro op hop
  simp only [linkOps, List.mem_cons, List.not_mem_nil, or_false] at hop
  rcases hop with rfl | rfl | rfl | rfl | rfl | rfl | rfl | rfl | rfl
  · intro payload hpayload
    obtain rfl : sealed 7 1 [5, 0, 0, 0] = payload := Except.ok.inj hpayload
    decide
  all_goals trivial

end BincodeInstance

end SocketCollection
