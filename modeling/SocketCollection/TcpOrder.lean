import SocketCollection.TcpIntegrity
import SocketCollection.ReaderStream

/-!
# The order in which contexts reach the wire

A message is encrypted when it is enqueued, under the context then in force,
and leaves in the order of priorities.  A frame can therefore be overtaken by
one that was encrypted under a context set later; `context_overtaken` is such
a run.  `context_order` says how far this goes: only a more urgent frame
overtakes, and none does if the queue is empty whenever the context changes.
-/

namespace SocketCollection

open Runs StableQueue

variable {L : Crates} {N : Type}

/-- How many contexts had been set before the one this entry was encrypted
under. -/
def Entry.epoch (e : Entry.OfFrame L N) : Nat := e.msg.label.epoch

/-- If `a` goes ahead of `b` although its context was set later, it is more
urgent. -/
def PreemptsOnly (a b : Entry.OfFrame L N) : Prop := b.epoch < a.epoch → a.priority < b.priority

/-- The latest context among those of the frames a receiver has met: the one
in force if it switches when it meets a later context, and never back. -/
def latestEpoch (entries : List (Entry.OfFrame L N)) : Nat :=
  (entries.map Entry.epoch).max?.getD 0

private theorem latestEpoch_concat {before : List (Entry.OfFrame L N)} {e : Entry.OfFrame L N}
    (h : ∀ a ∈ before, a.epoch ≤ e.epoch) : latestEpoch (before ++ [e]) = e.epoch := by
  have hmax : ((before ++ [e]).map Entry.epoch).max? = some e.epoch := by
    rw [List.max?_eq_some_iff]
    refine ⟨by simp, fun k hk => ?_⟩
    obtain ⟨a, ha, rfl⟩ := List.mem_map.mp hk
    rcases List.mem_append.mp ha with ha | ha
    · exact h a ha
    · rw [List.mem_singleton.mp ha]
  rw [latestEpoch, hmax, Option.getD_some]

namespace Sender

variable {s : Sender L N}

/-! ## Overtaking -/

/-- Among the entries taken and queued, only a more urgent one goes ahead of
one with an earlier context; and no context is yet to be set. -/
structure ContextOrdered (s : Sender L N) : Prop where
  line : (s.dequeued ++ s.queued).Pairwise PreemptsOnly
  known : ∀ e ∈ s.dequeued ++ s.queued, e.epoch ≤ s.epoch

private theorem ContextOrdered.dropExpired (h : s.ContextOrdered) (now : Instant) :
    (s.dropExpired now).ContextOrdered where
  line := h.line.sublist (s.dropExpired_sublist now)
  known e he := h.known e ((s.dropExpired_sublist now).subset he)

/-- A new entry is encrypted under the latest context, so nothing that is
there already is overtaken by it for a later context. -/
private theorem ContextOrdered.push (h : s.ContextOrdered) {e : Entry.OfFrame L N}
    (he : e.epoch = s.epoch) : (s.push e).ContextOrdered := by
  have hold : ∀ a ∈ s.dequeued ++ s.queued, PreemptsOnly a e := by
    intro a ha hlt
    have hle := h.known a ha
    omega
  have hline := List.pairwise_append.mp h.line
  constructor
  · refine List.pairwise_append.mpr ⟨hline.1, ?_, ?_⟩
    · refine (s.queued_push e).pairwise (s.push e).inner.outQueue.sorted_entries ?_ ?_
      · intro a b hle hne _
        exact Std.lt_of_le_of_ne hle hne
      · refine List.pairwise_append.mpr ⟨hline.2.1, List.pairwise_singleton _ _, ?_⟩
        intro a ha b hb
        rw [List.mem_singleton.mp hb]
        exact hold a (List.mem_append_right _ ha)
    · intro a ha b hb
      rcases s.mem_queued_push.mp hb with hb | rfl
      · exact hline.2.2 a ha b hb
      · exact hold a (List.mem_append_left _ ha)
  · exact forall_push h.known (Nat.le_of_eq he)

private theorem ContextOrdered.round (h : s.ContextOrdered) : s.round.ContextOrdered where
  line := by
    rw [round_entries]
    exact h.line
  known := by
    rw [round_entries]
    exact h.known

private theorem ContextOrdered.step [Serde L UInt32] (h : s.ContextOrdered) (op : SendOp L N) :
    (s.step op).ContextOrdered := by
  cases op with
  | write T clock nonces note msg =>
      exact write_rule h (fun h => h.dropExpired _)
        (fun _ _ _ _ _ _ _ _ h => h.push rfl) (fun _ h => h.round)
  | setEncryptCtx encCtx =>
      exact ⟨h.line, fun e he => Nat.le_succ_of_le (h.known e he)⟩

/-! ## Context changes with an empty queue -/

/-- The call, if it changes the context, finds nothing queued. -/
def ChangesWhenEmpty (s : Sender L N) : SendOp L N → Prop
  | @SendOp.write _ _ _ _ _ _ _ _ => True
  | .setEncryptCtx _ => s.queued = []

/-- What is queued was encrypted under the context in force, and nothing was
overtaken by a later context. -/
structure InEpochs (s : Sender L N) : Prop where
  line : (s.dequeued ++ s.queued).Pairwise fun a b => a.epoch ≤ b.epoch
  known : ∀ e ∈ s.dequeued ++ s.queued, e.epoch ≤ s.epoch
  current : ∀ e ∈ s.queued, e.epoch = s.epoch

private theorem InEpochs.dropExpired (h : s.InEpochs) (now : Instant) :
    (s.dropExpired now).InEpochs where
  line := h.line.sublist (s.dropExpired_sublist now)
  known e he := h.known e ((s.dropExpired_sublist now).subset he)
  current e he := h.current e ((s.dropExpired_queued_prefix now).subset he)

private theorem InEpochs.push (h : s.InEpochs) {e : Entry.OfFrame L N}
    (he : e.epoch = s.epoch) : (s.push e).InEpochs := by
  have hcurrent : ∀ a ∈ (s.push e).queued, a.epoch = s.epoch := by
    intro a ha
    rcases s.mem_queued_push.mp ha with ha | rfl
    · exact h.current a ha
    · exact he
  have hline : ((s.push e).dequeued ++ (s.push e).queued).Pairwise fun a b =>
      a.epoch ≤ b.epoch := by
    refine List.pairwise_append.mpr ⟨(List.pairwise_append.mp h.line).1, ?_, ?_⟩
    · apply List.pairwise_of_forall_mem_list
      intro a ha b hb
      exact Nat.le_of_eq ((hcurrent a ha).trans (hcurrent b hb).symm)
    · intro a ha b hb
      rw [hcurrent b hb]
      exact h.known a (List.mem_append_left _ ha)
  exact ⟨hline, forall_push h.known (Nat.le_of_eq he), hcurrent⟩

private theorem InEpochs.round (h : s.InEpochs) : s.round.InEpochs where
  line := by
    rw [round_entries]
    exact h.line
  known := by
    rw [round_entries]
    exact h.known
  current e he := h.current e (s.round_queued.subset he)

private theorem InEpochs.step [Serde L UInt32] (h : s.InEpochs) {op : SendOp L N}
    (hop : s.ChangesWhenEmpty op) : (s.step op).InEpochs := by
  cases op with
  | write T clock nonces note msg =>
      exact write_rule h (fun h => h.dropExpired _)
        (fun _ _ _ _ _ _ _ _ h => h.push rfl) (fun _ h => h.round)
  | setEncryptCtx encCtx =>
      refine ⟨h.line, fun e he => Nat.le_succ_of_le (h.known e he), fun e he => ?_⟩
      have hnil : s.queued = [] := hop
      have he' : e ∈ s.queued := he
      simp [hnil] at he'

/-- A receiver that only switches to later contexts decodes the frames: when it
meets a frame that a parcel explains, and the latest context it has met is in
force, a call of `try_read` returns the value and leaves what follows. -/
def DecodedForward [Serde L UInt32] (s : Sender L N) : Prop :=
  ∀ [LawfulSerde L UInt32] [LawfulSizeHeader L] (dec : Nat → DecryptContext L),
    (∀ e ∈ s.dequeued, Matching e.msg.label.encCtx (dec e.epoch)) →
      ∀ before e after, s.dequeued = before ++ e :: after →
        ∀ (T : Type) [Serde L T] [LawfulSerde L T] (maxPayloadSize : Nat)
          (p : Parcel L T maxPayloadSize), p.frame = e.msg.bytes → p.encCtx = e.msg.label.encCtx →
            ∀ (r : LenDelimitedReader L) (rest : Bytes), r.maxPayloadSize = maxPayloadSize →
              r.decCtx = dec (latestEpoch (before ++ [e])) → r.readLen = 0 →
                r.readBuffer = e.msg.bytes ++ rest →
                  r.tryRead T = (.ok (some p.value), { r with readBuffer := rest })

private theorem InEpochs.decodedForward [Serde L UInt32] (h : s.InEpochs) : s.DecodedForward := by
  intro _ _ dec hdec before e after hsplit T _ _ maxPayloadSize p hframe hctx r rest hmax hforce
    h0 hbuf
  have hline := (List.pairwise_append.mp h.line).1
  rw [hsplit] at hline
  have hlatest : latestEpoch (before ++ [e]) = e.epoch :=
    latestEpoch_concat fun a ha => (List.pairwise_append.mp hline).2.2 a ha e List.mem_cons_self
  have hmatch : Matching p.encCtx r.decCtx := by
    rw [hctx, hforce, hlatest]
    exact hdec e (by simp [hsplit])
  have hpos := p.payload_pos
  rw [← hframe] at hbuf
  rw [tryRead_frame_in_front hmatch p.encrypted p.framed (hmax ▸ p.payload_le) p.payload_u32 h0
    hbuf, if_neg (by omega)]

end Sender

/-- **What a change of context does to the order on the wire.**  Over a stream
without hard errors, in every state of every run: the bytes written are the
frames in the order in which they were taken, and in that order a frame goes
ahead of one with an earlier context only if it is more urgent.  If nothing is
queued whenever the context is changed, the contexts reach the wire in the
order in which they were set, and a receiver that only switches to later
contexts decodes the frames. -/
theorem context_order [Serde L UInt32] (writeResults : List (IoResult Nat))
    (hsoft : ∀ a ∈ writeResults, IoResult.isHard a = false) (conf : SocketConfig L)
    (ops : List (SendOp L N)) :
    Always Sender.step
        (fun s => s.inner.stream.accepted ++ s.inner.pending = frames s.dequeued ∧
          s.dequeued.Pairwise PreemptsOnly)
        (.start writeResults conf) ops ∧
      (Each Sender.step Sender.ChangesWhenEmpty (.start writeResults conf) ops →
        Always Sender.step
          (fun s => (s.dequeued.Pairwise fun a b => a.epoch ≤ b.epoch) ∧ s.DecodedForward)
          (.start writeResults conf) ops) := by
  constructor
  · have hordered : Always Sender.step Sender.ContextOrdered
        (.start writeResults conf : Sender L N) ops :=
      always_of_step ⟨by simp, by simp⟩ fun s op h => h.step op
    apply ((flows_always hsoft conf ops).and hordered).mono
    intro s h
    exact ⟨h.1.stream, (List.pairwise_append.mp h.2.line).1⟩
  · intro hempty
    have hepochs : Always Sender.step Sender.InEpochs (.start writeResults conf : Sender L N) ops :=
      hempty.always ⟨by simp, by simp, by simp⟩ fun s op h hop => h.step hop
    exact hepochs.mono fun s h => ⟨(List.pairwise_append.mp h.line).1, h.decodedForward⟩

namespace BincodeInstance

/-- A call that sends a number at this priority. -/
def sendAt (n : UInt32) (priority : Priority) : SendOp crates Unit :=
  .write UInt32 ⟨0, 0⟩ ⟨(0 : UInt8), (0 : UInt8)⟩ () (some (n, priority))

/-- A message is held up and taken off the queue by a later call, in the middle
of which the stream is interrupted, before the context
changes. -/
def orderlyCalls : List (SendOp crates Unit) :=
  [sendAt 1 5, .write UInt32 ⟨0, 0⟩ ⟨(0 : UInt8), (0 : UInt8)⟩ () none,
    .setEncryptCtx (.authenticated (7 : UInt8)), sendAt 3 0]

theorem context_order_drained :
    let start : Sender crates Unit :=
      .start [.error .wouldBlock, .ok 5, .error ⟨.interrupted, none⟩, .ok 3, .ok 200] .default
    Always Sender.step
        (fun s => s.inner.stream.accepted ++ s.inner.pending = frames s.dequeued ∧
          s.dequeued.Pairwise PreemptsOnly)
        start orderlyCalls ∧
      Always Sender.step
        (fun s => (s.dequeued.Pairwise fun a b => a.epoch ≤ b.epoch) ∧ s.DecodedForward)
        start orderlyCalls := by
  refine ⟨(context_order _ (by decide) _ _).1, (context_order _ (by decide) _ _).2 ?_⟩
  exact ⟨trivial, trivial, rfl, trivial, trivial⟩

/-- Two messages are held up, the context changes, and a more urgent message
follows. -/
def overtakingCalls : List (SendOp crates Unit) :=
  [sendAt 1 1, sendAt 2 5, .setEncryptCtx (.authenticated (7 : UInt8)), sendAt 3 0]

/-- A stream that blocks twice and then accepts everything. -/
def blockingSender : Sender crates Unit :=
  .start [.error .wouldBlock, .error .wouldBlock, .ok 200, .ok 200, .ok 200] .default

/-- **A frame of the earlier context is sent after one of the later context.**
The third message, encrypted under the context set in between, goes ahead of
the second, which was encrypted in the clear. -/
theorem context_overtaken :
    let s := overtakingCalls.foldl Sender.step blockingSender
    s.inner.stream.accepted = [4, 0, 0, 0, 1, 0, 0, 0] ++
        (sealed 7 0 [52, 0, 0, 0] ++ sealed 7 0 [3, 0, 0, 0]) ++ [4, 0, 0, 0, 2, 0, 0, 0] ∧
      s.dequeued.map (fun e => (e.priority, e.epoch)) = [(1, 0), (0, 1), (5, 0)] ∧
      ¬ s.dequeued.Pairwise fun a b => a.epoch ≤ b.epoch := by
  intro s
  have hepochs : s.dequeued.map (fun e => (e.priority, e.epoch)) = [(1, 0), (0, 1), (5, 0)] := rfl
  refine ⟨rfl, hepochs, fun h => ?_⟩
  have hmap : (s.dequeued.map fun e => (e.priority, e.epoch)).Pairwise fun a b => a.2 ≤ b.2 :=
    List.pairwise_map.mpr h
  rw [hepochs] at hmap
  simp at hmap

end BincodeInstance

end SocketCollection
