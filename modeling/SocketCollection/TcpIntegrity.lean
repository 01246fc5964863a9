import SocketCollection.TcpSender
import SocketCollection.BincodeInstance

/-!
# The byte stream a sender writes

What the stream has accepted, followed by what is left of the frame that is
being written, are the frames taken off the queue, whole and in order
(`Conserved`).  That is what the peer's reader needs, and it holds as long as
the stream answers with nothing worse than `WouldBlock` or `Interrupted`
(`send_conserves`).

A hard error is different.  The flush has taken the data before it knows the
answer, and leaves with it: those bytes are neither accepted nor pending any
more.  `conserved_iff` says that this is the only way bytes are lost, and that
each hard error loses some.
-/

namespace SocketCollection

open Runs

variable {L : Crates} {N G : Type}

/-- What is left of the frame that is being written. -/
def Inner.pending (i : Inner L G) : Bytes :=
  match i.currentWrite with
  | some data => data.bytes
  | none => []

/-- The bytes of some entries, one frame after the other. -/
def frames (entries : List (Entry (Frame G))) : Bytes := entries.flatMap fun e => e.msg.bytes

@[simp] theorem frames_nil : frames ([] : List (Entry (Frame G))) = [] := rfl

@[simp] theorem frames_append (xs ys : List (Entry (Frame G))) :
    frames (xs ++ ys) = frames xs ++ frames ys := List.flatMap_append

@[simp] theorem frames_singleton (e : Entry (Frame G)) : frames [e] = e.msg.bytes := by
  simp [frames]

/-- How many writes so far were answered with a hard error. -/
def TcpStream.hardErrors (s : TcpStream) : Nat := s.answered.countP IoResult.isHard

private theorem hardErrors_eq_zero_iff {s : TcpStream} :
    s.hardErrors = 0 ↔ ∀ a ∈ s.answered, IoResult.isHard a = false := by
  simp [TcpStream.hardErrors, List.countP_eq_zero]

namespace Inner

variable {i i' : Inner L G} {data : Frame G} {out : Option (Res L Bool)}

/-- Unless the write fails, the data is accepted or pending afterwards. -/
private theorem WritesData.bytes (h : WritesData i data i' out) (hnone : i.currentWrite = none)
    (hsoft : i'.stream.hardErrors = 0) :
    i'.stream.accepted ++ i'.pending = i.stream.accepted ++ data.bytes := by
  cases h with
  | @partly n stream hn haccepted h =>
      simp only [haccepted, pending, Frame.drop, List.append_assoc, List.take_append_drop]
  | wholly haccepted h => simp [haccepted, pending, hnone]
  | blocked he haccepted h => simp [haccepted, pending]
  | @failed e stream he haccepted h =>
      simp [TcpStream.hardErrors, h.answered, IoResult.isHard, he] at hsoft

/-- A hard error is never forgotten. -/
private theorem WritesData.hardErrors_le (h : WritesData i data i' out) :
    i.stream.hardErrors ≤ i'.stream.hardErrors := by
  cases h <;> rename_i h <;> simp [TcpStream.hardErrors, h.answered]

/-- **Each hard error costs at least one byte.** -/
private theorem WritesData.length_le (h : WritesData i data i' out)
    (hnone : i.currentWrite = none) (hpos : 0 < data.bytes.length) :
    i'.stream.accepted.length + i'.pending.length + i'.stream.hardErrors ≤
      i.stream.accepted.length + data.bytes.length + i.stream.hardErrors := by
  cases h with
  | @partly n stream hn haccepted h =>
      simp only [TcpStream.hardErrors, h.answered, haccepted, pending, Frame.drop,
        List.length_append, List.length_take, List.length_drop, List.countP_append,
        List.countP_singleton, IoResult.isHard]
      simp only [Bool.false_eq_true, if_false]
      omega
  | wholly haccepted h =>
      simp [TcpStream.hardErrors, h.answered, haccepted, pending, hnone, IoResult.isHard]
  | blocked he haccepted h =>
      simp [TcpStream.hardErrors, h.answered, haccepted, pending, IoResult.isHard, he]
  | failed he haccepted h =>
      simp only [TcpStream.hardErrors, h.answered, haccepted, pending, hnone,
        List.countP_append, List.countP_singleton, IoResult.isHard, he, List.length_nil]
      simp only [Bool.not_false, if_true]
      omega

private theorem WritesData.soft (h : WritesData i data i' out) (hs : i.stream.Soft) :
    i'.stream.Soft := by
  cases h <;> rename_i h <;> exact h.soft hs

end Inner

namespace Sender

variable {conf : SocketConfig L} {s : Sender L N}

/-- **The byte stream is intact**: every entry is accounted for, and the bytes
accepted, followed by what is pending, are the frames taken, whole and in
order. -/
structure Conserved (conf : SocketConfig L) (s : Sender L N) : Prop
    extends Accounted conf s where
  stream : s.inner.stream.accepted ++ s.inner.pending = frames s.dequeued

/-- As long as there was no hard error, the stream is intact. -/
def IntactUnlessHard (s : Sender L N) : Prop :=
  s.inner.stream.hardErrors = 0 →
    s.inner.stream.accepted ++ s.inner.pending = frames s.dequeued

private theorem IntactUnlessHard.round (h : s.IntactUnlessHard) : s.round.IntactUnlessHard := by
  have hrounds := s.rounds_round
  generalize s.round = s' at hrounds
  cases hrounds with
  | idle => exact h
  | remainder hcurrent hwrites =>
      intro hsoft
      have hle := hwrites.hardErrors_le
      have hbefore := h (by simp only at hsoft hle; omega)
      rw [hwrites.bytes rfl hsoft, ← hbefore]
      simp [Inner.pending, hcurrent]
  | entry hcurrent hqueued hconf hwrites =>
      intro hsoft
      have hle := hwrites.hardErrors_le
      have hbefore := h (by simp only at hsoft hle; omega)
      rw [hwrites.bytes hcurrent hsoft, frames_append, frames_singleton, ← hbefore]
      simp [Inner.pending, hcurrent]

private theorem IntactUnlessHard.step [Serde L UInt32] (h : s.IntactUnlessHard)
    (op : SendOp L N) : (s.step op).IntactUnlessHard := by
  cases op with
  | write T clock nonces note msg =>
      exact write_rule h id (fun _ _ _ _ _ _ _ _ h => h) (fun _ h => h.round)
  | setEncryptCtx encCtx => exact h

private theorem soft_round (h : s.inner.stream.Soft) : s.round.inner.stream.Soft := by
  have hrounds := s.rounds_round
  generalize s.round = s' at hrounds
  cases hrounds with
  | idle => exact h
  | remainder _ hwrites => exact hwrites.soft h
  | entry _ _ _ hwrites => exact hwrites.soft h

private theorem soft_step [Serde L UInt32] (h : s.inner.stream.Soft) (op : SendOp L N) :
    (s.step op).inner.stream.Soft := by
  cases op with
  | write T clock nonces note msg =>
      exact write_rule (P := fun s => s.inner.stream.Soft) h id
        (fun _ _ _ _ _ _ _ _ h => h) (fun _ h => soft_round h)
  | setEncryptCtx encCtx => exact h

/-- The stream is intact, and will stay so: no answer is a hard error. -/
structure Flows (s : Sender L N) : Prop where
  soft : s.inner.stream.Soft
  stream : s.inner.stream.accepted ++ s.inner.pending = frames s.dequeued

theorem flows_start {writeResults : List (IoResult Nat)}
    (hsoft : ∀ a ∈ writeResults, IoResult.isHard a = false) (conf : SocketConfig L) :
    (start writeResults conf : Sender L N).Flows where
  soft := by simpa [TcpStream.Soft, start, Inner.newWithConf, TcpStream.scripted] using hsoft
  stream := rfl

theorem Flows.step [Serde L UInt32] (h : s.Flows) (op : SendOp L N) : (s.step op).Flows := by
  have hsoft := soft_step h.soft op
  have hintact : (s.step op).IntactUnlessHard := IntactUnlessHard.step (fun _ => h.stream) op
  refine ⟨hsoft, hintact (hardErrors_eq_zero_iff.mpr fun a ha => ?_)⟩
  exact hsoft a (List.mem_append_left _ ha)

/-! ### The price of a hard error -/

/-- At least one byte of the frames taken is gone for each hard error. -/
structure Counted (s : Sender L N) : Prop where
  length_le : s.inner.stream.accepted.length + s.inner.pending.length +
    s.inner.stream.hardErrors ≤ (frames s.dequeued).length
  queued_pos : ∀ e ∈ s.queued, 0 < e.msg.bytes.length
  current_pos : ∀ data, s.inner.currentWrite = some data → 0 < data.bytes.length

private theorem Counted.dropExpired (h : s.Counted) (now : Instant) :
    (s.dropExpired now).Counted where
  length_le := h.length_le
  queued_pos := by
    intro e he
    exact h.queued_pos e ((s.dropExpired_queued_prefix now).subset he)
  current_pos := h.current_pos

private theorem Counted.push (h : s.Counted) {e : Entry.OfFrame L N}
    (hpos : 0 < e.msg.bytes.length) : (s.push e).Counted where
  length_le := h.length_le
  queued_pos := by
    intro a ha
    rcases s.mem_queued_push.mp ha with ha | rfl
    · exact h.queued_pos a ha
    · exact hpos
  current_pos := h.current_pos

private theorem Counted.round (h : s.Counted) : s.round.Counted := by
  have hrounds := s.rounds_round
  generalize s.round = s' at hrounds
  cases hrounds with
  | idle => exact h
  | remainder hcurrent hwrites =>
      have hpos := h.current_pos _ hcurrent
      have hlen := hwrites.length_le rfl hpos
      have hbefore := h.length_le
      simp only [Inner.pending, hcurrent] at hbefore
      refine ⟨Nat.le_trans hlen hbefore, ?_, fun kept hkept => ?_⟩
      · simp only [queued, hwrites.frame]
        exact h.queued_pos
      · exact (hwrites.current rfl kept hkept).2.2 hpos
  | @entry e q i out hcurrent hqueued hconf hwrites =>
      have hpos := h.queued_pos e (by simp [hqueued])
      have hlen := hwrites.length_le hcurrent hpos
      have hbefore := h.length_le
      simp only [Inner.pending, hcurrent, List.length_nil] at hbefore
      refine ⟨?_, ?_, fun kept hkept => (hwrites.current hcurrent kept hkept).2.2 hpos⟩
      · simp only [frames_append, frames_singleton, List.length_append]
        simp only at hlen
        omega
      · intro e' he'
        apply h.queued_pos e'
        simp only [queued, hwrites.frame] at he'
        rw [hqueued]
        exact List.mem_cons_of_mem _ he'

private theorem Counted.step [Serde L UInt32] [LawfulSizeHeader L] (h : s.Counted)
    (op : SendOp L N) : (s.step op).Counted := by
  cases op with
  | write T clock nonces note msg =>
      exact write_rule h (fun h => h.dropExpired _)
        (fun _ _ _ _ _ _ _ hser h => h.push (serializeWithLen_pos hser)) (fun _ h => h.round)
  | setEncryptCtx encCtx => exact ⟨h.length_le, h.queued_pos, h.current_pos⟩

/-- An intact stream has seen no hard error. -/
private theorem Counted.hardErrors_eq_zero (h : s.Counted) (hs : s.Conserved conf) :
    s.inner.stream.hardErrors = 0 := by
  have hlen := congrArg List.length hs.stream
  have hle := h.length_le
  rw [List.length_append] at hlen
  omega

end Sender

/-! ## Runs of a sender -/

section Runs

variable [Serde L UInt32]

/-- Over a stream without hard errors, the byte stream always flows. -/
theorem flows_always {writeResults : List (IoResult Nat)}
    (hsoft : ∀ a ∈ writeResults, IoResult.isHard a = false) (conf : SocketConfig L)
    (ops : List (SendOp L N)) :
    Always Sender.step Sender.Flows (.start writeResults conf) ops :=
  always_of_step (Sender.flows_start hsoft conf) fun _ op h => h.step op

/-- **The byte stream of a sender is intact in every state of every run**, as
long as no write attempt is answered with a hard error. -/
theorem send_conserves (writeResults : List (IoResult Nat))
    (hsoft : ∀ a ∈ writeResults, IoResult.isHard a = false) (conf : SocketConfig L)
    (ops : List (SendOp L N)) :
    Always Sender.step (Sender.Conserved conf) (.start writeResults conf) ops :=
  ((Sender.accounted_always writeResults conf ops).and
    (flows_always hsoft conf ops)).mono fun _ h => ⟨h.1, h.2.stream⟩

/-- **Hard errors are exactly what breaks the stream.**  In every state of
every run the stream is intact if and only if no write attempt so far has been
answered with a hard error. -/
theorem conserved_iff [LawfulSizeHeader L] (writeResults : List (IoResult Nat))
    (conf : SocketConfig L) (ops : List (SendOp L N)) :
    Always Sender.step
      (fun s => s.Conserved conf ↔ ∀ a ∈ s.inner.stream.answered, IoResult.isHard a = false)
      (.start writeResults conf) ops := by
  have hstart : (Sender.start writeResults conf : Sender L N).Counted := by
    refine ⟨Nat.le_refl _, by simp, fun data hdata => ?_⟩
    cases hdata
  have hcounted : Always Sender.step Sender.Counted (.start writeResults conf : Sender L N) ops :=
    always_of_step hstart fun _ op h => h.step op
  have hintact := (Sender.accounted_always writeResults conf ops).and
    (always_of_step (P := Sender.IntactUnlessHard) (fun _ => rfl) fun _ op h => h.step op)
  apply (hintact.and hcounted).mono
  intro s h
  rw [← hardErrors_eq_zero_iff]
  exact ⟨fun hs => h.2.hardErrors_eq_zero hs, fun hsoft => ⟨h.1.1, h.1.2 hsoft⟩⟩

end Runs

namespace BincodeInstance

/-- A call that sends a number in the clear at the highest priority. -/
def sendNumber (n : UInt32) : SendOp crates Unit :=
  .write UInt32 ⟨0, 0⟩ ⟨(0 : UInt8), (0 : UInt8)⟩ () (some (n, 0))

/-- A stream that is interrupted in the middle of the first frame. -/
theorem send_conserves_interrupted :
    Always Sender.step (Sender.Conserved .default)
      (.start [.ok 3, .error ⟨.interrupted, none⟩, .ok 5, .ok 8] .default)
      [sendNumber 1, sendNumber 2] :=
  send_conserves _ (by decide) _ _

/-- A stream that breaks in the middle of the first frame, and recovers. -/
def brokenSender : Sender crates Unit :=
  .start [.ok 3, .error ⟨.brokenPipe, none⟩, .ok 8] .default

theorem conserved_iff_broken :
    Always Sender.step
      (fun s => s.Conserved .default ↔
        ∀ a ∈ s.inner.stream.answered, IoResult.isHard a = false)
      brokenSender [sendNumber 1, sendNumber 2] :=
  conserved_iff _ _ _

/-- **A frame cut short is followed by bytes of another frame.**  The first
call fails after three bytes of its frame; the second sends its frame behind
them.  The stream is not intact after the failure, and what it has accepted in
the end begins no sequence of the frames that were enqueued. -/
theorem cut_frame_followed :
    let failed := brokenSender.step (sendNumber 1)
    let s := failed.step (sendNumber 2)
    (brokenSender.inner.write ⟨0, 0⟩ ⟨(0 : UInt8), (0 : UInt8)⟩ ⟨.null, 0, ()⟩
        (some ((1 : UInt32), 0))).1 = .error (.io ⟨.brokenPipe, none⟩) ∧
      ¬ failed.Conserved .default ∧
      s.inner.stream.accepted = [4, 0, 0] ++ [4, 0, 0, 0, 2, 0, 0, 0] ∧
      ∀ entries, (∀ e ∈ entries, e ∈ s.enqueued) →
        ¬ s.inner.stream.accepted <+: frames entries := by
  intro failed s
  refine ⟨rfl, fun h => ?_, rfl, fun entries hentries hprefix => ?_⟩
  · have hstream : ([4, 0, 0] : Bytes) = [4, 0, 0, 0, 1, 0, 0, 0] := h.stream
    simp at hstream
  · have haccepted : s.inner.stream.accepted = [4, 0, 0, 4, 0, 0, 0, 2, 0, 0, 0] := rfl
    have henqueued : s.enqueued.map (fun e => e.msg.bytes) =
        [[4, 0, 0, 0, 1, 0, 0, 0], [4, 0, 0, 0, 2, 0, 0, 0]] := rfl
    obtain ⟨rest, hrest⟩ := hprefix
    rw [haccepted] at hrest
    cases entries with
    | nil => simp at hrest
    | cons e entries =>
        have hmem : e.msg.bytes ∈ s.enqueued.map (fun e => e.msg.bytes) :=
          List.mem_map_of_mem (hentries e (by simp))
        rw [henqueued] at hmem
        simp only [List.mem_cons, List.not_mem_nil, or_false] at hmem
        rcases hmem with hbytes | hbytes <;> simp [frames, hbytes] at hrest

end BincodeInstance

end SocketCollection
