import Mathlib
import SocketCollection.Tcp
import SocketCollection.Runs

/-!
# A TCP sender and its history

A `Sender` is the `Inner` of a socket together with what has become of the
entries of its out queue: which were pushed, which were taken to be written,
and which expired.  The history is ghost state.  `Sender.write` is the
source's `write` cut into its phases, each of which records what it does to
the queue; `write_inner` says that forgetting the history gives back the call
of the code.

An invariant of all runs is proved from what the phases do to it:
`write_rule` for one call, and `Runs.Each.always` for the run.  The phases of
the flush are its rounds, which `rounds_round` describes.

## Main results

* `write_inner`: the history does not disturb the code.
* `write_rule`: the rule for invariants of one call.
* `accounted_always`: every entry that was pushed has been taken, is queued or
  has expired, exactly one of them.
-/

namespace SocketCollection

open Runs StableQueue

variable {L : Crates} {N : Type}

/-! ## Senders -/

/-- Where a frame comes from: the context it was encrypted under, how many
contexts had been set before, and a note of the caller. -/
structure Origin (L : Crates) (N : Type) where
  encCtx : EncryptContext L
  epoch : Nat
  note : N

/-- An entry of a sender's out queue. -/
abbrev Entry.OfFrame (L : Crates) (N : Type) := Entry (Frame (Origin L N))

/-- A socket that is written to, with the history of its out queue. -/
structure Sender (L : Crates) (N : Type) where
  inner : Inner L (Origin L N)
  epoch : Nat
  enqueued : List (Entry.OfFrame L N)
  dequeued : List (Entry.OfFrame L N)
  dropped : List (Entry.OfFrame L N)

/-- A call made on a sender.  Each `write` may send a type of its own. -/
inductive SendOp (L : Crates) (N : Type) : Type 1
  | write (T : Type) [Serde L T] (clock : Clock) (nonces : FrameNonces L) (note : N)
      (msg : Option (T × Priority))
  | setEncryptCtx (encCtx : EncryptContext L)

/-- The entry a round of the flush takes off the queue. -/
def Inner.nextEntries {G : Type} (i : Inner L G) : List (Entry (Frame G)) :=
  match i.currentWrite with
  | some _ => []
  | none => i.outQueue.entries.take 1

namespace Sender

/-- A new socket over a stream that gives these answers. -/
def start (writeResults : List (IoResult Nat)) (conf : SocketConfig L) : Sender L N where
  inner := Inner.newWithConf (TcpStream.scripted writeResults []) conf
  epoch := 0
  enqueued := []
  dequeued := []
  dropped := []

/-- The entries waiting in the out queue. -/
def queued (s : Sender L N) : List (Entry.OfFrame L N) := s.inner.outQueue.entries

@[simp] theorem queued_start (writeResults : List (IoResult Nat)) (conf : SocketConfig L) :
    (start writeResults conf : Sender L N).queued = [] := SendQueue.entries_new conf

@[simp] theorem enqueued_start (writeResults : List (IoResult Nat)) (conf : SocketConfig L) :
    (start writeResults conf : Sender L N).enqueued = [] := rfl

@[simp] theorem dequeued_start (writeResults : List (IoResult Nat)) (conf : SocketConfig L) :
    (start writeResults conf : Sender L N).dequeued = [] := rfl

@[simp] theorem dropped_start (writeResults : List (IoResult Nat)) (conf : SocketConfig L) :
    (start writeResults conf : Sender L N).dropped = [] := rfl

def origin (s : Sender L N) (note : N) : Origin L N := ⟨s.inner.encCtx, s.epoch, note⟩

/-! ### The phases of a call -/

def dropExpired (s : Sender L N) (now : Instant) : Sender L N :=
  { s with
    inner := { s.inner with outQueue := (s.inner.outQueue.dropExpired now).2 }
    dropped := s.dropped ++ s.inner.outQueue.expired now }

def push (s : Sender L N) (e : Entry.OfFrame L N) : Sender L N :=
  { s with
    inner := { s.inner with outQueue := s.inner.outQueue.push e.time e.msg e.priority }
    enqueued := s.enqueued ++ [e] }

/-- One round of the flush. -/
def round (s : Sender L N) : Sender L N :=
  { s with
    inner := s.inner.flushRound.1
    dequeued := s.dequeued ++ s.inner.nextEntries }

def flush (s : Sender L N) : Sender L N :=
  { s with
    inner := (Inner.flushLoop.exec s.inner).1
    dequeued := s.dequeued ++ Inner.flushLoop.history Inner.nextEntries s.inner }

section Write

variable [Serde L UInt32] {T : Type} [Serde L T]

def write (s : Sender L N) (clock : Clock) (nonces : FrameNonces L) (note : N)
    (msg : Option (T × Priority)) : Sender L N :=
  let s := s.dropExpired clock.dropExpired
  match msg with
  | none => s.flush
  | some (msg, priority) =>
      match serializeWithLen nonces msg s.inner.encCtx with
      | .error _ => s
      | .ok buf => (s.push ⟨priority, clock.push, ⟨buf, s.origin note⟩⟩).flush

def setEncryptCtx (s : Sender L N) (encCtx : EncryptContext L) : Sender L N :=
  { s with inner := s.inner.setEncryptCtx encCtx, epoch := s.epoch + 1 }

def step (s : Sender L N) : SendOp L N → Sender L N
  | @SendOp.write _ _ _ _ clock nonces note msg => s.write clock nonces note msg
  | .setEncryptCtx encCtx => s.setEncryptCtx encCtx

/-- **A sender is the socket of the code**, once its history is forgotten. -/
theorem write_inner (s : Sender L N) (clock : Clock) (nonces : FrameNonces L) (note : N)
    (msg : Option (T × Priority)) :
    (s.write clock nonces note msg).inner =
      (s.inner.write clock nonces (s.origin note) msg).2 := by
  rcases msg with _ | ⟨msg, priority⟩
  · rfl
  · cases hser : serializeWithLen nonces msg s.inner.encCtx <;>
      simp [write, Inner.write, Inner.enqueueData, Inner.flushWriteUntilWouldBlock, dropExpired,
        push, flush, origin, hser]

/-! ### The rule for one call -/

omit [Serde L UInt32] in
/-- What every round preserves, a flush preserves. -/
theorem flush_rule {P : Sender L N → Prop} (hround : ∀ s, P s → P s.round) {s : Sender L N}
    (hs : P s) : P s.flush := by
  exact Inner.flushLoop.history_invariant Inner.nextEntries
    (fun i past => P { s with inner := i, dequeued := past }) (fun _ _ h => hround _ h) hs

/-- **What the phases of a call preserve, the call preserves.**  The push may
rely on how its entry came about. -/
theorem write_rule {P : Sender L N → Prop} {s : Sender L N} {clock : Clock}
    {nonces : FrameNonces L} {note : N} {msg : Option (T × Priority)} (hs : P s)
    (hdrop : P s → P (s.dropExpired clock.dropExpired))
    (hpush : ∀ s' m priority buf, msg = some (m, priority) → s'.inner.encCtx = s.inner.encCtx →
      s'.epoch = s.epoch → serializeWithLen nonces m s'.inner.encCtx = .ok buf → P s' →
        P (s'.push ⟨priority, clock.push, ⟨buf, s'.origin note⟩⟩))
    (hround : ∀ s', P s' → P s'.round) : P (s.write clock nonces note msg) := by
  rcases msg with _ | ⟨m, priority⟩
  · exact flush_rule hround (hdrop hs)
  · simp only [write]
    cases hser : serializeWithLen nonces m (s.dropExpired clock.dropExpired).inner.encCtx with
    | error e => exact hdrop hs
    | ok buf =>
        exact flush_rule hround
          (hpush (s.dropExpired clock.dropExpired) m priority buf rfl rfl rfl hser (hdrop hs))

end Write

/-! ### What a round does -/

/-- What a round of the flush can do: nothing is left, or some data is taken
and offered to the stream. -/
inductive Rounds (s : Sender L N) : Sender L N → Prop
  | idle (hcurrent : s.inner.currentWrite = none) (hqueued : s.queued = []) : Rounds s s
  | remainder {data i out} (hcurrent : s.inner.currentWrite = some data)
      (hwrites : Inner.WritesData { s.inner with currentWrite := none } data i out) :
      Rounds s { s with inner := i }
  | entry {e q i out} (hcurrent : s.inner.currentWrite = none)
      (hqueued : s.queued = e :: q.entries) (hconf : q.conf = s.inner.outQueue.conf)
      (hwrites : Inner.WritesData { s.inner with outQueue := q } e.msg i out) :
      Rounds s { s with inner := i, dequeued := s.dequeued ++ [e] }

/-- **A round does one of the things `Rounds` lists.** -/
theorem rounds_round (s : Sender L N) : Rounds s s.round := by
  have htakes := s.inner.takes_takeData
  simp only [round, Inner.flushRound]
  generalize s.inner.takeData = taken at htakes
  obtain ⟨data, i₁⟩ := taken
  cases htakes with
  | nothing hcurrent hentries =>
      have hnone : s.inner.nextEntries = [] := by simp [Inner.nextEntries, hcurrent, hentries]
      rw [hnone, List.append_nil]
      exact .idle hcurrent hentries
  | @kept data hcurrent =>
      have hwrites := Inner.writesData_writeData { s.inner with currentWrite := none } data
      simpa [Inner.nextEntries, hcurrent] using Rounds.remainder hcurrent hwrites
  | @entry e q hcurrent hentries hconf =>
      have hwrites := Inner.writesData_writeData { s.inner with outQueue := q } e.msg
      simpa [Inner.nextEntries, hcurrent, hentries] using
        Rounds.entry hcurrent hentries hconf hwrites

/-! ### What the phases do to the queue -/

theorem queued_dropExpired (s : Sender L N) (now : Instant) :
    s.queued = (s.dropExpired now).queued ++ s.inner.outQueue.expired now :=
  (s.inner.outQueue.dropExpired_entries now).1

theorem queued_push (s : Sender L N) (e : Entry.OfFrame L N) :
    Same Entry.priority (s.push e).queued (s.queued ++ [e]) :=
  s.inner.outQueue.entries_push e.time e.msg e.priority

theorem dropExpired_queued_prefix (s : Sender L N) (now : Instant) :
    (s.dropExpired now).queued <+: s.queued := ⟨_, (s.queued_dropExpired now).symm⟩

theorem mem_queued_push (s : Sender L N) {e a : Entry.OfFrame L N} :
    a ∈ (s.push e).queued ↔ a ∈ s.queued ∨ a = e := by
  rw [(s.queued_push e).mem_iff, List.mem_append, List.mem_singleton]

/-- Entries expire out of the line without changing the order of the others. -/
theorem dropExpired_sublist (s : Sender L N) (now : Instant) :
    ((s.dropExpired now).dequeued ++ (s.dropExpired now).queued).Sublist
      (s.dequeued ++ s.queued) :=
  (s.dropExpired_queued_prefix now).sublist.append_left _

theorem forall_push {P : Entry.OfFrame L N → Prop} {s : Sender L N} {e : Entry.OfFrame L N}
    (h : ∀ a ∈ s.dequeued ++ s.queued, P a) (he : P e) :
    ∀ a ∈ (s.push e).dequeued ++ (s.push e).queued, P a := by
  rw [List.forall_mem_append] at h ⊢
  refine ⟨h.1, fun a ha => ?_⟩
  rcases s.mem_queued_push.mp ha with ha | rfl
  · exact h.2 a ha
  · exact he

/-- A round moves at most one entry, from the front of the queue to the end of
those taken. -/
theorem round_entries (s : Sender L N) :
    s.round.dequeued ++ s.round.queued = s.dequeued ++ s.queued := by
  have hrounds := s.rounds_round
  generalize s.round = s' at hrounds
  cases hrounds with
  | idle => rfl
  | remainder _ hwrites =>
      have hframe := hwrites.frame
      simp [queued, hframe]
  | entry _ hqueued _ hwrites =>
      have hframe := hwrites.frame
      rw [hqueued]
      simp [queued, hframe]

theorem round_queued (s : Sender L N) : s.round.queued <:+ s.queued := by
  have hrounds := s.rounds_round
  generalize s.round = s' at hrounds
  cases hrounds with
  | idle => exact List.suffix_refl _
  | remainder _ hwrites => simp [queued, hwrites.frame]
  | entry _ hqueued _ hwrites =>
      rw [hqueued]
      simp [queued, hwrites.frame]

theorem round_conf (s : Sender L N) : s.round.inner.outQueue.conf = s.inner.outQueue.conf := by
  have hrounds := s.rounds_round
  generalize s.round = s' at hrounds
  cases hrounds with
  | idle => rfl
  | remainder _ hwrites => simp [hwrites.frame]
  | entry _ _ hconf hwrites => simp [hwrites.frame, hconf]

theorem round_encCtx (s : Sender L N) : s.round.inner.encCtx = s.inner.encCtx := by
  have hrounds := s.rounds_round
  generalize s.round = s' at hrounds
  cases hrounds with
  | idle => rfl
  | remainder _ hwrites => simp [hwrites.frame]
  | entry _ _ _ hwrites => simp [hwrites.frame]

theorem write_encCtx [Serde L UInt32] {T : Type} [Serde L T] (s : Sender L N) (clock : Clock)
    (nonces : FrameNonces L) (note : N) (msg : Option (T × Priority)) :
    (s.write clock nonces note msg).inner.encCtx = s.inner.encCtx :=
  write_rule (P := fun s' => s'.inner.encCtx = s.inner.encCtx) rfl id
    (fun _ _ _ _ _ _ _ _ h => h) fun s' h => s'.round_encCtx.trans h

/-- **What holds of every entry that is pushed holds of every entry** that is
taken or queued. -/
theorem write_forall [Serde L UInt32] {T : Type} [Serde L T] {P : Entry.OfFrame L N → Prop}
    {s : Sender L N} {clock : Clock} {nonces : FrameNonces L} {note : N}
    {msg : Option (T × Priority)} (h : ∀ e ∈ s.dequeued ++ s.queued, P e)
    (hpush : ∀ m priority buf, msg = some (m, priority) →
      serializeWithLen nonces m s.inner.encCtx = .ok buf →
        P ⟨priority, clock.push, ⟨buf, s.origin note⟩⟩) :
    ∀ e ∈ (s.write clock nonces note msg).dequeued ++ (s.write clock nonces note msg).queued,
      P e := by
  apply write_rule (P := fun s => ∀ e ∈ s.dequeued ++ s.queued, P e) h
  · intro h e he
    exact h e ((s.dropExpired_sublist _).subset he)
  · intro s' m priority buf hmsg hctx hepoch hser h'
    have horigin : s'.origin note = s.origin note := by rw [origin, origin, hctx, hepoch]
    rw [hctx] at hser
    rw [horigin]
    exact forall_push h' (hpush m priority buf hmsg hser)
  · intro s' h'
    rwa [round_entries]

/-! ### Accounting -/

/-- Every entry pushed has been taken, is queued or has expired, exactly one
of them, and what has expired was droppable. -/
structure Accounted (conf : SocketConfig L) (s : Sender L N) : Prop where
  conf_eq : s.inner.outQueue.conf = conf
  perm : s.enqueued.Perm (s.dequeued ++ s.queued ++ s.dropped)
  droppable : ∀ e ∈ s.dropped, conf.msgDropPriority ≤ e.priority

variable {conf : SocketConfig L} {s : Sender L N}

theorem accounted_start (writeResults : List (IoResult Nat)) :
    Accounted conf (start writeResults conf : Sender L N) where
  conf_eq := rfl
  perm := by simp
  droppable := by simp

theorem Accounted.dropExpired (h : Accounted conf s) (now : Instant) :
    Accounted conf (s.dropExpired now) where
  conf_eq := (s.inner.outQueue.dropExpired_entries now).2.trans h.conf_eq
  perm := accounts_drop h.perm (s.queued_dropExpired now)
  droppable := by
    intro e he
    rcases List.mem_append.mp he with he | he
    · exact h.droppable e he
    · rw [← h.conf_eq]
      exact s.inner.outQueue.expired_droppable now e he

theorem Accounted.push (h : Accounted conf s) (e : Entry.OfFrame L N) :
    Accounted conf (s.push e) where
  conf_eq := h.conf_eq
  perm := accounts_add h.perm (s.queued_push e).perm
  droppable := h.droppable

theorem Accounted.round (h : Accounted conf s) : Accounted conf s.round where
  conf_eq := s.round_conf.trans h.conf_eq
  perm := by
    rw [round_entries]
    exact h.perm
  droppable := h.droppable

theorem Accounted.step [Serde L UInt32] (h : Accounted conf s) (op : SendOp L N) :
    Accounted conf (s.step op) := by
  cases op with
  | write T clock nonces note msg =>
      exact write_rule h (fun h => h.dropExpired _)
        (fun _ _ _ _ _ _ _ _ h => h.push _) (fun _ h => h.round)
  | setEncryptCtx encCtx => exact ⟨h.conf_eq, h.perm, h.droppable⟩

/-- **Every entry is accounted for in every state of every run.** -/
theorem accounted_always [Serde L UInt32] (writeResults : List (IoResult Nat))
    (conf : SocketConfig L) (ops : List (SendOp L N)) :
    Always step (Accounted conf) (start writeResults conf) ops :=
  always_of_step (accounted_start writeResults) fun _ op h => h.step op

end Sender

end SocketCollection
