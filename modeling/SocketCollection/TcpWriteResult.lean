import SocketCollection.Backlog
import SocketCollection.Runs
import SocketCollection.Tcp
import SocketCollection.Waiting

/-!
# What `write` tells of its message: TCP

The flush of a TCP socket as a loop that hands over a backlog: what waits is the
remainder in `current_write` and the out queue behind it, and the stream is handed
the pieces it accepts.

## Main results

* `Inner.write_handed`: what a call hands over is what the stream accepts.
* `Inner.speaksTrue_iff`: when the result of `write` is true of its message.
* `TcpNumbered.each_speaksTrue`: the same for every call of a run.
-/

namespace SocketCollection

open Runs

variable {L : Crates} {G : Type}

/-- A frame, as an item of a backlog. -/
def Frame.item (data : Frame G) : G × Bytes := (data.label, data.bytes)

namespace Inner

/-- The frames that wait, in the order in which they will be written. -/
def waiting (i : Inner L G) : List (Frame G) := i.outQueue.waiting i.currentWrite

/-- What the stream accepts in the round that begins in this state. -/
def handed (i : Inner L G) : List (G × Bytes) :=
  match i.takeData with
  | (none, _) => []
  | (some data, i) =>
      match (i.stream.write data.bytes).1 with
      | .ok bytesTxd => [(data.label, data.bytes.take bytesTxd)]
      | .error _ => []

/-- How many of these frames the stream will accept in full, by its answers to
come: what it does not accept is offered again. -/
def acceptsWhole (i : Inner L G) (frames : List (Frame G)) : Nat :=
  Backlog.takenWhole (fun answer size => (answer.map (min · size)).toOption)
    (fun size bytesTxd => size - bytesTxd) (frames.map fun data => data.bytes.length)
    i.stream.writeResults

/-- The flush, as a loop that hands over what waits. -/
def backlog : Backlog (Inner L G) (Res L Bool) G UInt8 where
  loop := flushLoop
  waiting i := i.waiting.map Frame.item
  handed := handed
  count i := i.acceptsWhole i.waiting
  done := .ok true
  stuck := .ok false
  done_ne_stuck := SendQueue.done_ne_stuck

theorem mem_labels {i : Inner L G} {label : G} :
    label ∈ backlog.labels i ↔ ∃ data ∈ i.waiting, data.label = label := by
  have hwaiting : backlog.waiting i = i.waiting.map Frame.item := rfl
  exact SendQueue.mem_labels hwaiting

/-- Writing what was taken is a turn of the loop. -/
private theorem turn_writeData {i j : Inner L G} {data : Frame G} (hcurrent : j.currentWrite = none)
    (hstream : i.stream = j.stream) (hwaiting : i.waiting = data :: j.waiting)
    (hround : i.flushRound = j.writeData data)
    (hhanded : i.handed = match (j.stream.write data.bytes).1 with
      | .ok bytesTxd => [(data.label, data.bytes.take bytesTxd)]
      | .error _ => []) : backlog.Turn i := by
  obtain ⟨⟨accepted, answered, writeResults, readResults⟩, msgReader, outQueue, currentWrite,
    encCtx⟩ := j
  obtain rfl : currentWrite = none := hcurrent
  have hitems : backlog.waiting i = data.item :: (outQueue.waiting none).map Frame.item :=
    congrArg (List.map Frame.item) hwaiting
  have hcount : backlog.count i = Backlog.takenWhole
      (fun answer size => (answer.map (min · size)).toOption) (fun size bytesTxd => size - bytesTxd)
      (data.bytes.length :: (outQueue.waiting none).map fun data => data.bytes.length)
      writeResults := by
    show i.acceptsWhole i.waiting = _
    rw [acceptsWhole, hwaiting, hstream]
    rfl
  have hne : backlog.waiting i ≠ [] := by
    rw [hitems]
    exact List.cons_ne_nil _ _
  replace hround : backlog.loop.body i = _ := hround
  replace hhanded : backlog.handed i = _ := hhanded
  rcases writeResults with _ | ⟨e | n, rest⟩
  · exact .refused hround hne hitems.symm hhanded hcount
  · have hbody : backlog.loop.body i = (⟨⟨accepted, answered ++ [.error e], rest, readResults⟩,
        msgReader, outQueue, if e.isRetry then some data else none, encCtx⟩,
        if e.isRetry then some (.ok false) else some (.error (.io e))) := by
      rw [hround]
      cases he : e.isRetry <;> simp [writeData, TcpStream.write, he]
    cases he : e.isRetry with
    | true =>
        simp only [he, if_true] at hbody
        exact .refused hbody hne hitems.symm hhanded hcount
    | false =>
        simp only [he, Bool.false_eq_true, if_false] at hbody
        refine .failed hbody SendQueue.error_ne_ok SendQueue.error_ne_ok ?_
        rw [Backlog.labels, Backlog.labels, hitems]
        exact List.subset_cons_self _ _
  · replace hhanded : backlog.handed i =
        [(data.label, data.bytes.take (min n data.bytes.length))] := hhanded
    by_cases hlt : min n data.bytes.length < data.bytes.length
    · have hbody : backlog.loop.body i =
          (⟨⟨accepted ++ data.bytes.take (min n data.bytes.length),
            answered ++ [.ok (min n data.bytes.length)], rest, readResults⟩, msgReader, outQueue,
            some (data.drop (min n data.bytes.length)), encCtx⟩, none) := by
        rw [hround]
        simp only [writeData, TcpStream.write, hlt, if_true]
      refine .partly hbody hitems rfl ?_ ?_ ?_ ?_
      · rw [Frame.drop, ne_eq, List.drop_eq_nil_iff]
        omega
      · rw [hhanded]
        simp
      · rw [hhanded]
        simp [Frame.drop]
      · rw [hcount, Backlog.takenWhole]
        show (if min n data.bytes.length < data.bytes.length then _ else _) = _
        rw [if_pos hlt]
        show _ = acceptsWhole _ (outQueue.waiting (some _))
        simp [acceptsWhole, SendQueue.waiting_some, Frame.drop]
    · have hfull : min n data.bytes.length = data.bytes.length := by omega
      have hbody : backlog.loop.body i =
          (⟨⟨accepted ++ data.bytes.take (min n data.bytes.length),
            answered ++ [.ok (min n data.bytes.length)], rest, readResults⟩, msgReader, outQueue,
            none, encCtx⟩, none) := by
        rw [hround]
        simp only [writeData, TcpStream.write, hlt, if_false]
      refine .whole hbody hitems ?_ ?_
      · rw [hhanded, hfull, List.take_length]
        rfl
      · rw [hcount, Backlog.takenWhole]
        show (if min n data.bytes.length < data.bytes.length then _ else _) = _
        rw [if_neg hlt]
        rfl

/-- **Every round is a turn of the loop.** -/
theorem turn (i : Inner L G) : backlog.Turn i := by
  have htakes := i.takes_takeData
  have hround : i.flushRound = match i.takeData with
      | (none, i) => (i, some (.ok true))
      | (some data, i) => i.writeData data := rfl
  have hhanded : i.handed = match i.takeData with
      | (none, _) => []
      | (some data, i) => match (i.stream.write data.bytes).1 with
        | .ok bytesTxd => [(data.label, data.bytes.take bytesTxd)]
        | .error _ => [] := rfl
  generalize i.takeData = taken at htakes hround hhanded
  obtain ⟨data, j⟩ := taken
  cases htakes with
  | nothing hcurrent hentries =>
      have hwaiting : i.waiting = [] := by
        rw [waiting, hcurrent]
        exact SendQueue.waiting_nil hentries
      have hitems : backlog.waiting i = [] := congrArg (List.map Frame.item) hwaiting
      have hcount : backlog.count i = 0 := by
        show i.acceptsWhole i.waiting = 0
        rw [hwaiting]
        exact Backlog.takenWhole_nil _ _ _
      exact .empty hround hitems hitems hhanded hcount
  | @kept data hcurrent =>
      refine turn_writeData (j := { i with currentWrite := none }) rfl rfl ?_ hround hhanded
      rw [waiting, hcurrent]
      rfl
  | @entry e q hcurrent hentries hconf =>
      refine turn_writeData (j := { i with outQueue := q }) hcurrent rfl ?_ hround hhanded
      rw [waiting, waiting, hcurrent]
      exact SendQueue.waiting_cons hentries

/-! ### What the stream has accepted -/

private theorem writeData_stream (i : Inner L G) (data : Frame G) :
    (i.writeData data).1.stream = (i.stream.write data.bytes).2 := by
  unfold writeData
  rcases i.stream.write data.bytes with ⟨e | n, stream⟩
  · cases he : e.isRetry <;> simp [he]
  · by_cases hlt : n < data.bytes.length <;> simp [hlt]

private theorem flushRound_handed (i : Inner L G) :
    i.flushRound.1.stream.accepted =
      i.stream.accepted ++ (i.handed.map Prod.snd).flatten := by
  have htakes := i.takes_takeData
  unfold flushRound handed
  generalize i.takeData = taken at htakes
  obtain ⟨_ | data, j⟩ := taken
  · cases htakes with
    | nothing => simp
  · have hstream : j.stream = i.stream := by cases htakes <;> rfl
    have hwrites := j.stream.writes_write data.bytes
    show (j.writeData data).1.stream.accepted = i.stream.accepted ++
      (List.map Prod.snd (match (j.stream.write data.bytes).1 with
        | .ok bytesTxd => [(data.label, data.bytes.take bytesTxd)]
        | .error _ => [])).flatten
    rw [writeData_stream, ← hstream]
    generalize j.stream.write data.bytes = answer at hwrites
    obtain ⟨res, stream⟩ := answer
    cases hwrites with
    | accepts hn haccepted => simpa using haccepted
    | refuses haccepted => simpa using haccepted

private theorem flush_handed (i : Inner L G) :
    (flushLoop.exec i).1.stream.accepted =
      i.stream.accepted ++ ((flushLoop.history handed i).map Prod.snd).flatten := by
  refine flushLoop.history_invariant handed
    (fun j past => j.stream.accepted = i.stream.accepted ++ (past.map Prod.snd).flatten) ?_
    (show i.stream.accepted = i.stream.accepted ++ (([] : List (G × Bytes)).map Prod.snd).flatten
      from (List.append_nil _).symm)
  intro j past h
  show j.flushRound.1.stream.accepted = _
  rw [flushRound_handed, h, List.map_append, List.flatten_append, List.append_assoc]

/-! ## One call -/

/-- The socket when a frame has been pushed. -/
def pushed (i : Inner L G) (clock : Clock) (data : Frame G) (priority : Priority) : Inner L G :=
  { i with outQueue := (i.outQueue.dropExpired clock.dropExpired).2.push clock.push data priority }

/-- No answer to come is a hard error. -/
def Soft (i : Inner L G) : Prop := ∀ answer ∈ i.stream.writeResults, answer.isHard = false

private theorem soft_of_answers {s s' : TcpStream} {answer : IoResult Nat}
    (hsoft : ∀ answer ∈ s.writeResults, answer.isHard = false) (h : s.Answers s' answer) :
    (∀ answer ∈ s'.writeResults, answer.isHard = false) ∧ answer.isHard = false := by
  rcases h.script with ⟨hnil, hnil', rfl⟩ | ⟨answer', hscript, hhard⟩
  · refine ⟨?_, rfl⟩
    rw [hnil']
    simp
  · rw [hscript, List.forall_mem_cons] at hsoft
    exact ⟨hsoft.2, hhard ▸ hsoft.1⟩

private theorem Soft.flushRound {i : Inner L G} (hsoft : i.Soft) :
    i.flushRound.1.Soft ∧
      ∀ res, i.flushRound.2 = some res → res = .ok true ∨ res = .ok false := by
  have htakes := i.takes_takeData
  unfold Inner.flushRound
  generalize i.takeData = taken at htakes
  obtain ⟨_ | data, j⟩ := taken
  · cases htakes with
    | nothing => exact ⟨hsoft, fun res hres => .inl (Option.some.inj hres).symm⟩
  · have hsoft' : j.Soft := by cases htakes <;> exact hsoft
    have hwrites := j.writesData_writeData data
    show (j.writeData data).1.Soft ∧
      ∀ res, (j.writeData data).2 = some res → res = .ok true ∨ res = .ok false
    generalize j.writeData data = written at hwrites
    obtain ⟨i', out⟩ := written
    cases hwrites with
    | partly hn haccepted h => exact ⟨(soft_of_answers hsoft' h).1, nofun⟩
    | wholly haccepted h => exact ⟨(soft_of_answers hsoft' h).1, nofun⟩
    | blocked he haccepted h =>
        exact ⟨(soft_of_answers hsoft' h).1, fun res hres => .inr (Option.some.inj hres).symm⟩
    | failed he haccepted h =>
        have hhard := (soft_of_answers hsoft' h).2
        simp [IoResult.isHard, he] at hhard

/-- Answers without a hard error never make the flush fail. -/
private theorem Soft.leaves {i : Inner L G} (hsoft : i.Soft) : backlog.Leaves i := by
  refine flushLoop.exec_result Soft (fun res => res = .ok true ∨ res = .ok false) ?_ ?_ hsoft
  · intro i hsoft
    exact hsoft.flushRound.1
  · intro i res hsoft hbody
    exact hsoft.flushRound.2 res hbody

/-- The flush after a push, by where the frame stands. -/
private theorem pushed_speaks_iff [DecidableEq G] {i : Inner L G} (clock : Clock) (data : Frame G)
    (priority : Priority) (hfresh : ∀ old ∈ i.waiting, old.label ≠ data.label) (hsoft : i.Soft) :
    ((flushLoop.exec (i.pushed clock data priority)).2 = .ok true ↔
          Backlog.HandedOver data.label data.bytes
            (flushLoop.history handed (i.pushed clock data priority))) ∧
        ((flushLoop.exec (i.pushed clock data priority)).2 = .ok false ↔
          ∃ left ∈ (flushLoop.exec (i.pushed clock data priority)).1.waiting,
            left.label = data.label) ↔
      let queue := (i.outQueue.dropExpired clock.dropExpired).2
      let ahead := queue.ahead i.currentWrite priority
      let behind := queue.behind priority
      let accepted := i.acceptsWhole (ahead ++ data :: behind)
      accepted ≤ ahead.length ∨ accepted = ahead.length + 1 + behind.length := by
  have hwaiting : backlog.waiting (i.pushed clock data priority) =
      (((i.outQueue.dropExpired clock.dropExpired).2.push clock.push data priority).waiting
        i.currentWrite).map Frame.item := rfl
  have hleaves : backlog.Leaves (i.pushed clock data priority) :=
    Soft.leaves (i := i.pushed clock data priority) hsoft
  have hspeaks := SendQueue.pushed_speaks_iff turn hleaves hwaiting hfresh
  have hcount : backlog.count (i.pushed clock data priority) =
      i.acceptsWhole ((i.outQueue.dropExpired clock.dropExpired).2.ahead i.currentWrite priority ++
        data :: (i.outQueue.dropExpired clock.dropExpired).2.behind priority) :=
    congrArg i.acceptsWhole (SendQueue.waiting_push _ _ _ _ _)
  rw [hcount] at hspeaks
  rw [← mem_labels]
  exact hspeaks

section Write

variable {T : Type} [Serde L UInt32] [Serde L T]

/-- What the stream accepts in a call of `write`, frame by frame. -/
def writeHanded (i : Inner L G) (clock : Clock) (nonces : FrameNonces L) (label : G)
    (msg : Option (T × Priority)) : List (G × Bytes) :=
  let i := { i with outQueue := (i.outQueue.dropExpired clock.dropExpired).2 }
  match msg with
  | none => flushLoop.history handed i
  | some (msg, priority) =>
      match i.enqueueData clock.push nonces label priority msg with
      | (.error _, _) => []
      | (.ok (), i) => flushLoop.history handed i

/-- **What is handed over in a call is what the stream accepts**, byte by byte. -/
theorem write_handed (i : Inner L G) (clock : Clock) (nonces : FrameNonces L) (label : G)
    (msg : Option (T × Priority)) :
    (i.write clock nonces label msg).2.stream.accepted = i.stream.accepted ++
      ((i.writeHanded clock nonces label msg).map Prod.snd).flatten := by
  rcases msg with _ | ⟨msg, priority⟩
  · exact flush_handed _
  · cases hser : serializeWithLen nonces msg i.encCtx with
    | error e =>
        simp only [write, writeHanded, enqueueData, hser]
        exact (List.append_nil _).symm
    | ok frame =>
        simp only [write, writeHanded, enqueueData, hser]
        exact flush_handed (i.pushed clock ⟨frame, label⟩ priority)

/-- What a call of `write` returns is true of its message, which is the one with
this label: all of its frame was accepted, or some of it still waits; and it has
not expired. -/
structure SpeaksTrue [DecidableEq G] (i : Inner L G) (clock : Clock) (nonces : FrameNonces L)
    (label : G) (msg : T) (priority : Priority) : Prop where
  written : (i.write clock nonces label (some (msg, priority))).1 = .ok true ↔
    ∃ frame, serializeWithLen nonces msg i.encCtx = .ok frame ∧
      Backlog.HandedOver label frame (i.writeHanded clock nonces label (some (msg, priority)))
  queued : (i.write clock nonces label (some (msg, priority))).1 = .ok false ↔
    ∃ data ∈ (i.write clock nonces label (some (msg, priority))).2.waiting, data.label = label
  spared : ∀ e ∈ i.outQueue.expired clock.dropExpired, e.msg.label ≠ label

/-- If the message can be encoded, the stream refuses it or a frame ahead of it, or
accepts all that is behind it as well. -/
def NotCutBehind (i : Inner L G) (clock : Clock) (nonces : FrameNonces L) (label : G) (msg : T)
    (priority : Priority) : Prop :=
  ∀ frame, serializeWithLen nonces msg i.encCtx = .ok frame →
    let queue := (i.outQueue.dropExpired clock.dropExpired).2
    let ahead := queue.ahead i.currentWrite priority
    let behind := queue.behind priority
    let accepted := i.acceptsWhole (ahead ++ ⟨frame, label⟩ :: behind)
    accepted ≤ ahead.length ∨ accepted = ahead.length + 1 + behind.length

/-- **When the result is true of the message**: the flush stops at the message or
ahead of it, or gets through all that is behind it. -/
theorem speaksTrue_iff [DecidableEq G] {i : Inner L G} {clock : Clock} {nonces : FrameNonces L}
    {label : G} {msg : T} {priority : Priority} (hfresh : ∀ data ∈ i.waiting, data.label ≠ label)
    (hsoft : i.Soft) : i.SpeaksTrue clock nonces label msg priority ↔
      i.NotCutBehind clock nonces label msg priority := by
  have hspared : ∀ e ∈ i.outQueue.expired clock.dropExpired, e.msg.label ≠ label := by
    intro e he
    exact hfresh _ (i.outQueue.expired_subset i.currentWrite _ (List.mem_map_of_mem he))
  cases hser : serializeWithLen nonces msg i.encCtx with
  | error e =>
      have hwrite : i.write clock nonces label (some (msg, priority)) =
          (.error e, { i with outQueue := (i.outQueue.dropExpired clock.dropExpired).2 }) := by
        simp only [write, enqueueData, hser]
      refine iff_of_true ⟨?_, ?_, hspared⟩ ?_
      · rw [hwrite, hser]
        simp
      · rw [hwrite]
        refine iff_of_false SendQueue.error_ne_ok ?_
        rintro ⟨data, hdata, hlabel⟩
        exact hfresh data (i.outQueue.waiting_dropExpired i.currentWrite _ hdata) hlabel
      · intro frame hframe
        rw [hser] at hframe
        cases hframe
  | ok frame =>
      have hwrite : i.write clock nonces label (some (msg, priority)) =
          (i.pushed clock ⟨frame, label⟩ priority).flushWriteUntilWouldBlock := by
        simp only [write, enqueueData, hser, pushed]
      have hhanded : i.writeHanded clock nonces label (some (msg, priority)) =
          flushLoop.history handed (i.pushed clock ⟨frame, label⟩ priority) := by
        simp only [writeHanded, enqueueData, hser, pushed]
      have hframe : ∀ frame',
          serializeWithLen nonces msg i.encCtx = .ok frame' ↔ frame' = frame := by
        intro frame'
        rw [hser, Except.ok.injEq]
        exact eq_comm
      have hspeaks := pushed_speaks_iff clock ⟨frame, label⟩ priority hfresh hsoft
      constructor
      · rintro ⟨hwritten, hqueued, -⟩ frame' hframe'
        obtain rfl := (hframe frame').mp hframe'
        simp only [hwrite, hhanded, hframe, exists_eq_left] at hwritten hqueued
        exact hspeaks.mp ⟨hwritten, hqueued⟩
      · intro h
        obtain ⟨hwritten, hqueued⟩ := hspeaks.mpr (h frame hser)
        refine ⟨?_, ?_, hspared⟩
        · simp only [hwrite, hhanded, hframe, exists_eq_left]
          exact hwritten
        · simp only [hwrite]
          exact hqueued

/-! ### Labels -/

/-- What waits after a call waited before, or is the message of the call. -/
theorem write_labels (i : Inner L G) (clock : Clock) (nonces : FrameNonces L) (label : G)
    (msg : Option (T × Priority)) :
    ∀ label' ∈ backlog.labels (i.write clock nonces label msg).2,
      label' = label ∨ label' ∈ backlog.labels i := by
  have hdropped : ∀ label' ∈ backlog.labels ({ i with
      outQueue := (i.outQueue.dropExpired clock.dropExpired).2 } : Inner L G),
      label' = label ∨ label' ∈ backlog.labels i := by
    intro label' hlabel
    obtain ⟨data, hdata, rfl⟩ := mem_labels.mp hlabel
    exact .inr (mem_labels.mpr
      ⟨data, i.outQueue.waiting_dropExpired i.currentWrite _ hdata, rfl⟩)
  rcases msg with _ | ⟨msg, priority⟩
  · exact fun label' hlabel => hdropped label' (Backlog.labels_exec turn _ hlabel)
  · cases hser : serializeWithLen nonces msg i.encCtx with
    | error e =>
        simp only [write, enqueueData, hser]
        exact hdropped
    | ok frame =>
        simp only [write, enqueueData, hser]
        intro label' hlabel
        have hpushed := Backlog.labels_exec turn (i.pushed clock ⟨frame, label⟩ priority) hlabel
        rcases SendQueue.labels_pushed rfl label' hpushed with heq | hold
        · exact .inl heq
        · exact .inr (mem_labels.mpr hold)

end Write

/-! ### Reading leaves what waits alone -/

section Read

variable {T : Type} [Serde L UInt32] [Serde L T]

private theorem tryRead_waiting {i i' : Inner L G} {res : Res L (Option T)}
    (h : i.tryRead T = (res, i')) : i'.waiting = i.waiting := by
  obtain ⟨-, rfl⟩ := Prod.mk.inj h
  rfl

private theorem readRound_waiting (s : Reading L G) :
    (readRound T s).1.inner.waiting = s.inner.waiting := by
  simp only [readRound]
  split
  · split
    · split
      · split
        · next h => exact (tryRead_waiting h).trans rfl
        · next h => exact (tryRead_waiting h).trans rfl
      · rfl
    · rfl
  · split
    · split <;> rfl
    · rfl

private theorem readLoop_waiting (s : Reading L G) :
    ((readLoop T).exec s).1.inner.waiting = s.inner.waiting := by
  refine (readLoop T).exec_invariant (fun s' => s'.inner.waiting = s.inner.waiting) ?_ rfl
  intro s' h
  exact (readRound_waiting s').trans h

theorem read_waiting (T : Type) [Serde L T] (i : Inner L G) : (i.read T).2.waiting = i.waiting := by
  unfold read
  split
  · next h => exact tryRead_waiting h
  · next h => exact tryRead_waiting h
  · next h => exact (readLoop_waiting _).trans (tryRead_waiting h)

end Read

end Inner

/-! ## Runs -/

/-- A call on a TCP socket.  Each `write` and `read` may have a type of its own. -/
inductive TcpOp (L : Crates) : Type 1
  | write (T : Type) [Serde L T] (clock : Clock) (nonces : FrameNonces L)
      (msg : Option (T × Priority))
  | read (T : Type) [Serde L T]
  | setEncryptCtx (encCtx : EncryptContext L)
  | setDecryptCtx (decCtx : DecryptContext L)

/-- A TCP socket whose messages are labelled with the number of the call. -/
structure TcpNumbered (L : Crates) where
  inner : Inner L Nat
  calls : Nat

namespace TcpNumbered

variable [Serde L UInt32]

def start (writeResults : List (IoResult Nat)) (readResults : List (IoResult Bytes))
    (conf : SocketConfig L) : TcpNumbered L where
  inner := Inner.newWithConf (.scripted writeResults readResults) conf
  calls := 0

def step (s : TcpNumbered L) : TcpOp L → TcpNumbered L
  | @TcpOp.write _ _ _ clock nonces msg =>
      ⟨(s.inner.write clock nonces s.calls msg).2, s.calls + 1⟩
  | @TcpOp.read _ T _ => { s with inner := (s.inner.read T).2 }
  | .setEncryptCtx encCtx => { s with inner := s.inner.setEncryptCtx encCtx }
  | .setDecryptCtx decCtx => { s with inner := s.inner.setDecryptCtx decCtx }

/-- If the call writes a message, what it returns is true of the message. -/
def SpeaksTrue (s : TcpNumbered L) : TcpOp L → Prop
  | @TcpOp.write _ _ _ clock nonces (some (msg, priority)) =>
      s.inner.SpeaksTrue clock nonces s.calls msg priority
  | _ => True

/-- If the call writes a message, the flush is not cut short behind it. -/
def NotCutBehind (s : TcpNumbered L) : TcpOp L → Prop
  | @TcpOp.write _ _ _ clock nonces (some (msg, priority)) =>
      s.inner.NotCutBehind clock nonces s.calls msg priority
  | _ => True

/-- What waits was written by an earlier call. -/
private def Earlier (s : TcpNumbered L) : Prop :=
  ∀ label ∈ Inner.backlog.labels s.inner, label < s.calls

private theorem Earlier.step {s : TcpNumbered L} (h : s.Earlier) (op : TcpOp L) :
    (s.step op).Earlier := by
  cases op with
  | write T clock nonces msg =>
      intro label hlabel
      rcases s.inner.write_labels clock nonces s.calls msg label hlabel with rfl | hold
      · exact Nat.lt_succ_self _
      · exact Nat.lt_succ_of_lt (h label hold)
  | read T =>
      intro label hlabel
      have hwaiting : Inner.backlog.waiting (s.inner.read T).2 = Inner.backlog.waiting s.inner :=
        congrArg (List.map Frame.item) (s.inner.read_waiting T)
      refine h label ?_
      rw [Backlog.labels, ← hwaiting]
      exact hlabel
  | setEncryptCtx encCtx => exact h
  | setDecryptCtx decCtx => exact h

/-- **In every run**, as long as there are no hard errors to come. -/
theorem each_speaksTrue (writeResults : List (IoResult Nat)) (readResults : List (IoResult Bytes))
    (conf : SocketConfig L) (ops : List (TcpOp L)) :
    Each step (fun s op => s.inner.Soft → (s.SpeaksTrue op ↔ s.NotCutBehind op))
      (start writeResults readResults conf) ops := by
  have hearlier : Always step Earlier (start writeResults readResults conf) ops := by
    refine always_of_step ?_ fun s op h => h.step op
    intro label hlabel
    cases hlabel
  refine hearlier.each fun s op h hsoft => ?_
  cases op with
  | write T clock nonces msg =>
      rcases msg with _ | ⟨msg, priority⟩
      · exact Iff.rfl
      · refine Inner.speaksTrue_iff (fun data hdata => Nat.ne_of_lt ?_) hsoft
        exact h _ (Inner.mem_labels.mpr ⟨data, hdata, rfl⟩)
  | read T => exact Iff.rfl
  | setEncryptCtx encCtx => exact Iff.rfl
  | setDecryptCtx decCtx => exact Iff.rfl

end TcpNumbered

end SocketCollection
