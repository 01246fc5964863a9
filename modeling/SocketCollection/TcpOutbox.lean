import SocketCollection.Outbox
import SocketCollection.TcpSender

/-!
# The TCP socket as an outbox

The frames of the socket carry a `Label`: the stamp of their message, and how
long they were when they were built, so that a frame nothing of which has been
taken can be told from the rest of one.  A `Writer` is the socket together with
the log of the messages that were begun; the log is read off the rounds of the
flush (`Inner.begins`), and no function of the socket looks at it.

`tcp_simulates` says that the calls on a `Writer` are those of an outbox.
-/

namespace SocketCollection

open Outbox Relation StableQueue

variable {L : Crates} {T : Type}

/-- What a frame is labelled with. -/
structure Label where
  stamp : Entry Unit
  size : Nat

/-- Nothing of the frame has been taken. -/
def Frame.whole (data : Frame Label) : Bool := data.bytes.length == data.label.size

/-- The stamp of a frame that waits. -/
def Frame.waits (data : Frame Label) : Option (Entry Unit) :=
  if data.whole then some data.label.stamp else none

namespace Inner

/-- What a socket holds, as the messages see it. -/
def outbox (i : Inner L Label) (begun : List (Begun Unit)) : Outbox Unit where
  parked := i.currentWrite.bind Frame.waits
  queued := i.outQueue.stamps
  begun := begun

/-- The message that the round which begins in this state begins to hand
over. -/
def begins (i : Inner L Label) : List (Begun Unit) :=
  match i.takeData with
  | (none, _) => []
  | (some data, i) =>
      if data.whole && accepts data.bytes (i.stream.write data.bytes).1 then
        [⟨data.label.stamp, i.outQueue.stamps⟩]
      else []

/-- The stream will take some of what is kept in `current_write`. -/
def takesCurrent (i : Inner L Label) : Bool :=
  i.currentWrite.any fun data => takes data.bytes i.stream.writeResults

section Write

variable [Serde L UInt32] [Serde L T]

/-- A call of `write` comes to its flush: there is nothing to push, or it can be
serialised. -/
def flushes (i : Inner L Label) (nonces : FrameNonces L) (msg : Option (T × Priority)) : Bool :=
  msg.all fun (msg, _) => (serializeWithLen nonces msg i.encCtx).isOk

/-- The label of the frame that a call of `write` pushes, if it pushes one. -/
def pushes (i : Inner L Label) (clock : Clock) (nonces : FrameNonces L)
    (msg : Option (T × Priority)) : Option Label :=
  match msg with
  | none => none
  | some (msg, priority) =>
      match serializeWithLen nonces msg i.encCtx with
      | .error _ => none
      | .ok buf => some ⟨⟨priority, clock.push, ()⟩, buf.length⟩

theorem pushes_time {i : Inner L Label} {clock : Clock} {nonces : FrameNonces L}
    {msg : Option (T × Priority)} {label : Label} (h : i.pushes clock nonces msg = some label) :
    label.stamp.time = clock.push := by
  unfold pushes at h
  split at h
  · cases h
  · split at h
    · cases h
    · obtain rfl := Option.some.inj h
      rfl

/-- The messages that a call of `write` begins to hand over. -/
def writeBegins (i : Inner L Label) (clock : Clock) (nonces : FrameNonces L) (label : Label)
    (msg : Option (T × Priority)) : List (Begun Unit) :=
  let i := { i with outQueue := (i.outQueue.dropExpired clock.dropExpired).2 }
  match msg with
  | none => flushLoop.history begins i
  | some (msg, priority) =>
      match i.enqueueData clock.push nonces label priority msg with
      | (.error _, _) => []
      | (.ok (), i) => flushLoop.history begins i

end Write

/-- Every frame in the queue is labelled with what it is. -/
structure Labelled (conf : SocketConfig L) (i : Inner L Label) : Prop where
  conf_eq : i.outQueue.conf = conf
  entry : ∀ e ∈ i.outQueue.entries, e.msg.label = ⟨e.stamp, e.msg.bytes.length⟩
  current : ∀ data, i.currentWrite = some data → data.bytes.length ≤ data.label.size

variable {conf : SocketConfig L} {i : Inner L Label} {past : List (Begun Unit)}

/-! ### The phases of a call -/

private theorem outbox_expire (h : Labelled conf i) (past : List (Begun Unit)) (now : Instant) :
    ({ i with outQueue := (i.outQueue.dropExpired now).2 } : Inner L Label).outbox past =
      (i.outbox past).expire conf now := by
  have hstamps := i.outQueue.stamps_dropExpired now
  rw [h.conf_eq] at hstamps
  simp only [outbox, expire, expiryPoint, hstamps]

private theorem Labelled.expire (h : Labelled conf i) (now : Instant) :
    Labelled conf { i with outQueue := (i.outQueue.dropExpired now).2 } := by
  obtain ⟨hentries, hconf⟩ := i.outQueue.dropExpired_entries now
  refine ⟨hconf.trans h.conf_eq, fun e he => h.entry e ?_, h.current⟩
  rw [hentries]
  exact List.mem_append_left _ he

private theorem outbox_push (i : Inner L Label) (now : Instant) (data : Frame Label)
    (priority : Priority) : Adds (some ⟨priority, now, ()⟩) (i.outbox past)
      (({ i with outQueue := i.outQueue.push now data priority } : Inner L Label).outbox past) where
  parked := rfl
  queued := i.outQueue.stamps_push now data priority
  sorted := (i.outQueue.push now data priority).sorted_stamps
  begun := rfl

private theorem Labelled.push (h : Labelled conf i) (now : Instant) (buf : Bytes)
    (priority : Priority) : Labelled conf { i with
      outQueue := i.outQueue.push now ⟨buf, ⟨⟨priority, now, ()⟩, buf.length⟩⟩ priority } := by
  refine ⟨h.conf_eq, fun e he => ?_, h.current⟩
  rw [(i.outQueue.entries_push now _ priority).mem_iff, List.mem_append, List.mem_singleton] at he
  rcases he with he | rfl
  · exact h.entry e he
  · rfl

/-- What is kept of a frame still waits only if nothing of it was taken. -/
private theorem writeData_waits {data : Frame Label} (hcurrent : i.currentWrite = none)
    (hsize : data.bytes.length ≤ data.label.size) :
    (∀ kept, (i.writeData data).1.currentWrite = some kept →
      kept.bytes.length ≤ kept.label.size) ∧
    ((i.writeData data).1.currentWrite.bind Frame.waits).toList <:+ data.waits.toList := by
  have hwrites := i.writesData_writeData data
  generalize (i.writeData data).1 = i' at hwrites
  generalize (i.writeData data).2 = out at hwrites
  cases hwrites with
  | @partly n _ hn =>
      constructor
      · intro kept hkept
        obtain rfl := Option.some.inj hkept
        simp only [Frame.drop, List.length_drop]
        omega
      · by_cases hwhole : (data.drop n).whole = true
        · have hlen : data.bytes.length - n = data.label.size := by
            simpa [Frame.whole, Frame.drop] using hwhole
          obtain rfl : n = 0 := by omega
          exact List.suffix_refl _
        · simp [Frame.waits, hwhole]
  | wholly => simp [hcurrent]
  | blocked =>
      refine ⟨fun kept hkept => ?_, List.suffix_refl _⟩
      obtain rfl := Option.some.inj hkept
      exact hsize
  | failed => simp [hcurrent]

private theorem writeData_outQueue (i : Inner L Label) (data : Frame Label) :
    (i.writeData data).1.outQueue = i.outQueue := (i.writesData_writeData data).frame.1

/-- A frame that was taken out is handed over. -/
private theorem writeData_hands {data : Frame Label} {b : Outbox Unit}
    (hcurrent : i.currentWrite = none) (hsize : data.bytes.length ≤ data.label.size)
    (hwaiting : b.waiting = data.waits.toList ++ i.outQueue.stamps)
    (hqueued : i.outQueue.stamps <:+ b.queued) :
    Hands b ((i.writeData data).1.outbox (b.begun ++
      if data.whole && accepts data.bytes (i.stream.write data.bytes).1 then
        [⟨data.label.stamp, i.outQueue.stamps⟩] else [])) := by
  have hkept := (writeData_waits hcurrent hsize).2
  have hqueue := i.writeData_outQueue data
  generalize (i.writeData data).1 = i' at hkept hqueue
  have hleft : ∀ begun, (i'.outbox begun).waiting <:+ b.waiting := by
    intro begun
    obtain ⟨front, hfront⟩ := hkept
    refine ⟨front, ?_⟩
    rw [hwaiting, ← hfront, List.append_assoc]
    simp only [Outbox.waiting, outbox, hqueue]
  have hqueued' : ∀ begun, (i'.outbox begun).queued <:+ b.queued := by
    intro begun
    simpa only [outbox, hqueue] using hqueued
  by_cases hbegins : (data.whole && accepts data.bytes (i.stream.write data.bytes).1) = true
  · rw [if_pos hbegins]
    refine .begins ?_ (hqueued' _) (hleft _) rfl
    rw [hwaiting, Frame.waits, if_pos (Bool.and_eq_true_iff.mp hbegins).1]
    rfl
  · rw [if_neg hbegins]
    exact .keeps (hqueued' _) (hleft _) (List.append_nil _)

private theorem flushRound_hands (h : Labelled conf i) (past : List (Begun Unit)) :
    Labelled conf i.flushRound.1 ∧
      Hands (i.outbox past) (i.flushRound.1.outbox (past ++ i.begins)) := by
  have htakes := i.takes_takeData
  unfold flushRound begins
  generalize i.takeData = out at htakes
  obtain ⟨data, i'⟩ := out
  cases htakes with
  | nothing hcurrent hentries =>
      refine ⟨h, .keeps (List.suffix_refl _) (List.suffix_refl _) (List.append_nil _)⟩
  | @kept data hcurrent =>
      have hsize := h.current data hcurrent
      have hqueue := writeData_outQueue { i with currentWrite := none } data
      refine ⟨⟨?_, ?_, (writeData_waits rfl hsize).1⟩,
        writeData_hands (b := i.outbox past) rfl hsize ?_ (List.suffix_refl _)⟩
      · rw [hqueue]
        exact h.conf_eq
      · rw [hqueue]
        exact h.entry
      · simp [Outbox.waiting, outbox, hcurrent]
  | @entry e q hcurrent hentries hconf =>
      have hlabel := h.entry e (hentries ▸ List.mem_cons_self)
      have hsize : e.msg.bytes.length ≤ e.msg.label.size := by rw [hlabel]
      have hwaits : e.msg.waits = some e.stamp := by
        rw [Frame.waits, Frame.whole, hlabel]
        simp
      have hqueue := writeData_outQueue { i with outQueue := q } e.msg
      have hstamps : i.outQueue.stamps = e.stamp :: q.stamps := by
        rw [SendQueue.stamps, hentries, List.map_cons]
        rfl
      have hkept := (writeData_waits (i := { i with outQueue := q }) hcurrent hsize).1
      refine ⟨⟨?_, ?_, hkept⟩,
        writeData_hands (b := i.outbox past) (i := { i with outQueue := q }) hcurrent hsize ?_ ?_⟩
      · rw [hqueue]
        exact hconf.trans h.conf_eq
      · rw [hqueue]
        exact fun a ha => h.entry a (hentries ▸ List.mem_cons_of_mem _ ha)
      · simp [Outbox.waiting, outbox, hcurrent, hwaits, hstamps]
      · rw [outbox, hstamps]
        exact List.suffix_cons _ _

/-- What the stream takes, one answer at a time. -/
private theorem takes_of_write {s s' : TcpStream} {buf : Bytes} {res : IoResult Nat}
    (h : s.write buf = (res, s')) :
    takes buf s.writeResults = (accepts buf res || res.isOk && takes buf s'.writeResults) := by
  unfold TcpStream.write at h
  split at h
  · next hscript =>
      obtain ⟨rfl, -⟩ := Prod.mk.inj h
      simp [hscript, takes, accepts, Except.isOk, Except.toBool]
  · next hscript =>
      obtain ⟨rfl, -⟩ := Prod.mk.inj h
      simp [hscript, takes, accepts, Except.isOk, Except.toBool]
  · next n rest hscript =>
      obtain ⟨rfl, rfl⟩ := Prod.mk.inj h
      have hmin : accepts buf (.ok (min n buf.length)) = accepts buf (.ok n) := by
        simp only [accepts, decide_eq_decide]
        omega
      simp [hscript, takes, hmin, Except.isOk, Except.toBool]

/-- What the flush begins first, when a frame is kept nothing of which has been
taken. -/
private theorem flush_first (i : Inner L Label) {data : Frame Label}
    (hcurrent : i.currentWrite = some data) (hwhole : data.whole = true) :
    if takes data.bytes i.stream.writeResults = true then
      ∃ started, flushLoop.history begins i = ⟨data.label.stamp, i.outQueue.stamps⟩ :: started
    else flushLoop.history begins i = [] := by
  refine history_of_takes (fun i' results => i'.currentWrite = some data ∧
    i'.outQueue = i.outQueue ∧ i'.stream.writeResults = results) ?_ ⟨hcurrent, rfl, rfl⟩
  rintro i₁ results ⟨hcurrent, hqueue, rfl⟩
  have hround : flushLoop.body i₁ = writeData { i₁ with currentWrite := none } data := by
    show i₁.flushRound = _
    simp [flushRound, takeData, hcurrent]
  have hbegins : i₁.begins = if accepts data.bytes (i₁.stream.write data.bytes).1 = true then
      [⟨data.label.stamp, i.outQueue.stamps⟩] else [] := by
    simp [begins, takeData, hcurrent, hwhole, hqueue]
  unfold writeData at hround
  rcases hwrite : i₁.stream.write data.bytes with ⟨e | n, stream⟩
  · have hrefused := takes_of_write hwrite
    rw [hwrite] at hround hbegins
    cases he : e.isRetry with
    | true => exact .stops (by simpa [he] using hround) hbegins hrefused
    | false => exact .stops (by simpa [he] using hround) hbegins hrefused
  · have htaken := takes_of_write hwrite
    rw [hwrite] at hround hbegins
    by_cases haccepts : accepts data.bytes (.ok n) = true
    · rw [if_pos haccepts] at hbegins
      rw [haccepts, Bool.true_or] at htaken
      by_cases hn : n < data.bytes.length
      · exact .begins (by simpa [hn] using hround) hbegins htaken
      · exact .begins (by simpa [hn] using hround) hbegins htaken
    · obtain ⟨rfl, hlen⟩ : n = 0 ∧ 0 < data.bytes.length := by
        simp only [accepts, decide_eq_true_eq] at haccepts
        omega
      rw [if_neg haccepts] at hbegins
      have hagain : flushLoop.body i₁ =
          ({ i₁ with stream := stream, currentWrite := some data }, none) := by
        simpa [hlen, Frame.drop] using hround
      refine .again hagain hbegins ?_ ⟨rfl, hqueue, rfl⟩
      simpa [haccepts, Except.isOk, Except.toBool] using htaken

private theorem flush_flushes (h : Labelled conf i) (past : List (Begun Unit)) :
    Labelled conf (flushLoop.exec i).1 ∧ Flushes i.takesCurrent (i.outbox past)
      ((flushLoop.exec i).1.outbox (past ++ flushLoop.history begins i)) := by
  have hflush : Labelled conf (flushLoop.exec i).1 ∧ ReflTransGen Hands (i.outbox past)
      ((flushLoop.exec i).1.outbox (past ++ flushLoop.history begins i)) := by
    refine flushLoop.history_invariant begins (fun i' past' => Labelled conf i' ∧
      ReflTransGen Hands (i.outbox past) (i'.outbox past')) ?_ ⟨h, .refl⟩
    rintro i₁ past' ⟨h₁, hflush⟩
    have hround := flushRound_hands h₁ past'
    exact ⟨hround.1, hflush.tail hround.2⟩
  refine ⟨hflush.1, flushes_of_first hflush.2 rfl ?_⟩
  intro p hp
  obtain ⟨data, hcurrent, hwaits⟩ := Option.bind_eq_some_iff.mp hp
  unfold Frame.waits at hwaits
  split at hwaits
  · next hwhole =>
      obtain rfl := Option.some.inj hwaits
      rw [takesCurrent, hcurrent, Option.any_some]
      exact flush_first i hcurrent hwhole
  · cases hwaits

/-- **A call of `write` is a call on the outbox.** -/
private theorem write_call [Serde L UInt32] [Serde L T] (h : Labelled conf i)
    (past : List (Begun Unit)) (clock : Clock) (nonces : FrameNonces L) {label : Label}
    (msg : Option (T × Priority)) (hlabel : ∀ pushed ∈ i.pushes clock nonces msg, label = pushed) :
    Labelled conf (i.write clock nonces label msg).2 ∧
      Call conf clock.dropExpired (i.flushes nonces msg && i.takesCurrent)
        ((i.pushes clock nonces msg).map Label.stamp) (i.outbox past)
        ((i.write clock nonces label msg).2.outbox
          (past ++ i.writeBegins clock nonces label msg)) := by
  have hexpired := h.expire clock.dropExpired
  have hview := outbox_expire h past clock.dropExpired
  have hnothing : Adds none ((i.outbox past).expire conf clock.dropExpired)
      ((i.outbox past).expire conf clock.dropExpired) := by
    rw [← hview]
    exact adds_none (SendQueue.sorted_stamps _)
  unfold write writeBegins pushes flushes at *
  rcases msg with _ | ⟨msg, priority⟩
  · obtain ⟨hnext, hflush⟩ := flush_flushes hexpired past
    rw [hview] at hflush
    exact ⟨hnext, _, hnothing, hflush⟩
  · cases hser : serializeWithLen nonces msg i.encCtx with
    | error e =>
        simp only [enqueueData, hser, List.append_nil, Option.map_none, Option.all_some,
          Except.isOk, Except.toBool, Bool.false_and]
        exact ⟨hexpired, _, hnothing, hview ▸ flushes_refl _⟩
    | ok buf =>
        simp only [hser, Option.mem_some_iff] at hlabel
        obtain rfl := hlabel _ rfl
        simp only [enqueueData, hser, Option.map_some, Option.all_some, Except.isOk,
          Except.toBool, Bool.true_and]
        obtain ⟨hnext, hflush⟩ := flush_flushes (hexpired.push clock.push buf priority) past
        refine ⟨hnext, _, ?_, hflush⟩
        rw [← hview]
        exact outbox_push _ _ _ _

end Inner

/-! ## Runs of the socket -/

/-- A socket whose frames are labelled, with the log of the messages that were
begun. -/
structure Writer (L : Crates) where
  inner : Inner L Label
  begun : List (Begun Unit)

/-- The clock of a call of `write`. -/
def SendOp.clock? {N : Type} : SendOp L N → Option Clock
  | @SendOp.write _ _ _ _ clock _ _ _ => some clock
  | .setEncryptCtx _ => none

/-- The clock readings of a call. -/
def SendOp.readings {N : Type} (op : SendOp L N) : List Instant :=
  (op.clock?.map Clock.readings).getD []

namespace Writer

def start (writeResults : List (IoResult Nat)) (conf : SocketConfig L) : Writer L where
  inner := Inner.newWithConf (.scripted writeResults []) conf
  begun := []

/-- The socket, as the messages see it. -/
def outbox (w : Writer L) : Outbox Unit := w.inner.outbox w.begun

theorem outbox_start (writeResults : List (IoResult Nat)) (conf : SocketConfig L) :
    (start writeResults conf).outbox = .empty := by
  simp [start, outbox, Inner.outbox, Inner.newWithConf, SendQueue.stamps_new, Outbox.empty]

theorem labelled_start (writeResults : List (IoResult Nat)) (conf : SocketConfig L) :
    (start writeResults conf).inner.Labelled conf where
  conf_eq := rfl
  entry e he := by
    simp [start, Inner.newWithConf] at he
  current data hdata := by cases hdata

variable [Serde L UInt32]

/-- The label of the frame a call pushes, if it pushes one. -/
def pushes (w : Writer L) : SendOp L Unit → Option Label
  | @SendOp.write _ _ _ _ clock nonces _ msg => w.inner.pushes clock nonces msg
  | .setEncryptCtx _ => none

/-- The stamp of the message a call pushes, if it pushes one. -/
def new? (w : Writer L) (op : SendOp L Unit) : Option (Entry Unit) := (w.pushes op).map Label.stamp

/-- The stream will take some of what is kept when the call is made. -/
def takesParked (w : Writer L) : SendOp L Unit → Bool
  | @SendOp.write _ _ _ _ _ nonces _ msg => w.inner.flushes nonces msg && w.inner.takesCurrent
  | .setEncryptCtx _ => false

/-- A call on the socket; where nothing is pushed, the label is not used. -/
def step (w : Writer L) : SendOp L Unit → Writer L
  | @SendOp.write _ _ _ _ clock nonces _ msg =>
      let label := (w.inner.pushes clock nonces msg).getD ⟨⟨0, clock.push, ()⟩, 0⟩
      { inner := (w.inner.write clock nonces label msg).2
        begun := w.begun ++ w.inner.writeBegins clock nonces label msg }
  | .setEncryptCtx encCtx => { w with inner := w.inner.setEncryptCtx encCtx }

/-- **The calls on the socket are those of an outbox.** -/
theorem tcp_simulates (conf : SocketConfig L) :
    Simulates conf step (fun w => w.inner.Labelled conf) outbox SendOp.clock? takesParked
      new? SendOp.readings where
  keeps w op h := by
    cases op with
    | setEncryptCtx encCtx => exact ⟨h.conf_eq, h.entry, h.current⟩
    | write T clock nonces note msg =>
        exact (Inner.write_call h w.begun clock nonces msg fun pushed hpushed => by
          rw [hpushed, Option.getD_some]).1
  call w op clock h hclock := by
    cases op with
    | setEncryptCtx encCtx => cases hclock
    | write T clock nonces note msg =>
        obtain rfl := Option.some.inj hclock
        exact (Inner.write_call h w.begun clock nonces msg fun pushed hpushed => by
          rw [hpushed, Option.getD_some]).2
  stamped w op clock hclock e he := by
    cases op with
    | setEncryptCtx encCtx => cases hclock
    | write T clock nonces note msg =>
        obtain rfl := Option.some.inj hclock
        obtain ⟨label, hlabel, rfl⟩ := Option.map_eq_some_iff.mp he
        exact Inner.pushes_time hlabel
  others w op hclock := by
    cases op with
    | setEncryptCtx encCtx => rfl
    | write T clock nonces note msg => cases hclock
  readings_eq op clock hclock := by
    rw [SendOp.readings, hclock]
    rfl

end Writer

end SocketCollection
