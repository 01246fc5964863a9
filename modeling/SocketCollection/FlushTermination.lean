import SocketCollection.BincodeInstance
import SocketCollection.Udp

/-!
# The flush loops end

In `Tcp` and `Udp` the operating system is a script, and the loops end because
the script does.  Here it may answer for ever: its state is of any type, and an
answer may depend on that state and on the data.  A loop ends all the same, as
long as a successful attempt gets somewhere: the bytes that are parked and the
messages that are queued, counted together, become fewer in every round.
-/

namespace SocketCollection

open Udp

variable {L : Crates} {G M σ : Type}

/-- What a flush loop works on, and the operating system it works with. -/
structure Flushing (L : Crates) (σ M : Type) where
  os : σ
  outQueue : SendQueue L M
  currentWrite : Option M

/-- How a flush loop attempts a message, and what it makes of the answer: whether
it goes round again, and what `current_write` becomes. -/
structure Attempt (L : Crates) (σ M : Type) where
  offer : σ → M → IoResult Nat × σ
  settle : IoResult Nat → Option M → M → Res L Bool × Option M

namespace Flushing

/-- `self.current_write.take().or_else(|| self.out_queue.next_msg())`. -/
def takeMsg (s : Flushing L σ M) : Option M × Flushing L σ M :=
  match s.currentWrite with
  | some msg => (some msg, { s with currentWrite := none })
  | none =>
      let (msg, outQueue) := s.outQueue.nextMsg
      (msg, { s with outQueue := outQueue })

/-- After `Ok(true)` the loop goes round again, and returns anything else. -/
def leaves : Res L Bool → Option (Res L Bool)
  | .ok true => none
  | res => some res

/-- Attempt a message that was taken. -/
def attempt (a : Attempt L σ M) (s : Flushing L σ M) (msg : M) :
    Flushing L σ M × Option (Res L Bool) :=
  let (answer, os) := a.offer s.os msg
  let (res, currentWrite) := a.settle answer s.currentWrite msg
  ({ s with os := os, currentWrite := currentWrite }, leaves res)

/-- One round of a flush loop. -/
def round (a : Attempt L σ M) (s : Flushing L σ M) : Flushing L σ M × Option (Res L Bool) :=
  match s.takeMsg with
  | (none, s) => (s, some (.ok true))
  | (some msg, s) => s.attempt a msg

/-! ### Progress -/

/-- The messages that are left, each with what it weighs and one more. -/
def work (size : M → Nat) (s : Flushing L σ M) : Nat :=
  (s.currentWrite.toList.map fun msg => size msg + 1).sum +
    (s.outQueue.entries.map fun e => size e.msg + 1).sum

/-- An attempt that lets the loop go on keeps something lighter or nothing, and
one that ends it with `Ok(false)` keeps something. -/
structure Progresses (a : Attempt L σ M) (size : M → Nat) : Prop where
  lighter : ∀ os msg kept, a.settle (a.offer os msg).1 none msg = (.ok true, some kept) →
    size kept < size msg
  parks : ∀ os msg kept, a.settle (a.offer os msg).1 none msg = (.ok false, kept) →
    kept.isSome

/-- Taking the next message changes the queue and what is kept. -/
theorem takes_takeMsg (s : Flushing L σ M) :
    SendQueue.Takes (fun outQueue currentWrite =>
      { s with outQueue := outQueue, currentWrite := currentWrite }) s.outQueue s.currentWrite
        s.takeMsg.1 s.takeMsg.2 := by
  refine SendQueue.takes_of_eq (fun msg hcurrent => ?_) fun hcurrent => ?_
  · rw [takeMsg, hcurrent]
  · rw [takeMsg, hcurrent]

/-- What is taken is no longer left. -/
private theorem work_takes (size : M → Nat) {s s' : Flushing L σ M} {msg : M}
    (h : SendQueue.Takes (fun outQueue currentWrite =>
      { s with outQueue := outQueue, currentWrite := currentWrite }) s.outQueue s.currentWrite
        (some msg) s') :
    s'.currentWrite = none ∧ s.work size = size msg + 1 + s'.work size := by
  cases h with
  | kept hcurrent => exact ⟨rfl, by simp [work, hcurrent]⟩
  | entry hcurrent hentries _ => exact ⟨hcurrent, by simp [work, hcurrent, hentries]⟩

/-- What a round can do, when attempts progress. -/
inductive Rounds (size : M → Nat) (s : Flushing L σ M) :
    Flushing L σ M → Option (Res L Bool) → Prop
  | empty (hcurrent : s.currentWrite = none) (hentries : s.outQueue.entries = []) :
      Rounds size s s (some (.ok true))
  | goesOn {s'} (hwork : s'.work size < s.work size) : Rounds size s s' none
  | blocked {s'} (hcurrent : s'.currentWrite.isSome) : Rounds size s s' (some (.ok false))
  | failed {s' e} : Rounds size s s' (some (.error e))

/-- The work that is left when a message is kept in place of the one taken. -/
private theorem work_kept (size : M → Nat) (os : σ) {s : Flushing L σ M} {msg : M}
    {kept : Option M} (hcurrent : s.currentWrite = none)
    (hlighter : ∀ m, kept = some m → size m < size msg) :
    work size { s with os := os, currentWrite := kept } < size msg + 1 + s.work size := by
  cases kept with
  | none =>
      simp only [work, hcurrent]
      omega
  | some m =>
      have hlt := hlighter m rfl
      simp only [work, hcurrent, Option.toList_some, List.map_cons, List.map_nil, List.sum_cons,
        List.sum_nil, Option.toList_none]
      omega

/-- **A round goes on with less work, or leaves as it should.** -/
theorem rounds_round {a : Attempt L σ M} {size : M → Nat} (h : Progresses a size)
    (s : Flushing L σ M) : Rounds size s (s.round a).1 (s.round a).2 := by
  have htakes := s.takes_takeMsg
  unfold round
  generalize s.takeMsg = taken at htakes
  obtain ⟨_ | msg, s₁⟩ := taken
  · cases htakes with
    | nothing hcurrent hentries => exact .empty hcurrent hentries
  · obtain ⟨hcurrent, hwork⟩ : s₁.currentWrite = none ∧ s.work size = size msg + 1 + s₁.work size :=
      work_takes size htakes
    have hlighter := h.lighter s₁.os msg
    have hparks := h.parks s₁.os msg
    simp only [attempt, hcurrent]
    rcases hsettle : a.settle (a.offer s₁.os msg).1 none msg with ⟨e | _ | _, kept⟩
    · simp only [hsettle]
      exact .failed
    · simp only [hsettle]
      exact .blocked (hparks kept hsettle)
    · simp only [hsettle]
      refine .goesOn ?_
      rw [hwork]
      apply work_kept size _ hcurrent
      rintro m rfl
      exact hlighter m hsettle

private theorem round_decreases {a : Attempt L σ M} {size : M → Nat} (h : Progresses a size)
    (s s' : Flushing L σ M) (hround : s.round a = (s', none)) : s'.work size < s.work size := by
  have hrounds := rounds_round h s
  rw [hround] at hrounds
  cases hrounds with
  | goesOn hwork => exact hwork

/-- A loop whose attempts progress. -/
def loop (a : Attempt L σ M) (size : M → Nat) (h : Progresses a size) :
    Loop (Flushing L σ M) (Res L Bool) where
  body := round a
  measure := work size
  decreases := round_decreases h

/-- What a result tells of the state in which the loop returns. -/
def Tells (s : Flushing L σ M) (res : Res L Bool) : Prop :=
  (res = .ok true → s.currentWrite = none ∧ s.outQueue.entries = []) ∧
    (res = .ok false → s.currentWrite.isSome)

private theorem tells_of_round {a : Attempt L σ M} {size : M → Nat} (h : Progresses a size)
    {s s' : Flushing L σ M} {res : Res L Bool} (hround : s.round a = (s', some res)) :
    s'.Tells res := by
  have hrounds := rounds_round h s
  rw [hround] at hrounds
  constructor
  · rintro rfl
    cases hrounds with
    | empty hcurrent hentries => exact ⟨hcurrent, hentries⟩
  · rintro rfl
    cases hrounds with
    | blocked hcurrent => exact hcurrent

/-- The loop returns after at most `rounds` rounds, and tells what it leaves. -/
def EndsWithin (rounds : Nat) (a : Attempt L σ M) (s : Flushing L σ M) : Prop :=
  ∃ s' res, Loop.run (round a) rounds s = some (s', res) ∧ s'.Tells res

/-- **A loop whose attempts progress ends**, after as many rounds as there is
work, and one more. -/
theorem endsWithin_work {a : Attempt L σ M} {size : M → Nat} (h : Progresses a size)
    (s : Flushing L σ M) : s.EndsWithin (s.work size + 1) a := by
  refine ⟨_, _, (loop a size h).run_eq_exec (Nat.lt_succ_self _), ?_⟩
  exact (loop a size h).exec_rule (fun _ => True) Tells (fun _ _ _ _ => trivial)
    (fun s s' res _ hround => tells_of_round h hround) s trivial

end Flushing

/-! ## The three loops -/

namespace Inner

/-- The answer of `self.stream.write(&data)`: what was not accepted is kept. -/
def settleWrite (answer : IoResult Nat) (currentWrite : Option (Frame G)) (data : Frame G) :
    Res L Bool × Option (Frame G) :=
  match answer with
  | .ok bytesTxd =>
      (.ok true, if bytesTxd < data.bytes.length then some (data.drop bytesTxd) else currentWrite)
  | .error error =>
      if error.isRetry then (.ok false, some data) else (.error (.io error), currentWrite)

/-- `flush_write_until_would_block`, over a stream of any kind. -/
def flushWrite (write : σ → Bytes → IoResult Nat × σ) : Attempt L σ (Frame G) where
  offer os data := write os data.bytes
  settle := settleWrite

/-- What the loop works on. -/
def flushing (i : Inner L G) : Flushing L TcpStream (Frame G) :=
  ⟨i.stream, i.outQueue, i.currentWrite⟩

/-- **The scripted stream is one of them**: the rounds are the same. -/
theorem round_flushing (i : Inner L G) :
    i.flushing.round (flushWrite TcpStream.write) = (i.flushRound.1.flushing, i.flushRound.2) := by
  have htake : i.flushing.takeMsg = (i.takeData.1, i.takeData.2.flushing) := by
    unfold Flushing.takeMsg takeData flushing
    cases i.currentWrite <;> rfl
  have hattempt : ∀ (j : Inner L G) (data : Frame G),
      j.flushing.attempt (flushWrite TcpStream.write) data =
        ((j.writeData data).1.flushing, (j.writeData data).2) := by
    intro j data
    rcases hwrite : j.stream.write data.bytes with ⟨e | n, stream⟩
    · cases he : e.isRetry <;>
        simp [Flushing.attempt, flushWrite, flushing, writeData, hwrite, settleWrite, he,
          Flushing.leaves]
    · by_cases hlt : n < data.bytes.length <;>
        simp [Flushing.attempt, flushWrite, flushing, writeData, hwrite, settleWrite, hlt,
          Flushing.leaves]
  unfold Flushing.round flushRound
  rw [htake]
  rcases i.takeData with ⟨_ | data, j⟩
  · rfl
  · exact hattempt j data

/-- So are the runs. -/
theorem run_flushing (rounds : Nat) (i : Inner L G) :
    Loop.run (Flushing.round (flushWrite TcpStream.write)) rounds i.flushing =
      (Loop.run flushRound rounds i).map fun out => (out.1.flushing, out.2) :=
  Loop.run_map flushing round_flushing rounds i

/-- What is kept of data some of which was accepted is shorter. -/
private theorem progresses_flushWrite {write : σ → Bytes → IoResult Nat × σ}
    (hwrite : ∀ os data n, (write os data).1 = .ok n → 0 < data.length → 0 < n) :
    Flushing.Progresses (L := L) (flushWrite (G := G) write) fun data => data.bytes.length where
  lighter os data kept h := by
    have hpos := hwrite os data.bytes
    simp only [flushWrite, settleWrite] at h
    cases hanswer : (write os data.bytes).1 with
    | error e => cases he : e.isRetry <;> simp [hanswer, he] at h
    | ok n =>
        by_cases hlt : n < data.bytes.length
        · have hn : 0 < n := hpos n hanswer (by omega)
          obtain rfl : data.drop n = kept := by simpa [hanswer, hlt] using h
          simp only [Frame.drop, List.length_drop]
          omega
        · simp [hanswer, hlt] at h
  parks os data kept h := by
    simp only [flushWrite, settleWrite] at h
    cases hanswer : (write os data.bytes).1 with
    | error e =>
        cases he : e.isRetry with
        | true =>
            obtain rfl : some data = kept := by simpa [hanswer, he] using h
            rfl
        | false => simp [hanswer, he] at h
    | ok n => simp [hanswer] at h

end Inner

namespace Udp.Outgoing

/-- Either UDP loop, over a socket of any kind. -/
def flushSend (wire : Wire M) (send : σ → Bytes → Option SocketAddr → IoResult Nat × σ) :
    Attempt L σ M where
  offer os msg := send os (wire.data msg) (wire.peer msg)
  settle answer currentWrite msg := handleSendRes answer currentWrite (wire.data msg).length msg

/-- What the loop works on. -/
def flushing (o : Outgoing L M) : Flushing L UdpSocket M :=
  ⟨o.sock, o.outQueue, o.currentWrite⟩

/-- **The scripted socket is one of them**: the rounds are the same. -/
theorem round_flushing (wire : Wire M) (o : Outgoing L M) :
    o.flushing.round (flushSend wire UdpSocket.send) =
      ((o.flushRound wire).1.flushing, (o.flushRound wire).2) := by
  have htake : o.flushing.takeMsg = (o.takeMsg.1, o.takeMsg.2.flushing) := by
    unfold Flushing.takeMsg takeMsg flushing
    cases o.currentWrite <;> rfl
  have hattempt : ∀ (o : Outgoing L M) (msg : M),
      o.flushing.attempt (flushSend wire UdpSocket.send) msg =
        ((o.sendMsg wire msg).1.flushing, (o.sendMsg wire msg).2) := by
    intro o msg
    simp only [Flushing.attempt, flushSend, sendMsg, flushing]
    rcases handleSendRes (o.sock.send (wire.data msg) (wire.peer msg)).1 o.currentWrite
      (wire.data msg).length msg with ⟨e | _ | _, kept⟩ <;> rfl
  unfold Flushing.round flushRound
  rw [htake]
  rcases o.takeMsg with ⟨_ | msg, o₁⟩
  · rfl
  · exact hattempt o₁ msg

/-- So are the runs. -/
theorem run_flushing (wire : Wire M) (rounds : Nat) (o : Outgoing L M) :
    Loop.run (Flushing.round (flushSend wire UdpSocket.send)) rounds o.flushing =
      (Loop.run (flushRound wire) rounds o).map fun out => (out.1.flushing, out.2) :=
  Loop.run_map flushing (round_flushing wire) rounds o

/-- Nothing is kept of a datagram that was taken. -/
private theorem progresses_flushSend (wire : Wire M)
    {send : σ → Bytes → Option SocketAddr → IoResult Nat × σ}
    (hsend : ∀ os data peer n, (send os data peer).1 = .ok n → n = data.length) :
    Flushing.Progresses (L := L) (flushSend wire send) fun _ => 0 where
  lighter os msg kept h := by
    simp only [flushSend, handleSendRes] at h
    cases hanswer : (send os (wire.data msg) (wire.peer msg)).1 with
    | error e => cases he : e.isRetry <;> simp [hanswer, he] at h
    | ok n =>
        obtain rfl := hsend os _ _ n hanswer
        simp [hanswer] at h
  parks os msg kept h := by
    simp only [flushSend, handleSendRes] at h
    cases hanswer : (send os (wire.data msg) (wire.peer msg)).1 with
    | error e =>
        cases he : e.isRetry with
        | true =>
            obtain rfl : some msg = kept := by simpa [hanswer, he] using h
            rfl
        | false => simp [hanswer, he] at h
    | ok n => simp [hanswer] at h

end Udp.Outgoing

/-- **The flush loops end.**  Whatever is parked and queued, and however the
operating system answers: the TCP loop returns, if what is accepted of data that
is not empty is never nothing, and so do the two UDP loops, if a datagram that is
accepted is accepted whole.  A round makes one attempt at most, and there are no
more rounds than bytes and messages left, and one.  After `Ok(true)` nothing is
left, and after `Ok(false)` a message is parked. -/
theorem flush_loops_end :
    (∀ write : σ → Bytes → IoResult Nat × σ,
      (∀ os data n, (write os data).1 = .ok n → 0 < data.length → 0 < n) →
      ∀ s : Flushing L σ (Frame G),
        s.EndsWithin (s.work (fun data => data.bytes.length) + 1) (Inner.flushWrite write)) ∧
    ∀ send : σ → Bytes → Option SocketAddr → IoResult Nat × σ,
      (∀ os data peer n, (send os data peer).1 = .ok n → n = data.length) →
      (∀ s : Flushing L σ (Frame G),
        s.EndsWithin (s.work (fun _ => 0) + 1)
          (Outgoing.flushSend (Inner.sendPath (L := L)).wire send)) ∧
      ∀ s : Flushing L σ (Frame G × SocketAddr),
        s.EndsWithin (s.work (fun _ => 0) + 1)
          (Outgoing.flushSend (Inner.sendToPath (L := L)).wire send) := by
  refine ⟨fun write hwrite s => ?_, fun send hsend => ⟨fun s => ?_, fun s => ?_⟩⟩
  · exact Flushing.endsWithin_work (Inner.progresses_flushWrite hwrite) s
  · exact Flushing.endsWithin_work (Outgoing.progresses_flushSend _ hsend) s
  · exact Flushing.endsWithin_work (Outgoing.progresses_flushSend _ hsend) s

namespace BincodeInstance

/-- Two bytes are parked, and two messages queued, one of them empty. -/
def heldBack : Flushing crates Nat (Frame Unit) where
  os := 0
  outQueue := ((SendQueue.new .default).push 0 ⟨[], ()⟩ 3).push 0 ⟨[7], ()⟩ 1
  currentWrite := some ⟨[1, 2], ()⟩

/-- A byte at a time, and then an interruption. -/
def reluctantWrite (attempts : Nat) (data : Bytes) : IoResult Nat × Nat :=
  (if attempts = 3 then .error ⟨.interrupted, none⟩ else .ok (min 1 data.length), attempts + 1)

/-- Every datagram, whole. -/
def willingSend (attempts : Nat) (data : Bytes) (_ : Option SocketAddr) : IoResult Nat × Nat :=
  (.ok data.length, attempts + 1)

theorem flush_loops_end_heldBack :
    heldBack.EndsWithin 7 (Inner.flushWrite reluctantWrite) ∧
      heldBack.EndsWithin 4
        (Outgoing.flushSend (Inner.sendPath (L := crates)).wire willingSend) := by
  constructor
  · refine (flush_loops_end (L := crates) (G := Unit)).1 reluctantWrite ?_ heldBack
    intro os data n hok hpos
    by_cases hos : os = 3
    · simp [reluctantWrite, hos] at hok
    · obtain rfl : min 1 data.length = n := by simpa [reluctantWrite, hos] using hok
      omega
  · refine ((flush_loops_end (L := crates) (G := Unit)).2 willingSend ?_).1 heldBack
    intro os data peer n hok
    exact (Except.ok.inj hok).symm

end BincodeInstance

end SocketCollection
