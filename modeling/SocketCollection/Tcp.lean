import SocketCollection.Loop
import SocketCollection.OutQueueRefinement
import SocketCollection.Reader

/-!
# The TCP socket

`TcpSock` and its `Inner` (`tcp.rs`), over a non-blocking stream.

The operating system enters as a script: `TcpStream` holds the answers it will
give to the writes and the reads to come, and what it has accepted and
answered so far.  A script that has run out answers `WouldBlock`, so every
finite pattern of answers is a script, and the two loops of the socket, which
go round once for each answer, terminate.

A frame in the out queue is a `Vec<u8>`.  Here it is a `Frame`, which carries
a ghost `label` next to its bytes: no function looks at it, and statements
about runs use it to tell which frame is which.
-/

namespace SocketCollection

variable {L : Crates} {T G : Type}

/-! ## The stream -/

/-- `mio::tcp::TcpStream`: what it has accepted for sending, what it has
answered to the writes so far, and its answers to come. -/
structure TcpStream where
  accepted : Bytes
  answered : List (IoResult Nat)
  writeResults : List (IoResult Nat)
  readResults : List (IoResult Bytes)

namespace TcpStream

/-- A fresh stream with the given answers to come. -/
def scripted (writeResults : List (IoResult Nat)) (readResults : List (IoResult Bytes)) :
    TcpStream where
  accepted := []
  answered := []
  writeResults := writeResults
  readResults := readResults

/-- `stream.write(&buf)`: the front of the buffer that was accepted has the
length that is returned, which is never more than was offered. -/
def write (s : TcpStream) (buf : Bytes) : IoResult Nat × TcpStream :=
  match s.writeResults with
  | [] => (.error .wouldBlock, { s with answered := s.answered ++ [.error .wouldBlock] })
  | .error e :: rest =>
      (.error e, { s with answered := s.answered ++ [.error e], writeResults := rest })
  | .ok n :: rest =>
      let bytesTxd := min n buf.length
      (.ok bytesTxd, { s with
        accepted := s.accepted ++ buf.take bytesTxd
        answered := s.answered ++ [.ok bytesTxd]
        writeResults := rest })

/-- `s` answers a write with `a` and becomes `s'`. -/
structure Answers (s s' : TcpStream) (a : IoResult Nat) : Prop where
  answered : s'.answered = s.answered ++ [a]
  readResults : s'.readResults = s.readResults
  script : s.writeResults = [] ∧ s'.writeResults = [] ∧ a = .error .wouldBlock ∨
    ∃ a', s.writeResults = a' :: s'.writeResults ∧ a'.isHard = a.isHard

/-- What a write can do. -/
inductive Writes (s : TcpStream) (buf : Bytes) : IoResult Nat → TcpStream → Prop
  | accepts {n s'} (hn : n ≤ buf.length) (haccepted : s'.accepted = s.accepted ++ buf.take n)
      (h : Answers s s' (.ok n)) : Writes s buf (.ok n) s'
  | refuses {e s'} (haccepted : s'.accepted = s.accepted) (h : Answers s s' (.error e)) :
      Writes s buf (.error e) s'

theorem writes_write (s : TcpStream) (buf : Bytes) :
    Writes s buf (s.write buf).1 (s.write buf).2 := by
  unfold write
  split
  · next h => exact .refuses rfl ⟨rfl, rfl, .inl ⟨h, h, rfl⟩⟩
  · next e rest h => exact .refuses rfl ⟨rfl, rfl, .inr ⟨_, h, rfl⟩⟩
  · next n rest h => exact .accepts (Nat.min_le_right _ _) rfl ⟨rfl, rfl, .inr ⟨_, h, rfl⟩⟩

/-- An answer other than `WouldBlock` uses up some of the script. -/
theorem Answers.length_lt {s s' : TcpStream} {n : Nat} (h : Answers s s' (.ok n)) :
    s'.writeResults.length < s.writeResults.length := by
  rcases h.script with ⟨-, -, hcontra⟩ | ⟨a', hscript, -⟩
  · cases hcontra
  · simp [hscript]

/-- No answer so far or to come is a hard error. -/
def Soft (s : TcpStream) : Prop := ∀ a ∈ s.answered ++ s.writeResults, a.isHard = false

theorem Answers.soft {s s' : TcpStream} {a : IoResult Nat} (h : Answers s s' a)
    (hs : s.Soft) : s'.Soft := by
  intro b hb
  rw [h.answered] at hb
  rcases h.script with ⟨hnil, hnil', rfl⟩ | ⟨a', hscript, hhard⟩
  · simp only [hnil', List.append_nil, List.mem_append, List.mem_singleton] at hb
    rcases hb with hb | rfl
    · exact hs b (by simp [hb])
    · rfl
  · simp only [List.mem_append, List.mem_singleton] at hb
    rcases hb with (hb | rfl) | hb
    · exact hs b (by simp [hb])
    · rw [← hhard]
      exact hs a' (by simp [hscript])
    · exact hs b (by simp [hscript, hb])

/-- The mio reading window is max at 64k. -/
def readWindow : Nat := 64 * 1024

/-- `stream.read(&mut buffer)`: what does not fit the buffer is returned by
the next read. -/
def read (s : TcpStream) : IoResult Bytes × TcpStream :=
  match s.readResults with
  | [] => (.error .wouldBlock, s)
  | .error e :: rest => (.error e, { s with readResults := rest })
  | .ok bytes :: rest =>
      if bytes.length ≤ readWindow then (.ok bytes, { s with readResults := rest })
      else (.ok (bytes.take readWindow),
        { s with readResults := .ok (bytes.drop readWindow) :: rest })

/-- How much there is left to read: one for each answer, and its bytes. -/
def toRead (s : TcpStream) : Nat :=
  (s.readResults.map fun | .ok bytes => bytes.length + 1 | .error _ => 1).sum

/-- Every successful read uses up some of the script. -/
theorem read_toRead {s s' : TcpStream} {bytes : Bytes} (h : s.read = (.ok bytes, s')) :
    s'.toRead < s.toRead := by
  unfold read at h
  split at h
  · simp at h
  · simp at h
  · next bytes' rest heq =>
      split at h
      · obtain ⟨-, rfl⟩ := Prod.mk.inj h
        simp only [toRead, heq, List.map_cons, List.sum_cons]
        omega
      · obtain ⟨-, rfl⟩ := Prod.mk.inj h
        simp only [toRead, heq, List.map_cons, List.sum_cons, List.length_drop, readWindow]
        omega

end TcpStream

/-! ## The socket -/

/-- A serialised message, or the part of it that is still to be written. -/
structure Frame (G : Type) where
  bytes : Bytes
  label : G

/-- The frame without its first `n` bytes. -/
def Frame.drop (data : Frame G) (n : Nat) : Frame G := { data with bytes := data.bytes.drop n }

/-- The readings of the clock in one call of `write`. -/
structure Clock where
  dropExpired : Instant
  push : Instant

structure Inner (L : Crates) (G : Type) where
  stream : TcpStream
  msgReader : LenDelimitedReader L
  outQueue : SendQueue L (Frame G)
  currentWrite : Option (Frame G)
  encCtx : EncryptContext L

namespace Inner

def newWithConf (stream : TcpStream) (conf : SocketConfig L) : Inner L G where
  stream := stream
  msgReader := (LenDelimitedReader.new conf.maxPayloadSize).setDecryptCtx conf.decCtx
  outQueue := SendQueue.new conf
  currentWrite := none
  encCtx := conf.encCtx

def setEncryptCtx (i : Inner L G) (encCtx : EncryptContext L) : Inner L G :=
  { i with encCtx := encCtx }

def setDecryptCtx (i : Inner L G) (decCtx : DecryptContext L) : Inner L G :=
  { i with msgReader := i.msgReader.setDecryptCtx decCtx }

/-! ### Writing -/

/-- `self.current_write.take().or_else(|| self.out_queue.next_msg())`. -/
def takeData (i : Inner L G) : Option (Frame G) × Inner L G :=
  match i.currentWrite with
  | some data => (some data, { i with currentWrite := none })
  | none =>
      let (msg, outQueue) := i.outQueue.nextMsg
      (msg, { i with outQueue := outQueue })

/-- `self.stream.write(&data)` and what is made of the answer.  A hard error
leaves with the data taken. -/
def writeData (i : Inner L G) (data : Frame G) : Inner L G × Option (Res L Bool) :=
  match i.stream.write data.bytes with
  | (.ok bytesTxd, stream) =>
      if bytesTxd < data.bytes.length then
        ({ i with stream := stream, currentWrite := some (data.drop bytesTxd) }, none)
      else ({ i with stream := stream }, none)
  | (.error error, stream) =>
      if error.isRetry then
        ({ i with stream := stream, currentWrite := some data }, some (.ok false))
      else ({ i with stream := stream }, some (.error (.io error)))

/-- One round of the loop in `flush_write_until_would_block`. -/
def flushRound (i : Inner L G) : Inner L G × Option (Res L Bool) :=
  match i.takeData with
  | (none, i) => (i, some (.ok true))
  | (some data, i) => i.writeData data

/-- Taking the data to write changes the queue and what is kept. -/
theorem takes_takeData (i : Inner L G) :
    SendQueue.Takes (fun outQueue currentWrite =>
      { i with outQueue := outQueue, currentWrite := currentWrite }) i.outQueue i.currentWrite
        i.takeData.1 i.takeData.2 := by
  refine SendQueue.takes_of_eq (fun data hcurrent => ?_) fun hcurrent => ?_
  · rw [takeData, hcurrent]
  · rw [takeData, hcurrent]

/-- What `writeData` can do, one case for each kind of answer. -/
inductive WritesData (i : Inner L G) (data : Frame G) :
    Inner L G → Option (Res L Bool) → Prop
  | partly {n stream} (hn : n < data.bytes.length)
      (haccepted : stream.accepted = i.stream.accepted ++ data.bytes.take n)
      (h : i.stream.Answers stream (.ok n)) :
      WritesData i data { i with stream := stream, currentWrite := some (data.drop n) } none
  | wholly {stream} (haccepted : stream.accepted = i.stream.accepted ++ data.bytes)
      (h : i.stream.Answers stream (.ok data.bytes.length)) :
      WritesData i data { i with stream := stream } none
  | blocked {e stream} (he : e.isRetry = true) (haccepted : stream.accepted = i.stream.accepted)
      (h : i.stream.Answers stream (.error e)) :
      WritesData i data { i with stream := stream, currentWrite := some data } (some (.ok false))
  | failed {e stream} (he : e.isRetry = false) (haccepted : stream.accepted = i.stream.accepted)
      (h : i.stream.Answers stream (.error e)) :
      WritesData i data { i with stream := stream } (some (.error (.io e)))

theorem writesData_writeData (i : Inner L G) (data : Frame G) :
    WritesData i data (i.writeData data).1 (i.writeData data).2 := by
  have hwrites := i.stream.writes_write data.bytes
  unfold writeData
  generalize i.stream.write data.bytes = answer at hwrites
  obtain ⟨res, stream⟩ := answer
  cases hwrites with
  | @accepts n _ hn haccepted h =>
      by_cases hlt : n < data.bytes.length
      · simp only [hlt, if_true]
        exact .partly hlt haccepted h
      · obtain rfl : n = data.bytes.length := by omega
        simp only [hlt, if_false]
        rw [List.take_length] at haccepted
        exact .wholly haccepted h
  | @refuses e _ haccepted h =>
      cases he : e.isRetry with
      | true =>
          simp only [he, if_true]
          exact .blocked he haccepted h
      | false =>
          simp only [he, Bool.false_eq_true, if_false]
          exact .failed he haccepted h

/-- The stream and the remainder are all that writing changes. -/
theorem WritesData.frame {i i' : Inner L G} {data : Frame G} {out : Option (Res L Bool)}
    (h : WritesData i data i' out) :
    i'.outQueue = i.outQueue ∧ i'.encCtx = i.encCtx ∧ i'.msgReader = i.msgReader := by
  cases h <;> exact ⟨rfl, rfl, rfl⟩

/-- What is kept for later is the end of the data, and not nothing. -/
theorem WritesData.current {i i' : Inner L G} {data : Frame G} {out : Option (Res L Bool)}
    (h : WritesData i data i' out) (hnone : i.currentWrite = none) :
    ∀ kept, i'.currentWrite = some kept → kept.label = data.label ∧
      kept.bytes <:+ data.bytes ∧ (0 < data.bytes.length → 0 < kept.bytes.length) := by
  intro kept hkept
  cases h with
  | partly hn _ _ =>
      obtain rfl := Option.some.inj hkept
      refine ⟨rfl, List.drop_suffix _ _, fun _ => ?_⟩
      simp only [Frame.drop, List.length_drop]
      omega
  | blocked _ _ _ =>
      obtain rfl := Option.some.inj hkept
      exact ⟨rfl, List.suffix_refl _, id⟩
  | wholly _ _ => simp [hnone] at hkept
  | failed _ _ _ => simp [hnone] at hkept

/-- Nothing that was accepted is taken back. -/
theorem WritesData.accepted {i i' : Inner L G} {data : Frame G} {out : Option (Res L Bool)}
    (h : WritesData i data i' out) : i.stream.accepted <+: i'.stream.accepted := by
  cases h with
  | partly _ haccepted _ => exact ⟨_, haccepted.symm⟩
  | wholly haccepted _ => exact ⟨_, haccepted.symm⟩
  | blocked _ haccepted _ => exact ⟨[], by simp [haccepted]⟩
  | failed _ haccepted _ => exact ⟨[], by simp [haccepted]⟩

/-- A round that goes on has used up an answer of the stream. -/
private theorem flushRound_decreases (i i' : Inner L G) (h : i.flushRound = (i', none)) :
    i'.stream.writeResults.length < i.stream.writeResults.length := by
  have htakes := i.takes_takeData
  unfold flushRound at h
  generalize i.takeData = taken at h htakes
  obtain ⟨_ | data, i₁⟩ := taken
  · simp at h
  · have hstream : i₁.stream = i.stream := by cases htakes <;> rfl
    have hwrites := i₁.writesData_writeData data
    replace h : i₁.writeData data = (i', none) := h
    rw [h] at hwrites
    rw [← hstream]
    cases hwrites with
    | partly _ _ hanswers => exact hanswers.length_lt
    | wholly _ hanswers => exact hanswers.length_lt

/-- The loop in `flush_write_until_would_block`. -/
def flushLoop : Loop (Inner L G) (Res L Bool) where
  body := flushRound
  measure i := i.stream.writeResults.length
  decreases := flushRound_decreases

/-- Write until the stream would block.  Returns `Ok(false)`, if write to the
underlying stream would block. -/
def flushWriteUntilWouldBlock (i : Inner L G) : Res L Bool × Inner L G :=
  let (i, res) := flushLoop.exec i
  (res, i)

section Write

variable [Serde L UInt32] [Serde L T]

def enqueueData (i : Inner L G) (now : Instant) (nonces : FrameNonces L) (label : G)
    (priority : Priority) (msg : T) : Res L Unit × Inner L G :=
  match serializeWithLen nonces msg i.encCtx with
  | .error e => (.error e, i)
  | .ok buf => (.ok (), { i with outQueue := i.outQueue.push now ⟨buf, label⟩ priority })

/-- Drop what has expired, enqueue the message, if there is one, and flush. -/
def write (i : Inner L G) (clock : Clock) (nonces : FrameNonces L) (label : G)
    (msg : Option (T × Priority)) : Res L Bool × Inner L G :=
  let i := { i with outQueue := (i.outQueue.dropExpired clock.dropExpired).2 }
  match msg with
  | none => i.flushWriteUntilWouldBlock
  | some (msg, priority) =>
      match i.enqueueData clock.push nonces label priority msg with
      | (.error e, i) => (.error e, i)
      | (.ok (), i) => i.flushWriteUntilWouldBlock

end Write

/-! ### Reading -/

section Read

variable [Serde L UInt32] [Serde L T]

/-- `self.msg_reader.try_read()`. -/
def tryRead (T : Type) [Serde L T] (i : Inner L G) : Res L (Option T) × Inner L G :=
  let (res, msgReader) := i.msgReader.tryRead T
  (res, { i with msgReader := msgReader })

/-- The state of the loop in `read`. -/
structure Reading (L : Crates) (G : Type) where
  inner : Inner L G
  isSomethingRead : Bool

/-- One round of the loop in `read`. -/
def readRound (T : Type) [Serde L T] (s : Reading L G) :
    Reading L G × Option (Res L (Option T)) :=
  match s.inner.stream.read with
  | (.ok bytes, stream) =>
      let i := { s.inner with stream := stream }
      if bytes.length = 0 then
        if s.isSomethingRead then
          match i.tryRead T with
          | (.ok none, i) => ({ s with inner := i }, some (.error .zeroByteRead))
          | (res, i) => ({ s with inner := i }, some res)
        else ({ s with inner := i }, some (.error .zeroByteRead))
      else (⟨{ i with msgReader := i.msgReader.putBuf bytes }, true⟩, none)
  | (.error error, stream) =>
      let i := { s.inner with stream := stream }
      if error.isRetry then
        if s.isSomethingRead then
          let (res, i) := i.tryRead T
          ({ s with inner := i }, some res)
        else ({ s with inner := i }, some (.ok none))
      else ({ s with inner := i }, some (.error (.io error)))

/-- What a round of reading can do: take a segment, or leave, with or without
asking the reader once more. -/
inductive ReadsRound (T : Type) [Serde L T] (s : Reading L G) :
    Reading L G → Option (Res L (Option T)) → Prop
  | segment {bytes stream} (hread : s.inner.stream.read = (.ok bytes, stream)) :
      ReadsRound T s
        ⟨{ s.inner with stream := stream, msgReader := s.inner.msgReader.putBuf bytes }, true⟩ none
  | asks {answer stream res msgReader} (hread : s.inner.stream.read = (answer, stream))
      (htry : s.inner.msgReader.tryRead T = (res, msgReader))
      (hnone : res = .ok none → ∃ e, answer = .error e) :
      ReadsRound T s { s with inner := { s.inner with stream := stream, msgReader := msgReader } }
        (some res)
  | ended {bytes stream msgReader} (hread : s.inner.stream.read = (.ok bytes, stream))
      (htry : s.inner.msgReader.tryRead T = (.ok none, msgReader)) :
      ReadsRound T s { s with inner := { s.inner with stream := stream, msgReader := msgReader } }
        (some (.error .zeroByteRead))
  | idle {e stream} (hread : s.inner.stream.read = (.error e, stream)) :
      ReadsRound T s { s with inner := { s.inner with stream := stream } } (some (.ok none))
  | closed {bytes stream} (hread : s.inner.stream.read = (.ok bytes, stream)) :
      ReadsRound T s { s with inner := { s.inner with stream := stream } }
        (some (.error .zeroByteRead))
  | failed {e stream} (hread : s.inner.stream.read = (.error e, stream)) :
      ReadsRound T s { s with inner := { s.inner with stream := stream } }
        (some (.error (.io e)))

theorem readsRound_readRound (s : Reading L G) :
    ReadsRound T s (readRound T s).1 (readRound T s).2 := by
  rcases hread : s.inner.stream.read with ⟨e | bytes, stream⟩
  · simp only [readRound, hread]
    split
    · split
      · exact .asks hread rfl fun _ => ⟨e, rfl⟩
      · exact .idle hread
    · exact .failed hread
  · simp only [readRound, hread, tryRead]
    split
    · split
      · rcases htry : s.inner.msgReader.tryRead T with ⟨_ | _ | message, msgReader⟩
        · exact .asks hread htry nofun
        · exact .ended hread htry
        · exact .asks hread htry nofun
      · exact .closed hread
    · exact .segment hread

private theorem readRound_decreases (s s' : Reading L G) (h : readRound T s = (s', none)) :
    s'.inner.stream.toRead < s.inner.stream.toRead := by
  simp only [readRound] at h
  split at h
  · next bytes stream hread =>
      have hlt := TcpStream.read_toRead hread
      split at h
      · split at h
        · split at h <;> simp at h
        · simp at h
      · obtain ⟨rfl, -⟩ := Prod.mk.inj h
        exact hlt
  · split at h
    · split at h <;> simp at h
    · simp at h

def readLoop (T : Type) [Serde L T] : Loop (Reading L G) (Res L (Option T)) where
  body := readRound T
  measure s := s.inner.stream.toRead
  decreases := readRound_decreases

/-- Read one message: a buffered one if there is one, else what the stream
has to offer first. -/
def read (T : Type) [Serde L T] (i : Inner L G) : Res L (Option T) × Inner L G :=
  match i.tryRead T with
  | (.error e, i) => (.error e, i)
  | (.ok (some message), i) => (.ok (some message), i)
  | (.ok none, i) =>
      let (s, res) := (readLoop T).exec ⟨i, false⟩
      (res, s.inner)

/-- **The rule for one call of `read`.**  `P none` is the invariant of the loop,
and `P (some res)` what holds when it leaves with `res`. -/
theorem read_rule {P : Option (Res L (Option T)) → Inner L G → Prop} {i : Inner L G}
    (hleaves : ∀ res r, i.msgReader.tryRead T = (res, r) → res ≠ .ok none →
      P (some res) { i with msgReader := r })
    (hgoes : ∀ r, i.msgReader.tryRead T = (.ok none, r) → P none { i with msgReader := r })
    (hround : ∀ s s' out, P none s.inner → ReadsRound T s s' out → P out s'.inner) :
    P (some (i.read T).1) (i.read T).2 := by
  simp only [read, tryRead]
  rcases htry : i.msgReader.tryRead T with ⟨_ | _ | message, r⟩
  · exact hleaves _ _ htry nofun
  · refine (readLoop T).exec_rule (fun s => P none s.inner) (fun s res => P (some res) s.inner)
      ?_ ?_ _ (hgoes _ htry)
    · intro s s' h hbody
      replace hbody : readRound T s = (s', none) := hbody
      have hreads := readsRound_readRound (T := T) s
      rw [hbody] at hreads
      exact hround s s' none h hreads
    · intro s s' res h hbody
      replace hbody : readRound T s = (s', some res) := hbody
      have hreads := readsRound_readRound (T := T) s
      rw [hbody] at hreads
      exact hround s s' (some res) h hreads
  · exact hleaves _ _ htry nofun

end Read

end Inner

/-- `TcpSock`: uninitialised until it wraps a stream. -/
structure TcpSock (L : Crates) (G : Type) where
  inner : Option (Inner L G)

namespace TcpSock

/-- `TcpSock::default()`. -/
def default : TcpSock L G := ⟨none⟩

def wrapWithConf (stream : TcpStream) (conf : SocketConfig L) : TcpSock L G :=
  ⟨some (Inner.newWithConf stream conf)⟩

/-- `self.inner.as_mut().ok_or(SocketError::UninitialisedSocket)?`, and then
the call on what is inside. -/
def withInner {α : Type} (s : TcpSock L G) (call : Inner L G → Res L α × Inner L G) :
    Res L α × TcpSock L G :=
  match s.inner with
  | none => (.error .uninitialisedSocket, s)
  | some i => ((call i).1, ⟨some (call i).2⟩)

def setEncryptCtx (s : TcpSock L G) (encCtx : EncryptContext L) : Res L Unit × TcpSock L G :=
  s.withInner fun i => (.ok (), i.setEncryptCtx encCtx)

def setDecryptCtx (s : TcpSock L G) (decCtx : DecryptContext L) : Res L Unit × TcpSock L G :=
  s.withInner fun i => (.ok (), i.setDecryptCtx decCtx)

variable [Serde L UInt32]

def read (T : Type) [Serde L T] (s : TcpSock L G) : Res L (Option T) × TcpSock L G :=
  s.withInner (Inner.read T)

def write [Serde L T] (s : TcpSock L G) (clock : Clock) (nonces : FrameNonces L) (label : G)
    (msg : Option (T × Priority)) : Res L Bool × TcpSock L G :=
  s.withInner fun i => i.write clock nonces label msg

end TcpSock

end SocketCollection
