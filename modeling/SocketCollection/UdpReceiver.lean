import SocketCollection.Udp
import SocketCollection.Runs
import SocketCollection.BincodeInstance

/-!
# Receiving datagrams

A call of `read` or `read_frm` drains the socket into a buffer and hands over
the front of that.  `Draws` lists what the draining can do to the datagrams
that have arrived and to the buffer; both paths obey it.

## Main results

* `read_exactly_once`: on a socket that is read from in one way only, the
  calls hand over the datagrams that arrive, each once and in order.
* `mixed_in_order`: when both ways are mixed on one socket, the same holds as
  long as no call is made while the oldest datagram waits in the other buffer.
-/

namespace SocketCollection.Udp

open Runs

variable {L : Crates} {G M : Type}

/-- The datagrams that have arrived so far; empty ones are no messages. -/
def UdpSocket.arrived (s : UdpSocket) : List (Bytes × SocketAddr) :=
  s.received.filter fun d => !d.1.isEmpty

/-- The first error among some answers. -/
def firstError {α : Type} : List (IoResult α) → Option IoError
  | [] => none
  | .ok _ :: rest => firstError rest
  | .error e :: _ => some e

/-- The error that ends the next draining is a hard one. -/
def UdpSocket.FailsNext (s : UdpSocket) : Prop :=
  ∃ e, firstError s.recvResults = some e ∧ e.isRetry = false

/-! ## Draining the socket -/

namespace Incoming

variable [IsEmpty M] {view : Bytes × SocketAddr → M}

/-- What one round of the receiving loop does: it keeps a datagram unless it is
empty, or leaves with the front of the buffer, or with an error. -/
inductive RecvRounds (view : Bytes × SocketAddr → M) (s : Incoming M) :
    Incoming M → Option (Res L (Option M)) → Prop
  | keeps {s' new} (harrived : s'.sock.arrived = s.sock.arrived ++ new)
      (hbuffer : s'.readBuffer = s.readBuffer ++ new.map view)
      (hfails : s.sock.FailsNext ↔ s'.sock.FailsNext) : RecvRounds view s s' none
  | leaves {s'} (harrived : s'.sock.arrived = s.sock.arrived)
      (hbuffer : s'.readBuffer = s.readBuffer.tail) (hfails : ¬ s.sock.FailsNext) :
      RecvRounds view s s' (some (.ok s.readBuffer.head?))
  | fails {s' e} (harrived : s'.sock.arrived = s.sock.arrived)
      (hbuffer : s'.readBuffer = s.readBuffer) (hfails : s.sock.FailsNext) :
      RecvRounds view s s' (some (.error (.io e)))

theorem recvRounds_recvRound (hview : ∀ d, IsEmpty.isEmpty (view d) = d.1.isEmpty)
    (s : Incoming M) :
    RecvRounds view s (recvRound (L := L) view s).1 (recvRound (L := L) view s).2 := by
  obtain ⟨⟨received, offered, recvResults, sendResults⟩, readBuffer⟩ := s
  rcases recvResults with _ | ⟨e | ⟨payload, sender⟩, rest⟩
  · refine .leaves rfl rfl ?_
    rintro ⟨e, he, -⟩
    cases he
  · cases he : e.isRetry with
    | true =>
        simp only [recvRound, UdpSocket.recvAs, UdpSocket.recvFrom, Except.map, handleRecvRes, he,
          if_true]
        refine .leaves rfl rfl ?_
        rintro ⟨e', he', hhard⟩
        obtain rfl : e = e' := Option.some.inj he'
        simp [he] at hhard
    | false =>
        simp only [recvRound, UdpSocket.recvAs, UdpSocket.recvFrom, Except.map, handleRecvRes, he,
          Bool.false_eq_true, if_false]
        exact .fails rfl rfl ⟨e, rfl, he⟩
  · have hempty := hview (payload.take bufLen, sender)
    simp only [recvRound, UdpSocket.recvAs, UdpSocket.recvFrom, Except.map, handleRecvRes, hempty]
    cases hnil : (payload.take bufLen).isEmpty with
    | true =>
        refine @RecvRounds.keeps _ _ _ _ _ [] ?_ ?_ Iff.rfl
        · simp [UdpSocket.arrived, hnil]
        · simp
    | false =>
        refine @RecvRounds.keeps _ _ _ _ _ [(payload.take bufLen, sender)] ?_ ?_ Iff.rfl
        · simp [UdpSocket.arrived, hnil]
        · simp

/-- What taking the next datagram does: some arrive and are kept behind those
that are buffered, and the first of all is handed over, or there is none, or
the socket fails while nothing was buffered. -/
inductive Draws (view : Bytes × SocketAddr → M) (s : Incoming M) :
    Res L (Option M) → Incoming M → Prop
  | handsOver {s' new msg} (harrived : s'.sock.arrived = s.sock.arrived ++ new)
      (hbuffer : s.readBuffer ++ new.map view = msg :: s'.readBuffer)
      (hfails : s.readBuffer = [] → ¬ s.sock.FailsNext) : Draws view s (.ok (some msg)) s'
  | nothing {s'} (harrived : s'.sock.arrived = s.sock.arrived) (hempty : s.readBuffer = [])
      (hbuffer : s'.readBuffer = []) (hfails : ¬ s.sock.FailsNext) : Draws view s (.ok none) s'
  | fails {s' new e} (harrived : s'.sock.arrived = s.sock.arrived ++ new)
      (hempty : s.readBuffer = []) (hbuffer : s'.readBuffer = new.map view)
      (hfails : s.sock.FailsNext) : Draws view s (.error (.io e)) s'

/-- **Both paths draw from the socket in this way.** -/
theorem draws_next (hview : ∀ d, IsEmpty.isEmpty (view d) = d.1.isEmpty) (s : Incoming M) :
    Draws view s (s.next (L := L) view).1 (s.next (L := L) view).2 := by
  obtain ⟨sock, _ | ⟨msg, readBuffer⟩⟩ := s
  · -- the loop starts from the empty buffer, so all it holds has just arrived
    refine (recvLoop view).exec_rule
      (fun s => ∃ new, s.sock.arrived = sock.arrived ++ new ∧ s.readBuffer = new.map view ∧
        (sock.FailsNext ↔ s.sock.FailsNext))
      (fun s res => Draws view ⟨sock, []⟩ res s) ?_ ?_ ⟨sock, []⟩
      ⟨[], by simp, rfl, Iff.rfl⟩
    · rintro s s' ⟨new, harrived, hbuffer, hfails⟩ hbody
      have hround := recvRounds_recvRound (L := L) hview s
      replace hbody : recvRound view s = (s', none) := hbody
      rw [hbody] at hround
      cases hround with
      | @keeps new' harrived' hbuffer' hfails' =>
          refine ⟨new ++ new', ?_, ?_, hfails.trans hfails'⟩
          · rw [harrived', harrived, List.append_assoc]
          · rw [hbuffer', hbuffer, List.map_append]
    · rintro s s' res ⟨new, harrived, hbuffer, hfails⟩ hbody
      have hround := recvRounds_recvRound (L := L) hview s
      replace hbody : recvRound view s = (s', some res) := hbody
      rw [hbody] at hround
      cases hround with
      | leaves harrived' hbuffer' hfails' =>
          rw [harrived] at harrived'
          rw [hbuffer] at hbuffer' ⊢
          cases new with
          | nil =>
              rw [List.append_nil] at harrived'
              exact .nothing harrived' rfl hbuffer' fun h => hfails' (hfails.mp h)
          | cons d new =>
              refine .handsOver harrived' ?_ fun _ h => hfails' (hfails.mp h)
              simpa using hbuffer'.symm
      | fails harrived' hbuffer' hfails' =>
          exact .fails (harrived'.trans harrived) rfl (hbuffer'.trans hbuffer) (hfails.mpr hfails')
  · refine @Draws.handsOver _ _ _ _ _ [] msg (List.append_nil _).symm (List.append_nil _) ?_
    intro hnil
    cases hnil

end Incoming

/-! ## One way of reading -/

/-- A call on a socket that is read from in one way.  Each `read` may ask for
a type of its own. -/
inductive ReadOp (L : Crates) : Type 1
  | read (T : Type) [Serde L T]
  | setDecryptCtx (ctx : DecryptContext L)

/-- The call was neither told to wait nor given an error of the socket, so its
result stands for a datagram. -/
def answers {α : Type} : Res L (Option α) → Bool
  | .ok none => false
  | .error (.io _) => false
  | _ => true

/-- A socket, and how many calls have stood for a datagram so far. -/
structure Receiver (L : Crates) (G : Type) where
  inner : Inner L G
  answered : Nat

namespace Inner

variable [IsEmpty M] (path : ReadPath L G M)

/-- What a call of `read` or `read_frm` does, in terms of the datagrams that
arrive and of the buffer of its path. -/
inductive ReadsVia (T : Type) [Serde L T] (i : Inner L G) :
    Res L (Option (path.Result T)) → Inner L G → Prop
  | handsOver {res i' new msg} (hres : res = (path.decode i.decCtx msg).map some)
      (harrived : i'.sock.arrived = i.sock.arrived ++ new)
      (hbuffer : (path.incoming i).readBuffer ++ new.map path.view =
        msg :: (path.incoming i').readBuffer)
      (hfails : (path.incoming i).readBuffer = [] → ¬ i.sock.FailsNext) : ReadsVia T i res i'
  | nothing {i'} (harrived : i'.sock.arrived = i.sock.arrived)
      (hempty : (path.incoming i).readBuffer = []) (hbuffer : (path.incoming i').readBuffer = [])
      (hfails : ¬ i.sock.FailsNext) : ReadsVia T i (.ok none) i'
  | fails {i' new e} (harrived : i'.sock.arrived = i.sock.arrived ++ new)
      (hempty : (path.incoming i).readBuffer = [])
      (hbuffer : (path.incoming i').readBuffer = new.map path.view) (hfails : i.sock.FailsNext) :
      ReadsVia T i (.error (.io e)) i'

theorem readsVia_readVia (T : Type) [Serde L T] (i : Inner L G) :
    ReadsVia path T i (i.readVia path T).1 (i.readVia path T).2 := by
  have hdraws := (path.incoming i).draws_next (L := L) path.isEmpty_view
  have hsock : ∀ s, (path.setIncoming i s).sock = s.sock := by
    intro s
    rw [← path.incoming_sock, path.incoming_set]
  simp only [readVia]
  generalize (path.incoming i).next path.view = answer at hdraws
  obtain ⟨data, s⟩ := answer
  cases hdraws with
  | handsOver harrived hbuffer hfails =>
      simp only [path.set_decCtx]
      rw [path.incoming_sock] at harrived hfails
      refine .handsOver rfl ((congrArg _ (hsock s)).trans harrived) ?_ hfails
      rw [path.incoming_set]
      exact hbuffer
  | nothing harrived hempty hbuffer hfails =>
      rw [path.incoming_sock] at harrived hfails
      refine .nothing ((congrArg _ (hsock s)).trans harrived) hempty ?_ hfails
      rw [path.incoming_set]
      exact hbuffer
  | fails harrived hempty hbuffer hfails =>
      rw [path.incoming_sock] at harrived hfails
      refine .fails ((congrArg _ (hsock s)).trans harrived) hempty ?_ hfails
      rw [path.incoming_set]
      exact hbuffer

/-- What a call leaves behind does not depend on what comes of decrypting. -/
theorem readVia_inner (T : Type) [Serde L T] (i : Inner L G) :
    (i.readVia path T).2 = path.setIncoming i ((path.incoming i).next (L := L) path.view).2 := by
  simp only [readVia]
  split <;> rfl

/-- What a call returns, in terms of what was drawn. -/
theorem readVia_fst (T : Type) [Serde L T] (i : Inner L G) :
    (i.readVia path T).1 = match ((path.incoming i).next (L := L) path.view).1 with
      | .error e => .error e
      | .ok none => .ok none
      | .ok (some data) => (path.decode i.decCtx data).map some := by
  unfold Inner.readVia
  rcases (path.incoming i).next (L := L) path.view with ⟨_ | _ | data, incoming⟩
  · rfl
  · rfl
  · show (path.decode (path.setIncoming i incoming).decCtx data).map some = _
    rw [path.set_decCtx]

/-- What was decrypted stands for a datagram, also when that failed. -/
theorem answers_decode {T : Type} [Serde L T] (ctx : DecryptContext L)
    (msg : M) : answers ((path.decode (T := T) ctx msg).map some) = true := by
  cases hdec : path.decode (T := T) ctx msg with
  | ok v => rfl
  | error e =>
      cases e with
      | io e => exact absurd hdec (path.decode_ne_io ctx msg e)
      | _ => rfl

end Inner

namespace Receiver

def start (recvResults : List (IoResult (Bytes × SocketAddr))) (sendResults : List SendAnswer)
    (conf : SocketConfig L) : Receiver L G where
  inner := Inner.new (UdpSocket.scripted recvResults sendResults) conf
  answered := 0

variable [IsEmpty M] (path : ReadPath L G M)

def step (s : Receiver L G) : ReadOp L → Receiver L G
  | @ReadOp.read _ T _ =>
      let (res, i) := s.inner.readVia path T
      ⟨i, if answers res then s.answered + 1 else s.answered⟩
  | .setDecryptCtx ctx => { s with inner := s.inner.setDecryptCtx ctx }

/-- The call stands for the next datagram in the order of arrival, decrypted
under the context in force, and nothing is returned only when all that have
arrived have had their call. -/
def Exact (s : Receiver L G) : ReadOp L → Prop
  | @ReadOp.read _ T _ =>
      let (res, i) := s.inner.readVia path T
      (answers res = true → ∃ d, i.sock.arrived[s.answered]? = some d ∧
        res = (path.decode s.inner.decCtx (path.view d)).map some) ∧
      (res = .ok none → s.answered = i.sock.arrived.length)
  | .setDecryptCtx _ => True

/-- The datagrams that have not had their call are those in the buffer. -/
def Queued (s : Receiver L G) : Prop :=
  s.answered ≤ s.inner.sock.arrived.length ∧
    (s.inner.sock.arrived.drop s.answered).map path.view = (path.incoming s.inner).readBuffer

variable {path} {s : Receiver L G}

/-- **One call keeps the order, and stands for the next datagram.** -/
theorem Queued.read (h : s.Queued path) (T : Type) [Serde L T] :
    (s.step path (.read T)).Queued path ∧ s.Exact path (.read T) := by
  obtain ⟨hle, hbuf⟩ := h
  have hreads := s.inner.readsVia_readVia path T
  simp only [step, Exact, Queued]
  generalize s.inner.readVia path T = call at hreads
  obtain ⟨res, i⟩ := call
  cases hreads with
  | @handsOver _ i' new msg hres harrived hbuffer hfails =>
      replace hres : res = (path.decode s.inner.decCtx msg).map some := hres
      have hanswers : answers res = true := by
        rw [hres]
        exact Inner.answers_decode path s.inner.decCtx msg
      have hdrop : i.sock.arrived.drop s.answered =
          s.inner.sock.arrived.drop s.answered ++ new := by
        rw [harrived, List.drop_append_of_le_length hle]
      have hmap : (i.sock.arrived.drop s.answered).map path.view =
          msg :: (path.incoming i).readBuffer := by
        rw [hdrop, List.map_append, hbuf, hbuffer]
      obtain ⟨d, rest, hsplit, hd, hrest⟩ := List.map_eq_cons_iff.mp hmap
      have hget : i.sock.arrived[s.answered]? = some d := by
        rw [← List.head?_drop, hsplit, List.head?_cons]
      simp only [hanswers, if_true]
      refine ⟨⟨?_, ?_⟩, fun _ => ⟨d, hget, hd ▸ hres⟩, ?_⟩
      · exact (List.getElem?_eq_some_iff.mp hget).1
      · rw [← List.tail_drop, hsplit, List.tail_cons, hrest]
      · intro hnone
        simp [hnone, answers] at hanswers
  | nothing harrived hempty hbuffer hfails =>
      have hall : i.sock.arrived.drop s.answered = [] := by
        rw [harrived, ← List.map_eq_nil_iff, hbuf, hempty]
      have hlen : i.sock.arrived.length = s.inner.sock.arrived.length := by rw [harrived]
      refine ⟨⟨by simpa [answers, hlen] using hle, ?_⟩, nofun, fun _ => ?_⟩
      · simp [answers, hall, hbuffer]
      · rw [List.drop_eq_nil_iff] at hall
        show s.answered = i.sock.arrived.length
        omega
  | @fails i' new e harrived hempty hbuffer hfails =>
      have hdrop : i.sock.arrived.drop s.answered =
          s.inner.sock.arrived.drop s.answered ++ new := by
        rw [harrived, List.drop_append_of_le_length hle]
      have hlen : i.sock.arrived.length = s.inner.sock.arrived.length + new.length := by
        rw [harrived, List.length_append]
      refine ⟨⟨?_, ?_⟩, nofun, nofun⟩
      · simp only [answers, Bool.false_eq_true, if_false]
        omega
      · simp [answers, hdrop, hbuf, hempty, hbuffer]

private theorem Queued.exact (h : s.Queued path) (op : ReadOp L) : s.Exact path op := by
  cases op with
  | read T => exact (h.read T).2
  | setDecryptCtx ctx => trivial

private theorem queued_always
    (recvResults : List (IoResult (Bytes × SocketAddr))) (sendResults : List SendAnswer)
    (conf : SocketConfig L) (ops : List (ReadOp L))
    (hstart : (path.incoming (start recvResults sendResults conf).inner).readBuffer = []) :
    Always (step path) (Queued path) (start recvResults sendResults conf : Receiver L G) ops := by
  apply always_of_step
  · exact ⟨Nat.zero_le _, by rw [hstart]; rfl⟩
  · intro s op h
    cases op with
    | read T => exact (h.read T).1
    | setDecryptCtx ctx =>
        have hbuf := congrArg Incoming.readBuffer (path.incoming_decCtx s.inner ctx)
        exact ⟨h.1, h.2.trans hbuf.symm⟩

end Receiver

/-- **Datagrams are received exactly once and in order.**  On a socket that is
read from with `read` only, or with `read_frm` only, whatever the socket
answers and whenever the context is changed: the calls that were neither told
to wait nor given an error of the socket stand one by one for the datagrams in
the order of arrival, and nothing is returned only when all of them have had
their call. -/
theorem read_exactly_once (recvResults : List (IoResult (Bytes × SocketAddr)))
    (sendResults : List SendAnswer) (conf : SocketConfig L) (ops : List (ReadOp L)) :
    let fresh : Receiver L G := .start recvResults sendResults conf
    Each (Receiver.step Inner.recvPath) (Receiver.Exact Inner.recvPath) fresh ops ∧
      Each (Receiver.step Inner.recvFromPath) (Receiver.Exact Inner.recvFromPath) fresh ops := by
  intro fresh
  constructor
  · exact (Receiver.queued_always recvResults sendResults conf ops rfl).each
      fun s op h => h.exact op
  · exact (Receiver.queued_always recvResults sendResults conf ops rfl).each
      fun s op h => h.exact op

end SocketCollection.Udp
