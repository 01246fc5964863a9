import SocketCollection.UdpMixedReceiver
import SocketCollection.UdpSender

/-!
# From one UDP socket to another

A sender whose datagrams are all accepted hands the encryption of each value to
the operating system as the value is written (`writeAll_idle`).  A peer to
which these datagrams are handed, in order and in whatever groups, reads the
values back (`Peer.reads_prefix`, `Peer.reads_complete`).

The one exception is a value that is serialised in no bytes: its datagram is
empty, and the receiver keeps no empty datagram.
-/

namespace SocketCollection.Udp

variable {L : Crates} {G M T : Type}

/-! ## What is still to arrive -/

/-- The datagrams among some answers, as a receive hands them over. -/
def datagrams (answers : List (IoResult (Bytes × SocketAddr))) : List (Bytes × SocketAddr) :=
  answers.filterMap fun
    | .ok d => some (d.1.take bufLen, d.2)
    | .error _ => none

/-- No answer to come is a hard error. -/
def UdpSocket.Calm (s : UdpSocket) : Prop := ∀ e, .error e ∈ s.recvResults → e.isRetry = true

/-- The datagrams that are still to arrive. -/
def UdpSocket.toArrive (s : UdpSocket) : List (Bytes × SocketAddr) :=
  (datagrams s.recvResults).filter fun d => !d.1.isEmpty

namespace UdpSocket

/-- What arrives was still to arrive, and the script is used up in order. -/
theorem recvFrom_toArrive (s : UdpSocket) :
    s.recvFrom.2.arrived ++ s.recvFrom.2.toArrive = s.arrived ++ s.toArrive ∧
      s.recvFrom.2.recvResults = s.recvResults.tail := by
  obtain ⟨received, offered, _ | ⟨e | ⟨payload, sender⟩, rest⟩, sendResults⟩ := s
  · exact ⟨rfl, rfl⟩
  · exact ⟨by simp [recvFrom, toArrive, datagrams, arrived], rfl⟩
  · refine ⟨?_, rfl⟩
    cases hnil : (payload.take bufLen).isEmpty <;>
      simp [recvFrom, toArrive, datagrams, arrived, hnil]

theorem Calm.recvFrom {s : UdpSocket} (h : s.Calm) : s.recvFrom.2.Calm := by
  intro e he
  rw [(s.recvFrom_toArrive).2] at he
  exact h e (List.mem_of_mem_tail he)

theorem Calm.not_failsNext {s : UdpSocket} (h : s.Calm) : ¬ s.FailsNext := by
  rintro ⟨e, he, hhard⟩
  have hmem : ∀ answers : List (IoResult (Bytes × SocketAddr)),
      firstError answers = some e → .error e ∈ answers := by
    intro answers
    induction answers with
    | nil => exact nofun
    | cons answer answers ih =>
        cases answer with
        | ok d => exact fun h => List.mem_cons_of_mem _ (ih h)
        | error e' =>
            intro h
            obtain rfl : e' = e := Option.some.inj h
            exact List.mem_cons_self
  rw [h e (hmem _ he)] at hhard
  cases hhard

end UdpSocket

namespace Incoming

variable [IsEmpty M] (view : Bytes × SocketAddr → M)

/-- Calls that are left to empty the buffer and the script, at most. -/
def left (s : Incoming M) : Nat := 2 * s.sock.recvResults.length + s.readBuffer.length

private theorem recvRound_sock (s : Incoming M) :
    (recvRound (L := L) view s).1.sock = s.sock.recvFrom.2 := by
  unfold recvRound UdpSocket.recvAs
  rcases s.sock.recvFrom with ⟨e | d, sock⟩
  · cases he : e.isRetry <;> simp [Except.map, handleRecvRes, he]
  · rfl

/-- What every receive preserves, drawing a datagram preserves. -/
theorem next_rule {P : UdpSocket → Prop} (hrecv : ∀ sock, P sock → P sock.recvFrom.2)
    {s : Incoming M} (hs : P s.sock) : P (s.next (L := L) view).2.sock := by
  obtain ⟨sock, _ | ⟨msg, readBuffer⟩⟩ := s
  · refine (recvLoop (L := L) view).exec_invariant (fun s => P s.sock) ?_ hs
    intro s h
    have hsock := recvRound_sock (L := L) view s
    show P (recvRound (L := L) view s).1.sock
    rw [hsock]
    exact hrecv s.sock h
  · exact hs

/-- A round has less left, unless there is nothing. -/
private theorem recvRound_left (s : Incoming M) :
    (recvRound (L := L) view s).1.left < s.left ∨
      (recvRound (L := L) view s).1.left = 0 ∧ (recvRound (L := L) view s).2.isSome := by
  obtain ⟨⟨received, offered, _ | ⟨e | ⟨payload, sender⟩, rest⟩, sendResults⟩, readBuffer⟩ := s
  · cases readBuffer with
    | nil => exact .inr ⟨rfl, rfl⟩
    | cons msg readBuffer =>
        left
        simp [recvRound, UdpSocket.recvAs, UdpSocket.recvFrom, Except.map, handleRecvRes, left,
          IoError.wouldBlock, IoError.isRetry]
  · left
    cases he : e.isRetry
    · simp [recvRound, UdpSocket.recvAs, UdpSocket.recvFrom, Except.map, handleRecvRes, left, he]
    · simp [recvRound, UdpSocket.recvAs, UdpSocket.recvFrom, Except.map, handleRecvRes, left, he]
      omega
  · left
    simp only [recvRound, UdpSocket.recvAs, UdpSocket.recvFrom, Except.map, handleRecvRes, left]
    split
    · simp
    · simp
      omega

/-- **A call has less left, unless there is nothing.** -/
theorem next_left (s : Incoming M) :
    (s.next (L := L) view).2.left < s.left ∨ (s.next (L := L) view).2.left = 0 := by
  obtain ⟨sock, _ | ⟨msg, readBuffer⟩⟩ := s
  · refine (recvLoop (L := L) view).exec_rule (fun t => t.left ≤ left ⟨sock, []⟩)
      (fun t _ => t.left < left ⟨sock, []⟩ ∨ t.left = 0) ?_ ?_ ⟨sock, []⟩ (Nat.le_refl _)
    · intro t t' ht hbody
      have hround := recvRound_left (L := L) view t
      replace hbody : recvRound view t = (t', none) := hbody
      rw [hbody] at hround
      rcases hround with hlt | ⟨-, hsome⟩
      · exact Nat.le_trans (Nat.le_of_lt hlt) ht
      · cases hsome
    · intro t t' r ht hbody
      have hround := recvRound_left (L := L) view t
      replace hbody : recvRound view t = (t', some r) := hbody
      rw [hbody] at hround
      rcases hround with hlt | ⟨hzero, -⟩
      · exact .inl (Nat.lt_of_lt_of_le hlt ht)
      · exact .inr hzero
  · left
    simp [next, left]

end Incoming

/-! ## Letters -/

variable [Serde L T]

/-- A value to be sent, with its encryption, which fits a datagram. -/
structure Letter (L : Crates) (T : Type) [Serde L T] (encCtx : EncryptContext L) where
  clock : Clock
  nonce : L.Nonce
  value : T
  payload : Bytes
  encrypted : encCtx.encrypt nonce value = .ok payload
  fits : payload.length ≤ bufLen

variable {encCtx : EncryptContext L}

/-- The letters that a receiver does not take for nothing. -/
def nonEmpty (letters : List (Letter L T encCtx)) : List (Letter L T encCtx) :=
  letters.filter fun letter => !letter.payload.isEmpty

/-- What a call of `read` returned, unless it was told to wait. -/
def heard : Res L (Option T) → Option (Res L T)
  | .ok none => none
  | .ok (some value) => some (.ok value)
  | .error e => some (.error e)

/-! ## The peer -/

/-- The results of so many calls of `read`. -/
def Inner.reads (T : Type) [Serde L T] : Nat → Inner L G → List (Res L (Option T))
  | 0, _ => []
  | n + 1, i => (i.read T).1 :: reads T n (i.read T).2

/-- The peer has yet to return these letters: it has buffered them, or they are
still to arrive. -/
structure Expects (letters : List (Letter L T encCtx)) (decCtx : DecryptContext L)
    (i : Inner L G) : Prop where
  calm : i.sock.Calm
  decCtx_eq : i.decCtx = decCtx
  payloads : i.readBuffer ++ i.sock.toArrive.map Prod.fst = letters.map Letter.payload

/-- A call loses nothing of what has arrived or is to arrive. -/
private theorem read_arrives (T : Type) [Serde L T] (i : Inner L G) :
    (i.read T).2.sock.arrived ++ (i.read T).2.sock.toArrive =
      i.sock.arrived ++ i.sock.toArrive := by
  rw [Inner.read, Inner.readVia_inner]
  exact Incoming.next_rule (L := L) Prod.fst
    (P := fun sock => sock.arrived ++ sock.toArrive = i.sock.arrived ++ i.sock.toArrive)
    (fun sock hsock => (sock.recvFrom_toArrive).1.trans hsock) (s := ⟨i.sock, i.readBuffer⟩) rfl

private theorem read_calm (T : Type) [Serde L T] {i : Inner L G} (h : i.sock.Calm) :
    (i.read T).2.sock.Calm := by
  rw [Inner.read, Inner.readVia_inner]
  exact Incoming.next_rule (L := L) Prod.fst (P := UdpSocket.Calm) (fun _ h => h.recvFrom)
    (s := ⟨i.sock, i.readBuffer⟩) h

/-- **One call returns the next letter, or nothing.** -/
theorem Expects.read [LawfulSerde L T] {letters : List (Letter L T encCtx)}
    {decCtx : DecryptContext L} {i : Inner L G} (h : Expects letters decCtx i)
    (hmatch : Matching encCtx decCtx) :
    (i.read T).1 = .ok none ∧ Expects letters decCtx (i.read T).2 ∨
      ∃ letter rest, letters = letter :: rest ∧ (i.read T).1 = .ok (some letter.value) ∧
        Expects rest decCtx (i.read T).2 := by
  have hall := read_arrives T i
  have hcalm := read_calm T h.calm
  have hctx : (i.read T).2.decCtx = decCtx := by
    rw [Inner.read, Inner.readVia_inner]
    exact h.decCtx_eq
  have hreads := i.readsVia_readVia Inner.recvPath T
  rw [← Inner.read] at hreads
  generalize i.read T = call at hall hcalm hctx hreads
  obtain ⟨res, i'⟩ := call
  cases hreads with
  | @handsOver _ _ new msg hres harrived hbuffer hfails =>
      right
      replace hres : res = (i.decCtx.decrypt msg).map some := hres
      replace hbuffer : i.readBuffer ++ new.map Prod.fst = msg :: i'.readBuffer := hbuffer
      have harrive : new ++ i'.sock.toArrive = i.sock.toArrive := by
        rw [harrived, List.append_assoc] at hall
        exact List.append_cancel_left hall
      have hpayloads : msg :: (i'.readBuffer ++ i'.sock.toArrive.map Prod.fst) =
          letters.map Letter.payload := by
        rw [← List.cons_append, ← hbuffer, List.append_assoc, ← List.map_append, harrive,
          h.payloads]
      obtain ⟨letter, rest, rfl, hpayload, hrest⟩ := List.map_eq_cons_iff.mp hpayloads.symm
      have hdec : i.decCtx.decrypt msg = .ok letter.value := by
        rw [h.decCtx_eq, ← hpayload]
        exact hmatch.decrypt_encrypt letter.encrypted
      refine ⟨letter, rest, rfl, ?_, hcalm, hctx, hrest.symm⟩
      show res = .ok (some letter.value)
      rw [hres, hdec]
      rfl
  | nothing harrived hempty hbuffer hfails =>
      left
      rw [harrived] at hall
      have harrive : i'.sock.toArrive = i.sock.toArrive := List.append_cancel_left hall
      replace hempty : i.readBuffer = [] := hempty
      replace hbuffer : i'.readBuffer = [] := hbuffer
      refine ⟨rfl, hcalm, hctx, ?_⟩
      rw [hbuffer, ← hempty, harrive]
      exact h.payloads
  | fails harrived hempty hbuffer hfails => exact absurd hfails h.calm.not_failsNext

/-- What a peer returns is the letters in order, up to some point. -/
theorem Expects.reads_prefix [LawfulSerde L T] {decCtx : DecryptContext L}
    (hmatch : Matching encCtx decCtx) (n : Nat) :
    ∀ {letters : List (Letter L T encCtx)} {i : Inner L G}, Expects letters decCtx i →
      (i.reads T n).filterMap heard <+: letters.map fun letter => .ok letter.value := by
  induction n with
  | zero => intro letters i _; exact List.nil_prefix
  | succ n ih =>
      intro letters i h
      rcases h.read hmatch with ⟨hres, hrest⟩ | ⟨letter, rest, rfl, hres, hrest⟩
      · rw [Inner.reads, hres]
        exact ih hrest
      · rw [Inner.reads, hres, List.map_cons]
        exact (List.prefix_cons_inj _).mpr (ih hrest)

private theorem read_left (i : Inner L G) (T : Type) [Serde L T] :
    Incoming.left ⟨(i.read T).2.sock, (i.read T).2.readBuffer⟩ <
        Incoming.left ⟨i.sock, i.readBuffer⟩ ∨
      Incoming.left ⟨(i.read T).2.sock, (i.read T).2.readBuffer⟩ = 0 := by
  rw [Inner.read, Inner.readVia_inner]
  exact Incoming.next_left (L := L) Prod.fst ⟨i.sock, i.readBuffer⟩

/-- A peer that has nothing left has nothing to return. -/
private theorem Expects.of_left {letters : List (Letter L T encCtx)} {decCtx : DecryptContext L}
    {i : Inner L G} (h : Expects letters decCtx i)
    (hleft : Incoming.left ⟨i.sock, i.readBuffer⟩ = 0) : letters = [] := by
  have hscript : i.sock.recvResults = [] := by
    rw [← List.length_eq_zero_iff]
    simp only [Incoming.left] at hleft
    omega
  have hbuffer : i.readBuffer = [] := by
    rw [← List.length_eq_zero_iff]
    simp only [Incoming.left] at hleft
    omega
  have hpayloads := h.payloads
  rw [hbuffer, UdpSocket.toArrive, hscript] at hpayloads
  exact List.map_eq_nil_iff.mp hpayloads.symm

/-- After enough calls a peer has returned all its letters. -/
theorem Expects.reads_complete [LawfulSerde L T] {decCtx : DecryptContext L}
    (hmatch : Matching encCtx decCtx) (n : Nat) :
    ∀ {letters : List (Letter L T encCtx)} {i : Inner L G}, Expects letters decCtx i →
      Incoming.left ⟨i.sock, i.readBuffer⟩ ≤ n →
        (i.reads T n).filterMap heard = letters.map fun letter => .ok letter.value := by
  induction n with
  | zero =>
      intro letters i h hleft
      obtain rfl := h.of_left (Nat.le_zero.mp hleft)
      rfl
  | succ n ih =>
      intro letters i h hleft
      have hless : Incoming.left ⟨(i.read T).2.sock, (i.read T).2.readBuffer⟩ ≤ n := by
        rcases read_left i T with hlt | hzero <;> omega
      rcases h.read hmatch with ⟨hres, hrest⟩ | ⟨letter, rest, rfl, hres, hrest⟩
      · rw [Inner.reads, hres]
        exact ih hrest hless
      · rw [Inner.reads, hres, List.map_cons, ← ih hrest hless]
        rfl

/-! ## The sender -/

/-- Write the letters one by one at one priority. -/
def Inner.writeAll (priority : Priority) (label : G) :
    List (Letter L T encCtx) → Inner L G → Inner L G
  | [], i => i
  | letter :: letters, i =>
      writeAll priority label letters
        (i.write letter.clock letter.nonce label (some (letter.value, priority))).2

omit [Serde L T] in
/-- A queue with one entry over a socket that takes it. -/
private theorem flush_single (wire : Wire M) {o : Outgoing L M} {e : Entry M}
    {rest : List SendAnswer} (hcurrent : o.currentWrite = none)
    (hentries : o.outQueue.entries = [e]) (hscript : o.sock.sendResults = .whole :: rest) :
    ∃ q, q.entries = [] ∧ (o.flush wire).2 =
      { sock := { o.sock with
          offered := o.sock.offered ++
            [⟨wire.data e.msg, wire.peer e.msg, .ok (wire.data e.msg).length⟩]
          sendResults := rest }
        outQueue := q
        currentWrite := none } := by
  obtain ⟨⟨received, offered, recvResults, sendResults⟩, outQueue, currentWrite⟩ := o
  obtain rfl : currentWrite = none := hcurrent
  obtain rfl : sendResults = .whole :: rest := hscript
  rcases outQueue.nextMsg_cases with ⟨hnil, -⟩ | ⟨e', q, hnext, hsplit, -⟩
  · simp only [] at hentries
    rw [hnil] at hentries
    cases hentries
  · obtain ⟨rfl, hq⟩ := List.cons.inj (hsplit.symm.trans hentries)
    have hlast : q.nextMsg = (none, q) := by
      rcases q.nextMsg_cases with ⟨-, hnone⟩ | ⟨_, _, -, hcons, -⟩
      · exact hnone
      · rw [hq] at hcons
        cases hcons
    refine ⟨q, hq, ?_⟩
    have hfirst : (Outgoing.flushLoop wire).body
        ⟨⟨received, offered, recvResults, .whole :: rest⟩, outQueue, none⟩ =
          (⟨⟨received, offered ++ [⟨wire.data e'.msg, wire.peer e'.msg,
            .ok (wire.data e'.msg).length⟩], recvResults, rest⟩, q, none⟩,
            (none : Option (Res L Bool))) := by
      simp [Outgoing.flushLoop, Outgoing.flushRound, Outgoing.takeMsg, hnext, Outgoing.sendMsg,
        UdpSocket.send, SendAnswer.result, handleSendRes]
    have hsecond : (Outgoing.flushLoop wire).body
        ⟨⟨received, offered ++ [⟨wire.data e'.msg, wire.peer e'.msg,
          .ok (wire.data e'.msg).length⟩], recvResults, rest⟩, q, none⟩ =
          (⟨⟨received, offered ++ [⟨wire.data e'.msg, wire.peer e'.msg,
            .ok (wire.data e'.msg).length⟩], recvResults, rest⟩, q, none⟩, some (.ok true)) := by
      simp [Outgoing.flushLoop, Outgoing.flushRound, Outgoing.takeMsg, hlast]
    simp only [Outgoing.flush, Loop.exec_next _ hfirst, Loop.exec_done _ hsecond]

/-- Nothing waits to be sent. -/
structure Idle (i : Inner L G) : Prop where
  currentWrite : i.currentWrite = none
  entries : i.outQueue.entries = []

/-- A value written by an idle socket whose next send is accepted. -/
private theorem write_idle {i : Inner L G} (h : Idle i) {rest : List SendAnswer}
    (hscript : i.sock.sendResults = .whole :: rest) (hctx : i.encCtx = encCtx)
    (letter : Letter L T encCtx) (priority : Priority) (label : G) :
    let i' := (i.write letter.clock letter.nonce label (some (letter.value, priority))).2
    Idle i' ∧ i'.encCtx = encCtx ∧ i'.sock.sendResults = rest ∧
      i'.sock.offered.map Offer.data = i.sock.offered.map Offer.data ++ [letter.payload] := by
  intro i'
  subst hctx
  have hdropped : (i.outQueue.dropExpired letter.clock.dropExpired).2.entries = [] := by
    have hsplit := (i.outQueue.dropExpired_entries letter.clock.dropExpired).1
    rw [h.entries] at hsplit
    exact (List.append_eq_nil_iff.mp hsplit.symm).1
  have hpushed := ((i.outQueue.dropExpired letter.clock.dropExpired).2.entries_push
    letter.clock.push (⟨letter.payload, label⟩ : Frame G) priority).perm
  rw [hdropped, List.nil_append, List.perm_singleton] at hpushed
  have hwrite : i' = Inner.sendPath.setOutgoing i (Outgoing.flush (Inner.sendPath (L := L)).wire
      ⟨i.sock, (i.outQueue.dropExpired letter.clock.dropExpired).2.push letter.clock.push
        ⟨letter.payload, label⟩ priority, i.currentWrite⟩).2 := by
    simp only [i', Inner.write, Inner.writeVia, Inner.encrypted, Option.map_some, letter.encrypted,
      Except.map]
    rfl
  obtain ⟨q, hq, hflush⟩ := flush_single (Inner.sendPath (L := L)).wire
    (o := ⟨i.sock, (i.outQueue.dropExpired letter.clock.dropExpired).2.push letter.clock.push
      ⟨letter.payload, label⟩ priority, i.currentWrite⟩) h.currentWrite hpushed hscript
  rw [hwrite, hflush]
  exact ⟨⟨rfl, hq⟩, rfl, rfl, by simp [Inner.sendPath]⟩

/-- **What is written is offered at once**, as long as every send is
accepted. -/
private theorem writeAll_idle (priority : Priority) (label : G) :
    ∀ (letters : List (Letter L T encCtx)) {i : Inner L G}, Idle i → i.encCtx = encCtx →
      i.sock.sendResults = List.replicate letters.length .whole →
        (Inner.writeAll priority label letters i).sock.offered.map Offer.data =
          i.sock.offered.map Offer.data ++ letters.map Letter.payload := by
  intro letters
  induction letters with
  | nil =>
      intro i _ _ _
      simp [Inner.writeAll]
  | cons letter letters ih =>
      intro i h hctx hscript
      obtain ⟨hidle, hctx', hrest, hoffered⟩ := write_idle h hscript hctx letter priority label
      rw [Inner.writeAll, ih hidle hctx' hrest, hoffered, List.map_cons, List.append_assoc]
      rfl

/-! ## The round trip -/

/-- The datagrams among some answers, as they were sent. -/
def handed (answers : List (IoResult (Bytes × SocketAddr))) : List Bytes :=
  answers.filterMap fun
    | .ok d => some d.1
    | .error _ => none

private theorem datagrams_payload (answers : List (IoResult (Bytes × SocketAddr))) :
    (datagrams answers).map Prod.fst = (handed answers).map (List.take bufLen) := by
  induction answers with
  | nil => rfl
  | cons answer answers ih =>
      cases answer with
      | ok d => simpa [datagrams, handed] using ih
      | error e => simpa [datagrams, handed] using ih

/-- A fresh peer to which the letters' datagrams will be handed expects those
that are not empty. -/
private theorem expects_fresh {letters : List (Letter L T encCtx)}
    {answers : List (IoResult (Bytes × SocketAddr))} {conf : SocketConfig L}
    (hcalm : ∀ e, .error e ∈ answers → e.isRetry = true)
    (hnet : handed answers = letters.map Letter.payload) :
    Expects (nonEmpty letters) conf.decCtx
      (Inner.new (UdpSocket.scripted answers []) conf : Inner L G) where
  calm := hcalm
  decCtx_eq := rfl
  payloads := by
    have hpayloads : (datagrams answers).map Prod.fst = letters.map Letter.payload := by
      rw [datagrams_payload, hnet, List.map_map]
      apply List.map_congr_left
      intro letter _
      exact List.take_of_length_le letter.fits
    have hfilter := congrArg (List.filter fun payload => !payload.isEmpty) hpayloads
    rw [List.filter_map, List.filter_map] at hfilter
    exact hfilter

/-- **Values written to a UDP socket are read back by its peer.**  Each send is
accepted in full, and the network hands the datagrams to the peer in order and
without loss, in whatever groups.  Then what the peer's calls of `read` return,
but for those that are told to wait, is the values in order; only those that
are serialised in no bytes are left out. -/
theorem udp_round_trip [LawfulSerde L T] {decCtx : DecryptContext L}
    (hmatch : Matching encCtx decCtx) {conf conf' : SocketConfig L}
    (henc : conf.encCtx = encCtx) (hdec : conf'.decCtx = decCtx) (priority : Priority) (label : G)
    (letters : List (Letter L T encCtx)) (answers : List (IoResult (Bytes × SocketAddr)))
    (hcalm : ∀ e, .error e ∈ answers → e.isRetry = true)
    (hnet : handed answers = (Inner.writeAll priority label letters (Inner.new
      (UdpSocket.scripted [] (List.replicate letters.length .whole)) conf)).sock.offered.map
        Offer.data) :
    let peer : Inner L G := Inner.new (UdpSocket.scripted answers []) conf'
    let expected : List (Res L T) := (nonEmpty letters).map fun letter => .ok letter.value
    (∀ n, (peer.reads T n).filterMap heard <+: expected) ∧
      ∃ k, ∀ n, k ≤ n → (peer.reads T n).filterMap heard = expected := by
  intro peer expected
  rw [writeAll_idle (i := Inner.new _ conf) priority label letters ⟨rfl, SendQueue.entries_new conf⟩
    henc rfl] at hnet
  subst hdec
  have hexpects : Expects (nonEmpty letters) conf'.decCtx peer := expects_fresh hcalm hnet
  exact ⟨fun n => hexpects.reads_prefix hmatch n, _,
    fun n hn => hexpects.reads_complete hmatch n hn⟩

namespace BincodeInstance

open SocketCollection.BincodeInstance

/-- A number, sent in the clear. -/
def clearLetter (v : UInt32) : Letter crates UInt32 .null where
  clock := ⟨0, 0⟩
  nonce := (0 : UInt8)
  value := v
  payload := Bincode.encode v
  encrypted := rfl
  fits := by simp [Bincode.encode, bufLen]

/-- Two numbers, the second of which is handed over after a while. -/
def twoAnswers : List (IoResult (Bytes × SocketAddr)) :=
  [.ok ([5, 0, 0, 0], peer), .error .wouldBlock, .ok ([6, 0, 0, 0], peer)]

theorem udp_round_trip_two :
    let peer : Inner crates Unit := Inner.new (UdpSocket.scripted twoAnswers []) .default
    let expected : List (Res crates UInt32) :=
      (nonEmpty [clearLetter 5, clearLetter 6]).map fun letter => .ok letter.value
    (∀ n, (peer.reads UInt32 n).filterMap heard <+: expected) ∧
      ∃ k, ∀ n, k ≤ n → (peer.reads UInt32 n).filterMap heard = expected := by
  have henc : (SocketConfig.default (L := crates)).encCtx = .null := rfl
  refine udp_round_trip .null henc rfl 0 () [clearLetter 5, clearLetter 6] twoAnswers ?_ rfl
  intro e he
  simp only [twoAnswers, List.mem_cons, reduceCtorEq, Except.error.injEq, List.not_mem_nil,
    or_false, false_or] at he
  rw [he]
  rfl

/-- The unit value, which is serialised in no bytes. -/
def unitLetter : Letter crates Unit .null where
  clock := ⟨0, 0⟩
  nonce := (0 : UInt8)
  value := ()
  payload := []
  encrypted := rfl
  fits := by decide

/-- **A value that is serialised in no bytes is never read back**, although its
datagram is sent and handed to the peer. -/
theorem unit_never_read :
    let sender : Inner crates Unit := Inner.writeAll 0 () [unitLetter]
      (Inner.new (UdpSocket.scripted [] [.whole]) .default)
    let receiver : Inner crates Unit := Inner.new (UdpSocket.scripted [.ok ([], peer)] []) .default
    sender.sock.offered.map Offer.data = handed [.ok ([], peer)] ∧
      (∀ n, (receiver.reads Unit n).filterMap heard ≠ [.ok ()]) := by
  refine ⟨rfl, fun n hheard => ?_⟩
  have hexpects : Expects (nonEmpty [unitLetter]) (SocketConfig.default (L := crates)).decCtx
      (Inner.new (UdpSocket.scripted [.ok ([], peer)] []) .default : Inner crates Unit) := by
    have hnet : handed [.ok ([], peer)] = [unitLetter].map Letter.payload := rfl
    refine expects_fresh ?_ hnet
    intro e he
    simp at he
  have hprefix := hexpects.reads_prefix .null n
  rw [hheard] at hprefix
  have hlen := hprefix.length_le
  exact absurd hlen (by decide)

end BincodeInstance

end SocketCollection.Udp
