import SocketCollection.UdpReceiver
import SocketCollection.StableQueue

/-!
# Mixing both ways of receiving

`read` and `read_frm` drain the same socket into buffers of their own.  A
datagram that one of them has drained is out of reach of the other, which may
hand over a later one first, or say that there is nothing.

A `Mixed` receiver keeps, next to the socket, the datagrams that have arrived
and have not had their call, in order of arrival and with the way that drained
them; the two buffers are what it has at either way (`Tracks`).  A call that
is `OldestOwn` takes the oldest of them.
-/

namespace SocketCollection.Udp

open Runs StableQueue

variable {L : Crates} {G M T : Type}

/-- The two ways of receiving. -/
inductive Way
  | read
  | readFrm
  deriving DecidableEq

/-- A call on a socket that is read from in both ways. -/
inductive MixedOp (L : Crates) : Type 1
  | read (T : Type) [Serde L T]
  | readFrm (T : Type) [Serde L T]
  | setDecryptCtx (ctx : DecryptContext L)

/-- A socket, the datagrams its calls have stood for, in the order of the
calls, and those that have arrived since and wait for theirs. -/
structure Mixed (L : Crates) (G : Type) where
  inner : Inner L G
  delivered : List (Bytes × SocketAddr)
  pending : List (Way × Bytes × SocketAddr)

namespace Mixed

def start (recvResults : List (IoResult (Bytes × SocketAddr))) (sendResults : List SendAnswer)
    (conf : SocketConfig L) : Mixed L G where
  inner := Inner.new (UdpSocket.scripted recvResults sendResults) conf
  delivered := []
  pending := []

/-- The datagrams of one way, as its buffer holds them. -/
def buffered (s : Mixed L G) (way : Way) : List (Bytes × SocketAddr) :=
  (atKey Prod.fst s.pending way).map Prod.snd

section Call

variable [IsEmpty M] (path : ReadPath L G M) (way : Way)

/-- All that waits once the call has drained the socket. -/
def drained (s : Mixed L G) (i : Inner L G) : List (Way × Bytes × SocketAddr) :=
  s.pending ++ (i.sock.arrived.drop s.inner.sock.arrived.length).map (Prod.mk way)

/-- A call: it drains the socket and, if its result stands for a datagram,
takes the first of its own way. -/
def call (T : Type) [Serde L T] (s : Mixed L G) : Mixed L G :=
  let (res, i) := s.inner.readVia path T
  let waiting := s.drained way i
  if answers res then
    { inner := i
      delivered := s.delivered ++ (earliest Prod.fst waiting way).toList.map Prod.snd
      pending := waiting.eraseP fun d => d.1 = way }
  else { s with inner := i, pending := waiting }

/-- The result is the decryption of the datagram the call has taken, and
nothing is returned only when nothing waits. -/
def Faithful (T : Type) [Serde L T] (s : Mixed L G) : Prop :=
  let res := (s.inner.readVia path T).1
  (answers res = true → ∃ d, (s.call path way T).delivered = s.delivered ++ [d] ∧
    res = (path.decode s.inner.decCtx (path.view d)).map some) ∧
  (res = .ok none → (s.call path way T).pending = [])

/-- The oldest datagram that waits, if any, was drained by this way of
receiving, or the call has nothing to hand over and meets a hard error. -/
def OldestOwn (s : Mixed L G) : Prop :=
  (∀ d ∈ s.pending.head?, d.1 = way) ∨
    (path.incoming s.inner).readBuffer = [] ∧ s.inner.sock.FailsNext

end Call

def step (s : Mixed L G) : MixedOp L → Mixed L G
  | @MixedOp.read _ T _ => s.call Inner.recvPath .read T
  | @MixedOp.readFrm _ T _ => s.call Inner.recvFromPath .readFrm T
  | .setDecryptCtx ctx => { s with inner := s.inner.setDecryptCtx ctx }

/-- `Faithful`, for whatever the call is. -/
def StepFaithful (s : Mixed L G) : MixedOp L → Prop
  | @MixedOp.read _ T _ => s.Faithful Inner.recvPath .read T
  | @MixedOp.readFrm _ T _ => s.Faithful Inner.recvFromPath .readFrm T
  | .setDecryptCtx _ => True

/-- `OldestOwn`, for whatever the call is. -/
def StepOldestOwn (s : Mixed L G) : MixedOp L → Prop
  | @MixedOp.read _ _ _ => s.OldestOwn Inner.recvPath .read
  | @MixedOp.readFrm _ _ _ => s.OldestOwn Inner.recvFromPath .readFrm
  | .setDecryptCtx _ => True

/-- What has arrived has been delivered, in the order of arrival, or waits. -/
def InOrder (s : Mixed L G) : Prop :=
  s.inner.sock.arrived = s.delivered ++ s.pending.map Prod.snd

/-- The buffers hold what waits. -/
structure Tracks (s : Mixed L G) : Prop where
  read : s.inner.readBuffer = (s.buffered .read).map Prod.fst
  readFrm : s.inner.readBuffer2 = s.buffered .readFrm

/-! ## One call -/

section Call

variable [IsEmpty M] {path : ReadPath L G M} {way : Way} {s : Mixed L G}

/-- Tagged datagrams, read off at a tag. -/
private theorem atKey_tagged (new : List (Bytes × SocketAddr)) (k : Way) :
    atKey Prod.fst (new.map (Prod.mk way)) k = if k = way then new.map (Prod.mk way) else [] := by
  by_cases hk : k = way
  · subst hk
    rw [if_pos rfl, atKey, List.filter_eq_self]
    intro d hd
    obtain ⟨_, -, rfl⟩ := List.mem_map.mp hd
    simp
  · rw [if_neg hk, atKey, List.filter_eq_nil_iff]
    intro d hd
    obtain ⟨_, -, rfl⟩ := List.mem_map.mp hd
    simpa using Ne.symm hk

/-- What a call does: it takes the first datagram of its own way out of those
that wait and arrive, or it takes none. -/
inductive Calls (path : ReadPath L G M) (way : Way) (T : Type) [Serde L T] (s : Mixed L G) :
    Mixed L G → Prop
  | takes {s' new d} (harrived : s'.inner.sock.arrived = s.inner.sock.arrived ++ new)
      (hfirst : earliest Prod.fst (s.pending ++ new.map (Prod.mk way)) way = some (way, d))
      (hdelivered : s'.delivered = s.delivered ++ [d])
      (hpending : s'.pending = (s.pending ++ new.map (Prod.mk way)).eraseP fun d => d.1 = way)
      (hres : (s.inner.readVia path T).1 = (path.decode s.inner.decCtx (path.view d)).map some)
      (hfails : (path.incoming s.inner).readBuffer = [] → ¬ s.inner.sock.FailsNext) :
      Calls path way T s s'
  | takesNone {s' new} (harrived : s'.inner.sock.arrived = s.inner.sock.arrived ++ new)
      (hempty : (path.incoming s.inner).readBuffer = []) (hdelivered : s'.delivered = s.delivered)
      (hpending : s'.pending = s.pending ++ new.map (Prod.mk way))
      (hres : answers (s.inner.readVia path T).1 = false)
      (hnone : (s.inner.readVia path T).1 = .ok none → new = [] ∧ ¬ s.inner.sock.FailsNext) :
      Calls path way T s s'

/-- The buffer of a way holds what waits at it, before and after a call. -/
def Buffers (path : ReadPath L G M) (way : Way) (s : Mixed L G) : Prop :=
  (path.incoming s.inner).readBuffer = (s.buffered way).map path.view

private theorem drained_eq {i : Inner L G} {new : List (Bytes × SocketAddr)}
    (harrived : i.sock.arrived = s.inner.sock.arrived ++ new) :
    s.drained way i = s.pending ++ new.map (Prod.mk way) := by
  rw [drained, harrived, List.drop_left' rfl]

/-- What waits at a way when its call has drained the socket. -/
private theorem Buffers.append (h : s.Buffers path way) (new : List (Bytes × SocketAddr)) :
    ((atKey Prod.fst (s.pending ++ new.map (Prod.mk way)) way).map Prod.snd).map path.view =
      (path.incoming s.inner).readBuffer ++ new.map path.view := by
  rw [h, atKey_append, atKey_tagged, if_pos rfl, buffered]
  simp [Function.comp_def]

/-- **A call does what `Calls` lists, and its buffer keeps up.** -/
theorem calls_call (h : s.Buffers path way) (T : Type) [Serde L T] :
    Calls path way T s (s.call path way T) ∧ (s.call path way T).Buffers path way := by
  have hreads := s.inner.readsVia_readVia path T
  have hcall : s.call path way T =
      if answers (s.inner.readVia path T).1 then
        { inner := (s.inner.readVia path T).2
          delivered := s.delivered ++ (earliest Prod.fst
            (s.drained way (s.inner.readVia path T).2) way).toList.map Prod.snd
          pending := (s.drained way (s.inner.readVia path T).2).eraseP fun d => d.1 = way }
      else { s with
        inner := (s.inner.readVia path T).2
        pending := s.drained way (s.inner.readVia path T).2 } := rfl
  rw [hcall]
  generalize hread : s.inner.readVia path T = read at hreads
  obtain ⟨res, i⟩ := read
  cases hreads with
  | @handsOver _ i new msg hres harrived hbuffer hfails =>
      replace hres : res = (path.decode s.inner.decCtx msg).map some := hres
      replace harrived : i.sock.arrived = s.inner.sock.arrived ++ new := harrived
      have hanswers : answers res = true := by
        rw [hres]
        exact Inner.answers_decode path s.inner.decCtx msg
      rw [← h.append new] at hbuffer
      obtain ⟨d, rest, hsplit, hd, hrest⟩ := List.map_eq_cons_iff.mp hbuffer
      obtain ⟨⟨way', d'⟩, rest', hkey, rfl, rfl⟩ := List.map_eq_cons_iff.mp hsplit
      have hfirst :
          earliest Prod.fst (s.pending ++ new.map (Prod.mk way)) way = some (way', d') := by
        rw [earliest_eq_head?, hkey, List.head?_cons]
      obtain rfl : way' = way := by simpa using List.find?_some hfirst
      simp only [hanswers, if_true, drained_eq harrived, hfirst]
      constructor
      · exact .takes harrived hfirst rfl rfl (by rw [hread]; exact hd ▸ hres) hfails
      · rw [Buffers, buffered, atKey_eraseP, if_pos rfl, hkey, List.tail_cons, hrest]
  | nothing harrived hempty hbuffer hfails =>
      have harrived' : i.sock.arrived = s.inner.sock.arrived ++ [] := by simpa using harrived
      simp only [answers, drained_eq harrived', Bool.false_eq_true, if_false]
      constructor
      · exact .takesNone harrived' hempty rfl rfl (by rw [hread]; rfl) fun _ => ⟨rfl, hfails⟩
      · have hnil := h.append []
        rw [hempty] at hnil
        exact hbuffer.trans hnil.symm
  | @fails i new e harrived hempty hbuffer _ =>
      simp only [answers, drained_eq harrived, Bool.false_eq_true, if_false]
      constructor
      · refine .takesNone harrived hempty rfl rfl (by rw [hread]; rfl) fun hnone => ?_
        rw [hread] at hnone
        cases hnone
      · have hnew := h.append new
        rw [hempty] at hnew
        exact hbuffer.trans hnew.symm

/-- A call leaves what waits at the other way alone. -/
private theorem Calls.other {T : Type} [Serde L T] {s' : Mixed L G} (h : Calls path way T s s')
    {k : Way} (hk : k ≠ way) : s'.buffered k = s.buffered k := by
  cases h with
  | takes _ _ _ hpending _ _ =>
      rw [buffered, hpending, atKey_eraseP, if_neg hk, atKey_append, atKey_tagged, if_neg hk,
        List.append_nil, buffered]
  | takesNone _ _ _ hpending _ _ =>
      rw [buffered, hpending, atKey_append, atKey_tagged, if_neg hk, List.append_nil, buffered]

/-- When the oldest datagram that waits is of the call's own way, so is the
oldest of those that wait once the socket is drained. -/
private theorem drained_head {new : List (Bytes × SocketAddr)} {d : Bytes × SocketAddr}
    (hhead : ∀ d ∈ s.pending.head?, d.1 = way)
    (hfirst : earliest Prod.fst (s.pending ++ new.map (Prod.mk way)) way = some (way, d)) :
    ∃ rest, s.pending ++ new.map (Prod.mk way) = (way, d) :: rest := by
  cases hall : s.pending ++ new.map (Prod.mk way) with
  | nil => simp [hall, earliest] at hfirst
  | cons first rest =>
      have hway : first.1 = way := by
        cases hpending : s.pending with
        | nil =>
            have hmem : first ∈ new.map (Prod.mk way) := by
              rw [hpending, List.nil_append] at hall
              simp [hall]
            obtain ⟨_, -, rfl⟩ := List.mem_map.mp hmem
            rfl
        | cons oldest later =>
            rw [hpending, List.cons_append] at hall
            obtain ⟨rfl, -⟩ := List.cons.inj hall
            exact hhead oldest (by simp [hpending])
      rw [hall, earliest, List.find?_cons_of_pos (by simpa using hway)] at hfirst
      exact ⟨rest, by rw [Option.some.inj hfirst]⟩

/-- **A call whose own way drained the oldest datagram keeps the order**, and
is faithful to it. -/
private theorem Calls.inOrder {T : Type} [Serde L T] {s' : Mixed L G} (h : Calls path way T s s')
    (hbuffers : s.Buffers path way) (horder : s.InOrder) (hown : s.OldestOwn path way) :
    s'.InOrder ∧
      (answers (s.inner.readVia path T).1 = true → ∃ d, s'.delivered = s.delivered ++ [d] ∧
        (s.inner.readVia path T).1 = (path.decode s.inner.decCtx (path.view d)).map some) ∧
      ((s.inner.readVia path T).1 = .ok none → s'.pending = []) := by
  cases h with
  | @takes new d harrived hfirst hdelivered hpending hres hfails =>
      have hhead : ∀ d ∈ s.pending.head?, d.1 = way :=
        hown.resolve_right fun hno => hfails hno.1 hno.2
      obtain ⟨rest, hall⟩ := drained_head hhead hfirst
      refine ⟨?_, fun _ => ⟨d, hdelivered, hres⟩, ?_⟩
      · have hrest : s'.pending = rest := by
          rw [hpending, hall, List.eraseP_cons_of_pos (by simp)]
        have hsnd := congrArg (List.map Prod.snd) hall
        rw [List.map_append, List.map_map, List.map_cons] at hsnd
        rw [InOrder, harrived, horder, hdelivered, hrest, List.append_assoc, List.append_assoc]
        simpa [Function.comp_def] using hsnd
      · intro hnone
        have hanswers := Inner.answers_decode path (T := T) s.inner.decCtx (path.view d)
        rw [← hres, hnone] at hanswers
        cases hanswers
  | @takesNone new harrived hempty hdelivered hpending hres hnone =>
      refine ⟨?_, ?_, ?_⟩
      · rw [InOrder, harrived, horder, hdelivered, hpending]
        simp [Function.comp_def]
      · intro hanswers
        rw [hres] at hanswers
        cases hanswers
      · intro hwait
        obtain ⟨rfl, hno⟩ := hnone hwait
        have hhead : ∀ d ∈ s.pending.head?, d.1 = way :=
          hown.resolve_right fun hfails => hno hfails.2
        rw [hpending, List.map_nil, List.append_nil]
        cases hcases : s.pending with
        | nil => rfl
        | cons oldest later =>
            -- it would be in the buffer of this way, which is empty
            have hway : oldest.1 = way := hhead oldest (by simp [hcases])
            rw [Buffers, hempty, buffered, hcases, atKey_cons, if_pos hway] at hbuffers
            cases hbuffers

private theorem call_inner (T : Type) [Serde L T] :
    (s.call path way T).inner =
      path.setIncoming s.inner ((path.incoming s.inner).next (L := L) path.view).2 := by
  rw [← Inner.readVia_inner path T]
  cases hanswers : answers (s.inner.readVia path T).1 <;> simp [call, hanswers]

end Call

/-! ## Runs -/

/-- What holds along a run whose calls are each made while the oldest datagram
that waits is their own. -/
private structure Sound (s : Mixed L G) : Prop where
  tracks : s.Tracks
  inOrder : s.InOrder

variable {s : Mixed L G}

private theorem buffers_read (h : s.Tracks) : s.Buffers Inner.recvPath .read := h.read

private theorem buffers_readFrm (h : s.Tracks) : s.Buffers Inner.recvFromPath .readFrm := by
  rw [Buffers, Inner.recvFromPath, List.map_id]
  exact h.readFrm

private theorem Sound.step (h : s.Sound) (op : MixedOp L) (hown : s.StepOldestOwn op) :
    (s.step op).Sound ∧ s.StepFaithful op := by
  cases op with
  | read T =>
      obtain ⟨hcalls, hbuf⟩ := calls_call (buffers_read h.tracks) T
      obtain ⟨horder, hfaithful⟩ := hcalls.inOrder (buffers_read h.tracks) h.inOrder hown
      refine ⟨⟨⟨hbuf, ?_⟩, horder⟩, hfaithful⟩
      rw [Mixed.step, hcalls.other (by decide), ← h.tracks.readFrm, call_inner]
      rfl
  | readFrm T =>
      obtain ⟨hcalls, hbuf⟩ := calls_call (buffers_readFrm h.tracks) T
      obtain ⟨horder, hfaithful⟩ := hcalls.inOrder (buffers_readFrm h.tracks) h.inOrder hown
      refine ⟨⟨⟨?_, ?_⟩, horder⟩, hfaithful⟩
      · rw [Mixed.step, hcalls.other (by decide), ← h.tracks.read, call_inner]
        rfl
      · rw [Buffers, Inner.recvFromPath, List.map_id] at hbuf
        exact hbuf
  | setDecryptCtx ctx => exact ⟨⟨⟨h.tracks.read, h.tracks.readFrm⟩, h.inOrder⟩, trivial⟩

end Mixed

/-- **Both ways of receiving, mixed on one socket, keep the order of arrival**
in a run each of whose calls is made while the oldest datagram that waits was
drained by a call of its own kind, or has nothing to hand over and meets a hard
error. -/
theorem mixed_in_order (recvResults : List (IoResult (Bytes × SocketAddr)))
    (sendResults : List SendAnswer) (conf : SocketConfig L) (ops : List (MixedOp L))
    (hown : Each Mixed.step Mixed.StepOldestOwn
      (Mixed.start recvResults sendResults conf : Mixed L G) ops) :
    Always Mixed.step Mixed.InOrder (Mixed.start recvResults sendResults conf : Mixed L G) ops ∧
      Each Mixed.step Mixed.StepFaithful
        (Mixed.start recvResults sendResults conf : Mixed L G) ops := by
  have hsound : Always Mixed.step Mixed.Sound
      (Mixed.start recvResults sendResults conf : Mixed L G) ops :=
    hown.always ⟨⟨rfl, rfl⟩, rfl⟩ fun s op h howns => (h.step op howns).1
  constructor
  · exact hsound.mono fun s h => h.inOrder
  · exact ((hsound.each fun s op h => h).and hown).mono fun s op h => (h.1.step op h.2).2

namespace BincodeInstance

open SocketCollection.BincodeInstance

/-- A peer. -/
def peer : SocketAddr := ⟨.v4 0x7f000001#32, 5000⟩

/-- Two datagrams that come one by one. -/
def apart : Mixed crates Unit :=
  .start [.ok ([5, 0, 0, 0], peer), .error .wouldBlock, .ok ([6, 0, 0, 0], peer)] [] .default

/-- Two datagrams that come together. -/
def together : Mixed crates Unit :=
  .start [.ok ([5, 0, 0, 0], peer), .ok ([6, 0, 0, 0], peer)] [] .default

def bothWays : List (MixedOp crates) := [.read UInt32, .readFrm UInt32]

theorem mixed_in_order_apart :
    Always Mixed.step Mixed.InOrder apart bothWays ∧
      Each Mixed.step Mixed.StepFaithful apart bothWays := by
  apply mixed_in_order
  refine ⟨.inl ?_, .inl ?_, trivial⟩
  · intro d hd
    cases hd
  · intro d hd
    cases hd

/-- **A datagram is stranded.**  `read` drains two datagrams and returns the
first; `read_frm` then says that there is nothing, although the second has
arrived and has not been delivered. -/
theorem datagram_stranded :
    ¬ (Always Mixed.step Mixed.InOrder together bothWays ∧
        Each Mixed.step Mixed.StepFaithful together bothWays) ∧
      (together.inner.read UInt32).1 = .ok (some 5) ∧
      ((together.inner.read UInt32).2.readFrm UInt32).1 = .ok none ∧
      (bothWays.foldl Mixed.step together).delivered = [([5, 0, 0, 0], peer)] ∧
      (bothWays.foldl Mixed.step together).inner.sock.arrived =
        [([5, 0, 0, 0], peer), ([6, 0, 0, 0], peer)] := by
  refine ⟨?_, rfl, rfl, rfl, rfl⟩
  rintro ⟨-, -, hfaithful, -⟩
  have hpending := hfaithful.2 rfl
  cases hpending

end BincodeInstance

end SocketCollection.Udp
