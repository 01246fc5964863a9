import SocketCollection.TcpLink

/-!
# Upgrading the encryption of a connection

`set_encrypt_ctx` and `set_decrypt_ctx` switch the contexts of a socket while it is
in use, as a handshake does that exchanges keys over the connection itself.  Nothing
on the wire says which context a frame was encrypted under, and the out queue sends
by priority and drops what has expired, so the two ends have to follow a protocol.

The one here has the sender announce each new context in a message, and switch
before it writes another.  The receiver switches when a read returns the
announcement.  That is safe if the announcement is sent last of all messages under
the old context and is not dropped: it is protected from expiry and no more urgent
than anything that waits, and the sender switches when nothing waits.

A `Schedule` lists the contexts and tells which messages announce.

## Main result

* `upgrade_end_to_end`: under this protocol no read fails and nothing is lost or out
  of order, in every interleaving.
-/

namespace SocketCollection

open Runs StableQueue

variable {L : Crates} {T : Type}

/-! ## Schedules -/

/-- The contexts the two ends use, one after the other, and the messages that
announce the next one. -/
structure Schedule (L : Crates) (T : Type) where
  enc : Nat → EncryptContext L
  dec : Nat → DecryptContext L
  announces : T → Bool
  matching : ∀ k, Matching (enc k) (dec k)

namespace Schedule

variable (sched : Schedule L T)

/-- The entry's message is an announcement. -/
def marks (e : Entry.OfFrame L (Option T)) : Bool := e.msg.label.note.any sched.announces

/-- How many announcements there are among some entries. -/
def announced (entries : List (Entry.OfFrame L (Option T))) : Nat := entries.countP sched.marks

/-- Behind `n` announcements, each entry was encrypted under the context that is due
at its place. -/
def InPlace : Nat → List (Entry.OfFrame L (Option T)) → Prop
  | _, [] => True
  | n, e :: rest =>
      e.msg.label.encCtx = sched.enc n ∧ InPlace (n + if sched.marks e then 1 else 0) rest

variable {sched}

theorem announced_append (xs ys : List (Entry.OfFrame L (Option T))) :
    sched.announced (xs ++ ys) = sched.announced xs + sched.announced ys := List.countP_append

theorem announced_singleton (e : Entry.OfFrame L (Option T)) :
    sched.announced [e] = if sched.marks e then 1 else 0 := List.countP_singleton

theorem announced_eq_zero {entries : List (Entry.OfFrame L (Option T))}
    (h : ∀ e ∈ entries, sched.marks e = false) : sched.announced entries = 0 := by
  rw [announced, List.countP_eq_zero]
  intro e he
  simp [h e he]

theorem inPlace_append (xs ys : List (Entry.OfFrame L (Option T))) : ∀ n,
    sched.InPlace n (xs ++ ys) ↔
      sched.InPlace n xs ∧ sched.InPlace (n + sched.announced xs) ys := by
  induction xs with
  | nil => intro n; simp [InPlace, announced]
  | cons e xs ih =>
      intro n
      have hcount : sched.announced (e :: xs) =
          (if sched.marks e then 1 else 0) + sched.announced xs := by
        rw [← announced_singleton, ← announced_append, List.singleton_append]
      rw [List.cons_append, InPlace, ih, InPlace, hcount, Nat.add_assoc, and_assoc]

/-- Where nothing is announced, one context is due. -/
theorem inPlace_iff_forall {n : Nat} {entries : List (Entry.OfFrame L (Option T))}
    (h : ∀ e ∈ entries, sched.marks e = false) :
    sched.InPlace n entries ↔ ∀ e ∈ entries, e.msg.label.encCtx = sched.enc n := by
  induction entries with
  | nil => simp [InPlace]
  | cons e entries ih =>
      rw [List.forall_mem_cons] at h
      have hsame : n + (if sched.marks e then 1 else 0) = n := by simp [h.1]
      rw [InPlace, hsame, ih h.2, List.forall_mem_cons]

end Schedule

/-! ## Parcels and entries -/

namespace Conveys

variable [Serde L UInt32] [Serde L T] {maxPayloadSize : Nat}
  {ps qs : List (Parcel L T maxPayloadSize)} {entries : List (Entry.OfFrame L (Option T))}

/-- As many messages announce as entries. -/
theorem announced_eq {sched : Schedule L T} (h : Conveys ps entries) :
    sched.announced entries = (ps.map Parcel.value).countP sched.announces := by
  have hcount := congrArg (List.countP fun note => note.any sched.announces) h.values_eq
  show (entries.countP fun e => e.msg.label.note.any sched.announces) = _
  simpa [List.countP_map, Function.comp_def] using hcount.symm

/-- The entries in front are those of the parcels in front. -/
theorem split (h : Conveys (ps ++ qs) entries) :
    ∃ front back, entries = front ++ back ∧ Conveys ps front ∧ Conveys qs back := by
  rw [Conveys, List.map_append] at h
  obtain ⟨front, back, hentries, hfront, hback⟩ := List.map_eq_append_iff.mp h.symm
  exact ⟨front, back, hentries, hfront.symm, hback.symm⟩

/-- The first entry is that of the first parcel. -/
theorem cons {p : Parcel L T maxPayloadSize} (h : Conveys (p :: ps) entries) :
    ∃ e rest, entries = e :: rest ∧ p.encCtx = e.msg.label.encCtx ∧ Conveys ps rest := by
  obtain ⟨e, rest, rfl, he, hrest⟩ := List.map_eq_cons_iff.mp (Eq.symm h)
  obtain ⟨-, hmark⟩ := Prod.mk.inj he
  exact ⟨e, rest, rfl, (Prod.mk.inj hmark).2.symm, hrest.symm⟩

end Conveys

/-! ## The sender -/

namespace Sender

variable {sched : Schedule L T} {conf : SocketConfig L} {s : Sender L (Option T)}

/-- Everything taken or queued is under the context due at its place, and
announcements are not dropped.  The context in force is the last one announced,
unless that announcement has yet to be followed by a switch. -/
structure Upgrading (sched : Schedule L T) (conf : SocketConfig L) (s : Sender L (Option T)) :
    Prop where
  conf_eq : s.inner.outQueue.conf = conf
  encCtx : s.inner.encCtx = sched.enc s.epoch
  inPlace : sched.InPlace 0 (s.dequeued ++ s.queued)
  guarded : ∀ e ∈ s.queued, sched.marks e = true → e.priority < conf.msgDropPriority
  counted : sched.announced s.enqueued = sched.announced (s.dequeued ++ s.queued)
  switched : sched.announced (s.dequeued ++ s.queued) = s.epoch ∧
      (∀ e ∈ s.queued, sched.marks e = false) ∨
    sched.announced (s.dequeued ++ s.queued) = s.epoch + 1

private theorem Upgrading.dropExpired (h : s.Upgrading sched conf) (now : Instant) :
    (s.dropExpired now).Upgrading sched conf := by
  have hqueued := s.queued_dropExpired now
  have hsub := s.dropExpired_queued_prefix now
  -- what expires is droppable, and so announces nothing
  have hsilent : sched.announced (s.inner.outQueue.expired now) = 0 := by
    refine Schedule.announced_eq_zero fun e he => ?_
    have hdroppable := s.inner.outQueue.expired_droppable now e he
    rw [h.conf_eq] at hdroppable
    have hmem : e ∈ s.queued := by
      rw [hqueued]
      exact List.mem_append_right _ he
    rw [Bool.eq_false_iff]
    intro hmarks
    exact absurd (h.guarded e hmem hmarks) (Std.not_lt.mpr hdroppable)
  have hline : s.dequeued ++ s.queued =
      ((s.dropExpired now).dequeued ++ (s.dropExpired now).queued) ++
        s.inner.outQueue.expired now := by
    rw [hqueued, ← List.append_assoc]
    rfl
  have hcount : sched.announced ((s.dropExpired now).dequeued ++ (s.dropExpired now).queued) =
      sched.announced (s.dequeued ++ s.queued) := by
    rw [hline, Schedule.announced_append _ (s.inner.outQueue.expired now), hsilent, Nat.add_zero]
  refine ⟨(s.inner.outQueue.dropExpired_entries now).2.trans h.conf_eq, h.encCtx, ?_,
    fun e he => h.guarded e (hsub.subset he), h.counted.trans hcount.symm, ?_⟩
  · have hplace := h.inPlace
    rw [hline] at hplace
    exact ((Schedule.inPlace_append _ _ 0).mp hplace).1
  · rw [hcount]
    exact h.switched.imp (fun hq => ⟨hq.1, fun e he => hq.2 e (hsub.subset he)⟩) id

/-- An announcement is pushed behind everything that waits. -/
private theorem queued_push_last {e : Entry.OfFrame L (Option T)}
    (h : ∀ a ∈ s.queued, a.priority ≤ e.priority) : (s.push e).queued = s.queued ++ [e] := by
  have hpush := s.inner.outQueue.push_entries e.time e.msg e.priority
  have hle : (s.inner.outQueue.entries.filter fun a => a.priority ≤ e.priority) =
      s.inner.outQueue.entries :=
    List.filter_eq_self.mpr fun a ha => decide_eq_true (h a ha)
  have hlt : (s.inner.outQueue.entries.filter fun a => e.priority < a.priority) = [] := by
    rw [List.filter_eq_nil_iff]
    intro a ha
    simpa using h a ha
  rw [hle, hlt] at hpush
  exact hpush

/-- A message is pushed when no announcement is left without its switch; if it is
one itself, behind everything that waits. -/
private theorem Upgrading.push (h : s.Upgrading sched conf)
    {e : Entry.OfFrame L (Option T)} (hcount : sched.announced s.enqueued = s.epoch)
    (hctx : e.msg.label.encCtx = s.inner.encCtx)
    (hlast : sched.marks e = true →
      e.priority < conf.msgDropPriority ∧ ∀ a ∈ s.queued, a.priority ≤ e.priority) :
    (s.push e).Upgrading sched conf := by
  have hline : sched.announced (s.dequeued ++ s.queued) = s.epoch := h.counted.symm.trans hcount
  have hsilent : ∀ a ∈ s.queued, sched.marks a = false := by
    rcases h.switched with ⟨-, hsilent⟩ | hpending
    · exact hsilent
    · omega
  have hdequeued : sched.announced s.dequeued = s.epoch := by
    rw [Schedule.announced_append, Schedule.announced_eq_zero hsilent, Nat.add_zero] at hline
    exact hline
  have hplace := (Schedule.inPlace_append _ _ 0).mp h.inPlace
  rw [Nat.zero_add, hdequeued] at hplace
  -- all that waits, the new entry included, is under the context in force
  have hall : ∀ a ∈ (s.push e).queued, a.msg.label.encCtx = sched.enc s.epoch := by
    intro a ha
    rcases s.mem_queued_push.mp ha with ha | rfl
    · exact (Schedule.inPlace_iff_forall hsilent).mp hplace.2 a ha
    · exact hctx.trans h.encCtx
  have htotal : sched.announced ((s.push e).dequeued ++ (s.push e).queued) =
      s.epoch + sched.announced [e] := by
    have hperm := ((s.queued_push e).perm.append_left s.dequeued).countP_eq sched.marks
    rw [← List.append_assoc] at hperm
    refine hperm.trans ?_
    show sched.announced (s.dequeued ++ s.queued ++ [e]) = _
    rw [Schedule.announced_append, hline]
  have hcounted : sched.announced (s.push e).enqueued =
      sched.announced ((s.push e).dequeued ++ (s.push e).queued) := by
    rw [htotal, ← hcount]
    exact Schedule.announced_append _ _
  have hguarded : ∀ a ∈ (s.push e).queued, sched.marks a = true →
      a.priority < conf.msgDropPriority := by
    intro a ha hmarks
    rcases s.mem_queued_push.mp ha with ha | rfl
    · exact h.guarded a ha hmarks
    · exact (hlast hmarks).1
  cases hmarks : sched.marks e with
  | false =>
      have hsilent' : ∀ a ∈ (s.push e).queued, sched.marks a = false := by
        intro a ha
        rcases s.mem_queued_push.mp ha with ha | rfl
        · exact hsilent a ha
        · exact hmarks
      have hepoch : sched.announced ((s.push e).dequeued ++ (s.push e).queued) = s.epoch := by
        rw [htotal, Schedule.announced_singleton, hmarks]
        rfl
      refine ⟨h.conf_eq, h.encCtx, ?_, hguarded, hcounted,
        .inl ⟨hepoch, hsilent'⟩⟩
      refine (Schedule.inPlace_append _ _ 0).mpr ⟨hplace.1, ?_⟩
      show sched.InPlace (0 + sched.announced s.dequeued) (s.push e).queued
      rw [Nat.zero_add, hdequeued]
      exact (Schedule.inPlace_iff_forall hsilent').mpr hall
  | true =>
      have hepoch : sched.announced ((s.push e).dequeued ++ (s.push e).queued) = s.epoch + 1 := by
        rw [htotal, Schedule.announced_singleton, hmarks]
        rfl
      refine ⟨h.conf_eq, h.encCtx, ?_, hguarded, hcounted, .inr hepoch⟩
      rw [queued_push_last (hlast hmarks).2]
      show sched.InPlace 0 (s.dequeued ++ (s.queued ++ [e]))
      rw [← List.append_assoc]
      refine (Schedule.inPlace_append _ _ 0).mpr ⟨h.inPlace, ?_, trivial⟩
      rw [Nat.zero_add, hline]
      exact hctx.trans h.encCtx

private theorem Upgrading.round (h : s.Upgrading sched conf) :
    s.round.Upgrading sched conf := by
  have hsub := s.round_queued.subset
  refine ⟨s.round_conf.trans h.conf_eq, s.round_encCtx.trans h.encCtx, ?_,
    fun e he => h.guarded e (hsub he), ?_, ?_⟩
  · rw [round_entries]
    exact h.inPlace
  · rw [round_entries]
    exact h.counted
  · rw [round_entries]
    exact h.switched.imp (fun hq => ⟨hq.1, fun e he => hq.2 e (hsub he)⟩) id

section Write

variable [Serde L UInt32] [Serde L T] {maxPayloadSize : Nat}

/-- What the sender has to know when it writes a message: the last announcement has
been followed by a switch; the message, if it is an announcement itself, is
protected and no more urgent than what waits; and its payload is one the receiver
delivers. -/
structure MayWrite (sched : Schedule L T) (conf : SocketConfig L) (maxPayloadSize : Nat)
    (s : Sender L (Option T)) (nonces : FrameNonces L) (m : T) (priority : Priority) : Prop where
  switched : sched.announced s.enqueued = s.epoch
  last : sched.announces m = true →
    priority < conf.msgDropPriority ∧ ∀ e ∈ s.queued, e.priority ≤ priority
  fits : ∀ payload, (sched.enc s.epoch).encrypt nonces.payload m = .ok payload →
    0 < payload.length ∧ payload.length ≤ maxPayloadSize ∧ payload.length < 2 ^ 32

/-- **A call of `write`.** -/
private theorem Upgrading.write (h : s.Upgrading sched conf) {clock : Clock}
    {nonces : FrameNonces L} {msg : Option (T × Priority)}
    (hmsg : ∀ m priority, msg = some (m, priority) →
      s.MayWrite sched conf maxPayloadSize nonces m priority) :
    (s.write clock nonces (msg.map Prod.fst) msg).Upgrading sched conf := by
  have hdropped := h.dropExpired clock.dropExpired
  rcases msg with _ | ⟨m, priority⟩
  · exact flush_rule (fun _ h => h.round) hdropped
  · obtain ⟨hswitched, hlast, -⟩ := hmsg m priority rfl
    simp only [Sender.write]
    cases hser : serializeWithLen nonces m (s.dropExpired clock.dropExpired).inner.encCtx with
    | error e => exact hdropped
    | ok buf =>
        refine flush_rule (fun _ h => h.round) (hdropped.push hswitched rfl fun hmarks => ?_)
        obtain ⟨hguarded, hbehind⟩ := hlast hmarks
        exact ⟨hguarded, fun a ha =>
          hbehind a ((s.dropExpired_queued_prefix clock.dropExpired).subset ha)⟩

end Write

/-- **A switch**, after an announcement, when nothing waits. -/
private theorem Upgrading.setEncryptCtx (h : s.Upgrading sched conf)
    (hcount : sched.announced s.enqueued = s.epoch + 1) (hqueued : s.queued = []) :
    (s.setEncryptCtx (sched.enc (s.epoch + 1))).Upgrading sched conf where
  conf_eq := h.conf_eq
  encCtx := rfl
  inPlace := h.inPlace
  guarded := h.guarded
  counted := h.counted
  switched := by
    have hnone : ∀ e ∈ s.queued, sched.marks e = false := by simp [hqueued]
    exact .inl ⟨h.counted.symm.trans hcount, hnone⟩

end Sender

/-! ## The two ends -/

/-- A step of one of the parties, where the contexts are switched on the way. -/
inductive UpgradeOp (L : Crates) (T : Type)
  | write (clock : Clock) (nonces : FrameNonces L) (msg : Option (T × Priority))
  | setEncryptCtx
  | deliver (n : Nat)
  | stop (e : IoError)
  | read

namespace Link

variable [Serde L UInt32] [Serde L T]

/-- The receiver reads, and switches its context if it is told to. -/
def readUpgrading (sched : Schedule L T) (s : Link L T) : Link L T :=
  let s' := s.step .read
  match (s.receiver.read T).1 with
  | .ok (some m) =>
      if sched.announces m then
        { s' with
          receiver := s'.receiver.setDecryptCtx (sched.dec (s'.received.countP sched.announces)) }
      else s'
  | _ => s'

def upgradeStep (sched : Schedule L T) (s : Link L T) : UpgradeOp L T → Link L T
  | .write clock nonces msg => s.step (.write clock nonces msg)
  | .setEncryptCtx =>
      { s with sender := s.sender.setEncryptCtx (sched.enc (s.sender.epoch + 1)) }
  | .deliver n => s.step (.deliver n)
  | .stop e => s.step (.stop e)
  | .read => s.readUpgrading sched

/-- The parties follow the protocol.  Each condition is about what the party itself
knows: that nothing waits in its out queue, it knows from `write`. -/
def Follows (sched : Schedule L T) (sendConf recvConf : SocketConfig L) (s : Link L T) :
    UpgradeOp L T → Prop
  | .write _ nonces msg => ∀ m priority, msg = some (m, priority) →
      s.sender.MayWrite sched sendConf recvConf.maxPayloadSize nonces m priority
  | .setEncryptCtx =>
      sched.announced s.sender.enqueued = s.sender.epoch + 1 ∧ s.sender.queued = []
  | .stop e => e.isRetry = true
  | _ => True

/-- What the receiver may rely on: no read has failed, the messages returned are the
first ones the sender took, and once nothing is left in the network, a read returns
nothing exactly when every message but the one being written has been returned. -/
structure Upgrades (s : Link L T) : Prop where
  no_error : ∀ res ∈ s.results, ∃ m, res = .ok m
  in_order : s.received.map some <+: s.sent
  none_iff : s.inFlight = [] → s.receiver.stream.toCome = [] →
    ((s.receiver.read T).1 = .ok none ↔ s.received.map some ++ s.unsent = s.sent)

variable {sched : Schedule L T} {sendConf recvConf : SocketConfig L} {s : Link L T}

/-- **The relation between the two ends.**  They are joined, the sender upgrades, and
the receiver uses the context due at the place where it reads. -/
private structure Upgraded (sched : Schedule L T) (sendConf recvConf : SocketConfig L)
    (s : Link L T) : Prop extends s.Joined recvConf.maxPayloadSize where
  upgrading : s.sender.Upgrading sched sendConf
  decCtx : s.receiver.msgReader.decCtx = sched.dec (s.received.countP sched.announces)

/-- The receiver's context reads the next parcel. -/
private theorem Upgraded.attuned (h : s.Upgraded sched sendConf recvConf) :
    s.Attuned recvConf.maxPayloadSize := by
  intro done rest hconveys hreceived p hp
  obtain ⟨front, back, hdequeued, hfront, hback⟩ := hconveys.split
  obtain ⟨later, rfl⟩ : ∃ later, rest = p :: later := List.head?_eq_some_iff.mp hp
  obtain ⟨e, back', rfl, hctx, -⟩ := hback.cons
  have hplace := h.upgrading.inPlace
  rw [hdequeued, List.append_assoc, Schedule.inPlace_append, Nat.zero_add, hfront.announced_eq,
    ← hreceived, List.cons_append] at hplace
  have hdue : e.msg.label.encCtx = sched.enc (s.received.countP sched.announces) := hplace.2.1
  rw [hctx, hdue, h.decCtx]
  exact sched.matching _

private theorem upgraded_start {writeResults : List (IoResult Nat)}
    (hsoft : ∀ a ∈ writeResults, IoResult.isHard a = false)
    (henc : sendConf.encCtx = sched.enc 0) (hdec : recvConf.decCtx = sched.dec 0) :
    (start writeResults sendConf recvConf : Link L T).Upgraded sched sendConf recvConf where
  toJoined := joined_start hsoft sendConf recvConf
  upgrading :=
    { conf_eq := rfl
      encCtx := henc
      inPlace := by simp [start, Schedule.InPlace]
      guarded := by simp [start]
      counted := by simp [start]
      switched := .inl ⟨by simp [start, Schedule.announced]; rfl, by simp [start]⟩ }
  decCtx := hdec

/-! ### The steps -/

private theorem Upgraded.write (h : s.Upgraded sched sendConf recvConf) {clock : Clock}
    {nonces : FrameNonces L} {msg : Option (T × Priority)}
    (hmsg : s.Follows sched sendConf recvConf (.write clock nonces msg)) :
    (s.step (.write clock nonces msg)).Upgraded sched sendConf recvConf where
  toJoined := by
    apply h.toJoined.write
    intro m priority hm
    rw [h.upgrading.encCtx]
    exact (hmsg m priority hm).fits
  upgrading := h.upgrading.write hmsg
  decCtx := h.decCtx

private theorem Upgraded.setEncryptCtx (h : s.Upgraded sched sendConf recvConf)
    (hop : s.Follows sched sendConf recvConf .setEncryptCtx) :
    (s.upgradeStep sched .setEncryptCtx).Upgraded sched sendConf recvConf := by
  obtain ⟨hcount, hqueued⟩ := hop
  have hflows := h.flows.step (.setEncryptCtx (sched.enc (s.sender.epoch + 1)))
  exact ⟨⟨hflows, ⟨h.packed.parcels, h.packed.current⟩, h.handedOver_le, h.clean, h.results_ok,
    h.awaiting⟩, h.upgrading.setEncryptCtx hcount hqueued, h.decCtx⟩

private theorem Upgraded.deliver (h : s.Upgraded sched sendConf recvConf) (n : Nat) :
    (s.step (.deliver n)).Upgraded sched sendConf recvConf := by
  obtain ⟨hsender, hreader⟩ := s.deliver_frame n
  have hreceived : (s.step (.deliver n)).received = s.received := by
    simp only [Link.step]
    split <;> rfl
  refine ⟨h.toJoined.deliver n, ?_, ?_⟩
  · rw [hsender]
    exact h.upgrading
  · rw [hreader, hreceived]
    exact h.decCtx

private theorem Upgraded.stop (h : s.Upgraded sched sendConf recvConf) {e : IoError}
    (he : e.isRetry = true) : (s.step (.stop e)).Upgraded sched sendConf recvConf :=
  ⟨h.toJoined.stop he, h.upgrading, h.decCtx⟩

section Read

variable [LawfulSerde L UInt32] [LawfulSizeHeader L] [LawfulSerde L T]

/-- What a read leaves, and the switch that it may call for. -/
private theorem Upgraded.readUpgrading (h : s.Upgraded sched sendConf recvConf) :
    (s.readUpgrading sched).Upgraded sched sendConf recvConf := by
  have hjoined := h.toJoined.read h.attuned
  have hctx := (h.toJoined.read_decCtx h.attuned).trans h.decCtx
  obtain ⟨_ | m, hm⟩ : ∃ m, (s.receiver.read T).1 = .ok m :=
    hjoined.results_ok _ (by simp [step])
  · have hsame : (s.step .read).received = s.received := by simp [step, received, hm]
    rw [Link.readUpgrading, hm]
    refine ⟨hjoined, h.upgrading, ?_⟩
    rw [hsame]
    exact hctx
  · have hmore : (s.step .read).received = s.received ++ [m] := by simp [step, received, hm]
    rw [Link.readUpgrading, hm]
    cases hannounces : sched.announces m with
    | false =>
        simp only [hannounces, Bool.false_eq_true, if_false]
        refine ⟨hjoined, h.upgrading, hctx.trans ?_⟩
        rw [hmore, List.countP_append, List.countP_singleton, hannounces]
        rfl
    | true =>
        simp only [hannounces, if_true]
        obtain ⟨done, rest, hconveys, hreceived, hawait⟩ := hjoined.awaiting
        exact ⟨⟨hjoined.flows, hjoined.packed, hjoined.handedOver_le, hjoined.clean,
          hjoined.results_ok, done, rest, hconveys, hreceived, hawait.setDecryptCtx _⟩,
          h.upgrading, rfl⟩

private theorem Upgraded.upgrades (h : s.Upgraded sched sendConf recvConf) : s.Upgrades :=
  ⟨h.results_ok, h.received_prefix, h.read_none_iff h.attuned⟩

/-- **Every step of the protocol keeps the two ends related.** -/
private theorem Upgraded.step (h : s.Upgraded sched sendConf recvConf) {op : UpgradeOp L T}
    (hop : s.Follows sched sendConf recvConf op) :
    (s.upgradeStep sched op).Upgraded sched sendConf recvConf := by
  cases op with
  | write clock nonces msg => exact h.write hop
  | setEncryptCtx => exact h.setEncryptCtx hop
  | deliver n => exact h.deliver n
  | stop e => exact h.stop hop
  | read => exact h.readUpgrading

end Read

end Link

/-- **Upgrading end to end.**  The contexts of each epoch of the schedule match, both
ends start with the first ones and follow the protocol (`Link.Follows`: the payload of
a message that is written, encrypted under the context of the moment, is one the
receiver delivers), the sender's stream gives no hard errors, and the network's are
`WouldBlock` and `Interrupted`.  Then however the writes, the switches, the deliveries
and the reads interleave, no read fails, the messages returned are the first ones the
sender took, and once everything sent has arrived, reads return nothing exactly when
they have returned all of them but the one being written. -/
theorem upgrade_end_to_end [Serde L UInt32] [Serde L T] [LawfulSerde L UInt32]
    [LawfulSizeHeader L] [LawfulSerde L T] (sched : Schedule L T)
    {sendConf recvConf : SocketConfig L}
    (henc : sendConf.encCtx = sched.enc 0) (hdec : recvConf.decCtx = sched.dec 0)
    (writeResults : List (IoResult Nat))
    (hsoft : ∀ a ∈ writeResults, IoResult.isHard a = false) (ops : List (UpgradeOp L T))
    (hops : Each (Link.upgradeStep sched) (Link.Follows sched sendConf recvConf)
      (.start writeResults sendConf recvConf) ops) :
    Always (Link.upgradeStep sched) Link.Upgrades (.start writeResults sendConf recvConf) ops := by
  have hupgraded : Always (Link.upgradeStep sched) (Link.Upgraded sched sendConf recvConf)
      (.start writeResults sendConf recvConf) ops :=
    hops.always (Link.upgraded_start hsoft henc hdec) fun _ _ h hop => h.step hop
  exact hupgraded.mono fun _ h => h.upgrades

namespace BincodeInstance

/-- In the clear at first, and under the secret 7 after the message 9. -/
def upgradeSchedule : Schedule crates UInt32 where
  enc k := if k = 0 then .null else .authenticated (7 : UInt8)
  dec k := if k = 0 then .null else .authenticated (7 : UInt8)
  announces m := m == 9
  matching k := by
    cases k with
    | zero => exact .null
    | succ k => exact .authenticated rfl

/-- The switch is announced and made, and the next message follows the announcement
onto the wire before it is read. -/
def handshakeOps : List (UpgradeOp crates UInt32) :=
  [.write ⟨0, 0⟩ ⟨(1 : UInt8), (2 : UInt8)⟩ (some (9, 0)), .setEncryptCtx,
    .write ⟨0, 0⟩ ⟨(3 : UInt8), (4 : UInt8)⟩ (some (6, 5)), .deliver 60, .read, .read]

theorem upgrade_end_to_end_handshake :
    Always (Link.upgradeStep upgradeSchedule) Link.Upgrades
      (.start [.ok 104, .ok 104] SocketConfig.default SocketConfig.default) handshakeOps := by
  apply upgrade_end_to_end upgradeSchedule rfl rfl _ (by decide)
  refine ⟨?_, ⟨rfl, rfl⟩, ?_, trivial, trivial, trivial, trivial⟩
  · rintro m priority ⟨⟩
    refine ⟨rfl, fun _ => ⟨by decide, by simp [Link.start]⟩, fun payload hpayload => ?_⟩
    obtain rfl : [9, 0, 0, 0] = payload := Except.ok.inj hpayload
    decide
  · rintro m priority ⟨⟩
    refine ⟨rfl, fun hannounces => absurd hannounces (by decide), fun payload hpayload => ?_⟩
    obtain rfl : sealed 7 3 [6, 0, 0, 0] = payload := Except.ok.inj hpayload
    decide

end BincodeInstance

end SocketCollection
