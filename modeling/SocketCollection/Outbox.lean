import SocketCollection.OutQueueExpiry
import SocketCollection.Runs
import SocketCollection.Tcp

/-!
# Outboxes

A socket that is written to, as the messages see it.  An `Outbox` holds the
messages nothing of which has been taken by the operating system: at most one
that was taken off the queue and could not be sent (`parked`), and those in the
queue.  `begun` lists the messages of which the operating system has begun to
take bytes, each with what was waiting behind it.

A `Call` of `write` lets the queue expire, adds a message to it, and hands over
what waits, in order.  `Simulates` says that the calls of some system do this;
what follows for its runs is proved here, once for all sockets.

## Main results

* `Simulates.urgent`: messages begin in the order of their priorities exactly in
  the runs that begin no parked message in front of a more urgent one.
* `Simulates.spares`: no stale message begins exactly in the runs that begin no
  parked message that is stale.
-/

namespace SocketCollection

open Relation Runs StableQueue

variable {L : Crates} {T : Type}

/-- The operating system took some of the data, or all of it. -/
def accepts (data : Bytes) : IoResult Nat → Bool
  | .ok n => decide (0 < n ∨ n = data.length)
  | .error _ => false

/-- The operating system will take some of the data, given its answers to come:
data of which it takes nothing is offered again, until there is an error. -/
def takes (data : Bytes) : List (IoResult Nat) → Bool
  | [] => false
  | .error _ :: _ => false
  | .ok n :: results => accepts data (.ok n) || takes data results

/-- A round of a loop that offers some data: `holds` tells that it does, with the
answers to come, and `first` is the event of its being taken. -/
inductive Offers {S R E : Type} (l : Loop S R) (events : S → List E) (data : Bytes) (first : E)
    (holds : S → List (IoResult Nat) → Prop) (s : S) (results : List (IoResult Nat)) : Prop
  | stops {s' r} (hbody : l.body s = (s', some r)) (hevents : events s = [])
      (hrefused : takes data results = false)
  | begins {s'} (hbody : l.body s = (s', none)) (hevents : events s = [first])
      (htaken : takes data results = true)
  | again {s' rest} (hbody : l.body s = (s', none)) (hevents : events s = [])
      (hresults : takes data results = takes data rest) (hholds : holds s' rest)

/-- The data is offered until the operating system takes some of it, or answers
with an error. -/
theorem history_of_takes {S R E : Type} {l : Loop S R} {events : S → List E} {data : Bytes}
    {first : E} (holds : S → List (IoResult Nat) → Prop)
    (hround : ∀ s results, holds s results → Offers l events data first holds s results)
    {s : S} {results : List (IoResult Nat)} (hs : holds s results) :
    if takes data results = true then ∃ rest, l.history events s = first :: rest
    else l.history events s = [] := by
  induction s using l.rounds generalizing results with
  | h s ih =>
      cases hround s results hs with
      | stops hbody hevents hrefused =>
          rw [hrefused, if_neg Bool.false_ne_true, l.history_done events hbody, hevents]
      | @begins s' hbody hevents htaken =>
          rw [htaken, if_pos rfl, l.history_next events hbody, hevents]
          exact ⟨l.history events s', rfl⟩
      | again hbody hevents hresults hholds =>
          rw [hresults, l.history_next events hbody, hevents]
          exact ih _ hbody hholds

/-! ## What waits and what was begun -/

namespace Entry

/-- When an entry was pushed, and how urgent it is. -/
def stamp (e : Entry T) : Entry Unit := ⟨e.priority, e.time, ()⟩

/-- Of droppable priority, and older than a message may get. -/
def Stale (conf : SocketConfig L) (now : Instant) (e : Entry T) : Prop :=
  conf.msgDropPriority ≤ e.priority ∧ conf.maxMsgAgeSecs < elapsedSecs e.time now

variable {conf : SocketConfig L} {now : Instant} {e : Entry T}

theorem isStale_iff : OutQueue.isStale conf now e.priority e = true ↔ e.Stale conf now := by
  simp [OutQueue.isStale, Stale]

/-- What is stale stays so. -/
theorem Stale.later {now' : Instant} (h : e.Stale conf now) (hle : now ≤ now') :
    e.Stale conf now' := by
  refine ⟨h.1, Nat.lt_of_lt_of_le h.2 ?_⟩
  exact Nat.div_le_div_right (Nat.sub_le_sub_right hle e.time)

/-- What has just been stamped is not stale. -/
theorem not_stale_of_le (h : now ≤ e.time) : ¬ e.Stale conf now := by
  intro hstale
  have hzero : elapsedSecs e.time now = 0 := by
    rw [elapsedSecs, Nat.sub_eq_zero_of_le h, Nat.zero_div]
  have hage := hstale.2
  omega

end Entry

namespace SendQueue

/-- The stamps of what a queue holds. -/
def stamps (q : SendQueue L T) : List (Entry Unit) := q.entries.map Entry.stamp

theorem stamps_new (conf : SocketConfig L) : (SendQueue.new conf : SendQueue L T).stamps = [] := by
  rw [stamps, entries_new, List.map_nil]

theorem sorted_stamps (q : SendQueue L T) : Sorted Entry.priority q.stamps := by
  rw [Sorted, stamps, List.pairwise_map]
  exact q.sorted_entries

theorem stamps_push (q : SendQueue L T) (now : Instant) (msg : T) (p : Priority) :
    Same Entry.priority (q.push now msg p).stamps (q.stamps ++ [⟨p, now, ()⟩]) := by
  have hpush : Same (Entry.priority ∘ Entry.stamp) (q.push now msg p).entries
      (q.entries ++ [⟨p, now, msg⟩]) := q.entries_push now msg p
  have hstamps := hpush.map Entry.stamp
  rw [List.map_append] at hstamps
  exact hstamps

/-- What a queue drops is seen on the stamps. -/
theorem stamps_dropExpired (q : SendQueue L T) (now : Instant) :
    (q.dropExpired now).2.stamps = keepBelow Entry.priority
      (cutoff Entry.priority (OutQueue.isStale q.conf now) q.stamps) q.stamps := by
  rw [stamps, entries_dropExpired, stamps, cutoff_map, keepBelow_map]
  rfl

end SendQueue

/-- A message that was begun, and the messages that were waiting behind it. -/
structure Begun (T : Type) where
  entry : Entry T
  behind : List (Entry T)

structure Outbox (T : Type) where
  parked : Option (Entry T)
  queued : List (Entry T)
  begun : List (Begun T)

namespace Outbox

/-- The messages that wait, in the order in which they are handed over. -/
def waiting (b : Outbox T) : List (Entry T) := b.parked.toList ++ b.queued

/-- The least priority whose first message in the queue is stale. -/
def expiryPoint (conf : SocketConfig L) (now : Instant) (b : Outbox T) : Option Priority :=
  cutoff Entry.priority (OutQueue.isStale conf now) b.queued

/-- Drop what has expired: the parked message is not looked at. -/
def expire (conf : SocketConfig L) (now : Instant) (b : Outbox T) : Outbox T :=
  { b with queued := keepBelow Entry.priority (b.expiryPoint conf now) b.queued }

/-- A message is added to the queue of its priority, if there is one to add. -/
structure Adds (new : Option (Entry T)) (b b' : Outbox T) : Prop where
  parked : b'.parked = b.parked
  queued : Same Entry.priority b'.queued (b.queued ++ new.toList)
  sorted : Sorted Entry.priority b'.queued
  begun : b'.begun = b.begun

/-- An attempt at handing something over: the first message that waits is
begun, or none is; and only the first ones cease to wait. -/
inductive Hands (b b' : Outbox T) : Prop
  | keeps (hqueued : b'.queued <:+ b.queued) (hwaiting : b'.waiting <:+ b.waiting)
      (hbegun : b'.begun = b.begun)
  | begins {e rest} (hfirst : b.waiting = e :: rest) (hqueued : b'.queued <:+ b.queued)
      (hwaiting : b'.waiting <:+ b.waiting) (hbegun : b'.begun = b.begun ++ [⟨e, rest⟩])

/-- What waits is handed over, one message after the other.  A parked message is
begun first if the operating system takes it; if not, nothing is begun. -/
structure Flushes (taken : Bool) (b b' : Outbox T) : Prop where
  hands : ReflTransGen Hands b b'
  parked_taken : taken = true → ∀ p ∈ b.parked,
    ∃ started, b'.begun = b.begun ++ ⟨p, b.queued⟩ :: started
  parked_refused : taken = false → b.parked.isSome → b'.begun = b.begun

/-- A call of `write`, with the message it adds. -/
def Call (conf : SocketConfig L) (now : Instant) (taken : Bool) (new : Option (Entry T))
    (b b' : Outbox T) : Prop :=
  ∃ b₁, Adds new (b.expire conf now) b₁ ∧ Flushes taken b₁ b'

/-- An outbox to which nothing has been added yet. -/
def empty : Outbox T := ⟨none, [], []⟩

variable {conf : SocketConfig L} {now : Instant} {taken : Bool} {new : Option (Entry T)}
  {b b' : Outbox T}

theorem adds_none (h : Sorted Entry.priority b.queued) : Adds none b b where
  parked := rfl
  queued := by
    rw [Option.toList_none, List.append_nil]
    exact Same.refl b.queued
  sorted := h
  begun := rfl

/-- A call that ends before its flush. -/
theorem flushes_refl (b : Outbox T) : Flushes false b b where
  hands := .refl
  parked_taken htaken := by cases htaken
  parked_refused _ _ := rfl

/-- It is enough to know what a flush begins first. -/
theorem flushes_of_first {started : List (Begun T)} (hhands : ReflTransGen Hands b b')
    (hbegun : b'.begun = b.begun ++ started)
    (hfirst : ∀ p ∈ b.parked, if taken = true then ∃ rest, started = ⟨p, b.queued⟩ :: rest
      else started = []) : Flushes taken b b' where
  hands := hhands
  parked_taken htaken p hp := by
    have hp := hfirst p hp
    rw [if_pos htaken] at hp
    obtain ⟨rest, rfl⟩ := hp
    exact ⟨rest, hbegun⟩
  parked_refused hrefused hp := by
    obtain ⟨p, hp⟩ := Option.isSome_iff_exists.mp hp
    have hp := hfirst p hp
    rw [if_neg (Bool.eq_false_iff.mp hrefused)] at hp
    rw [hbegun, hp, List.append_nil]

theorem Hands.queued (h : Hands b b') : b'.queued <:+ b.queued := by
  cases h with
  | keeps hqueued | begins _ hqueued => exact hqueued

theorem Hands.begun (h : Hands b b') : b.begun <+: b'.begun := by
  cases h with
  | keeps _ _ hbegun => exact ⟨[], by rw [hbegun, List.append_nil]⟩
  | begins _ _ _ hbegun => exact ⟨_, hbegun.symm⟩

theorem Flushes.queued (h : Flushes taken b b') : b'.queued <:+ b.queued := by
  obtain ⟨hhands, -, -⟩ := h
  induction hhands with
  | refl => exact List.suffix_refl _
  | tail _ hhands ih => exact hhands.queued.trans ih

theorem Flushes.begun (h : Flushes taken b b') : b.begun <+: b'.begun := by
  obtain ⟨hhands, -, -⟩ := h
  induction hhands with
  | refl => exact List.prefix_refl _
  | tail _ hhands ih => exact ih.trans hhands.begun

/-- What has been begun stays in the log. -/
theorem Call.begun (h : Call conf now taken new b b') : b.begun <+: b'.begun := by
  obtain ⟨b₁, hadds, hflush⟩ := h
  have hbegun := hflush.begun
  rw [hadds.begun] at hbegun
  exact hbegun

/-- A parked message that is taken is begun by the call, and first. -/
theorem Call.begins (h : Call conf now true new b b') {p : Entry T} (hp : p ∈ b.parked) :
    ∃ behind started, b'.begun = b.begun ++ ⟨p, behind⟩ :: started ∧
      ∀ e, e ∈ behind ↔ e ∈ (b.expire conf now).queued ++ new.toList := by
  obtain ⟨b₁, hadds, hflush⟩ := h
  obtain ⟨started, hbegun⟩ := hflush.parked_taken rfl p (hadds.parked ▸ hp)
  rw [hadds.begun] at hbegun
  exact ⟨b₁.queued, started, hbegun, hadds.queued.mem_iff⟩

theorem expire_queued (conf : SocketConfig L) (now : Instant) (b : Outbox T) :
    (b.expire conf now).queued.Sublist b.queued := by
  unfold expire
  generalize b.expiryPoint conf now = c
  cases c with
  | none => exact List.Sublist.refl _
  | some c => exact List.filter_sublist

/-! ### Order -/

/-- Every message was begun before the less urgent ones. -/
def Urgent (b : Outbox T) : Prop :=
  ∀ x ∈ b.begun, ∀ e ∈ x.behind, x.entry.priority ≤ e.priority

theorem urgent_empty : (empty : Outbox T).Urgent := by
  intro x hx
  cases hx

/-- What waits is in order, and so is what was begun. -/
private structure InOrder (b : Outbox T) : Prop where
  sorted : Sorted Entry.priority b.waiting
  urgent : b.Urgent

private theorem InOrder.hands (h : b.InOrder) (hhands : Hands b b') : b'.InOrder := by
  cases hhands with
  | keeps _ hwaiting hbegun =>
      refine ⟨h.sorted.sublist hwaiting.sublist, ?_⟩
      rw [Urgent, hbegun]
      exact h.urgent
  | @begins e rest hfirst _ hwaiting hbegun =>
      refine ⟨h.sorted.sublist hwaiting.sublist, ?_⟩
      have hsorted := h.sorted
      rw [hfirst] at hsorted
      rw [Urgent, hbegun, List.forall_mem_append]
      refine ⟨h.urgent, fun x hx => ?_⟩
      obtain rfl := List.mem_singleton.mp hx
      exact (List.pairwise_cons.mp hsorted).1

private theorem InOrder.flush (h : b.InOrder) (hflush : ReflTransGen Hands b b') :
    b'.InOrder := by
  induction hflush with
  | refl => exact h
  | tail _ hhands ih => exact ih.hands hhands

/-- What a call adds is sorted into the queue, so that only the parked message
can be out of order. -/
private theorem Adds.inOrder {b₁ : Outbox T} (h : Adds new b b₁) (hurgent : b.Urgent)
    (hparked : ∀ p ∈ b.parked, ∀ e ∈ b.queued ++ new.toList, p.priority ≤ e.priority) :
    b₁.InOrder where
  sorted := by
    rw [waiting, Sorted, List.pairwise_append, h.parked]
    refine ⟨?_, h.sorted, ?_⟩
    · cases b.parked with
      | none => exact .nil
      | some p => exact List.pairwise_singleton _ p
    · intro p hp e he
      exact hparked p (Option.mem_toList.mp hp) e ((h.queued.mem_iff e).mp he)
  urgent := by
    rw [Urgent, h.begun]
    exact hurgent

/-- **When a call keeps the order.** -/
theorem Call.urgent_iff (h : Call conf now taken new b b') (hurgent : b.Urgent) :
    b'.Urgent ↔ (taken = true → ∀ p ∈ b.parked,
      ∀ e ∈ (b.expire conf now).queued ++ new.toList, p.priority ≤ e.priority) := by
  constructor
  · rintro hurgent' rfl p hp e he
    obtain ⟨behind, started, hbegun, hbehind⟩ := h.begins hp
    refine hurgent' ⟨p, behind⟩ ?_ e ((hbehind e).mpr he)
    rw [hbegun]
    exact List.mem_append_right _ List.mem_cons_self
  · intro hparked
    obtain ⟨b₁, hadds, hflush⟩ := h
    by_cases hrefused : taken = false ∧ b.parked.isSome
    · have hsame := hflush.parked_refused hrefused.1 (hadds.parked ▸ hrefused.2)
      rw [Urgent, hsame, hadds.begun]
      exact hurgent
    · refine ((hadds.inOrder hurgent ?_).flush hflush.hands).urgent
      intro p hp
      refine hparked (Bool.eq_true_of_not_eq_false fun htaken => hrefused ⟨htaken, ?_⟩) p hp
      exact Option.isSome_of_mem hp

/-! ### Age -/

theorem inTime_of_call {before : Instant} (h : InTime before b.queued) (hle : before ≤ now)
    (hcall : Call conf now taken new b b') (hnew : ∀ e ∈ new, now ≤ e.time) :
    InTime ((new.map Entry.time).getD now) b'.queued := by
  have hexpired := (h.later hle).sublist (b.expire_queued conf now)
  obtain ⟨b₁, hadds, hflush⟩ := hcall
  refine InTime.sublist ?_ hflush.queued.sublist
  cases new with
  | none => exact hexpired.of_same (by simpa using hadds.queued) hadds.sorted
  | some e => exact (hexpired.push (hnew e rfl)).of_same hadds.queued hadds.sorted

/-- Nothing that waits is stale, and nothing stale was begun since `past`. -/
private structure Spares (conf : SocketConfig L) (now : Instant) (past : List (Begun T))
    (b : Outbox T) : Prop where
  waiting : ∀ e ∈ b.waiting, ¬ e.Stale conf now
  begun : ∃ started, b.begun = past ++ started ∧ ∀ x ∈ started, ¬ x.entry.Stale conf now

private theorem Adds.spares {b₁ : Outbox T} {before : Instant} (h : InTime before b.queued)
    (hadds : Adds new (b.expire conf now) b₁) (hparked : ∀ p ∈ b.parked, ¬ p.Stale conf now)
    (hnew : ∀ e ∈ new, now ≤ e.time) : Spares conf now b.begun b₁ where
  waiting := by
    intro e he
    rw [Outbox.waiting, hadds.parked, List.mem_append, hadds.queued.mem_iff, List.mem_append] at he
    rcases he with he | he | he
    · exact hparked e (Option.mem_toList.mp he)
    · rw [← Entry.isStale_iff, h.fresh conf now e he]
      exact Bool.false_ne_true
    · exact Entry.not_stale_of_le (hnew e (Option.mem_toList.mp he))
  begun := ⟨[], by rw [hadds.begun, List.append_nil]; rfl, by simp⟩

variable {past : List (Begun T)}

private theorem Spares.hands (h : Spares conf now past b) (hhands : Hands b b') :
    Spares conf now past b' := by
  obtain ⟨started, hbegun, hstarted⟩ := h.begun
  cases hhands with
  | keeps _ hwaiting hsame =>
      refine ⟨fun e he => h.waiting e (hwaiting.subset he), started, hsame.trans hbegun, hstarted⟩
  | @begins e rest hfirst _ hwaiting hmore =>
      refine ⟨fun e he => h.waiting e (hwaiting.subset he), started ++ [⟨e, rest⟩], ?_, ?_⟩
      · rw [hmore, hbegun, List.append_assoc]
      · have hfresh := h.waiting e (hfirst ▸ List.mem_cons_self)
        rw [List.forall_mem_append]
        refine ⟨hstarted, fun x hx => ?_⟩
        obtain rfl := List.mem_singleton.mp hx
        exact hfresh

private theorem Spares.flush (h : Spares conf now past b) (hflush : ReflTransGen Hands b b') :
    Spares conf now past b' := by
  induction hflush with
  | refl => exact h
  | tail _ hhands ih => exact ih.hands hhands

/-- **A call begins nothing that was stale when it was made**, unless that was
parked. -/
theorem Call.spares {before : Instant} (hcall : Call conf now taken new b b')
    (h : InTime before b.queued)
    (hparked : taken = true → ∀ p ∈ b.parked, ¬ p.Stale conf now)
    (hnew : ∀ e ∈ new, now ≤ e.time) :
    ∃ started, b'.begun = b.begun ++ started ∧ ∀ x ∈ started, ¬ x.entry.Stale conf now := by
  obtain ⟨b₁, hadds, hflush⟩ := hcall
  by_cases hrefused : taken = false ∧ b.parked.isSome
  · have hsame := hflush.parked_refused hrefused.1 (hadds.parked ▸ hrefused.2)
    refine ⟨[], ?_, by simp⟩
    rw [hsame, hadds.begun, List.append_nil]
    rfl
  · refine ((Adds.spares h hadds ?_ hnew).flush hflush.hands).begun
    intro p hp
    refine hparked (Bool.eq_true_of_not_eq_false fun htaken => hrefused ⟨htaken, ?_⟩) p hp
    exact Option.isSome_of_mem hp

end Outbox

/-! ## Systems whose calls are those of an outbox -/

variable {S : Type} {O : Type 1}

/-- The clock readings of one call. -/
def Clock.readings (clock : Clock) : List Instant := [clock.dropExpired, clock.push]

/-- The system's calls do to its outbox what a `Call` does: `clock?` tells the
calls of `write` that concern it, `new?` the message they add, `takes` whether
the operating system takes the parked message in them, and `readings` the clock
readings of every call. -/
structure Simulates (conf : SocketConfig L) (step : S → O → S) (inv : S → Prop)
    (view : S → Outbox T) (clock? : O → Option Clock) (takes : S → O → Bool)
    (new? : S → O → Option (Entry T)) (readings : O → List Instant) : Prop where
  keeps : ∀ s op, inv s → inv (step s op)
  call : ∀ s op clock, inv s → clock? op = some clock →
    Outbox.Call conf clock.dropExpired (takes s op) (new? s op) (view s) (view (step s op))
  stamped : ∀ s op clock, clock? op = some clock → ∀ e ∈ new? s op, e.time = clock.push
  others : ∀ s op, clock? op = none → view (step s op) = view s
  readings_eq : ∀ op clock, clock? op = some clock → readings op = clock.readings

/-- Whatever was stale when a call is made is begun neither by that call nor by
a later one. -/
def NothingStale (conf : SocketConfig L) (step : S → O → S) (view : S → Outbox T)
    (readings : O → List Instant) (s : S) (ops : List O) : Prop :=
  ∀ before op later, ops = before ++ op :: later → ∀ now ∈ (readings op).head?,
    ∃ started, (view (ops.foldl step s)).begun = (view (before.foldl step s)).begun ++ started ∧
      ∀ x ∈ started, ¬ x.entry.Stale conf now

/-- If the parked message is taken in this call, then it is not stale. -/
def ParkedFresh (conf : SocketConfig L) (view : S → Outbox T) (clock? : O → Option Clock)
    (takes : S → O → Bool) (s : S) (op : O) : Prop :=
  ∀ clock ∈ clock? op, takes s op = true → ∀ p ∈ (view s).parked, ¬ p.Stale conf clock.dropExpired

/-- If the parked message is taken in this call, then nothing that is queued, or
added by the call, is more urgent. -/
def ParkedUrgent (conf : SocketConfig L) (view : S → Outbox T) (clock? : O → Option Clock)
    (takes : S → O → Bool) (new? : S → O → Option (Entry T)) (s : S) (op : O) : Prop :=
  ∀ clock ∈ clock? op, takes s op = true → ∀ p ∈ (view s).parked,
    ∀ e ∈ ((view s).expire conf clock.dropExpired).queued ++ (new? s op).toList,
      p.priority ≤ e.priority

namespace Simulates

variable {conf : SocketConfig L} {step : S → O → S} {inv : S → Prop} {view : S → Outbox T}
  {clock? : O → Option Clock} {takes : S → O → Bool} {new? : S → O → Option (Entry T)}
  {readings : O → List Instant} {s : S} {ops : List O}

/-- What has been begun stays in the log. -/
private theorem begun_prefix (h : Simulates conf step inv view clock? takes new? readings)
    (hs : inv s) (op : O) : (view s).begun <+: (view (step s op)).begun := by
  cases hclock : clock? op with
  | none => rw [h.others s op hclock]
  | some clock => exact (h.call s op clock hs hclock).begun

private theorem begun_prefix_run (h : Simulates conf step inv view clock? takes new? readings)
    (ops : List O) : ∀ {s : S}, inv s → (view s).begun <+: (view (ops.foldl step s)).begun := by
  induction ops with
  | nil => exact fun _ => List.prefix_refl _
  | cons op ops ih => exact fun hs => (h.begun_prefix hs op).trans (ih (h.keeps _ op hs))

/-- **When messages begin in the order of their priorities.** -/
theorem urgent (h : Simulates conf step inv view clock? takes new? readings) (hs : inv s)
    (hempty : view s = .empty) :
    Always step (fun s => (view s).Urgent) s ops ↔
      Each step (ParkedUrgent conf view clock? takes new?) s ops := by
  have hstart : (view s).Urgent := hempty ▸ Outbox.urgent_empty
  refine always_iff_each hs h.keeps hstart ?_
  intro s op hs hurgent
  cases hclock : clock? op with
  | none =>
      rw [h.others s op hclock]
      refine iff_of_true hurgent fun clock hmem => ?_
      rw [hclock] at hmem
      cases hmem
  | some clock =>
      rw [(h.call s op clock hs hclock).urgent_iff hurgent, ParkedUrgent, hclock]
      simp

/-- One call: the time stamps stay in order, and nothing stale is begun. -/
private theorem step_spares (h : Simulates conf step inv view clock? takes new? readings) {op : O}
    {now : Instant} (hs : inv s) (htime : InTime now (view s).queued)
    (hclock : (now :: readings op).Pairwise (· ≤ ·))
    (hop : ParkedFresh conf view clock? takes s op) :
    (∀ later, (∀ t ∈ now :: readings op, t ≤ later) → InTime later (view (step s op)).queued) ∧
      ∀ t, (∀ r ∈ readings op, t ≤ r) →
        ∃ started, (view (step s op)).begun = (view s).begun ++ started ∧
          ∀ x ∈ started, ¬ x.entry.Stale conf t := by
  cases hcall : clock? op with
  | none =>
      rw [h.others s op hcall]
      refine ⟨fun later hlater => htime.later (hlater now List.mem_cons_self), fun t _ => ?_⟩
      exact ⟨[], (List.append_nil _).symm, by simp⟩
  | some clock =>
      rw [h.readings_eq op clock hcall] at hclock ⊢
      simp only [Clock.readings, List.pairwise_cons, List.mem_cons, List.not_mem_nil, or_false,
        forall_eq_or_imp, forall_eq] at hclock ⊢
      have hstamped := h.stamped s op clock hcall
      have hnew : ∀ e ∈ new? s op, clock.dropExpired ≤ e.time := by
        intro e he
        rw [hstamped e he]
        exact hclock.2.1
      have hstep := h.call s op clock hs hcall
      refine ⟨fun later hlater => ?_, fun t ht => ?_⟩
      · refine (Outbox.inTime_of_call htime hclock.1.1 hstep hnew).later ?_
        cases he : new? s op with
        | none => exact hlater.2.1
        | some e =>
            rw [Option.map_some, Option.getD_some, hstamped e he]
            exact hlater.2.2
      · obtain ⟨started, hbegun, hstarted⟩ := hstep.spares htime (hop clock hcall) hnew
        exact ⟨started, hbegun, fun x hx hstale => hstarted x hx (hstale.later ht.1)⟩

/-- Some time between the readings of a call and those of the later ones. -/
private theorem exists_between {now : Instant} {first rest : List Instant}
    (h : (now :: (first ++ rest)).Pairwise (· ≤ ·)) :
    (now :: first).Pairwise (· ≤ ·) ∧
      ∃ later, (∀ t ∈ now :: first, t ≤ later) ∧ (later :: rest).Pairwise (· ≤ ·) := by
  have hfirst : (now :: first).Pairwise (· ≤ ·) :=
    h.sublist ((List.sublist_append_left first rest).cons_cons now)
  refine ⟨hfirst, ?_⟩
  clear hfirst
  induction first generalizing now with
  | nil => exact ⟨now, by simp, h⟩
  | cons t first ih =>
      obtain ⟨hnow, htail⟩ := List.pairwise_cons.mp h
      obtain ⟨later, hlater, hrest⟩ := ih htail
      refine ⟨later, ?_, hrest⟩
      intro r hr
      rcases List.mem_cons.mp hr with rfl | hr
      · exact Nat.le_trans (hnow t List.mem_cons_self) (hlater t List.mem_cons_self)
      · exact hlater r hr

/-- What a whole run begins was not stale when the run started. -/
private theorem run_spares (h : Simulates conf step inv view clock? takes new? readings)
    (ops : List O) : ∀ {s : S} {now : Instant}, inv s → InTime now (view s).queued →
      (now :: ops.flatMap readings).Pairwise (· ≤ ·) →
        Each step (ParkedFresh conf view clock? takes) s ops →
          ∀ t, (∀ r ∈ ops.flatMap readings, t ≤ r) →
            ∃ started, (view (ops.foldl step s)).begun = (view s).begun ++ started ∧
              ∀ x ∈ started, ¬ x.entry.Stale conf t := by
  induction ops with
  | nil =>
      intro s now _ _ _ _ t _
      exact ⟨[], (List.append_nil _).symm, by simp⟩
  | cons op ops ih =>
      intro s now hs htime hclock hguard t ht
      rw [List.flatMap_cons] at hclock ht
      rw [List.forall_mem_append] at ht
      obtain ⟨hfirst, later, hlater, hrest⟩ := exists_between hclock
      obtain ⟨htime', hstep⟩ := h.step_spares hs htime hfirst hguard.1
      obtain ⟨started, hbegun, hstarted⟩ := hstep t ht.1
      obtain ⟨more, hmore, hspares⟩ :=
        ih (h.keeps s op hs) (htime' later hlater) hrest hguard.2 t ht.2
      refine ⟨started ++ more, ?_, List.forall_mem_append.mpr ⟨hstarted, hspares⟩⟩
      rw [List.foldl_cons, hmore, hbegun, List.append_assoc]

/-- The calls before some call of a run do not matter for what follows. -/
private theorem split_spares (h : Simulates conf step inv view clock? takes new? readings) {op : O}
    {later : List O} (before : List O) : ∀ {s : S} {now : Instant}, inv s →
      InTime now (view s).queued →
        (now :: (before ++ op :: later).flatMap readings).Pairwise (· ≤ ·) →
          Each step (ParkedFresh conf view clock? takes) s (before ++ op :: later) →
            ∀ start ∈ (readings op).head?, ∃ started,
              (view ((before ++ op :: later).foldl step s)).begun =
                (view (before.foldl step s)).begun ++ started ∧
              ∀ x ∈ started, ¬ x.entry.Stale conf start := by
  induction before with
  | nil =>
      intro s now hs htime hclock hguard start hstart
      refine h.run_spares (op :: later) hs htime hclock hguard start ?_
      obtain ⟨rest, hreadings⟩ := List.head?_eq_some_iff.mp hstart
      have hascending : ((op :: later).flatMap readings).Pairwise (· ≤ ·) :=
        (List.pairwise_cons.mp hclock).2
      rw [List.flatMap_cons, hreadings, List.cons_append] at hascending ⊢
      intro r hr
      rcases List.mem_cons.mp hr with rfl | hr
      · exact Nat.le_refl _
      · exact (List.pairwise_cons.mp hascending).1 r hr
  | cons op' before ih =>
      intro s now hs htime hclock hguard
      rw [List.cons_append, List.flatMap_cons] at hclock
      obtain ⟨hfirst, between, hbetween, hrest⟩ := exists_between hclock
      have htime' := (h.step_spares hs htime hfirst hguard.1).1 between hbetween
      exact ih (h.keeps s op' hs) htime' hrest hguard.2

/-- A stale message that is taken while it is parked is begun after all. -/
private theorem parkedFresh_of_nothingStale
    (h : Simulates conf step inv view clock? takes new? readings) (hs : inv s)
    (hspares : NothingStale conf step view readings s ops) :
    Each step (ParkedFresh conf view clock? takes) s ops := by
  refine each_of_split fun before op later hops clock hclock htaken p hp => ?_
  have hinv : inv (before.foldl step s) := (always_of_step hs h.keeps).last
  obtain ⟨started, hbegun, hfresh⟩ := hspares before op later hops clock.dropExpired (by
    rw [h.readings_eq op clock hclock]
    rfl)
  have hcall := h.call _ op clock hinv hclock
  rw [htaken] at hcall
  obtain ⟨behind, first, hfirst, -⟩ := hcall.begins hp
  obtain ⟨more, hmore⟩ := h.begun_prefix_run later (h.keeps _ op hinv)
  rw [hops, List.foldl_append, List.foldl_cons, ← hmore, hfirst, List.append_assoc] at hbegun
  have hstarted := List.append_cancel_left hbegun
  exact hfresh ⟨p, behind⟩ (hstarted ▸ List.mem_cons_self)

/-- **When no stale message begins.** -/
theorem spares (h : Simulates conf step inv view clock? takes new? readings) (hs : inv s)
    (hempty : view s = .empty) (hclock : (ops.flatMap readings).Pairwise (· ≤ ·)) :
    NothingStale conf step view readings s ops ↔
      Each step (ParkedFresh conf view clock? takes) s ops := by
  refine ⟨h.parkedFresh_of_nothingStale hs, ?_⟩
  intro hguard before op later hops
  subst hops
  have htime : InTime 0 (view s).queued := by
    rw [hempty]
    exact InTime.nil 0
  have hstart := List.pairwise_cons.mpr ⟨fun t _ => Nat.zero_le t, hclock⟩
  exact h.split_spares before hs htime hstart hguard

end Simulates

end SocketCollection
