import SocketCollection.OutQueueRefinement
import SocketCollection.BincodeInstance

/-!
# Expiry

`drop_expired` looks at the front of each deque only, and stops looking at the
first stale one.  Under a clock that never goes back this is enough: along
each priority the time stamps ascend (`InTime`), so behind a fresh front entry
everything is fresh, and what lies behind the first stale queue is dropped
with it.

`InTime` is a property of a list of entries.  It is kept by everything the
sockets do to one, and both the code's queue and the queue of a socket use it.
-/

namespace SocketCollection

open StableQueue

variable {L : Crates} {T : Type}

/-- The clock reading an operation is made at. -/
def QueueOp.reading? : QueueOp T → Option Instant
  | .push now _ _ => some now
  | .nextMsg => none
  | .dropExpired now => some now

/-- The clock readings of a run. -/
def readings (ops : List (QueueOp T)) : List Instant := ops.filterMap QueueOp.reading?

/-! ## Entries in time order -/

/-- Along each priority time stamps ascend, and none lies ahead of the
clock. -/
structure InTime (now : Instant) (l : List (Entry T)) : Prop where
  ascending : l.Pairwise fun a b => a.priority = b.priority → a.time ≤ b.time
  past : ∀ e ∈ l, e.time ≤ now

theorem elapsedSecs_anti {a b : Instant} (h : a ≤ b) (now : Instant) :
    elapsedSecs b now ≤ elapsedSecs a now := by
  unfold elapsedSecs
  exact Nat.div_le_div_right (Nat.sub_le_sub_left h now)

/-- An older entry is stale as soon as a younger one is. -/
private theorem isStale_of_le {conf : SocketConfig L} {now : Instant} {p : Priority}
    {a b : Entry T} (h : a.time ≤ b.time) (hb : OutQueue.isStale conf now p b = true) :
    OutQueue.isStale conf now p a = true := by
  unfold OutQueue.isStale at hb ⊢
  have hage := elapsedSecs_anti h now
  simp only [Bool.and_eq_true, decide_eq_true_eq] at hb ⊢
  exact ⟨hb.1, by omega⟩

namespace InTime

variable {now : Instant} {l m : List (Entry T)}

theorem nil (now : Instant) : InTime now ([] : List (Entry T)) where
  ascending := List.Pairwise.nil
  past := by simp

theorem later {now' : Instant} (h : InTime now l) (hle : now ≤ now') : InTime now' l where
  ascending := h.ascending
  past e he := Nat.le_trans (h.past e he) hle

theorem sublist (h : InTime now l) (hsub : m.Sublist l) : InTime now m where
  ascending := h.ascending.sublist hsub
  past e he := h.past e (hsub.subset he)

/-- Grouping by priority does not disturb the time stamps. -/
theorem of_same (h : InTime now l) (hsame : Same Entry.priority m l)
    (hsorted : Sorted Entry.priority m) : InTime now m where
  ascending := by
    apply hsame.pairwise hsorted _ h.ascending
    intro a b _ hne heq
    exact absurd heq hne
  past e he := h.past e ((hsame.mem_iff e).mp he)

/-- An entry that is stamped with the present time goes to the end. -/
theorem push {e : Entry T} (h : InTime now l) (hnow : now ≤ e.time) :
    InTime e.time (l ++ [e]) where
  ascending := by
    rw [List.pairwise_append]
    refine ⟨h.ascending, List.pairwise_singleton _ _, ?_⟩
    intro a ha b hb _
    obtain rfl := List.mem_singleton.mp hb
    exact Nat.le_trans (h.past a ha) hnow
  past a ha := by
    rcases List.mem_append.mp ha with ha | ha
    · exact Nat.le_trans (h.past a ha) hnow
    · obtain rfl := List.mem_singleton.mp ha
      exact Nat.le_refl _

/-- **What is kept is fresh**, at any reading of the clock. -/
theorem fresh (h : InTime now l) (conf : SocketConfig L) (now' : Instant) :
    ∀ e ∈ keepBelow Entry.priority (cutoff Entry.priority (OutQueue.isStale conf now') l) l,
      OutQueue.isStale conf now' e.priority e = false := by
  intro e he
  have hinherit : l.Pairwise fun a b => a.priority = b.priority →
      OutQueue.isStale conf now' b.priority b → OutQueue.isStale conf now' a.priority a := by
    apply h.ascending.imp
    intro a b hle hkey hstale
    rw [hkey]
    exact isStale_of_le (hle hkey) hstale
  exact not_stale_of_mem_keepBelow hinherit he

end InTime

/-! ## Runs of the code's queue -/

namespace OutQueue

/-- What a run keeps: the time stamps are in order, and the queue returns. -/
structure Timely (conf : SocketConfig L) (now : Instant) (q : OutQueue L T) : Prop where
  inTime : InTime now q.entries
  noEmptyQueue : q.NoEmptyQueue
  conf_eq : q.conf = conf

variable {conf : SocketConfig L} {now : Instant} {q : OutQueue L T}

theorem timely_new (conf : SocketConfig L) (now : Instant) :
    Timely conf now (OutQueue.new conf : OutQueue L T) where
  inTime := by
    rw [entries_new]
    exact InTime.nil now
  noEmptyQueue := noEmptyQueue_new conf
  conf_eq := rfl

/-- **One operation, made no earlier than the last one.** -/
theorem Timely.apply (h : Timely conf now q) (op : QueueOp T)
    (hclock : ∀ t, op.reading? = some t → now ≤ t) :
    ∃ obs q', q.apply op = .ok (obs, q') ∧ Timely conf (op.reading?.getD now) q' := by
  cases op with
  | push t msg priority =>
      refine ⟨.pushed, q.pushAt t msg priority, rfl, ?_, h.noEmptyQueue.pushAt t msg priority,
        h.conf_eq⟩
      have hpush := h.inTime.push (e := ⟨priority, t, msg⟩) (hclock t rfl)
      exact hpush.of_same (entries_pushAt q t msg priority) (sorted_entries _)
  | nextMsg =>
      rcases nextMsg_spec h.noEmptyQueue with ⟨-, hnext⟩ | ⟨e, q', hnext, hentries, hne, hconf⟩
      · refine ⟨.next none, q, ?_, h⟩
        simp [OutQueue.apply, hnext, bind, Except.bind, pure, Except.pure]
      · have hrest : InTime now q'.entries := by
          apply h.inTime.sublist
          rw [hentries]
          exact List.sublist_cons_self e q'.entries
        exact ⟨.next (some e.msg), q',
          by simp [OutQueue.apply, hnext, bind, Except.bind, pure, Except.pure], hrest, hne,
          hconf.trans h.conf_eq⟩
  | dropExpired t =>
      obtain ⟨q', hdrop, hsplit, -, hconf, hne⟩ := dropExpired_spec q t
      have hrest : InTime t q'.entries := by
        apply (h.inTime.later (hclock t rfl)).sublist
        rw [hsplit]
        exact List.sublist_append_left _ _
      exact ⟨.dropped (q.expired t).length, q',
        by simp [OutQueue.apply, hdrop, bind, Except.bind, pure, Except.pure], hrest,
        hne h.noEmptyQueue, hconf.trans h.conf_eq⟩

/-- A run whose clock never goes back keeps the time stamps in order. -/
theorem Timely.run (ops : List (QueueOp T)) : ∀ {now : Instant} {q : OutQueue L T},
    Timely conf now q → (now :: readings ops).Pairwise (· ≤ ·) →
      ∃ obs q', OutQueue.run ops q = .ok (obs, q') ∧
        ∀ later, (∀ t ∈ now :: readings ops, t ≤ later) → Timely conf later q' := by
  induction ops with
  | nil =>
      intro now q h _
      refine ⟨[], q, rfl, fun later hlater => ⟨?_, h.noEmptyQueue, h.conf_eq⟩⟩
      exact h.inTime.later (hlater now List.mem_cons_self)
  | cons op ops ih =>
      intro now q h hclock
      have hreading : ∀ t, op.reading? = some t → now ≤ t := by
        intro t ht
        apply (List.pairwise_cons.mp hclock).1
        simp [readings, ht]
      obtain ⟨obs, q₁, hop, h₁⟩ := h.apply op hreading
      have hrest : (op.reading?.getD now :: readings ops).Pairwise (· ≤ ·) := by
        cases hr : op.reading? with
        | none => simpa [readings, hr] using hclock
        | some t =>
            have htail := (List.pairwise_cons.mp hclock).2
            simpa [readings, hr] using htail
      obtain ⟨rest, q₂, hrun, h₂⟩ := ih h₁ hrest
      refine ⟨obs :: rest, q₂, ?_, fun later hlater => h₂ later fun t ht => ?_⟩
      · simp [OutQueue.run, hop, hrun, bind, Except.bind, pure, Except.pure]
      · apply hlater t
        cases hr : op.reading? with
        | none => simpa [readings, hr] using ht
        | some t' =>
            simp only [hr, Option.getD_some, List.mem_cons] at ht
            simp only [readings, List.filterMap_cons, hr, List.mem_cons]
            exact .inr ht

/-- From front to back of every queue, time stamps do not decrease. -/
def Ascending (q : OutQueue L T) : Prop :=
  ∀ (p : Priority) (queue : List (Instant × T)), q.inner[p]? = some queue →
    queue.Pairwise fun a b => a.1 ≤ b.1

/-- What a `dropExpired` is for: it returns, what it leaves is fresh or
protected, doing it again removes nothing, and the protected queues stay as
they are. -/
structure Expires (q : OutQueue L T) (now : Instant) (q' : OutQueue L T) : Prop where
  returns : ∃ count, q.dropExpired now = .ok (count, q')
  complete : ∀ p queue, q'.inner[p]? = some queue → q.conf.msgDropPriority ≤ p →
    ∀ tm ∈ queue, elapsedSecs tm.1 now ≤ q.conf.maxMsgAgeSecs
  again : q'.dropExpired now = .ok (0, q')
  protects : ∀ p, p < q.conf.msgDropPriority → q'.inner[p]? = q.inner[p]?

private theorem mem_entries_of_queue {p : Priority} {queue : List (Instant × T)}
    (hq : q.inner[p]? = some queue) {tm : Instant × T} (htm : tm ∈ queue) :
    ⟨p, tm.1, tm.2⟩ ∈ q.entries := by
  rw [mem_iff_mem_atKey Entry.priority, atKey_entries, hq]
  exact List.mem_map_of_mem htm

theorem Timely.expires (h : Timely conf now q) (now' : Instant) : ∃ q', q.Expires now' q' := by
  obtain ⟨q', hdrop, -, hkeep, hconf, -⟩ := dropExpired_spec q now'
  have hfresh : ∀ e ∈ q'.entries, isStale q'.conf now' e.priority e = false := by
    rw [hkeep, hconf]
    exact h.inTime.fresh q.conf now'
  refine ⟨q', ⟨_, hdrop⟩, ?_, dropExpired_nothing (cutoff_eq_none hfresh), ?_⟩
  · intro p queue hqueue hp tm htm
    have hnot := hfresh _ (mem_entries_of_queue hqueue htm)
    simp only [isStale, hconf, Bool.and_eq_false_iff, decide_eq_false_iff_not] at hnot
    rcases hnot with hnot | hnot
    · exact absurd hp hnot
    · omega
  · intro p hp
    exact dropExpired_protected hdrop hp

theorem Timely.ascending (h : Timely conf now q) : q.Ascending := by
  intro p queue hqueue
  have hentries : (toEntries p queue).Pairwise
      fun a b => a.priority = b.priority → a.time ≤ b.time := by
    have hkey := atKey_entries q p
    rw [hqueue, Option.getD_some] at hkey
    rw [← hkey]
    exact h.inTime.ascending.filter _
  rw [toEntries, List.pairwise_map] at hentries
  exact hentries.imp fun hle => hle rfl

end OutQueue

/-- **Expiry is complete, and spares what is protected.**  In every run whose
clock never goes back, time stamps ascend along each queue, and a
`dropExpired` made next, at whatever later time, leaves nothing stale behind
and no protected queue changed. -/
theorem outQueue_expires (conf : SocketConfig L) (ops : List (QueueOp T))
    (hclock : (readings ops).Pairwise (· ≤ ·)) :
    ∃ obs q, OutQueue.run ops (OutQueue.new conf) = .ok (obs, q) ∧ q.conf = conf ∧
      q.Ascending ∧ ∀ now, (∀ t ∈ readings ops, t ≤ now) → ∃ q', q.Expires now q' := by
  have hstart : (0 :: readings ops).Pairwise (· ≤ ·) :=
    List.pairwise_cons.mpr ⟨fun _ _ => Nat.zero_le _, hclock⟩
  obtain ⟨obs, q, hrun, h⟩ := (OutQueue.timely_new conf 0).run ops hstart
  have hafter : ∀ now, (∀ t ∈ readings ops, t ≤ now) → OutQueue.Timely conf now q := by
    intro now hnow
    apply h now
    intro t ht
    rcases List.mem_cons.mp ht with rfl | ht
    · exact Nat.zero_le _
    · exact hnow t ht
  -- some time that lies behind all readings
  have hend := hafter (readings ops).sum fun t ht => List.le_sum_of_mem ht
  refine ⟨obs, q, hrun, hend.conf_eq, hend.ascending, fun now hnow => ?_⟩
  exact (hafter now hnow).expires now

namespace BincodeInstance

/-- Two messages of droppable priority and one of protected priority, over the
course of two minutes. -/
def agingOps : List (QueueOp UInt32) :=
  [.push 0 5 2, .push (30 * 10 ^ 9) 6 2, .push (30 * 10 ^ 9) 7 1, .dropExpired (61 * 10 ^ 9),
    .push (120 * 10 ^ 9) 8 2]

theorem outQueue_expires_aging :
    ∃ obs q, OutQueue.run agingOps (OutQueue.new (SocketConfig.default (L := crates))) =
        .ok (obs, q) ∧ q.conf = SocketConfig.default ∧
      q.Ascending ∧ ∀ now, (∀ t ∈ readings agingOps, t ≤ now) → ∃ q', q.Expires now q' :=
  outQueue_expires SocketConfig.default agingOps (by decide)

end BincodeInstance

end SocketCollection
