import Mathlib
import SocketCollection.Crypto
import SocketCollection.StableQueue

/-!
# The outgoing message queue

`out_queue.rs`: a `BTreeMap` of per-priority `VecDeque`s.  The map is Lean's
`Std.TreeMap`, whose iteration order is the ascending order of the keys, and a
deque is the list of its elements from front to back.

The clock is an input: `push` stores the reading it is given, and
`dropExpired` compares every time stamp it looks at with one reading.

`entries` lists what a queue holds, grouped by priority and from front to
back.  Each operation gets one theorem that says what it does to that list
(`entries_pushAt`, `nextMsg_spec`, `dropExpired_spec`); later modules use
these and never look inside the map.
-/

namespace SocketCollection

open StableQueue

variable {L : Crates} {T : Type}

/-- `OutQueue<T>`. -/
structure OutQueue (L : Crates) (T : Type) where
  inner : Std.TreeMap Priority (List (Instant × T))
  conf : SocketConfig L

/-- A queued message with the priority and the time it was pushed with. -/
structure Entry (T : Type) where
  priority : Priority
  time : Instant
  msg : T
  deriving DecidableEq, Repr

/-- Whether a queue is not to be dropped when the clock reads `now`. -/
def isQueueValid (now : Instant) (priority : Priority) (queue : List (Instant × T))
    (conf : SocketConfig L) : Bool :=
  decide (priority < conf.msgDropPriority) ||
    match queue.head? with
    | none => true
    | some (timestamp, _) => decide (elapsedSecs timestamp now ≤ conf.maxMsgAgeSecs)

/-- `unwrap!(queue.pop_front())`. -/
def popFront {α : Type} : List α → Exec (α × List α)
  | [] => .error .unwrapOfNone
  | a :: rest => .ok (a, rest)

/-- `keys.iter().filter_map(|priority| inner.remove(priority))`: the removed
queues and the map that is left. -/
def removeQueues (inner : Std.TreeMap Priority (List (Instant × T))) :
    List Priority → List (List (Instant × T)) × Std.TreeMap Priority (List (Instant × T))
  | [] => ([], inner)
  | priority :: keys =>
      match inner[priority]? with
      | none => removeQueues inner keys
      | some queue =>
          let (queues, inner) := removeQueues (inner.erase priority) keys
          (queue :: queues, inner)

namespace OutQueue

def new (conf : SocketConfig L) : OutQueue L T where
  inner := ∅
  conf := conf

/-- Append a message to the queue of its priority. -/
def pushAt (q : OutQueue L T) (when' : Instant) (msg : T) (priority : Priority) :
    OutQueue L T :=
  let append := fun queue : Option (List (Instant × T)) =>
    some (queue.getD [] ++ [(when', msg)])
  { q with inner := q.inner.alter priority append }

/-- `push`, at a clock reading. -/
def push (q : OutQueue L T) (now : Instant) (msg : T) (priority : Priority) :
    OutQueue L T :=
  q.pushAt now msg priority

/-- The queues from the first one that is not valid on. -/
def expiredPart (q : OutQueue L T) (now : Instant) :
    List (Priority × List (Instant × T)) :=
  q.inner.toList.dropWhile fun kv => isQueueValid now kv.1 kv.2 q.conf

/-- The priorities of the queues to drop. -/
def expiredQueues (q : OutQueue L T) (now : Instant) : List Priority :=
  (q.expiredPart now).map Prod.fst

/-- Drop expired messages and count them. -/
def dropExpired (q : OutQueue L T) (now : Instant) : Exec (Nat × OutQueue L T) := do
  let expiredKeys := q.expiredQueues now
  let (queues, inner) := removeQueues q.inner expiredKeys
  let droppedMsgs := (queues.map List.length).sum
  -- the trace message names the first of the expired keys
  if droppedMsgs > 0 ∧ expiredKeys = [] then
    throw .indexOutOfRange
  return (droppedMsgs, { q with inner })

/-- Take the next message: the front of the first queue, which leaves the map
when that empties it. -/
def nextMsg (q : OutQueue L T) : Exec (Option T × OutQueue L T) := do
  match q.inner.toList.head? with
  | none => return (none, q)
  | some (key, queue) =>
      let ((_, data), queue) ← popFront queue
      let inner := q.inner.insert key queue
      let inner := if queue.isEmpty then inner.erase key else inner
      return (some data, { q with inner })

/-! ## What a queue holds -/

/-- The entries of one queue, from front to back. -/
def toEntries (priority : Priority) (queue : List (Instant × T)) : List (Entry T) :=
  queue.map fun tm => ⟨priority, tm.1, tm.2⟩

/-- All entries, by ascending priority number and from front to back. -/
def entries (q : OutQueue L T) : List (Entry T) :=
  q.inner.toList.flatMap fun kv => toEntries kv.1 kv.2

/-- The entries `dropExpired` removes when the clock reads `now`. -/
def expired (q : OutQueue L T) (now : Instant) : List (Entry T) :=
  (q.expiredPart now).flatMap fun kv => toEntries kv.1 kv.2

/-- No deque in the map is empty. -/
def NoEmptyQueue (q : OutQueue L T) : Prop :=
  ∀ (priority : Priority) (queue : List (Instant × T)),
    q.inner[priority]? = some queue → queue ≠ []

@[simp] theorem toEntries_nil (p : Priority) : toEntries p ([] : List (Instant × T)) = [] :=
  rfl

@[simp] theorem toEntries_append (p : Priority) (a b : List (Instant × T)) :
    toEntries p (a ++ b) = toEntries p a ++ toEntries p b := by
  simp [toEntries]

@[simp] theorem length_toEntries (p : Priority) (d : List (Instant × T)) :
    (toEntries p d).length = d.length := by
  simp [toEntries]

private theorem priority_of_mem_toEntries {p : Priority} {d : List (Instant × T)} {e : Entry T}
    (h : e ∈ toEntries p d) : e.priority = p := by
  obtain ⟨_, -, rfl⟩ := List.mem_map.mp h
  rfl

/-- An entry comes from the queue stored under its priority. -/
private theorem exists_of_mem_flatMap {kvs : List (Priority × List (Instant × T))} {e : Entry T}
    (h : e ∈ kvs.flatMap fun kv => toEntries kv.1 kv.2) : ∃ kv ∈ kvs, e.priority = kv.1 := by
  obtain ⟨kv, hkv, he⟩ := List.mem_flatMap.mp h
  exact ⟨kv, hkv, priority_of_mem_toEntries he⟩

theorem atKey_toEntries (p k : Priority) (d : List (Instant × T)) :
    atKey Entry.priority (toEntries p d) k = if p = k then toEntries p d else [] := by
  by_cases h : p = k
  · rw [if_pos h, atKey, List.filter_eq_self]
    intro e he
    simp [priority_of_mem_toEntries he, h]
  · rw [if_neg h, atKey, List.filter_eq_nil_iff]
    intro e he
    simp [priority_of_mem_toEntries he, h]

/-- Keys are listed in strictly ascending order. -/
theorem toList_ascending (m : Std.TreeMap Priority (List (Instant × T))) :
    m.toList.Pairwise fun a b => a.1 < b.1 :=
  m.ordered_keys_toList.imp fun h => Std.compare_eq_lt.mp h

private theorem atKey_flatMap_of_not_mem {kvs : List (Priority × List (Instant × T))}
    {p : Priority} (h : p ∉ kvs.map Prod.fst) :
    atKey Entry.priority (kvs.flatMap fun kv => toEntries kv.1 kv.2) p = [] := by
  rw [atKey, List.filter_eq_nil_iff]
  intro e he hp
  obtain ⟨kv, hkv, hpri⟩ := exists_of_mem_flatMap he
  have heq : kv.1 = p := by simpa [hpri] using hp
  exact h (heq ▸ List.mem_map_of_mem hkv)

/-- In an ascending association list the entries of a priority are those of the
one queue stored under it. -/
private theorem atKey_flatMap {kvs : List (Priority × List (Instant × T))}
    (h : kvs.Pairwise fun a b => a.1 < b.1) {p : Priority} {d : List (Instant × T)}
    (hmem : (p, d) ∈ kvs) :
    atKey Entry.priority (kvs.flatMap fun kv => toEntries kv.1 kv.2) p = toEntries p d := by
  induction kvs with
  | nil => simp at hmem
  | cons kv kvs ih =>
      obtain ⟨hkv, htail⟩ := List.pairwise_cons.mp h
      rw [List.flatMap_cons, atKey_append, atKey_toEntries]
      rcases List.mem_cons.mp hmem with rfl | hmem
      · have hnot : p ∉ kvs.map Prod.fst := by
          intro hp
          obtain ⟨x, hx, hxp⟩ := List.mem_map.mp hp
          exact absurd (hkv x hx) (hxp ▸ Std.lt_irrefl)
        simp [atKey_flatMap_of_not_mem hnot]
      · have hne : kv.1 ≠ p := fun heq => absurd (hkv (p, d) hmem) (heq ▸ Std.lt_irrefl)
        simpa [hne] using ih htail hmem

/-- The entries of a priority are those of its queue. -/
theorem atKey_entries (q : OutQueue L T) (p : Priority) :
    atKey Entry.priority q.entries p = toEntries p (q.inner[p]?.getD []) := by
  cases hp : q.inner[p]? with
  | some d =>
      have hmem := Std.TreeMap.mem_toList_iff_getElem?_eq_some.mpr hp
      exact atKey_flatMap (toList_ascending q.inner) hmem
  | none =>
      apply atKey_flatMap_of_not_mem
      intro hmem
      obtain ⟨⟨k, d⟩, hkd, rfl⟩ := List.mem_map.mp hmem
      rw [Std.TreeMap.mem_toList_iff_getElem?_eq_some] at hkd
      simp [hp] at hkd

private theorem sorted_flatMap {kvs : List (Priority × List (Instant × T))}
    (h : kvs.Pairwise fun a b => a.1 < b.1) :
    Sorted Entry.priority (kvs.flatMap fun kv => toEntries kv.1 kv.2) := by
  rw [Sorted, List.pairwise_flatMap]
  constructor
  · intro kv _
    simp [toEntries, List.pairwise_map, Std.le_refl, List.pairwise_of_forall]
  · apply h.imp
    intro a b hab e he e' he'
    rw [priority_of_mem_toEntries he, priority_of_mem_toEntries he']
    exact Std.le_of_lt hab

theorem sorted_entries (q : OutQueue L T) : Sorted Entry.priority q.entries :=
  sorted_flatMap (toList_ascending q.inner)

/-- A queue whose deques are those of another up to one change has the entries
of the other up to that change. -/
private theorem same_of_lookup {q : OutQueue L T} {l : List (Entry T)}
    (h : ∀ k, toEntries k (q.inner[k]?.getD []) = atKey Entry.priority l k) :
    Same Entry.priority q.entries l := fun k => (atKey_entries q k).trans (h k)

private theorem exists_queue {q : OutQueue L T} {e : Entry T} (h : e ∈ q.entries) :
    ∃ d, q.inner[e.priority]? = some d := by
  obtain ⟨kv, hkv, hpri⟩ := exists_of_mem_flatMap h
  rw [hpri]
  exact ⟨kv.2, Std.TreeMap.mem_toList_iff_getElem?_eq_some.mp hkv⟩

/-! ## Construction and push -/

@[simp] theorem entries_new (conf : SocketConfig L) :
    (OutQueue.new conf : OutQueue L T).entries = [] := by
  simp [entries, OutQueue.new]

theorem noEmptyQueue_new (conf : SocketConfig L) :
    (OutQueue.new conf : OutQueue L T).NoEmptyQueue := by
  intro p d h
  simp [OutQueue.new] at h

private theorem getElem?_pushAt (q : OutQueue L T) (t : Instant) (m : T) (p k : Priority) :
    (q.pushAt t m p).inner[k]? =
      if p = k then some (q.inner[p]?.getD [] ++ [(t, m)]) else q.inner[k]? := by
  simp [pushAt, Std.TreeMap.getElem?_alter]

/-- **A push appends to the entries of its priority.** -/
theorem entries_pushAt (q : OutQueue L T) (t : Instant) (m : T) (p : Priority) :
    Same Entry.priority (q.pushAt t m p).entries (q.entries ++ [⟨p, t, m⟩]) := by
  apply same_of_lookup
  intro k
  rw [atKey_append, atKey_entries, getElem?_pushAt, atKey_cons, atKey_nil]
  by_cases h : p = k
  · subst h
    simp [toEntries]
  · simp [h]

theorem NoEmptyQueue.pushAt {q : OutQueue L T} (h : q.NoEmptyQueue) (t : Instant) (m : T)
    (p : Priority) : (q.pushAt t m p).NoEmptyQueue := by
  intro k d hd
  rw [getElem?_pushAt] at hd
  by_cases hk : p = k
  · rw [if_pos hk, Option.some.injEq] at hd
    simp [← hd]
  · rw [if_neg hk] at hd
    exact h k d hd

/-! ## The next message -/

/-- What is left of the map after `nextMsg` popped the front of queue `k`. -/
private theorem getElem?_popped (m : Std.TreeMap Priority (List (Instant × T)))
    (k j : Priority) (rest : List (Instant × T)) :
    (if rest.isEmpty then (m.insert k rest).erase k else m.insert k rest)[j]? =
      if k = j then (if rest.isEmpty then none else some rest) else m[j]? := by
  by_cases hr : rest.isEmpty <;> by_cases hj : k = j <;>
    simp [hr, hj, Std.TreeMap.getElem?_erase, Std.TreeMap.getElem?_insert]

private theorem head_of_entries (q : OutQueue L T) {k : Priority}
    {queue : List (Instant × T)} (h : q.inner.toList.head? = some (k, queue)) :
    q.inner[k]? = some queue ∧ ∀ j d, q.inner[j]? = some d → k ≤ j := by
  obtain ⟨rest, hrest⟩ : ∃ rest, q.inner.toList = (k, queue) :: rest := by
    cases hl : q.inner.toList with
    | nil => simp [hl] at h
    | cons x rest =>
        rw [hl, List.head?_cons, Option.some.injEq] at h
        exact ⟨rest, by rw [h]⟩
  have hasc := toList_ascending q.inner
  rw [hrest] at hasc
  refine ⟨?_, fun j d hj => ?_⟩
  · rw [← Std.TreeMap.mem_toList_iff_getElem?_eq_some, hrest]
    exact List.mem_cons_self
  · rw [← Std.TreeMap.mem_toList_iff_getElem?_eq_some, hrest, List.mem_cons] at hj
    rcases hj with hj | hj
    · rw [Prod.mk.injEq] at hj
      exact hj.1 ▸ Std.le_refl _
    · exact Std.le_of_lt ((List.pairwise_cons.mp hasc).1 (j, d) hj)

section Popped

variable {q : OutQueue L T} {k : Priority} {tm : Instant × T} {rest : List (Instant × T)}

/-- The queue that is left when the front of queue `k` is popped. -/
private def popped (q : OutQueue L T) (k : Priority) (rest : List (Instant × T)) : OutQueue L T :=
  { q with inner := if rest.isEmpty then (q.inner.insert k rest).erase k
      else q.inner.insert k rest }

private theorem NoEmptyQueue.popped (hq : q.NoEmptyQueue) (k : Priority)
    (rest : List (Instant × T)) : (q.popped k rest).NoEmptyQueue := by
  intro j d hd
  rw [OutQueue.popped, getElem?_popped] at hd
  by_cases hj : k = j
  · by_cases hr : rest.isEmpty
    · simp [hj, hr] at hd
    · simp only [hj, hr, if_true, Bool.false_eq_true, if_false, Option.some.injEq] at hd
      subst hd
      exact fun h => hr (by simp [h])
  · rw [if_neg hj] at hd
    exact hq j d hd

/-- Popping the front of the first queue takes the first entry.  Both sides are
sorted, so it is enough to compare them key by key. -/
private theorem entries_popped (hk : q.inner[k]? = some (tm :: rest))
    (hleast : ∀ j d, q.inner[j]? = some d → k ≤ j) :
    q.entries = ⟨k, tm.1, tm.2⟩ :: (q.popped k rest).entries := by
  have hsame : Same Entry.priority q.entries
      (⟨k, tm.1, tm.2⟩ :: (q.popped k rest).entries) := by
    intro j
    rw [atKey_cons, atKey_entries, atKey_entries, popped, getElem?_popped]
    by_cases hj : k = j
    · subst hj
      by_cases hr : rest.isEmpty
      · simp [hk, toEntries, List.isEmpty_iff.mp hr]
      · simp [hk, hr, toEntries]
    · simp [hj]
  have hfirst : ∀ e ∈ (q.popped k rest).entries, k ≤ e.priority := by
    intro e he
    obtain ⟨d, hd⟩ := exists_queue ((hsame.mem_iff e).mpr (List.mem_cons_of_mem _ he))
    exact hleast e.priority d hd
  exact hsame.eq_of_sorted (sorted_entries q)
    (List.pairwise_cons.mpr ⟨hfirst, sorted_entries (q.popped k rest)⟩)

end Popped

/-- **`nextMsg` takes the first entry, and never unwraps `None`.** -/
theorem nextMsg_spec {q : OutQueue L T} (hq : q.NoEmptyQueue) :
    (q.entries = [] ∧ q.nextMsg = .ok (none, q)) ∨
    ∃ e q', q.nextMsg = .ok (some e.msg, q') ∧ q.entries = e :: q'.entries ∧
      q'.NoEmptyQueue ∧ q'.conf = q.conf := by
  cases hhead : q.inner.toList.head? with
  | none =>
      left
      rw [List.head?_eq_none_iff] at hhead
      exact ⟨by simp [entries, hhead], by simp [nextMsg, hhead, pure, Except.pure]⟩
  | some kv =>
      right
      obtain ⟨k, queue⟩ := kv
      obtain ⟨hk, hleast⟩ := head_of_entries q hhead
      cases queue with
      | nil => exact absurd rfl (hq k [] hk)
      | cons tm rest =>
          have hnext : q.nextMsg = .ok (some tm.2, q.popped k rest) := by
            simp [nextMsg, hhead, popFront, popped, pure, Except.pure, bind, Except.bind]
          exact ⟨⟨k, tm.1, tm.2⟩, q.popped k rest, hnext, entries_popped hk hleast,
            hq.popped k rest, rfl⟩

/-! ## Expiry -/

/-- The rule by which `isQueueValid` rejects a queue, read at its front entry. -/
def isStale (conf : SocketConfig L) (now : Instant) (priority : Priority) (e : Entry T) :
    Bool :=
  decide (conf.msgDropPriority ≤ priority) &&
    decide (conf.maxMsgAgeSecs < elapsedSecs e.time now)

theorem isQueueValid_eq (now : Instant) (p : Priority) (d : List (Instant × T))
    (conf : SocketConfig L) :
    isQueueValid now p d conf = !((toEntries p d).head?.any (isStale conf now p)) := by
  cases d with
  | nil => simp [isQueueValid]
  | cons tm d =>
      by_cases hp : p < conf.msgDropPriority
      · have hp' := Std.not_le.mpr hp
        simp [isQueueValid, isStale, toEntries, hp, hp']
      · have hp' := Std.not_lt.mp hp
        by_cases ha : elapsedSecs tm.1 now ≤ conf.maxMsgAgeSecs
        · have ha' : ¬ conf.maxMsgAgeSecs < elapsedSecs tm.1 now := by omega
          simp [isQueueValid, isStale, toEntries, hp, hp', ha, ha']
        · have ha' : conf.maxMsgAgeSecs < elapsedSecs tm.1 now := by omega
          simp [isQueueValid, isStale, toEntries, hp, hp', ha, ha']

private theorem getElem?_removeQueues (keys : List Priority) :
    ∀ (m : Std.TreeMap Priority (List (Instant × T))) (k : Priority),
      (removeQueues m keys).2[k]? = if k ∈ keys then none else m[k]? := by
  induction keys with
  | nil => intro m k; simp [removeQueues]
  | cons p keys ih =>
      intro m k
      cases hp : m[p]? with
      | none =>
          simp only [removeQueues, hp, ih]
          by_cases hk : k = p
          · subst hk
            simp [hp]
          · simp [hk]
      | some d =>
          simp only [removeQueues, hp, ih, Std.TreeMap.getElem?_erase]
          by_cases hk : k = p
          · simp [hk]
          · simp [hk, Ne.symm hk]

/-- Removing distinct keys hands back the queues stored under them. -/
private theorem removeQueues_queues {kvs : List (Priority × List (Instant × T))}
    (hasc : kvs.Pairwise fun a b => a.1 < b.1) :
    ∀ m : Std.TreeMap Priority (List (Instant × T)),
      (∀ kv ∈ kvs, m[kv.1]? = some kv.2) →
        (removeQueues m (kvs.map Prod.fst)).1 = kvs.map Prod.snd := by
  induction kvs with
  | nil => intro m _; rfl
  | cons kv kvs ih =>
      intro m hm
      obtain ⟨hkv, htail⟩ := List.pairwise_cons.mp hasc
      have hhead := hm kv List.mem_cons_self
      have hrest : ∀ x ∈ kvs, (m.erase kv.1)[x.1]? = some x.2 := by
        intro x hx
        have hne : kv.1 ≠ x.1 := fun heq => absurd (hkv x hx) (heq ▸ Std.lt_irrefl)
        rw [Std.TreeMap.getElem?_erase, if_neg (by simpa [Std.compare_eq_iff_eq] using hne)]
        exact hm x (List.mem_cons_of_mem _ hx)
      simp [removeQueues, hhead, ih htail (m.erase kv.1) hrest]

/-- The queues in front of the first invalid one. -/
private def validPart (q : OutQueue L T) (now : Instant) :
    List (Priority × List (Instant × T)) :=
  q.inner.toList.takeWhile fun kv => isQueueValid now kv.1 kv.2 q.conf

private theorem validPart_append (q : OutQueue L T) (now : Instant) :
    q.validPart now ++ q.expiredPart now = q.inner.toList :=
  List.takeWhile_append_dropWhile

private theorem expiredPart_mem (q : OutQueue L T) (now : Instant) :
    ∀ kv ∈ q.expiredPart now, q.inner[kv.1]? = some kv.2 := by
  intro kv hkv
  rw [← Std.TreeMap.mem_toList_iff_getElem?_eq_some, ← validPart_append q now]
  exact List.mem_append_right _ hkv

private theorem ascending_parts (q : OutQueue L T) (now : Instant) :
    (q.validPart now).Pairwise (fun a b => a.1 < b.1) ∧
      (q.expiredPart now).Pairwise (fun a b => a.1 < b.1) ∧
        ∀ a ∈ q.validPart now, ∀ b ∈ q.expiredPart now, a.1 < b.1 := by
  have hasc := toList_ascending q.inner
  rw [← validPart_append q now, List.pairwise_append] at hasc
  exact hasc

/-- The queue that `dropExpired` leaves behind. -/
private def dropped (q : OutQueue L T) (now : Instant) : OutQueue L T :=
  { q with inner := (removeQueues q.inner (q.expiredQueues now)).2 }

private theorem entries_dropped (q : OutQueue L T) (now : Instant) :
    (q.dropped now).entries =
      (q.validPart now).flatMap fun kv => toEntries kv.1 kv.2 := by
  obtain ⟨hvalid, hexp, hlt⟩ := ascending_parts q now
  refine (same_of_lookup fun k => ?_).eq_of_sorted (sorted_entries _) (sorted_flatMap hvalid)
  rw [dropped, getElem?_removeQueues]
  by_cases hk : k ∈ q.expiredQueues now
  · -- an expired key is not among the valid ones
    have hnot : k ∉ (q.validPart now).map Prod.fst := by
      intro hmem
      obtain ⟨a, ha, rfl⟩ := List.mem_map.mp hmem
      obtain ⟨b, hb, hab⟩ := List.mem_map.mp hk
      exact absurd (hlt a ha b hb) (hab ▸ Std.lt_irrefl)
    rw [if_pos hk, atKey_flatMap_of_not_mem hnot]
    rfl
  · have hexpired := atKey_flatMap_of_not_mem hk
    rw [if_neg hk, ← atKey_entries q k, entries, ← validPart_append q now,
      List.flatMap_append, atKey_append, hexpired, List.append_nil]

/-- Reading the staleness of a priority off the flat list of entries. -/
private theorem stale_entries (q : OutQueue L T) (now : Instant) {k : Priority}
    {d : List (Instant × T)} (hk : q.inner[k]? = some d) :
    (earliest Entry.priority q.entries k).any (isStale q.conf now k) =
      !isQueueValid now k d q.conf := by
  rw [earliest_eq_head?, atKey_entries, hk, isQueueValid_eq, Bool.not_not]
  rfl

/-- A stale priority is one of the expired ones. -/
private theorem mem_expiredPart_of_stale {q : OutQueue L T} {now : Instant} {k : Priority}
    {d : List (Instant × T)} (hk : q.inner[k]? = some d)
    (hstale : isQueueValid now k d q.conf = false) : (k, d) ∈ q.expiredPart now := by
  have hmem := Std.TreeMap.mem_toList_iff_getElem?_eq_some.mpr hk
  rw [← validPart_append q now, List.mem_append] at hmem
  apply hmem.resolve_left
  intro hvalid
  have hall := List.all_takeWhile (l := q.inner.toList)
    (p := fun kv => isQueueValid now kv.1 kv.2 q.conf)
  rw [List.all_eq_true] at hall
  simpa [hstale] using hall (k, d) hvalid

/-- The first of the expired queues is not valid. -/
private theorem isQueueValid_first {q : OutQueue L T} {now : Instant}
    {kv : Priority × List (Instant × T)} {rest : List (Priority × List (Instant × T))}
    (h : q.expiredPart now = kv :: rest) : isQueueValid now kv.1 kv.2 q.conf = false := by
  have hhead := List.head?_dropWhile_not
    (fun kv : Priority × List (Instant × T) => isQueueValid now kv.1 kv.2 q.conf)
    q.inner.toList
  rw [← expiredPart, h] at hhead
  simpa using hhead

private theorem entries_eq_append (q : OutQueue L T) (now : Instant) :
    q.entries = ((q.validPart now).flatMap fun kv => toEntries kv.1 kv.2) ++ q.expired now := by
  rw [expired, ← List.flatMap_append, validPart_append, entries]

/-- From the first of the expired queues on, priorities ascend. -/
private theorem le_of_mem_expiredPart {q : OutQueue L T} {now : Instant}
    {kv kv' : Priority × List (Instant × T)} {rest : List (Priority × List (Instant × T))}
    (h : q.expiredPart now = kv :: rest) (hmem : kv' ∈ q.expiredPart now) : kv.1 ≤ kv'.1 := by
  obtain ⟨-, hexp, -⟩ := ascending_parts q now
  rw [h] at hexp hmem
  rcases List.mem_cons.mp hmem with rfl | hmem
  · exact Std.le_refl _
  · exact Std.le_of_lt ((List.pairwise_cons.mp hexp).1 kv' hmem)

/-- The least priority whose earliest entry is stale is that of the first
expired queue. -/
private theorem cutoff_entries (q : OutQueue L T) (now : Instant) :
    cutoff Entry.priority (isStale q.conf now) q.entries =
      (q.expiredPart now).head?.map Prod.fst := by
  -- a priority with a stale earliest entry has an expired queue
  have hexpired : ∀ k ∈ q.entries.map Entry.priority,
      (earliest Entry.priority q.entries k).any (isStale q.conf now k) = true →
        ∃ d, (k, d) ∈ q.expiredPart now := by
    intro k hk hstale
    obtain ⟨e, he, rfl⟩ := List.mem_map.mp hk
    obtain ⟨d, hd⟩ := exists_queue he
    rw [stale_entries q now hd] at hstale
    exact ⟨d, mem_expiredPart_of_stale hd (by simpa using hstale)⟩
  cases hpart : q.expiredPart now with
  | nil =>
      rw [cutoff, List.head?_nil, Option.map_none, List.min?_eq_none_iff, List.filter_eq_nil_iff]
      intro k hk hstale
      obtain ⟨d, hd⟩ := hexpired k hk hstale
      simp [hpart] at hd
  | cons kv rest =>
      have hkv : q.inner[kv.1]? = some kv.2 :=
        expiredPart_mem q now kv (hpart ▸ List.mem_cons_self)
      have hstale := stale_entries q now hkv
      rw [isQueueValid_first hpart, Bool.not_false] at hstale
      obtain ⟨e, he⟩ : ∃ e, earliest Entry.priority q.entries kv.1 = some e := by
        rw [← Option.isSome_iff_exists]
        exact Option.isSome_of_any hstale
      have hpri : e.priority = kv.1 := by simpa using List.find?_some he
      rw [cutoff, List.head?_cons, Option.map_some, List.min?_eq_some_iff]
      constructor
      · rw [List.mem_filter]
        exact ⟨hpri ▸ List.mem_map_of_mem (List.mem_of_find?_eq_some he), hstale⟩
      · intro k hk
        obtain ⟨hmem, hk'⟩ := List.mem_filter.mp hk
        obtain ⟨d, hd⟩ := hexpired k hmem hk'
        exact le_of_mem_expiredPart hpart hd

/-- Everything from the least priority with a stale front entry on is what
`dropExpired` removes. -/
private theorem keepBelow_entries (q : OutQueue L T) (now : Instant) :
    keepBelow Entry.priority (cutoff Entry.priority (isStale q.conf now) q.entries) q.entries =
      (q.validPart now).flatMap fun kv => toEntries kv.1 kv.2 := by
  obtain ⟨-, -, hlt⟩ := ascending_parts q now
  have hsplit := entries_eq_append q now
  rw [cutoff_entries]
  cases hpart : q.expiredPart now with
  | nil =>
      rw [expired, hpart, List.flatMap_nil, List.append_nil] at hsplit
      exact hsplit
  | cons kv rest =>
      have hkeep : ∀ e ∈ (q.validPart now).flatMap (fun kv => toEntries kv.1 kv.2),
          e.priority < kv.1 := by
        intro e he
        obtain ⟨a, ha, hpri⟩ := exists_of_mem_flatMap he
        rw [hpri]
        exact hlt a ha kv (hpart ▸ List.mem_cons_self)
      have hdrop : ∀ e ∈ q.expired now, ¬ e.priority < kv.1 := by
        intro e he
        obtain ⟨a, ha, hpri⟩ := exists_of_mem_flatMap he
        rw [hpri]
        exact Std.not_lt.mpr (le_of_mem_expiredPart hpart ha)
      show q.entries.filter (fun e => decide (e.priority < kv.1)) = _
      rw [hsplit, List.filter_append, List.filter_eq_self.mpr (by simpa using hkeep),
        List.filter_eq_nil_iff.mpr (by simpa using hdrop), List.append_nil]

/-- Only queues from the drop priority on are dropped. -/
theorem expiredPart_droppable (q : OutQueue L T) (now : Instant) :
    ∀ kv ∈ q.expiredPart now, q.conf.msgDropPriority ≤ kv.1 := by
  intro kv hkv
  cases hpart : q.expiredPart now with
  | nil => simp [hpart] at hkv
  | cons first rest =>
      have hinvalid := isQueueValid_first hpart
      have hdrop : q.conf.msgDropPriority ≤ first.1 := by
        apply Std.not_lt.mp
        intro hlt
        simp [isQueueValid, hlt] at hinvalid
      exact Std.le_trans hdrop (le_of_mem_expiredPart hpart hkv)

/-- Only priorities from the drop priority on expire. -/
theorem expired_droppable (q : OutQueue L T) (now : Instant) :
    ∀ e ∈ q.expired now, q.conf.msgDropPriority ≤ e.priority := by
  intro e he
  obtain ⟨kv, hkv, hpri⟩ := exists_of_mem_flatMap he
  rw [hpri]
  exact q.expiredPart_droppable now kv hkv

/-- `dropExpired` counts what it removes, and never panics. -/
private theorem dropExpired_eq (q : OutQueue L T) (now : Instant) :
    q.dropExpired now = .ok ((q.expired now).length, q.dropped now) := by
  have hqueues : (removeQueues q.inner (q.expiredQueues now)).1 =
      (q.expiredPart now).map Prod.snd :=
    removeQueues_queues (ascending_parts q now).2.1 q.inner (expiredPart_mem q now)
  have hcount : ((removeQueues q.inner (q.expiredQueues now)).1.map List.length).sum =
      (q.expired now).length := by
    rw [hqueues, expired, List.length_flatMap, List.map_map]
    simp [Function.comp_def]
  have hindex : ¬ ((q.expired now).length > 0 ∧ q.expiredQueues now = []) := by
    rintro ⟨hpos, hnil⟩
    rw [expiredQueues, List.map_eq_nil_iff] at hnil
    simp [expired, hnil] at hpos
  simp only [dropExpired, hcount, hindex, if_false]
  rfl

/-- **`dropExpired` cuts the entries off at the least priority whose earliest
entry is stale, counts what it removes, and never panics.** -/
theorem dropExpired_spec (q : OutQueue L T) (now : Instant) :
    ∃ q', q.dropExpired now = .ok ((q.expired now).length, q') ∧
      q.entries = q'.entries ++ q.expired now ∧
      q'.entries =
        keepBelow Entry.priority (cutoff Entry.priority (isStale q.conf now) q.entries)
          q.entries ∧
      q'.conf = q.conf ∧ (q.NoEmptyQueue → q'.NoEmptyQueue) := by
  refine ⟨q.dropped now, q.dropExpired_eq now, ?_, ?_, rfl, ?_⟩
  · rw [entries_dropped]
    exact entries_eq_append q now
  · rw [entries_dropped, keepBelow_entries]
  · intro hq k d hd
    rw [dropped, getElem?_removeQueues] at hd
    by_cases hk : k ∈ q.expiredQueues now
    · simp [hk] at hd
    · rw [if_neg hk] at hd
      exact hq k d hd

/-- A `dropExpired` removes whole queues, and none below the drop
priority. -/
theorem dropExpired_protected {q q' : OutQueue L T} {now : Instant} {count : Nat}
    (h : q.dropExpired now = .ok (count, q')) {p : Priority} (hp : p < q.conf.msgDropPriority) :
    q'.inner[p]? = q.inner[p]? := by
  have hkeep : p ∉ q.expiredQueues now := by
    intro hmem
    obtain ⟨kv, hkv, rfl⟩ := List.mem_map.mp hmem
    exact absurd hp (Std.not_lt.mpr (q.expiredPart_droppable now kv hkv))
  rw [dropExpired_eq] at h
  obtain rfl : q.dropped now = q' := (Prod.mk.inj (Except.ok.inj h)).2
  rw [dropped, getElem?_removeQueues, if_neg hkeep]

/-- Where no priority has a stale front entry, nothing is removed. -/
theorem dropExpired_nothing {q : OutQueue L T} {now : Instant}
    (h : cutoff Entry.priority (isStale q.conf now) q.entries = none) :
    q.dropExpired now = .ok (0, q) := by
  rw [cutoff_entries, Option.map_eq_none_iff, List.head?_eq_none_iff] at h
  have hkeys : q.expiredQueues now = [] := by rw [expiredQueues, h, List.map_nil]
  simp [dropExpired, hkeys, removeQueues, pure, Except.pure]

end OutQueue

end SocketCollection
