import SocketCollection.OutQueue

/-!
# The out queue refines a flat stable priority queue

What `OutQueue` is for, said on the plain list of everything pushed and not
yet gone, in push order: `FlatQueue`.  The map of deques behaves as that list
does, whatever the operations, their order and the clock readings
(`outQueue_refines_flatQueue`).

On the way the representation invariant is established that makes the
`unwrap!` in `next_msg` safe.  `SendQueue` packages a queue with it: its
operations return, and the sockets are built on them.
-/

namespace SocketCollection

open StableQueue

variable {L : Crates} {T : Type}

/-! ## The abstract queue -/

/-- Everything pushed and not yet gone, in push order. -/
abbrev FlatQueue (T : Type) := List (Entry T)

/-- An operation on a queue, with the clock reading it is made at. -/
inductive QueueOp (T : Type)
  | push (now : Instant) (msg : T) (priority : Priority)
  | nextMsg
  | dropExpired (now : Instant)

/-- What the caller of an operation sees. -/
inductive QueueObs (T : Type)
  | pushed
  | next (msg : Option T)
  | dropped (count : Nat)
  deriving DecidableEq, Repr

/-- The least droppable priority whose earliest entry is older than the
configuration allows. -/
def FlatQueue.expiryPoint (conf : SocketConfig L) (now : Instant) (l : FlatQueue T) :
    Option Priority :=
  cutoff Entry.priority (OutQueue.isStale conf now) l

def FlatQueue.apply (conf : SocketConfig L) (l : FlatQueue T) :
    QueueOp T → QueueObs T × FlatQueue T
  | .push now msg priority => (.pushed, l ++ [⟨priority, now, msg⟩])
  | .nextMsg =>
      match next? Entry.priority l with
      | none => (.next none, l)
      | some (e, rest) => (.next (some e.msg), rest)
  | .dropExpired now =>
      let point := FlatQueue.expiryPoint conf now l
      (.dropped (fromCutoff Entry.priority point l).length, keepBelow Entry.priority point l)

def FlatQueue.run (conf : SocketConfig L) :
    List (QueueOp T) → FlatQueue T → List (QueueObs T) × FlatQueue T
  | [], l => ([], l)
  | op :: ops, l =>
      let (obs, l) := FlatQueue.apply conf l op
      let (rest, l) := FlatQueue.run conf ops l
      (obs :: rest, l)

/-! ## Runs of the code's queue -/

namespace OutQueue

def apply (q : OutQueue L T) : QueueOp T → Exec (QueueObs T × OutQueue L T)
  | .push now msg priority => return (.pushed, q.push now msg priority)
  | .nextMsg => do
      let (msg, q) ← q.nextMsg
      return (.next msg, q)
  | .dropExpired now => do
      let (count, q) ← q.dropExpired now
      return (.dropped count, q)

def run : List (QueueOp T) → OutQueue L T → Exec (List (QueueObs T) × OutQueue L T)
  | [], q => return ([], q)
  | op :: ops, q => do
      let (obs, q) ← q.apply op
      let (rest, q) ← run ops q
      return (obs :: rest, q)

/-- The map of deques stands for a flat list. -/
structure Refines (conf : SocketConfig L) (q : OutQueue L T) (l : FlatQueue T) : Prop where
  same : Same Entry.priority q.entries l
  noEmptyQueue : q.NoEmptyQueue
  conf_eq : q.conf = conf

theorem refines_new (conf : SocketConfig L) :
    Refines conf (OutQueue.new conf : OutQueue L T) [] where
  same := by
    rw [entries_new]
    exact Same.refl []
  noEmptyQueue := noEmptyQueue_new conf
  conf_eq := rfl

/-- **One operation gives the result the flat queue gives, and no panic.** -/
theorem Refines.apply {conf : SocketConfig L} {q : OutQueue L T} {l : FlatQueue T}
    (h : Refines conf q l) (op : QueueOp T) :
    ∃ q', q.apply op = .ok ((FlatQueue.apply conf l op).1, q') ∧
      Refines conf q' (FlatQueue.apply conf l op).2 := by
  cases op with
  | push now msg priority =>
      refine ⟨q.pushAt now msg priority, rfl, ?_, h.noEmptyQueue.pushAt now msg priority, h.conf_eq⟩
      exact (entries_pushAt q now msg priority).trans (h.same.append (Same.refl _))
  | nextMsg =>
      rcases nextMsg_spec h.noEmptyQueue with ⟨hnil, hnext⟩ | ⟨e, q', hnext, hentries, hne, hconf⟩
      · have hl : l = [] := List.nil_perm.mp (hnil ▸ h.same.perm)
        subst hl
        exact ⟨q, by simp [OutQueue.apply, hnext, FlatQueue.apply, next?_eq_none.mpr rfl], h⟩
      · have hsorted : Sorted Entry.priority (e :: q'.entries) := hentries ▸ sorted_entries q
        obtain ⟨rest, hrest, hsame⟩ := next?_congr (hentries ▸ h.same) (next?_sorted hsorted)
        refine ⟨q', ?_, ?_, hne, hconf.trans h.conf_eq⟩
        · simp only [OutQueue.apply, hnext, FlatQueue.apply, hrest]
          rfl
        · simpa only [FlatQueue.apply, hrest] using hsame
  | dropExpired now =>
      obtain ⟨q', hdrop, hsplit, hkeep, hconf, hne⟩ := dropExpired_spec q now
      have hpoint : cutoff Entry.priority (isStale q.conf now) q.entries =
          FlatQueue.expiryPoint conf now l := by
        rw [h.same.cutoff_eq, h.conf_eq, FlatQueue.expiryPoint]
      rw [hpoint] at hkeep
      have hcount : (q.expired now).length =
          (fromCutoff Entry.priority (FlatQueue.expiryPoint conf now l) l).length := by
        have hlen := congrArg List.length hsplit
        rw [List.length_append] at hlen
        rw [length_fromCutoff, ← h.same.perm.length_eq, ← (h.same.keepBelow _).perm.length_eq,
          ← hkeep]
        omega
      refine ⟨q', ?_, ?_, hne h.noEmptyQueue, hconf.trans h.conf_eq⟩
      · simp only [OutQueue.apply, hdrop, FlatQueue.apply, hcount]
        rfl
      · rw [hkeep]
        exact h.same.keepBelow _

/-- Runs refine runs. -/
theorem Refines.run {conf : SocketConfig L} (ops : List (QueueOp T)) :
    ∀ {q : OutQueue L T} {l : FlatQueue T}, Refines conf q l →
      ∃ q', OutQueue.run ops q = .ok ((FlatQueue.run conf ops l).1, q') ∧
        Refines conf q' (FlatQueue.run conf ops l).2 := by
  induction ops with
  | nil => intro q l h; exact ⟨q, rfl, h⟩
  | cons op ops ih =>
      intro q l h
      obtain ⟨q₁, hop, h₁⟩ := h.apply op
      obtain ⟨q₂, hrun, h₂⟩ := ih h₁
      refine ⟨q₂, ?_, h₂⟩
      simp only [OutQueue.run, hop, FlatQueue.run]
      simp only [bind, Except.bind, hrun]
      rfl

end OutQueue

/-- **`OutQueue` refines the flat stable priority queue.**  Whatever sequence
of operations is made on a new queue, at whatever clock readings, no call
panics, the results are those of the flat list, and the map of deques that is
reached holds no empty deque and the entries of the list. -/
theorem outQueue_refines_flatQueue (conf : SocketConfig L) (ops : List (QueueOp T)) :
    ∃ q : OutQueue L T,
      OutQueue.run ops (OutQueue.new conf) = .ok ((FlatQueue.run conf ops []).1, q) ∧
        q.NoEmptyQueue ∧ Same Entry.priority q.entries (FlatQueue.run conf ops []).2 := by
  obtain ⟨q, hrun, h⟩ := (OutQueue.refines_new conf).run ops
  exact ⟨q, hrun, h.noEmptyQueue, h.same⟩

/-! ## The queue of a socket -/

/-- An out queue none of whose deques is empty, as every queue built by `new`
and the three operations is. -/
structure SendQueue (L : Crates) (T : Type) where
  queue : OutQueue L T
  noEmptyQueue : queue.NoEmptyQueue

namespace SendQueue

def new (conf : SocketConfig L) : SendQueue L T where
  queue := OutQueue.new conf
  noEmptyQueue := OutQueue.noEmptyQueue_new conf

def conf (q : SendQueue L T) : SocketConfig L := q.queue.conf

def entries (q : SendQueue L T) : List (Entry T) := q.queue.entries

/-- The entries the next `dropExpired` removes. -/
def expired (q : SendQueue L T) (now : Instant) : List (Entry T) := q.queue.expired now

def push (q : SendQueue L T) (now : Instant) (msg : T) (priority : Priority) :
    SendQueue L T where
  queue := q.queue.push now msg priority
  noEmptyQueue := q.noEmptyQueue.pushAt now msg priority

private theorem dropExpired_returns (q : SendQueue L T) (now : Instant) :
    ∃ r, q.queue.dropExpired now = .ok r :=
  let ⟨q', h, _⟩ := OutQueue.dropExpired_spec q.queue now
  ⟨((q.queue.expired now).length, q'), h⟩

private theorem nextMsg_returns (q : SendQueue L T) : ∃ r, q.queue.nextMsg = .ok r := by
  rcases OutQueue.nextMsg_spec q.noEmptyQueue with ⟨-, h⟩ | ⟨e, q', h, -⟩
  · exact ⟨_, h⟩
  · exact ⟨_, h⟩

def dropExpired (q : SendQueue L T) (now : Instant) : Nat × SendQueue L T :=
  let r := (q.queue.dropExpired now).get (q.dropExpired_returns now)
  (r.1, ⟨r.2, by
    obtain ⟨q', h, -, -, -, hne⟩ := OutQueue.dropExpired_spec q.queue now
    simpa [r, h] using hne q.noEmptyQueue⟩)

def nextMsg (q : SendQueue L T) : Option T × SendQueue L T :=
  let r := q.queue.nextMsg.get q.nextMsg_returns
  (r.1, ⟨r.2, by
    rcases OutQueue.nextMsg_spec q.noEmptyQueue with ⟨-, h⟩ | ⟨e, q', h, -, hne, -⟩
    · simpa [r, h] using q.noEmptyQueue
    · simpa [r, h] using hne⟩)

@[simp] theorem entries_new (conf : SocketConfig L) :
    (SendQueue.new conf : SendQueue L T).entries = [] := OutQueue.entries_new conf

theorem entries_push (q : SendQueue L T) (now : Instant) (msg : T) (p : Priority) :
    Same Entry.priority (q.push now msg p).entries (q.entries ++ [⟨p, now, msg⟩]) :=
  OutQueue.entries_pushAt q.queue now msg p

theorem sorted_entries (q : SendQueue L T) : Sorted Entry.priority q.entries :=
  OutQueue.sorted_entries q.queue

/-- A message goes behind those that are as urgent or more. -/
theorem push_entries (q : SendQueue L T) (now : Instant) (msg : T) (p : Priority) :
    (q.push now msg p).entries = (q.entries.filter fun e => e.priority ≤ p) ++
      ⟨p, now, msg⟩ :: q.entries.filter fun e => p < e.priority :=
  (q.entries_push now msg p).eq_insert q.sorted_entries (q.push now msg p).sorted_entries

/-- The next message is the first entry. -/
theorem nextMsg_cases (q : SendQueue L T) :
    (q.entries = [] ∧ q.nextMsg = (none, q)) ∨
    ∃ e q', q.nextMsg = (some e.msg, q') ∧ q.entries = e :: q'.entries ∧
      q'.conf = q.conf := by
  obtain ⟨queue, hne⟩ := q
  rcases OutQueue.nextMsg_spec hne with ⟨hnil, h⟩ | ⟨e, q', h, hentries, hne', hconf⟩
  · exact .inl ⟨hnil, by simp [nextMsg, h]⟩
  · exact .inr ⟨e, ⟨q', hne'⟩, by simp [nextMsg, h], hentries, hconf⟩

/-- `dropExpired` splits the entries into those that stay and the expired
ones. -/
theorem dropExpired_entries (q : SendQueue L T) (now : Instant) :
    q.entries = (q.dropExpired now).2.entries ++ q.expired now ∧
      (q.dropExpired now).2.conf = q.conf := by
  obtain ⟨q', h, hsplit, -, hconf, -⟩ := OutQueue.dropExpired_spec q.queue now
  simp only [dropExpired, h, Exec.get_ok]
  exact ⟨hsplit, hconf⟩

/-- What stays is what is below the least priority whose first entry is
stale. -/
theorem entries_dropExpired (q : SendQueue L T) (now : Instant) :
    (q.dropExpired now).2.entries = keepBelow Entry.priority
      (cutoff Entry.priority (OutQueue.isStale q.conf now) q.entries) q.entries := by
  obtain ⟨q', h, -, hkeep, -, -⟩ := OutQueue.dropExpired_spec q.queue now
  simp only [dropExpired, h, Exec.get_ok]
  exact hkeep

/-- Only priorities from the drop priority on expire. -/
theorem expired_droppable (q : SendQueue L T) (now : Instant) :
    ∀ e ∈ q.expired now, q.conf.msgDropPriority ≤ e.priority :=
  OutQueue.expired_droppable q.queue now

/-! ### Taking the next message

A socket keeps a message that it could not send, and takes it before the next one of
the queue: `current_write.take().or_else(|| out_queue.next_msg())`. -/

section Takes

variable {S : Type} {put : SendQueue L T → Option T → S} {q : SendQueue L T} {current : Option T}

/-- What taking can do: nothing is left, the message that was kept is taken, or the
next entry of the queue.  `put` puts the queue and what is kept back into the state. -/
inductive Takes (put : SendQueue L T → Option T → S) (q : SendQueue L T) (current : Option T) :
    Option T → S → Prop
  | nothing (hcurrent : current = none) (hentries : q.entries = []) :
      Takes put q current none (put q current)
  | kept {msg} (hcurrent : current = some msg) : Takes put q current (some msg) (put q none)
  | entry {e q'} (hcurrent : current = none) (hentries : q.entries = e :: q'.entries)
      (hconf : q'.conf = q.conf) : Takes put q current (some e.msg) (put q' current)

theorem takes_of_eq {out : Option T × S}
    (hkept : ∀ msg, current = some msg → out = (some msg, put q none))
    (hnext : current = none → out = (q.nextMsg.1, put q.nextMsg.2 current)) :
    Takes put q current out.1 out.2 := by
  cases hcurrent : current with
  | some msg =>
      rw [hkept msg hcurrent]
      exact .kept rfl
  | none =>
      rw [hnext hcurrent, hcurrent]
      rcases q.nextMsg_cases with ⟨hnil, hnext⟩ | ⟨e, q', hnext, hentries, hconf⟩
      · rw [hnext]
        exact .nothing rfl hnil
      · rw [hnext]
        exact .entry rfl hentries hconf

end Takes

end SendQueue

end SocketCollection
