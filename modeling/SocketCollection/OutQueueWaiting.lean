import SocketCollection.OutQueueExpiry

/-!
# How long a message waits

A message in the out queue waits for the entries in front of it and for the more
urgent ones that are pushed meanwhile, and for nothing else: as long as it waits,
the number of entries in front of it is the number there was, and one more for
each more urgent push, and one less for each call of `next_msg`.  So it is known
beforehand which call of `next_msg` will return it, unless it expires first.

## Main result

* `waiting_exact`: the fate of a message in any run, with the exact count.
-/

namespace SocketCollection

open StableQueue

variable {L : Crates} {T : Type}

namespace SendQueue

/-- The queue after an operation. -/
def after (q : SendQueue L T) : QueueOp T → SendQueue L T
  | .push now msg priority => q.push now msg priority
  | .nextMsg => q.nextMsg.2
  | .dropExpired now => (q.dropExpired now).2

/-- The entry waits, behind `n` others. -/
def Behind (q : SendQueue L T) (e : Entry T) (n : Nat) : Prop :=
  ∃ ahead later, q.entries = ahead ++ e :: later ∧ ahead.length = n

end SendQueue

/-- The calls of `next_msg`. -/
def nextCalls (ops : List (QueueOp T)) : Nat :=
  ops.countP fun
    | .nextMsg => true
    | _ => false

/-- The pushes that are more urgent than `p`. -/
def overtakes (p : Priority) (ops : List (QueueOp T)) : Nat :=
  ops.countP fun
    | .push _ _ priority => priority < p
    | _ => false

namespace SendQueue

variable {q : SendQueue L T} {e : Entry T} {n : Nat}

/-! ## One operation -/

/-- A push puts the entry back by one place, if it is more urgent. -/
private theorem Behind.push (h : q.Behind e n) (now : Instant) (msg : T) (p : Priority) :
    (q.push now msg p).Behind e (n + if p < e.priority then 1 else 0) := by
  obtain ⟨ahead, later, hentries, rfl⟩ := h
  have hsorted := q.sorted_entries
  have hpush := q.push_entries now msg p
  rw [hentries] at hsorted hpush
  by_cases hp : p < e.priority
  · obtain ⟨front, hfront, hlen⟩ := hsorted.insert_in_front ⟨p, now, msg⟩ hp
    rw [if_pos hp]
    exact ⟨front, later, hpush.trans hfront, hlen⟩
  · obtain ⟨back, hback⟩ := hsorted.insert_behind ⟨p, now, msg⟩ (Std.not_lt.mp hp)
    rw [if_neg hp]
    exact ⟨ahead, back, hpush.trans hback, rfl⟩

/-- The entry in front is the next message. -/
private theorem Behind.nextMsg_first (h : q.Behind e 0) : q.nextMsg.1 = some e.msg := by
  obtain ⟨ahead, later, hentries, hahead⟩ := h
  obtain rfl := List.length_eq_zero_iff.mp hahead
  rcases q.nextMsg_cases with ⟨hnil, -⟩ | ⟨e', q', hnext, hentries', -⟩
  · simp [hnil] at hentries
  · rw [hentries', List.nil_append] at hentries
    rw [hnext, (List.cons.inj hentries).1]

/-- Any other moves up by one place. -/
private theorem Behind.nextMsg (h : q.Behind e (n + 1)) : q.nextMsg.2.Behind e n := by
  obtain ⟨_ | ⟨first, ahead⟩, later, hentries, hahead⟩ := h
  · cases hahead
  · rcases q.nextMsg_cases with ⟨hnil, -⟩ | ⟨e', q', hnext, hentries', -⟩
    · simp [hnil] at hentries
    · rw [hentries', List.cons_append] at hentries
      rw [hnext]
      exact ⟨ahead, later, (List.cons.inj hentries).2, Nat.succ.inj hahead⟩

/-- What expires lies behind what stays. -/
private theorem Behind.dropExpired (h : q.Behind e n) {now : Instant} (hkept : e ∉ q.expired now) :
    (q.dropExpired now).2.Behind e n := by
  obtain ⟨ahead, later, hentries, rfl⟩ := h
  have hsplit := (q.dropExpired_entries now).1
  rw [hentries] at hsplit
  rcases List.append_eq_append_iff.mp hsplit with ⟨front, hfront, hback⟩ | ⟨back, -, hback⟩
  · cases front with
    | nil =>
        rw [List.nil_append] at hback
        exact absurd (hback ▸ List.mem_cons_self) hkept
    | cons first front =>
        rw [List.cons_append] at hback
        obtain ⟨rfl, -⟩ := List.cons.inj hback
        exact ⟨ahead, front, hfront, rfl⟩
  · rw [hback] at hkept
    exact absurd (List.mem_append_right _ List.mem_cons_self) hkept

/-! ## Runs -/

/-- What can become of an entry that waits behind `n` others: it still waits, and
how many are in front of it is known; a call of `next_msg` has returned it, and
which call is known; or it was droppable, and has expired. -/
inductive Fate (q : SendQueue L T) (e : Entry T) (n : Nat) (ops : List (QueueOp T)) : Prop
  | waits (m : Nat) (hcount : m + nextCalls ops = n + overtakes e.priority ops)
      (h : (ops.foldl after q).Behind e m)
  | taken (before later : List (QueueOp T)) (hops : ops = before ++ .nextMsg :: later)
      (hcount : nextCalls before = n + overtakes e.priority before)
      (h : (before.foldl after q).nextMsg.1 = some e.msg)
  | expired (before later : List (QueueOp T)) (now : Instant)
      (hops : ops = before ++ .dropExpired now :: later)
      (hcount : nextCalls before ≤ n + overtakes e.priority before)
      (h : e ∈ (before.foldl after q).expired now)
      (hdroppable : q.conf.msgDropPriority ≤ e.priority)

private theorem nextCalls_cons (op : QueueOp T) (ops : List (QueueOp T)) :
    nextCalls (op :: ops) = nextCalls ops + nextCalls [op] := by
  rw [nextCalls, nextCalls, nextCalls, List.countP_cons, List.countP_singleton]

private theorem overtakes_cons (p : Priority) (op : QueueOp T) (ops : List (QueueOp T)) :
    overtakes p (op :: ops) = overtakes p ops + overtakes p [op] := by
  rw [overtakes, overtakes, overtakes, List.countP_cons, List.countP_singleton]

private theorem after_conf (q : SendQueue L T) (op : QueueOp T) : (q.after op).conf = q.conf := by
  cases op with
  | push now msg priority => rfl
  | nextMsg =>
      rcases q.nextMsg_cases with ⟨-, hnext⟩ | ⟨e, q', hnext, -, hconf⟩
      · rw [after, hnext]
      · rw [after, hnext, hconf]
  | dropExpired now => exact (q.dropExpired_entries now).2

/-- An operation that leaves the entry waiting is counted. -/
private theorem Fate.cons {op : QueueOp T} {ops : List (QueueOp T)} {m : Nat}
    (h : Fate (q.after op) e m ops) (hop : m + nextCalls [op] = n + overtakes e.priority [op]) :
    Fate q e n (op :: ops) := by
  cases h with
  | waits k hcount h =>
      refine .waits k ?_ h
      rw [nextCalls_cons, overtakes_cons]
      omega
  | taken before later hops hcount h =>
      refine .taken (op :: before) later (by rw [hops, List.cons_append]) ?_ h
      rw [nextCalls_cons, overtakes_cons]
      omega
  | expired before later now hops hcount h hdroppable =>
      rw [after_conf] at hdroppable
      refine .expired (op :: before) later now (by rw [hops, List.cons_append]) ?_ h hdroppable
      rw [nextCalls_cons, overtakes_cons]
      omega

end SendQueue

/-- **How long a message waits.**  An entry with `n` others in front of it is
returned by the call of `next_msg` that comes after `n` such calls, and one more
for each more urgent push before it; until then it waits, unless it is droppable
and expires. -/
theorem waiting_exact {q : SendQueue L T} {e : Entry T} {n : Nat} (h : q.Behind e n)
    (ops : List (QueueOp T)) : SendQueue.Fate q e n ops := by
  induction ops generalizing q n with
  | nil => exact .waits n rfl h
  | cons op ops ih =>
      cases op with
      | push now msg priority =>
          refine SendQueue.Fate.cons (ih (h.push now msg priority)) ?_
          by_cases hp : priority < e.priority <;> simp [nextCalls, overtakes, hp]
      | nextMsg =>
          cases n with
          | zero => exact .taken [] ops rfl rfl h.nextMsg_first
          | succ n => exact SendQueue.Fate.cons (ih h.nextMsg) rfl
      | dropExpired now =>
          by_cases hexpired : e ∈ q.expired now
          · have hdroppable := q.expired_droppable now e hexpired
            exact .expired [] ops now rfl (Nat.zero_le _) hexpired hdroppable
          · exact SendQueue.Fate.cons (ih (h.dropExpired hexpired)) rfl

namespace BincodeInstance

/-- A message behind an equally urgent one. -/
def waitingQueue : SendQueue crates Nat :=
  ((SendQueue.new .default).push 0 10 1).push 0 20 1

/-- It is overtaken twice, and by an equally urgent one not. -/
def waitingOps : List (QueueOp Nat) :=
  [.push 0 30 0, .nextMsg, .push 0 40 1, .push 0 50 0, .dropExpired 0, .nextMsg, .nextMsg, .nextMsg]

theorem waiting_exact_overtaken : SendQueue.Fate waitingQueue ⟨1, 0, 20⟩ 1 waitingOps := by
  apply waiting_exact
  refine ⟨[⟨1, 0, 10⟩], [], ?_, rfl⟩
  rw [waitingQueue, SendQueue.push_entries, SendQueue.push_entries, SendQueue.entries_new]
  rfl

end BincodeInstance

end SocketCollection
