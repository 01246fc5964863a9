import SocketCollection.Backlog
import SocketCollection.OutQueueRefinement

/-!
# What waits in a socket

A socket holds the message it has yet to finish and those in its out queue.  They
are sent in this order, and a message that is written goes behind those in the
queue that are as urgent, or more.

The flush hands them over as a `Backlog`.  What its result tells of a message that
was pushed right before is the same for all sockets.
-/

namespace SocketCollection.SendQueue

variable {L : Crates} {M : Type}

/-- What waits, in the order in which it will be sent. -/
def waiting (q : SendQueue L M) (current : Option M) : List M :=
  current.toList ++ q.entries.map Entry.msg

/-- What is sent before a message of this priority. -/
def ahead (q : SendQueue L M) (current : Option M) (priority : Priority) : List M :=
  current.toList ++ (q.entries.filter fun e => e.priority ≤ priority).map Entry.msg

/-- What is less urgent. -/
def behind (q : SendQueue L M) (priority : Priority) : List M :=
  (q.entries.filter fun e => priority < e.priority).map Entry.msg

theorem waiting_some (q : SendQueue L M) (msg : M) :
    q.waiting (some msg) = msg :: q.waiting none := rfl

theorem waiting_nil {q : SendQueue L M} (h : q.entries = []) : q.waiting none = [] := by
  simp [waiting, h]

theorem waiting_cons {q q' : SendQueue L M} {e : Entry M} (h : q.entries = e :: q'.entries) :
    q.waiting none = e.msg :: q'.waiting none := by
  simp [waiting, h]

theorem waiting_push (q : SendQueue L M) (current : Option M) (now : Instant) (msg : M)
    (priority : Priority) : (q.push now msg priority).waiting current =
      q.ahead current priority ++ msg :: q.behind priority := by
  simp only [waiting, ahead, behind, push_entries, List.map_append, List.map_cons,
    List.append_assoc]

theorem ahead_subset (q : SendQueue L M) (current : Option M) (priority : Priority) :
    q.ahead current priority ⊆ q.waiting current := by
  refine List.append_subset.mpr ⟨List.subset_append_left _ _, ?_⟩
  refine List.Subset.trans ?_ (List.subset_append_right _ _)
  exact List.map_subset _ (List.filter_subset_self _)

theorem behind_subset (q : SendQueue L M) (current : Option M) (priority : Priority) :
    q.behind priority ⊆ q.waiting current := by
  refine List.Subset.trans ?_ (List.subset_append_right _ _)
  exact List.map_subset _ (List.filter_subset_self _)

/-- What has not expired was waiting before. -/
theorem waiting_dropExpired (q : SendQueue L M) (current : Option M) (now : Instant) :
    (q.dropExpired now).2.waiting current ⊆ q.waiting current := by
  unfold waiting
  rw [(q.dropExpired_entries now).1, List.map_append, ← List.append_assoc]
  exact List.subset_append_left _ _

/-- So was what expires. -/
theorem expired_subset (q : SendQueue L M) (current : Option M) (now : Instant) :
    (q.expired now).map Entry.msg ⊆ q.waiting current := by
  unfold waiting
  rw [(q.dropExpired_entries now).1, List.map_append, ← List.append_assoc]
  exact List.subset_append_right _ _

/-! ## A flush after a push -/

/-- What the flush returns when all is sent, and when the socket would block. -/
theorem done_ne_stuck : (.ok true : Res L Bool) ≠ .ok false := nofun

/-- It returns neither when it fails. -/
theorem error_ne_ok {e : SocketError L} {res : Bool} : (.error e : Res L Bool) ≠ .ok res := nofun

section Flush

variable {S R G : Type} {b : Backlog S R G UInt8} {item : M → G × Bytes} {s : S}
  {q : SendQueue L M} {current : Option M} {now now' : Instant} {msg : M} {priority : Priority}

theorem mem_labels {msgs : List M} {label : G} (h : b.waiting s = msgs.map item) :
    label ∈ b.labels s ↔ ∃ m ∈ msgs, (item m).1 = label := by
  rw [Backlog.labels, h, List.map_map]
  exact List.mem_map

/-- What waits around a message that is pushed waited before. -/
theorem labels_pushed
    (hwaiting : b.waiting s =
      (((q.dropExpired now).2.push now' msg priority).waiting current).map item) :
    ∀ label ∈ b.labels s, label = (item msg).1 ∨ ∃ m ∈ q.waiting current, (item m).1 = label := by
  intro label hlabel
  obtain ⟨m, hm, rfl⟩ := (mem_labels hwaiting).mp hlabel
  rw [waiting_push] at hm
  rcases List.mem_append.mp hm with hahead | hrest
  · exact .inr ⟨m, q.waiting_dropExpired current now (ahead_subset _ _ _ hahead), rfl⟩
  · rcases List.mem_cons.mp hrest with rfl | hbehind
    · exact .inl rfl
    · exact .inr ⟨m, q.waiting_dropExpired current now (behind_subset _ current _ hbehind), rfl⟩

variable [DecidableEq G]

/-- **When the flush speaks for the message pushed before it.** -/
theorem pushed_speaks_iff (hturn : ∀ s, b.Turn s) (hleaves : b.Leaves s)
    (hwaiting : b.waiting s =
      (((q.dropExpired now).2.push now' msg priority).waiting current).map item)
    (hfresh : ∀ m ∈ q.waiting current, (item m).1 ≠ (item msg).1) :
    ((b.loop.exec s).2 = b.done ↔
          Backlog.HandedOver (item msg).1 (item msg).2 (b.loop.history b.handed s)) ∧
        ((b.loop.exec s).2 = b.stuck ↔ (item msg).1 ∈ b.labels (b.loop.exec s).1) ↔
      b.count s ≤ ((q.dropExpired now).2.ahead current priority).length ∨
        b.count s = ((q.dropExpired now).2.ahead current priority).length + 1 +
          ((q.dropExpired now).2.behind priority).length := by
  have hout : ∀ msgs : List M, msgs ⊆ (q.dropExpired now).2.waiting current →
      (item msg).1 ∉ (msgs.map item).map Prod.fst := by
    intro msgs hsub hmem
    rw [List.map_map, List.mem_map] at hmem
    obtain ⟨m, hm, hlabel⟩ := hmem
    exact hfresh m (q.waiting_dropExpired current now (hsub hm)) hlabel
  rw [waiting_push, List.map_append, List.map_cons] at hwaiting
  have hspeaks := Backlog.exec_speaks_iff hturn hleaves hwaiting
    (hout _ (ahead_subset _ _ _)) (hout _ (behind_subset _ _ _))
  rw [List.length_map, List.length_map] at hspeaks
  exact hspeaks

end Flush

end SocketCollection.SendQueue
