import Mathlib

/-!
# Runs of a system

A system has a state and takes operations; a run is a list of operations, and
`ops.foldl step s` is the state it ends in.  Two ways to speak about a whole
run are used throughout: `Always` (a property of every state the run goes
through, the first and the last included) and `Each` (a property of every
operation together with the state it is made in).

`Each.always` is the rule by which invariants are proved: a property that
holds at the start, and that an operation preserves when it is made under a
condition, holds always in a run whose operations each meet the condition.
`always_iff_each` is its counterpart for conditions that are exact.

`always_of_part` is the rule for systems with parts: what holds always in the
runs of a part, holds always in the runs of the whole.  `yields_append_store` is the
rule for what a run takes out of a store, piece by piece.

States and operations are arbitrary types.
-/

namespace SocketCollection.Runs

universe u v

variable {S : Type u} {O : Type v} {step : S → O → S}

/-- `P` holds in every state the run goes through. -/
def Always (step : S → O → S) (P : S → Prop) : S → List O → Prop
  | s, [] => P s
  | s, op :: ops => P s ∧ Always step P (step s op) ops

/-- Every operation of the run satisfies `guard` together with the state it is
made in. -/
def Each (step : S → O → S) (guard : S → O → Prop) : S → List O → Prop
  | _, [] => True
  | s, op :: ops => guard s op ∧ Each step guard (step s op) ops

variable {P Q : S → Prop} {guard guard' : S → O → Prop} {s : S} {ops : List O}

theorem Always.first (h : Always step P s ops) : P s := by
  cases ops with
  | nil => exact h
  | cons op ops => exact h.1

theorem Always.last (h : Always step P s ops) : P (ops.foldl step s) := by
  induction ops generalizing s with
  | nil => exact h
  | cons op ops ih => exact ih h.2

theorem Always.mono (hPQ : ∀ s, P s → Q s) (h : Always step P s ops) :
    Always step Q s ops := by
  induction ops generalizing s with
  | nil => exact hPQ s h
  | cons op ops ih => exact ⟨hPQ s h.1, ih h.2⟩

theorem Always.and (hP : Always step P s ops) (hQ : Always step Q s ops) :
    Always step (fun s => P s ∧ Q s) s ops := by
  induction ops generalizing s with
  | nil => exact ⟨hP, hQ⟩
  | cons op ops ih => exact ⟨⟨hP.1, hQ.1⟩, ih hP.2 hQ.2⟩

theorem Each.mono (hle : ∀ s op, guard s op → guard' s op) (h : Each step guard s ops) :
    Each step guard' s ops := by
  induction ops generalizing s with
  | nil => trivial
  | cons op ops ih => exact ⟨hle s op h.1, ih h.2⟩

theorem each_of_forall {guard : O → Prop} (h : ∀ op ∈ ops, guard op) :
    Each step (fun _ op => guard op) s ops := by
  induction ops generalizing s with
  | nil => trivial
  | cons op ops ih =>
      exact ⟨h op List.mem_cons_self, ih fun op' hop' => h op' (List.mem_cons_of_mem _ hop')⟩

theorem each_append {more : List O} :
    Each step guard s (ops ++ more) ↔
      Each step guard s ops ∧ Each step guard (ops.foldl step s) more := by
  induction ops generalizing s with
  | nil => simp [Each]
  | cons op ops ih => simp [Each, ih, and_assoc]

theorem each_of_split
    (h : ∀ before op later, ops = before ++ op :: later → guard (before.foldl step s) op) :
    Each step guard s ops := by
  induction ops generalizing s with
  | nil => trivial
  | cons op ops ih =>
      refine ⟨h [] op ops rfl, ih fun before op' later hops => ?_⟩
      exact h (op :: before) op' later (by rw [hops, List.cons_append])

/-- **The invariant rule.** -/
theorem Each.always (hguard : Each step guard s ops) (hs : P s)
    (hstep : ∀ s op, P s → guard s op → P (step s op)) : Always step P s ops := by
  induction ops generalizing s with
  | nil => exact hs
  | cons op ops ih => exact ⟨hs, ih hguard.2 (hstep s op hs hguard.1)⟩

/-- The invariant rule without a condition. -/
theorem always_of_step (hs : P s) (hstep : ∀ s op, P s → P (step s op)) :
    Always step P s ops := by
  induction ops generalizing s with
  | nil => exact hs
  | cons op ops ih => exact ⟨hs, ih (hstep s op hs)⟩

/-- **The exact condition.**  If a condition on the operations tells, wherever
`P` and an invariant hold, whether `P` goes on to hold, then it tells so of runs. -/
theorem always_iff_each {inv : S → Prop} (hinv : inv s) (hkeeps : ∀ s op, inv s → inv (step s op))
    (hs : P s) (hstep : ∀ s op, inv s → P s → (P (step s op) ↔ guard s op)) :
    Always step P s ops ↔ Each step guard s ops := by
  induction ops generalizing s with
  | nil => exact iff_of_true hs trivial
  | cons op ops ih =>
      have hop := hstep s op hinv hs
      constructor
      · rintro ⟨-, hnext⟩
        exact ⟨hop.mp hnext.first, (ih (hkeeps s op hinv) hnext.first).mp hnext⟩
      · rintro ⟨hguard, hnext⟩
        have hs' := hop.mpr hguard
        exact ⟨hs, (ih (hkeeps s op hinv) hs').mpr hnext⟩

/-- The invariant rule for the state a run ends in. -/
theorem Each.last (hguard : Each step guard s ops) (hs : P s)
    (hstep : ∀ s op, P s → guard s op → P (step s op)) : P (ops.foldl step s) :=
  (hguard.always hs hstep).last

/-- What holds always, holds where each operation is made. -/
theorem Always.each (h : Always step P s ops) (hle : ∀ s op, P s → guard s op) :
    Each step guard s ops := by
  induction ops generalizing s with
  | nil => trivial
  | cons op ops ih => exact ⟨hle s op h.1, ih h.2⟩

/-- What holds always, holds after each operation. -/
theorem Always.each_next (h : Always step P s ops) :
    Each step (fun s op => P (step s op)) s ops := by
  induction ops generalizing s with
  | nil => trivial
  | cons op ops ih => exact ⟨h.2.first, ih h.2⟩

theorem Each.and (h : Each step guard s ops) (h' : Each step guard' s ops) :
    Each step (fun s op => guard s op ∧ guard' s op) s ops := by
  induction ops generalizing s with
  | nil => trivial
  | cons op ops ih => exact ⟨⟨h.1, h'.1⟩, ih h.2 h'.2⟩

/-! ## What a run takes out of a store -/

section Yields

variable {E : Type*} {out : S → O → List E}

/-- What the operations of a run yield, in order. -/
def yields (step : S → O → S) (out : S → O → List E) : S → List O → List E
  | _, [] => []
  | s, op :: ops => out s op ++ yields step out (step s op) ops

/-- **If each operation takes what it yields off the front of a store**, a run yields
the front of the store, and leaves the rest. -/
theorem yields_append_store {store : S → List E}
    (htakes : ∀ s op, out s op ++ store (step s op) = store s) (s : S) (ops : List O) :
    yields step out s ops ++ store (ops.foldl step s) = store s := by
  induction ops generalizing s with
  | nil => rfl
  | cons op ops ih => rw [yields, List.append_assoc, List.foldl_cons, ih, htakes]

end Yields

/-! ## Parts of a system

A system may have a part that is a system itself: each operation of the whole
makes some operations of the part, maybe none.  What a run of the whole does to
the part is then a run of the part. -/

section Part

variable {S' : Type*} {O' : Type*} {step' : S' → O' → S'} {part : S → S'} {act : O → List O'}

theorem Always.append {P' : S' → Prop} {s : S'} {ops more : List O'}
    (h : Always step' P' s (ops ++ more)) : Always step' P' (ops.foldl step' s) more := by
  induction ops generalizing s with
  | nil => exact h
  | cons op ops ih => exact ih h.2

/-- Operations of the whole that are operations of the part meet a condition on the
part when they do so there. -/
theorem each_of_part {step' : S' → O → S'} {guard' : S' → O → Prop}
    (hpart : ∀ s op, part (step s op) = step' (part s) op) {s : S} {ops : List O}
    (h : Each step' guard' (part s) ops) : Each step (fun s op => guard' (part s) op) s ops := by
  induction ops generalizing s with
  | nil => trivial
  | cons op ops ih =>
      refine ⟨h.1, ih ?_⟩
      rw [hpart]
      exact h.2

/-- **What holds always of the part, holds always of the whole.** -/
theorem always_of_part (hpart : ∀ s op, part (step s op) = (act op).foldl step' (part s))
    {P' : S' → Prop} {s : S} {ops : List O} (h : Always step' P' (part s) (ops.flatMap act)) :
    Always step (fun s => P' (part s)) s ops := by
  induction ops generalizing s with
  | nil => exact h
  | cons op ops ih =>
      refine ⟨h.first, ih ?_⟩
      rw [List.flatMap_cons] at h
      rw [hpart]
      exact h.append

end Part

end SocketCollection.Runs
