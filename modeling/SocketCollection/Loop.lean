import Mathlib

/-!
# Loops that leave through a result

The loops of event-driven code have one shape: a body works on some state
and either goes round again or leaves with a result.  This module packages
such a loop with the measure that makes it terminate, gives it an executable
meaning, and proves the rules by which the loops of this development are
reasoned about.

Nothing here is about sockets: states, results and events are arbitrary
types.

## Main results

* `exec_done`, `exec_next`: the loop unfolds by one round.
* `rounds`: induction over the rounds of one execution.
* `exec_rule`: the invariant rule.
* `exec_invariant`, `exec_result`: its forms for what every round preserves, and
  for what it may leave with.
* `history_rule`: the invariant rule with a ghost history, to which every
  round appends the events read off the state in which it begins.
* `history_invariant`: its form for what every round preserves.
* `run_map`, `exec_map`, `history_map`: a loop on a part of the state, in step
  with the whole.
* `exec_related`: the rule for two loops that go round in step.
-/

namespace SocketCollection

/-- A loop: its body either goes round again (`none`) or leaves with a
result, and going round again lowers the measure. -/
structure Loop (S R : Type) where
  body : S → S × Option R
  measure : S → Nat
  decreases : ∀ s s', body s = (s', none) → measure s' < measure s

namespace Loop

variable {S R E : Type}

/-- At most `fuel` rounds of a loop body. -/
def run (body : S → S × Option R) : Nat → S → Option (S × R)
  | 0, _ => none
  | fuel + 1, s =>
      match body s with
      | (s', some r) => some (s', r)
      | (s', none) => run body fuel s'

/-- The states in which the first `fuel` rounds begin. -/
def runHeads (body : S → S × Option R) : Nat → S → List S
  | 0, _ => []
  | fuel + 1, s =>
      s :: match body s with
        | (_, some _) => []
        | (s', none) => runHeads body fuel s'

/-- More rounds than the measure are always enough. -/
theorem run_isSome (l : Loop S R) (fuel : Nat) :
    ∀ s, l.measure s < fuel → (run l.body fuel s).isSome := by
  induction fuel with
  | zero => intro s h; omega
  | succ fuel ih =>
      intro s h
      rcases hb : l.body s with ⟨s', _ | r⟩
      · have hlt := l.decreases s s' hb
        simpa [run, hb] using ih s' (by omega)
      · simp [run, hb]

/-- Fuel beyond what an execution needs changes nothing. -/
private theorem run_mono (body : S → S × Option R) (fuel : Nat) :
    ∀ more s, fuel ≤ more → (run body fuel s).isSome →
      run body more s = run body fuel s ∧
        runHeads body more s = runHeads body fuel s := by
  induction fuel with
  | zero => intro more s _ h; simp [run] at h
  | succ fuel ih =>
      intro more s hle h
      obtain ⟨more, rfl⟩ : ∃ m, more = m + 1 := ⟨more - 1, by omega⟩
      rcases hb : body s with ⟨s', _ | r⟩
      · simp only [run, hb] at h
        have hrest := ih more s' (by omega) h
        simp [run, runHeads, hb, hrest.1, hrest.2]
      · simp [run, runHeads, hb]

/-- Run the loop to its end. -/
def exec (l : Loop S R) (s : S) : S × R :=
  (run l.body (l.measure s + 1) s).get (l.run_isSome _ s (Nat.lt_succ_self _))

/-- The states in which the rounds of the execution from `s` begin, in
order. -/
def heads (l : Loop S R) (s : S) : List S :=
  runHeads l.body (l.measure s + 1) s

/-- **The loop returns** within any number of rounds above the measure. -/
theorem run_eq_exec (l : Loop S R) {fuel : Nat} {s : S} (h : l.measure s < fuel) :
    run l.body fuel s = some (l.exec s) := by
  have hmore := run_mono l.body (l.measure s + 1) fuel s h (l.run_isSome _ s (Nat.lt_succ_self _))
  rw [hmore.1, exec, Option.some_get]

theorem exec_done (l : Loop S R) {s s' : S} {r : R}
    (hb : l.body s = (s', some r)) : l.exec s = (s', r) := by
  simp [exec, run, hb]

theorem heads_done (l : Loop S R) {s s' : S} {r : R}
    (hb : l.body s = (s', some r)) : l.heads s = [s] := by
  simp [heads, runHeads, hb]

/-- One round uses up one unit of fuel, and the rest is enough for the
rounds that follow. -/
private theorem run_next (l : Loop S R) {s s' : S}
    (hb : l.body s = (s', none)) :
    run l.body (l.measure s) s' = run l.body (l.measure s' + 1) s' ∧
      runHeads l.body (l.measure s) s' =
        runHeads l.body (l.measure s' + 1) s' :=
  run_mono l.body (l.measure s' + 1) (l.measure s) s' (l.decreases s s' hb)
    (l.run_isSome _ s' (Nat.lt_succ_self _))

theorem exec_next (l : Loop S R) {s s' : S}
    (hb : l.body s = (s', none)) : l.exec s = l.exec s' := by
  simp only [exec, run, hb, (l.run_next hb).1]

theorem heads_next (l : Loop S R) {s s' : S}
    (hb : l.body s = (s', none)) : l.heads s = s :: l.heads s' := by
  simp only [heads, runHeads, hb, (l.run_next hb).2]

/-- Induction over the rounds of one execution: a property of a state may be
proved from the property of the state after one more round. -/
theorem rounds (l : Loop S R) {motive : S → Prop}
    (h : ∀ s, (∀ s', l.body s = (s', none) → motive s') → motive s) (s : S) :
    motive s := by
  induction hm : l.measure s using Nat.strongRecOn generalizing s with
  | ind m ih =>
      refine h s fun s' hb => ih (l.measure s') ?_ s' rfl
      have hlt := l.decreases s s' hb
      omega

/-- The invariant rule: what every round preserves, and the last round turns
into `post`, holds at the end of the loop. -/
theorem exec_rule (l : Loop S R) (inv : S → Prop) (post : S → R → Prop)
    (next : ∀ s s', inv s → l.body s = (s', none) → inv s')
    (done : ∀ s s' r, inv s → l.body s = (s', some r) → post s' r)
    (s : S) (hs : inv s) : post (l.exec s).1 (l.exec s).2 := by
  induction s using l.rounds with
  | h s ih =>
      rcases hb : l.body s with ⟨s', _ | r⟩
      · rw [l.exec_next hb]
        exact ih s' hb (next s s' hs hb)
      · rw [l.exec_done hb]
        exact done s s' r hs hb

/-- What every round preserves, the loop preserves. -/
theorem exec_invariant (l : Loop S R) (inv : S → Prop) (round : ∀ s, inv s → inv (l.body s).1)
    {s : S} (hs : inv s) : inv (l.exec s).1 := by
  refine l.exec_rule inv (fun s _ => inv s) ?_ ?_ s hs
  · intro s s' h hbody
    simpa only [hbody] using round s h
  · intro s s' r h hbody
    simpa only [hbody] using round s h

/-- What every round may leave with, the loop leaves with. -/
theorem exec_result (l : Loop S R) (inv : S → Prop) (post : R → Prop)
    (round : ∀ s, inv s → inv (l.body s).1)
    (result : ∀ s r, inv s → (l.body s).2 = some r → post r) {s : S} (hs : inv s) :
    post (l.exec s).2 := by
  refine l.exec_rule inv (fun _ r => post r) ?_ ?_ s hs
  · intro s s' h hbody
    simpa only [hbody] using round s h
  · intro s s' r h hbody
    exact result s r h (congrArg Prod.snd hbody)

/-- The events of an execution: what `events` reads off the state in which
each round begins. -/
def history (l : Loop S R) (events : S → List E) (s : S) : List E :=
  (l.heads s).flatMap events

theorem history_done (l : Loop S R) (events : S → List E) {s s' : S} {r : R}
    (hb : l.body s = (s', some r)) : l.history events s = events s := by
  rw [history, l.heads_done hb, List.flatMap_singleton]

theorem history_next (l : Loop S R) (events : S → List E) {s s' : S}
    (hb : l.body s = (s', none)) :
    l.history events s = events s ++ l.history events s' := by
  rw [history, l.heads_next hb, List.flatMap_cons, history]

/-- The invariant rule with a ghost history.  The history that has been
recorded before the loop is extended, round by round, with the events of the
round. -/
theorem history_rule (l : Loop S R) (events : S → List E)
    (inv : S → List E → Prop) (post : S → R → List E → Prop)
    (next : ∀ s s' past, inv s past → l.body s = (s', none) →
      inv s' (past ++ events s))
    (done : ∀ s s' r past, inv s past → l.body s = (s', some r) →
      post s' r (past ++ events s))
    (s : S) (past : List E) (hs : inv s past) :
    post (l.exec s).1 (l.exec s).2 (past ++ l.history events s) := by
  induction s using l.rounds generalizing past with
  | h s ih =>
      rcases hb : l.body s with ⟨s', _ | r⟩
      · have hrest := ih s' hb (past ++ events s) (next s s' past hs hb)
        rw [l.exec_next hb, l.history_next events hb, ← List.append_assoc]
        exact hrest
      · rw [l.exec_done hb, l.history_done events hb]
        exact done s s' r past hs hb

/-- The history of what every round preserves. -/
theorem history_invariant (l : Loop S R) (events : S → List E) (inv : S → List E → Prop)
    (round : ∀ s past, inv s past → inv (l.body s).1 (past ++ events s))
    {s : S} {past : List E} (hs : inv s past) :
    inv (l.exec s).1 (past ++ l.history events s) := by
  refine l.history_rule events inv (fun s _ past => inv s past) ?_ ?_ s past hs
  · intro s s' past h hbody
    simpa only [hbody] using round s past h
  · intro s s' r past h hbody
    simpa only [hbody] using round s past h

/-- If a body does to a part of the state what another does to the whole, so do
their runs. -/
theorem run_map {S₁ : Type} {body : S → S × Option R} {body₁ : S₁ → S₁ × Option R} (part : S → S₁)
    (hround : ∀ s, body₁ (part s) = (part (body s).1, (body s).2)) (fuel : Nat) :
    ∀ s, run body₁ fuel (part s) = (run body fuel s).map fun out => (part out.1, out.2) := by
  induction fuel with
  | zero => intro s; rfl
  | succ fuel ih =>
      intro s
      rcases hb : body s with ⟨s', _ | r⟩
      · have hb₁ : body₁ (part s) = (part s', none) := by rw [hround, hb]
        simpa only [run, hb, hb₁] using ih s'
      · have hb₁ : body₁ (part s) = (part s', some r) := by rw [hround, hb]
        simp only [run, hb, hb₁, Option.map_some]

section Part

variable {S₁ : Type} {l : Loop S R} {l₁ : Loop S₁ R} {part : S → S₁}

/-- So do their executions. -/
theorem exec_map (hround : ∀ s, l₁.body (part s) = (part (l.body s).1, (l.body s).2)) (s : S) :
    l₁.exec (part s) = (part (l.exec s).1, (l.exec s).2) := by
  induction s using l.rounds with
  | h s ih =>
      have hpart := hround s
      rcases hb : l.body s with ⟨s', _ | r⟩
      · rw [hb] at hpart
        rw [l.exec_next hb, l₁.exec_next hpart]
        exact ih s' hb
      · rw [hb] at hpart
        rw [l.exec_done hb, l₁.exec_done hpart]

/-- And the same events are read off the rounds. -/
theorem history_map {events : S → List E} {events₁ : S₁ → List E}
    (hround : ∀ s, l₁.body (part s) = (part (l.body s).1, (l.body s).2))
    (hevents : ∀ s, events₁ (part s) = events s) (s : S) :
    l₁.history events₁ (part s) = l.history events s := by
  induction s using l.rounds with
  | h s ih =>
      have hpart := hround s
      rcases hb : l.body s with ⟨s', _ | r⟩
      · rw [hb] at hpart
        rw [l.history_next _ hb, l₁.history_next _ hpart, hevents, ih s' hb]
      · rw [hb] at hpart
        rw [l.history_done _ hb, l₁.history_done _ hpart, hevents]

end Part

/-- Two bodies are in step: both go round again, in states that are related, or
both leave. -/
inductive InStep {S₁ R₁ : Type} (rel : S → S₁ → Prop) (post : S → R → S₁ → R₁ → Prop) :
    S × Option R → S₁ × Option R₁ → Prop
  | next {s s₁} (h : rel s s₁) : InStep rel post (s, none) (s₁, none)
  | done {s r s₁ r₁} (h : post s r s₁ r₁) : InStep rel post (s, some r) (s₁, some r₁)

/-- **The rule for two loops**: what keeps them in step relates their results. -/
theorem exec_related {S₁ R₁ : Type} (l : Loop S R) (l₁ : Loop S₁ R₁) {rel : S → S₁ → Prop}
    {post : S → R → S₁ → R₁ → Prop}
    (hround : ∀ s s₁, rel s s₁ → InStep rel post (l.body s) (l₁.body s₁))
    {s : S} {s₁ : S₁} (hs : rel s s₁) :
    post (l.exec s).1 (l.exec s).2 (l₁.exec s₁).1 (l₁.exec s₁).2 := by
  induction s using l.rounds generalizing s₁ with
  | h s ih =>
      have hstep := hround s s₁ hs
      rcases hb : l.body s with ⟨s', out⟩
      rcases hb₁ : l₁.body s₁ with ⟨s₁', out₁⟩
      rw [hb, hb₁] at hstep
      cases hstep with
      | next h =>
          rw [l.exec_next hb, l₁.exec_next hb₁]
          exact ih s' hb h
      | done h =>
          rw [l.exec_done hb, l₁.exec_done hb₁]
          exact h

end Loop

end SocketCollection
