import Mathlib

/-!
# Incremental decoders

A decoder that is fed input in pieces and asked, from time to time, for the
next item.  `Decoder.run` collects what a sequence of such calls delivers, up
to and including the first failure.

`Decoder.Denotes` says when a function `parse` from states to whole results
explains a decoder: whatever input is still to come, delivering an item takes
that item off the result, being idle leaves the result alone, and failing
means that the result is this failure.  Under it, what a run delivers does not
depend on how the input was cut into pieces nor on when the decoder was asked
(`Denotes.run_spec`, `Denotes.run_complete`).

Input, states, items and failures are arbitrary types; nothing here is about
sockets.
-/

namespace SocketCollection

/-- A whole result: the items, and the failure that ended them, if any. -/
structure Parsed (V X : Type) where
  items : List V
  failure : Option X

namespace Parsed

variable {V X : Type}

/-- Nothing yet. -/
def empty : Parsed V X := ⟨[], none⟩

def fail (x : X) : Parsed V X := ⟨[], some x⟩

def cons (v : V) (p : Parsed V X) : Parsed V X := ⟨v :: p.items, p.failure⟩

/-- Items in front of a result. -/
def prepend (vs : List V) (p : Parsed V X) : Parsed V X := ⟨vs ++ p.items, p.failure⟩

@[simp] theorem prepend_nil (p : Parsed V X) : p.prepend [] = p := rfl

@[simp] theorem prepend_cons (v : V) (vs : List V) (p : Parsed V X) :
    p.prepend (v :: vs) = (p.prepend vs).cons v := rfl

end Parsed

/-- A decoder: take in a piece of input, or try to deliver the next item. -/
structure Decoder (A S V X : Type) where
  put : S → List A → S
  step : S → Except X (Option V) × S

namespace Decoder

variable {A S V X : Type}

inductive Call (A : Type)
  | put (piece : List A)
  | step

/-- The input a sequence of calls puts, in one piece. -/
def input : List (Call A) → List A
  | [] => []
  | .put piece :: calls => piece ++ input calls
  | .step :: calls => input calls

/-- What a sequence of calls delivers up to and including the first failure,
and the state it ends in. -/
def run (d : Decoder A S V X) : List (Call A) → S → Parsed V X × S
  | [], s => (.empty, s)
  | .put piece :: calls, s => run d calls (d.put s piece)
  | .step :: calls, s =>
      match d.step s with
      | (.error x, s') => (.fail x, s')
      | (.ok none, s') => run d calls s'
      | (.ok (some v), s') =>
          let r := run d calls s'
          (r.1.cons v, r.2)

/-- `parse` explains `d` on the states that satisfy `inv`, and `size` bounds
how often it can still make progress. -/
structure Denotes (d : Decoder A S V X) (inv : S → Prop) (parse : S → Parsed V X)
    (size : S → Nat) : Prop where
  put_nil : ∀ s, d.put s [] = s
  put_append : ∀ s a b, d.put (d.put s a) b = d.put s (a ++ b)
  put_inv : ∀ s a, inv s → inv (d.put s a)
  item : ∀ s v s', inv s → d.step s = (.ok (some v), s') →
    inv s' ∧ size s' < size s ∧ ∀ a, parse (d.put s a) = (parse (d.put s' a)).cons v
  idle : ∀ s s', inv s → d.step s = (.ok none, s') →
    inv s' ∧ (s' = s ∧ parse s = .empty ∨ size s' < size s) ∧
      ∀ a, parse (d.put s a) = parse (d.put s' a)
  failed : ∀ s x s', inv s → d.step s = (.error x, s') → ∀ a, parse (d.put s a) = .fail x

namespace Denotes

variable {d : Decoder A S V X} {inv : S → Prop} {parse : S → Parsed V X} {size : S → Nat}

/-- **What a run delivers is explained by the whole input.**  A run that fails
has delivered the whole result.  One that does not has delivered its first
items, and what is left is the result of the state it ends in. -/
theorem run_spec (h : d.Denotes inv parse size) (calls : List (Call A)) :
    ∀ s, inv s →
      ((d.run calls s).1.failure = none →
        inv (d.run calls s).2 ∧
          parse (d.put s (input calls)) =
            (parse (d.run calls s).2).prepend (d.run calls s).1.items) ∧
      (∀ x, (d.run calls s).1.failure = some x →
        parse (d.put s (input calls)) = (d.run calls s).1) := by
  induction calls with
  | nil =>
      intro s hs
      simp [run, input, h.put_nil, Parsed.empty, hs]
  | cons call calls ih =>
      intro s hs
      cases call with
      | put piece =>
          have hrest := ih (d.put s piece) (h.put_inv s piece hs)
          rw [h.put_append] at hrest
          exact hrest
      | step =>
          rcases hstep : d.step s with ⟨x | _ | v, s'⟩
          · have hfail := h.failed s x s' hs hstep (input calls)
            simp [run, input, hstep, Parsed.fail, hfail]
          · obtain ⟨hs', -, hparse⟩ := h.idle s s' hs hstep
            simpa [run, input, hstep, hparse] using ih s' hs'
          · obtain ⟨hs', -, hparse⟩ := h.item s v s' hs hstep
            obtain ⟨hgo, hfail⟩ := ih s' hs'
            simp only [run, input, hstep, hparse, Parsed.cons]
            constructor
            · intro hnone
              obtain ⟨hinv, heq⟩ := hgo hnone
              exact ⟨hinv, by rw [heq]; rfl⟩
            · intro x hx
              rw [hfail x hx]

/-- The items of a run are the first items of the whole result. -/
theorem run_prefix (h : d.Denotes inv parse size) (calls : List (Call A)) {s : S}
    (hs : inv s) :
    (d.run calls s).1.items <+: (parse (d.put s (input calls))).items := by
  obtain ⟨hgo, hfail⟩ := h.run_spec calls s hs
  cases hx : (d.run calls s).1.failure with
  | none =>
      rw [(hgo hx).2]
      exact List.prefix_append _ _
  | some x => exact ⟨[], by rw [hfail x hx, List.append_nil]⟩

/-- Asking again changes nothing once a decoder is idle for good. -/
private theorem run_idle {s : S} (hstep : d.step s = (.ok none, s)) (n : Nat) :
    d.run (List.replicate n .step) s = (.empty, s) := by
  induction n with
  | zero => rfl
  | succ n ih => simpa [List.replicate_succ, run, hstep] using ih

/-- Asking often enough delivers everything that is buffered. -/
theorem run_steps (h : d.Denotes inv parse size) (s : S) (hs : inv s) :
    ∃ k, ∀ n, k ≤ n → (d.run (List.replicate n .step) s).1 = parse s := by
  induction hm : size s using Nat.strongRecOn generalizing s with
  | ind m ih =>
      rcases hstep : d.step s with ⟨x | _ | v, s'⟩
      · refine ⟨1, fun n hn => ?_⟩
        obtain ⟨n, rfl⟩ : ∃ j, n = j + 1 := ⟨n - 1, by omega⟩
        have hfail := h.failed s x s' hs hstep []
        rw [h.put_nil] at hfail
        simp [List.replicate_succ, run, hstep, hfail]
      · obtain ⟨hs', hprogress, hparse⟩ := h.idle s s' hs hstep
        rcases hprogress with ⟨rfl, hempty⟩ | hlt
        · refine ⟨0, fun n _ => ?_⟩
          rw [run_idle hstep n, hempty]
        · obtain ⟨k, hk⟩ := ih (size s') (by omega) s' hs' rfl
          refine ⟨k + 1, fun n hn => ?_⟩
          obtain ⟨n, rfl⟩ : ∃ j, n = j + 1 := ⟨n - 1, by omega⟩
          have hsame := hparse []
          rw [h.put_nil, h.put_nil] at hsame
          simp [List.replicate_succ, run, hstep, hk n (by omega), hsame]
      · obtain ⟨hs', hlt, hparse⟩ := h.item s v s' hs hstep
        obtain ⟨k, hk⟩ := ih (size s') (by omega) s' hs' rfl
        refine ⟨k + 1, fun n hn => ?_⟩
        obtain ⟨n, rfl⟩ : ∃ j, n = j + 1 := ⟨n - 1, by omega⟩
        have hsame := hparse []
        rw [h.put_nil, h.put_nil] at hsame
        simp [List.replicate_succ, run, hstep, hk n (by omega), hsame]

/-- More calls after a run that has not failed add what they deliver; after a
failure they add nothing. -/
private theorem run_append (calls more : List (Call A)) :
    ∀ s, (d.run (calls ++ more) s).1 =
      match (d.run calls s).1.failure with
      | none => (d.run more (d.run calls s).2).1.prepend (d.run calls s).1.items
      | some _ => (d.run calls s).1 := by
  induction calls with
  | nil => intro s; rfl
  | cons call calls ih =>
      intro s
      cases call with
      | put piece => exact ih (d.put s piece)
      | step =>
          rcases hstep : d.step s with ⟨x | _ | v, s'⟩
          · simp [run, hstep, Parsed.fail]
          · simpa [run, hstep] using ih s'
          · simp only [List.cons_append, run, hstep, ih s', Parsed.cons]
            cases hf : (d.run calls s').1.failure with
            | none => rfl
            | some x => simp [hf]

/-- **After all input, enough further steps deliver the whole result.** -/
theorem run_complete (h : d.Denotes inv parse size) (calls : List (Call A)) {s : S}
    (hs : inv s) :
    ∃ k, ∀ n, k ≤ n →
      (d.run (calls ++ List.replicate n .step) s).1 = parse (d.put s (input calls)) := by
  obtain ⟨hgo, hfail⟩ := h.run_spec calls s hs
  cases hx : (d.run calls s).1.failure with
  | none =>
      obtain ⟨hinv, heq⟩ := hgo hx
      obtain ⟨k, hk⟩ := h.run_steps (d.run calls s).2 hinv
      refine ⟨k, fun n hn => ?_⟩
      rw [run_append, hx, heq]
      simp only [hk n hn]
  | some x =>
      refine ⟨0, fun n _ => ?_⟩
      rw [run_append, hx, hfail x hx]

end Denotes

end Decoder

end SocketCollection
