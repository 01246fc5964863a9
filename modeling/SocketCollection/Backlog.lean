import SocketCollection.Loop

/-!
# Loops that hand over a backlog

A loop that hands over what waits, one item after the other: it takes an item in
one piece or in several, stops at one that is refused, and leaves when nothing is
left.  `Backlog` packages such a loop with what waits in a state, what a round
hands over, and how many items will be handed over in full from a state on;
`Turn` lists what a round may do.

Items carry labels, so that one of them can be followed through the backlog.
States, results, labels and the stuff items are made of are arbitrary types.

## Main results

* `exec_result`: how many items are handed over tells how the loop leaves.
* `exec_item`: and whether an item is handed over in full or still waits, by
  its place in the backlog.
-/

namespace SocketCollection

/-- A loop that hands over what waits.  `count` is the number of items that will
be handed over in full, and `done` and `stuck` are the results of a loop that
has handed over all and of one that was refused. -/
structure Backlog (S R G B : Type) where
  loop : Loop S R
  waiting : S → List (G × List B)
  handed : S → List (G × List B)
  count : S → Nat
  done : R
  stuck : R
  done_ne_stuck : done ≠ stuck

namespace Backlog

variable {S R G B : Type}

/-- The labels of what waits. -/
def labels (b : Backlog S R G B) (s : S) : List G := (b.waiting s).map Prod.fst

/-- What a round may do: nothing waits; the first item is handed over, or a part
of it that leaves something; it is refused; or the loop fails, whereupon the
item may be gone. -/
inductive Turn (b : Backlog S R G B) (s : S) : Prop
  | empty {s'} (hbody : b.loop.body s = (s', some b.done)) (hwaiting : b.waiting s = [])
      (hleft : b.waiting s' = []) (hhanded : b.handed s = []) (hcount : b.count s = 0)
  | whole {s' item} (hbody : b.loop.body s = (s', none))
      (hwaiting : b.waiting s = item :: b.waiting s') (hhanded : b.handed s = [item])
      (hcount : b.count s = b.count s' + 1)
  | partly {s' label all left items} (hbody : b.loop.body s = (s', none))
      (hwaiting : b.waiting s = (label, all) :: items)
      (hleft : b.waiting s' = (label, left) :: items) (hne : left ≠ [])
      (hlabel : ∀ piece ∈ b.handed s, piece.1 = label)
      (hpieces : all = ((b.handed s).map Prod.snd).flatten ++ left)
      (hcount : b.count s = b.count s')
  | refused {s'} (hbody : b.loop.body s = (s', some b.stuck)) (hwaiting : b.waiting s ≠ [])
      (hleft : b.waiting s' = b.waiting s) (hhanded : b.handed s = []) (hcount : b.count s = 0)
  | failed {s' r} (hbody : b.loop.body s = (s', some r)) (hdone : r ≠ b.done)
      (hstuck : r ≠ b.stuck) (hleft : b.labels s' ⊆ b.labels s)

variable {b : Backlog S R G B}

theorem Turn.labels_body {s : S} (h : b.Turn s) : b.labels (b.loop.body s).1 ⊆ b.labels s := by
  cases h with
  | empty hbody hwaiting hleft =>
      rw [hbody, labels, hleft]
      exact List.nil_subset _
  | whole hbody hwaiting =>
      rw [hbody, labels, labels, hwaiting, List.map_cons]
      exact List.subset_cons_self _ _
  | partly hbody hwaiting hleft =>
      rw [hbody, labels, labels, hwaiting, hleft]
      exact List.Subset.refl _
  | refused hbody hne hleft =>
      rw [hbody, labels, labels, hleft]
      exact List.Subset.refl _
  | failed hbody hdone hstuck hleft =>
      rw [hbody]
      exact hleft

/-- No label comes from nowhere. -/
theorem labels_exec (hturn : ∀ s, b.Turn s) (s : S) :
    b.labels (b.loop.exec s).1 ⊆ b.labels s := by
  refine b.loop.exec_invariant (fun s' => b.labels s' ⊆ b.labels s) ?_ (List.Subset.refl _)
  intro s' hs'
  exact List.Subset.trans (hturn s').labels_body hs'

/-- The loop leaves with a result of its own, and does not fail. -/
def Leaves (b : Backlog S R G B) (s : S) : Prop :=
  (b.loop.exec s).2 = b.done ∨ (b.loop.exec s).2 = b.stuck

/-- **How many items are handed over tells how the loop leaves.** -/
theorem exec_result (hturn : ∀ s, b.Turn s) {s : S} (hleaves : b.Leaves s) :
    ((b.loop.exec s).2 = b.done ↔ b.count s = (b.waiting s).length) ∧
      ((b.loop.exec s).2 = b.stuck ↔ b.count s < (b.waiting s).length) := by
  have hresult : (b.loop.exec s).2 = b.done ∧ b.count s = (b.waiting s).length ∨
      (b.loop.exec s).2 = b.stuck ∧ b.count s < (b.waiting s).length := by
    unfold Leaves at hleaves
    induction s using b.loop.rounds with
    | h s ih =>
        cases hturn s with
        | empty hbody hwaiting hleft hhanded hcount =>
            rw [b.loop.exec_done hbody, hwaiting]
            exact .inl ⟨rfl, hcount⟩
        | whole hbody hwaiting hhanded hcount =>
            rw [b.loop.exec_next hbody] at hleaves ⊢
            rw [hcount, hwaiting, List.length_cons, Nat.succ_inj, Nat.succ_lt_succ_iff]
            exact ih _ hbody hleaves
        | partly hbody hwaiting hleft hne hlabel hpieces hcount =>
            rw [b.loop.exec_next hbody] at hleaves ⊢
            have hrest := ih _ hbody hleaves
            rw [hleft, List.length_cons] at hrest
            rw [hcount, hwaiting, List.length_cons]
            exact hrest
        | refused hbody hwaiting hleft hhanded hcount =>
            rw [b.loop.exec_done hbody, hcount]
            exact .inr ⟨rfl, List.length_pos_iff.mpr hwaiting⟩
        | failed hbody hdone hstuck hleft =>
            rw [b.loop.exec_done hbody] at hleaves
            exact absurd hleaves (not_or.mpr ⟨hdone, hstuck⟩)
  have hne := b.done_ne_stuck
  rcases hresult with ⟨hdone, hcount⟩ | ⟨hstuck, hcount⟩
  · rw [hdone]
    exact ⟨iff_of_true rfl hcount, iff_of_false hne (by omega)⟩
  · rw [hstuck]
    exact ⟨iff_of_false hne.symm (by omega), iff_of_true rfl hcount⟩

/-! ## One item -/

variable [DecidableEq G]

/-- The pieces of one item. -/
def pieces (label : G) (handed : List (G × List B)) : List (List B) :=
  (handed.filter fun piece => piece.1 = label).map Prod.snd

theorem pieces_append (label : G) (handed more : List (G × List B)) :
    pieces label (handed ++ more) = pieces label handed ++ pieces label more := by
  rw [pieces, List.filter_append, List.map_append, pieces, pieces]

private theorem pieces_eq_nil {label : G} {handed : List (G × List B)}
    (h : ∀ piece ∈ handed, piece.1 ≠ label) : pieces label handed = [] := by
  rw [pieces, List.map_eq_nil_iff, List.filter_eq_nil_iff]
  intro piece hpiece
  simpa using h piece hpiece

private theorem pieces_eq_map {label : G} {handed : List (G × List B)}
    (h : ∀ piece ∈ handed, piece.1 = label) : pieces label handed = handed.map Prod.snd := by
  rw [pieces, List.filter_eq_self.mpr]
  intro piece hpiece
  simpa using h piece hpiece

/-- An item has been handed over when it has been in full; of an empty one there
is a piece nevertheless. -/
def HandedOver (label : G) (all : List B) (handed : List (G × List B)) : Prop :=
  pieces label handed ≠ [] ∧ (pieces label handed).flatten = all

/-- Of what does not wait nothing is handed over. -/
theorem history_without (hturn : ∀ s, b.Turn s) {label : G} {s : S} (hleaves : b.Leaves s)
    (hlabel : label ∉ b.labels s) : pieces label (b.loop.history b.handed s) = [] := by
  unfold Leaves at hleaves
  unfold labels at hlabel
  induction s using b.loop.rounds with
  | h s ih =>
      cases hturn s with
      | empty hbody hwaiting hleft hhanded => rw [b.loop.history_done _ hbody, hhanded]; rfl
      | refused hbody hwaiting hleft hhanded => rw [b.loop.history_done _ hbody, hhanded]; rfl
      | whole hbody hwaiting hhanded =>
          rw [b.loop.exec_next hbody] at hleaves
          rw [hwaiting, List.map_cons, List.mem_cons, not_or] at hlabel
          rw [b.loop.history_next _ hbody, pieces_append, hhanded, ih _ hbody hleaves hlabel.2,
            List.append_nil]
          exact pieces_eq_nil fun piece hpiece => by
            rw [List.mem_singleton.mp hpiece]
            exact Ne.symm hlabel.1
      | partly hbody hwaiting hleft hne hpiece =>
          rw [b.loop.exec_next hbody] at hleaves
          rw [hwaiting, List.map_cons, List.mem_cons, not_or] at hlabel
          have hrest := ih _ hbody hleaves (by
            rw [hleft, List.map_cons, List.mem_cons, not_or]
            exact hlabel)
          rw [b.loop.history_next _ hbody, pieces_append, hrest, List.append_nil]
          exact pieces_eq_nil fun piece hmem => (hpiece piece hmem).symm ▸ Ne.symm hlabel.1
      | failed hbody hdone hstuck =>
          rw [b.loop.exec_done hbody] at hleaves
          exact absurd hleaves (not_or.mpr ⟨hdone, hstuck⟩)

/-- `past` is what had been handed over of the item before. -/
private theorem exec_item_from (hturn : ∀ s, b.Turn s) {label : G} {s : S} (hleaves : b.Leaves s)
    (past : List (List B)) (ahead : List (G × List B)) {behind : List (G × List B)}
    {left all : List B} (hwaiting : b.waiting s = ahead ++ (label, left) :: behind)
    (hahead : label ∉ ahead.map Prod.fst) (hbehind : label ∉ behind.map Prod.fst)
    (hall : past.flatten ++ left = all) (hleft : past ≠ [] → left ≠ []) :
    ((past ++ pieces label (b.loop.history b.handed s) ≠ [] ∧
        (past ++ pieces label (b.loop.history b.handed s)).flatten = all) ↔
      ahead.length < b.count s) ∧
    (label ∈ b.labels (b.loop.exec s).1 ↔ b.count s ≤ ahead.length) := by
  unfold Leaves at hleaves
  induction s using b.loop.rounds generalizing past ahead left with
  | h s ih =>
      cases hturn s with
      | empty hbody hempty => simp [hempty] at hwaiting
      | refused hbody hne hleft' hhanded hcount =>
          have hkept : ¬ (past ++ pieces label [] ≠ [] ∧
              (past ++ pieces label []).flatten = all) := by
            rintro ⟨hpast, heq⟩
            rw [show pieces label ([] : List (G × List B)) = [] from rfl, List.append_nil]
              at hpast heq
            exact hleft hpast (List.append_right_eq_self.mp (hall.trans heq.symm))
          rw [b.loop.history_done _ hbody, b.loop.exec_done hbody, hhanded, hcount, labels, hleft',
            hwaiting]
          constructor
          · exact iff_of_false hkept (Nat.not_lt_zero _)
          · exact iff_of_true (by simp) (Nat.zero_le _)
      | failed hbody hdone hstuck =>
          rw [b.loop.exec_done hbody] at hleaves
          exact absurd hleaves (not_or.mpr ⟨hdone, hstuck⟩)
      | @whole s' item hbody hnext hhanded hcount =>
          rw [b.loop.exec_next hbody] at hleaves ⊢
          rw [b.loop.history_next _ hbody, pieces_append, hhanded, hcount]
          rw [hnext] at hwaiting
          cases ahead with
          | nil =>
              -- it is the item itself, and what comes behind has another label
              obtain ⟨rfl, hbehind'⟩ := List.cons.inj hwaiting
              have hout : label ∉ b.labels s' := by
                rw [labels, hbehind']
                exact hbehind
              have hgone : label ∉ b.labels (b.loop.exec s').1 :=
                fun h => hout (labels_exec hturn s' h)
              rw [history_without hturn hleaves hout, List.append_nil, pieces_eq_map (by simp)]
              constructor
              · exact iff_of_true ⟨by simp, by simpa using hall⟩ (Nat.succ_pos _)
              · exact iff_of_false hgone (Nat.not_succ_le_zero _)
          | cons first ahead =>
              obtain ⟨rfl, hrest⟩ := List.cons.inj hwaiting
              rw [List.map_cons, List.mem_cons, not_or] at hahead
              have hnone : pieces label [item] = [] :=
                pieces_eq_nil (by simpa using Ne.symm hahead.1)
              have hitem := ih s' hbody hleaves past ahead hrest hahead.2 hall hleft
              rw [hnone, List.nil_append, List.length_cons, Nat.succ_lt_succ_iff,
                Nat.succ_le_succ_iff]
              exact hitem
      | @partly s' first full left' items hbody hnext hnext' hne hpiece hpieces hcount =>
          rw [b.loop.exec_next hbody] at hleaves ⊢
          rw [b.loop.history_next _ hbody, pieces_append, hcount, ← List.append_assoc]
          rw [hnext] at hwaiting
          cases ahead with
          | nil =>
              obtain ⟨heq, rfl⟩ := List.cons.inj hwaiting
              obtain ⟨rfl, rfl⟩ := Prod.mk.inj heq
              refine ih s' hbody hleaves (past ++ pieces first (b.handed s)) [] hnext' hahead ?_
                fun _ => hne
              rw [List.flatten_append, List.append_assoc, pieces_eq_map hpiece, ← hpieces, hall]
          | cons first' ahead =>
              obtain ⟨rfl, rfl⟩ := List.cons.inj hwaiting
              have hfirst := hahead
              rw [List.map_cons, List.mem_cons, not_or] at hfirst
              have hnone : pieces label (b.handed s) = [] :=
                pieces_eq_nil fun piece hmem => (hpiece piece hmem).symm ▸ Ne.symm hfirst.1
              rw [hnone, List.append_nil]
              exact ih s' hbody hleaves past ((first, left') :: ahead) hnext' hahead hall hleft

/-- **An item is handed over in full, or still waits, by its place.** -/
theorem exec_item (hturn : ∀ s, b.Turn s) {label : G} {s : S} (hleaves : b.Leaves s)
    {ahead behind : List (G × List B)} {all : List B}
    (hwaiting : b.waiting s = ahead ++ (label, all) :: behind)
    (hahead : label ∉ ahead.map Prod.fst) (hbehind : label ∉ behind.map Prod.fst) :
    (HandedOver label all (b.loop.history b.handed s) ↔ ahead.length < b.count s) ∧
      (label ∈ b.labels (b.loop.exec s).1 ↔ b.count s ≤ ahead.length) :=
  exec_item_from hturn hleaves [] ahead hwaiting hahead hbehind rfl fun h => absurd rfl h

/-- **When the result speaks for an item**: the loop stops at the item or ahead of
it, or hands over all that is behind it as well. -/
theorem exec_speaks_iff (hturn : ∀ s, b.Turn s) {label : G} {s : S} (hleaves : b.Leaves s)
    {ahead behind : List (G × List B)} {all : List B}
    (hwaiting : b.waiting s = ahead ++ (label, all) :: behind)
    (hahead : label ∉ ahead.map Prod.fst) (hbehind : label ∉ behind.map Prod.fst) :
    ((b.loop.exec s).2 = b.done ↔ HandedOver label all (b.loop.history b.handed s)) ∧
        ((b.loop.exec s).2 = b.stuck ↔ label ∈ b.labels (b.loop.exec s).1) ↔
      b.count s ≤ ahead.length ∨ b.count s = ahead.length + 1 + behind.length := by
  obtain ⟨hdone, hstuck⟩ := exec_result hturn hleaves
  obtain ⟨hover, hwaits⟩ := exec_item hturn hleaves hwaiting hahead hbehind
  rw [hdone, hstuck, hover, hwaits, hwaiting, List.length_append, List.length_cons]
  omega

/-! ## Scripts -/

/-- How many items of these sizes are taken in full, when the attempts are
answered as scripted: `answer` is how much of an item is taken, if it is not
refused, and `rest` the size of what is offered again.  A script that has run out
refuses. -/
def takenWhole {A : Type} (answer : A → Nat → Option Nat) (rest : Nat → Nat → Nat) :
    List Nat → List A → Nat
  | [], _ => 0
  | _ :: _, [] => 0
  | size :: sizes, a :: script =>
      match answer a size with
      | none => 0
      | some n =>
          if n < size then takenWhole answer rest (rest size n :: sizes) script
          else takenWhole answer rest sizes script + 1

@[simp] theorem takenWhole_nil {A : Type} (answer : A → Nat → Option Nat) (rest : Nat → Nat → Nat)
    (script : List A) : takenWhole answer rest [] script = 0 := by
  cases script <;> rfl

end Backlog

end SocketCollection
