import Mathlib

/-!
# Stable priority queues

What a priority queue is for, said on a plain list of entries in the order in
which they were pushed: the entry taken next is the earliest among those of
least key, and an expiry rule cuts off every key from some point on.

Two lists are `Same` when they hold, at every key, the same entries in the
same order.  All observations of a stable queue are invariant under `Same`
(`next?_congr`, `Same.cutoff_eq`), and a list that is sorted by key is a
normal form (`Same.eq_of_sorted`).  An implementation that keeps its entries
grouped by key is therefore correct as soon as its entries are `Same` as the
plain list.

`accounts_add` and `accounts_drop` keep the books of a queue: what was added has
been taken, waits, or was dropped.

Entries and keys are arbitrary types; nothing here is about sockets.
-/

namespace SocketCollection.StableQueue

/-! ## Entries grouped by key -/

section Grouping

variable {K E : Type} [DecidableEq K] (key : E → K)

/-- The entries of one key, in order. -/
def atKey (l : List E) (k : K) : List E := l.filter fun e => key e = k

/-- The earliest entry of a key. -/
def earliest (l : List E) (k : K) : Option E := l.find? fun e => key e = k

/-- The same entries in the same order at every key. -/
def Same (l m : List E) : Prop := ∀ k, atKey key l k = atKey key m k

variable {key}

@[simp] theorem atKey_nil (k : K) : atKey key [] k = [] := rfl

theorem atKey_cons (e : E) (l : List E) (k : K) :
    atKey key (e :: l) k = if key e = k then e :: atKey key l k else atKey key l k := by
  by_cases h : key e = k <;> simp [atKey, h]

@[simp] theorem atKey_append (l m : List E) (k : K) :
    atKey key (l ++ m) k = atKey key l k ++ atKey key m k := by
  simp [atKey]

theorem earliest_eq_head? (l : List E) (k : K) :
    earliest key l k = (atKey key l k).head? := by
  simp [earliest, atKey, List.head?_filter]

variable (key) in
theorem mem_iff_mem_atKey (l : List E) (e : E) : e ∈ l ↔ e ∈ atKey key l (key e) := by
  simp [atKey]

theorem Same.refl (l : List E) : Same key l l := fun _ => rfl

theorem Same.symm {l m : List E} (h : Same key l m) : Same key m l :=
  fun k => (h k).symm

theorem Same.trans {l m n : List E} (h : Same key l m) (h' : Same key m n) :
    Same key l n := fun k => (h k).trans (h' k)

theorem Same.append {l m l' m' : List E} (h : Same key l m) (h' : Same key l' m') :
    Same key (l ++ l') (m ++ m') := by
  intro k
  rw [atKey_append, atKey_append, h k, h' k]

theorem Same.mem_iff {l m : List E} (h : Same key l m) (e : E) : e ∈ l ↔ e ∈ m := by
  rw [mem_iff_mem_atKey key l, mem_iff_mem_atKey key m, h (key e)]

theorem Same.mem_map_key {l m : List E} (h : Same key l m) (k : K) :
    k ∈ l.map key ↔ k ∈ m.map key := by
  simp only [List.mem_map, h.mem_iff]

theorem Same.earliest_eq {l m : List E} (h : Same key l m) (k : K) :
    earliest key l k = earliest key m k := by
  rw [earliest_eq_head?, earliest_eq_head?, h k]

theorem Same.filter_key {l m : List E} (h : Same key l m) (p : K → Bool) :
    Same key (l.filter fun e => p (key e)) (m.filter fun e => p (key e)) := by
  intro k
  have hcomm : ∀ n : List E, atKey key (n.filter fun e => p (key e)) k =
      (atKey key n k).filter fun e => p (key e) := by
    intro n
    simp [atKey, List.filter_filter, Bool.and_comm]
  rw [hcomm, hcomm, h k]

/-- **Entries that agree at every key are the same entries.** -/
theorem Same.perm {l m : List E} (h : Same key l m) : l.Perm m := by
  classical
  rw [List.perm_iff_count]
  intro e
  have hcount : ∀ n : List E, n.count e = (atKey key n (key e)).count e := by
    intro n
    rw [atKey, List.count_filter (by simp)]
  rw [hcount l, hcount m, h (key e)]

theorem earliest_map {F : Type} (f : F → E) (l : List F) (k : K) :
    earliest key (l.map f) k = (earliest (key ∘ f) l k).map f := by
  rw [earliest, earliest, List.find?_map]
  rfl

/-- A map that keeps the keys keeps the grouping. -/
theorem Same.map {F : Type} (f : F → E) {l m : List F} (h : Same (key ∘ f) l m) :
    Same key (l.map f) (m.map f) := by
  intro k
  rw [atKey, atKey, List.filter_map, List.filter_map]
  exact congrArg (List.map f) (h k)

/-- Removing the earliest entry of `k` removes the head of the entries of `k`
and leaves every other key alone. -/
theorem atKey_eraseP (l : List E) (k j : K) :
    atKey key (l.eraseP fun e => key e = k) j =
      if j = k then (atKey key l j).tail else atKey key l j := by
  induction l with
  | nil => simp
  | cons e l ih =>
      by_cases he : key e = k
      · rw [List.eraseP_cons_of_pos (by simpa using he), atKey_cons]
        by_cases hj : j = k
        · simp [hj, he]
        · simp [hj, he, Ne.symm hj]
      · rw [List.eraseP_cons_of_neg (by simpa using he), atKey_cons, atKey_cons, ih]
        by_cases hj : j = k
        · subst hj
          simp [he]
        · simp [hj]

end Grouping

/-! ## The observations of a queue -/

section Observations

variable {K E : Type} [Min K] [DecidableEq K] (key : E → K)

/-- The least key present. -/
def least (l : List E) : Option K := (l.map key).min?

/-- Take the earliest entry among those of least key. -/
def next? (l : List E) : Option (E × List E) := do
  let k ← least key l
  let e ← earliest key l k
  return (e, l.eraseP fun e => key e = k)

/-- The least key whose earliest entry is stale. -/
def cutoff (stale : K → E → Bool) (l : List E) : Option K :=
  ((l.map key).filter fun k => (earliest key l k).any (stale k)).min?

/-- The entries that stay when everything from key `c` on is removed; nothing
is removed when there is no such key. -/
def keepBelow [LT K] [DecidableLT K] (c : Option K) (l : List E) : List E :=
  match c with
  | none => l
  | some c => l.filter fun e => key e < c

/-- What there is to cut off is seen on the keys and on what is stale. -/
theorem cutoff_map {F : Type} (f : F → E) (stale : K → E → Bool) (l : List F) :
    cutoff key stale (l.map f) = cutoff (key ∘ f) (fun k e => stale k (f e)) l := by
  simp only [cutoff, earliest_map, Option.any_map, List.map_map, Function.comp_def]

omit [Min K] [DecidableEq K] in
theorem keepBelow_map [LT K] [DecidableLT K] {F : Type} (f : F → E) (c : Option K) (l : List F) :
    keepBelow key c (l.map f) = (keepBelow (key ∘ f) c l).map f := by
  cases c with
  | none => rfl
  | some c => exact List.filter_map

/-- The entries from key `c` on. -/
def fromCutoff [LE K] [DecidableLE K] (c : Option K) (l : List E) : List E :=
  match c with
  | none => []
  | some c => l.filter fun e => c ≤ key e

end Observations

section Order

variable {K E : Type} [LE K] [Min K] [DecidableEq K] [Std.IsLinearOrder K]
  [Std.LawfulOrderMin K] {key : E → K}

omit [DecidableEq K] in
/-- Lists with the same members have the same minimum. -/
private theorem min?_eq_of_mem_iff {ks js : List K} (h : ∀ k, k ∈ ks ↔ k ∈ js) :
    ks.min? = js.min? := by
  cases hj : js.min? with
  | none =>
      rw [List.min?_eq_none_iff] at hj ⊢
      rw [List.eq_nil_iff_forall_not_mem]
      intro k hk
      simpa [hj] using (h k).mp hk
  | some k =>
      rw [List.min?_eq_some_iff] at hj ⊢
      exact ⟨(h k).mpr hj.1, fun b hb => hj.2 b ((h b).mp hb)⟩

theorem Same.least_eq {l m : List E} (h : Same key l m) : least key l = least key m :=
  min?_eq_of_mem_iff h.mem_map_key

theorem Same.cutoff_eq {l m : List E} (h : Same key l m) (stale : K → E → Bool) :
    cutoff key stale l = cutoff key stale m := by
  refine min?_eq_of_mem_iff fun k => ?_
  simp only [List.mem_filter, h.mem_map_key, h.earliest_eq]

omit [LE K] [Min K] [Std.IsLinearOrder K] [Std.LawfulOrderMin K] in
theorem Same.keepBelow [LT K] [DecidableLT K] {l m : List E} (h : Same key l m) (c : Option K) :
    Same key (keepBelow key c l) (keepBelow key c m) := by
  cases c with
  | none => exact h
  | some c => exact h.filter_key fun k => decide (k < c)

omit [Min K] [DecidableEq K] [Std.LawfulOrderMin K] in
/-- A cutoff splits the entries into those that stay and those that go. -/
theorem length_fromCutoff [LT K] [DecidableLT K] [DecidableLE K] [Std.LawfulOrderLT K]
    (c : Option K) (l : List E) :
    (fromCutoff key c l).length = l.length - (StableQueue.keepBelow key c l).length := by
  cases c with
  | none => simp [fromCutoff, StableQueue.keepBelow]
  | some c =>
      have hnot : ∀ e : E, decide (c ≤ key e) = !decide (key e < c) := by
        intro e
        by_cases h : key e < c
        · simp [h, Std.not_le.mpr h]
        · simp [h, Std.not_lt.mp h]
      have hsplit := List.length_eq_length_filter_add (l := l) fun e => decide (key e < c)
      simp only [fromCutoff, StableQueue.keepBelow, hnot]
      omega

omit [LE K] [Std.IsLinearOrder K] [Std.LawfulOrderMin K] in
theorem next?_eq_some {l : List E} {e : E} {rest : List E} :
    next? key l = some (e, rest) ↔
      least key l = some (key e) ∧ earliest key l (key e) = some e ∧
        rest = l.eraseP fun x => key x = key e := by
  constructor
  · intro h
    simp only [next?, Option.bind_eq_bind, Option.bind_eq_some_iff, Option.pure_def,
      Option.some.injEq, Prod.mk.injEq] at h
    obtain ⟨k, hk, e', he', rfl, rfl⟩ := h
    have hkey : key e' = k := by simpa using List.find?_some he'
    subst hkey
    exact ⟨hk, he', rfl⟩
  · rintro ⟨hk, he, rfl⟩
    simp [next?, hk, he]

theorem next?_eq_none {l : List E} : next? key l = none ↔ l = [] := by
  constructor
  · intro h
    by_contra hl
    obtain ⟨k, hk⟩ := Option.isSome_iff_exists.mp
      (List.isSome_min?_of_ne_nil (l := l.map key) (by simpa using hl))
    obtain ⟨e, he, hek⟩ : ∃ e ∈ l, key e = k := by
      simpa using (List.min?_eq_some_iff.mp hk).1
    obtain ⟨e', he'⟩ : ∃ e', earliest key l k = some e' := by
      rw [← Option.isSome_iff_exists, earliest, List.find?_isSome]
      exact ⟨e, he, by simpa using hek⟩
    simp [next?, least, hk, he'] at h
  · rintro rfl
    rfl

/-- **The next entry depends only on the order within each key.** -/
theorem next?_congr {l m : List E} (h : Same key l m) {e : E} {rest : List E}
    (hl : next? key l = some (e, rest)) :
    ∃ rest', next? key m = some (e, rest') ∧ Same key rest rest' := by
  rw [next?_eq_some] at hl
  obtain ⟨hk, he, rfl⟩ := hl
  refine ⟨m.eraseP fun x => key x = key e, ?_, ?_⟩
  · rw [next?_eq_some, ← h.least_eq, ← h.earliest_eq]
    exact ⟨hk, he, rfl⟩
  · intro k
    rw [atKey_eraseP, atKey_eraseP, h k]

/-! ## Sorted lists are normal forms -/

variable (key) in
/-- Grouped by key, keys ascending. -/
def Sorted (l : List E) : Prop := l.Pairwise fun a b => key a ≤ key b

omit [DecidableEq K] in
theorem least_sorted {e : E} {l : List E} (h : Sorted key (e :: l)) :
    least key (e :: l) = some (key e) := by
  rw [least, List.min?_eq_some_iff]
  refine ⟨by simp, ?_⟩
  intro k hk
  rw [List.map_cons, List.mem_cons] at hk
  rcases hk with rfl | hk
  · exact Std.le_refl _
  · obtain ⟨x, hx, rfl⟩ := List.mem_map.mp hk
    exact (List.pairwise_cons.mp h).1 x hx

theorem next?_sorted {e : E} {l : List E} (h : Sorted key (e :: l)) :
    next? key (e :: l) = some (e, l) := by
  rw [next?_eq_some]
  exact ⟨least_sorted h, by simp [earliest], by simp⟩

/-- **Two sorted lists with the same entries at every key are equal.** -/
theorem Same.eq_of_sorted {l m : List E} (h : Same key l m) (hl : Sorted key l)
    (hm : Sorted key m) : l = m := by
  induction l generalizing m with
  | nil => exact (List.nil_perm.mp h.perm).symm
  | cons e l ih =>
      obtain ⟨rest, hrest, hsame⟩ := next?_congr h (next?_sorted hl)
      cases m with
      | nil => simp [next?_eq_none.mpr rfl] at hrest
      | cons x m =>
          rw [next?_sorted hm] at hrest
          simp only [Option.some.injEq, Prod.mk.injEq] at hrest
          obtain ⟨rfl, rfl⟩ := hrest
          rw [ih hsame (List.pairwise_cons.mp hl).2 (List.pairwise_cons.mp hm).2]

/-- **Where a new entry goes**: behind those of its key, and in front of those of
greater keys. -/
theorem Same.eq_insert [LT K] [DecidableLT K] [DecidableLE K] [Std.LawfulOrderLT K]
    {l m : List E} {e : E} (h : Same key m (l ++ [e])) (hl : Sorted key l) (hm : Sorted key m) :
    m = (l.filter fun a => key a ≤ key e) ++ e :: l.filter fun a => key e < key a := by
  have hsorted : Sorted key
      ((l.filter fun a => key a ≤ key e) ++ e :: l.filter fun a => key e < key a) := by
    have hfront : ∀ a ∈ l.filter fun a => key a ≤ key e, key a ≤ key e := by
      intro a ha
      simpa using (List.mem_filter.mp ha).2
    have hback : ∀ b ∈ l.filter fun b => key e < key b, key e ≤ key b := by
      intro b hb
      have hlt : key e < key b := by simpa using (List.mem_filter.mp hb).2
      exact Std.le_of_lt hlt
    refine List.pairwise_append.mpr ⟨hl.filter _, ?_, ?_⟩
    · exact List.pairwise_cons.mpr ⟨hback, hl.filter _⟩
    · intro a ha b hb
      rcases List.mem_cons.mp hb with rfl | hb
      · exact hfront a ha
      · exact Std.le_trans (hfront a ha) (hback b hb)
  refine Same.eq_of_sorted (fun k => ?_) hm hsorted
  rw [h k, atKey_append, atKey_append, atKey_cons, atKey_cons, atKey_nil]
  simp only [atKey, List.filter_filter]
  by_cases hk : k ≤ key e
  · have hle : l.filter (fun a => decide (key a = k) && decide (key a ≤ key e)) =
        l.filter fun a => key a = k := by
      refine List.filter_congr fun a _ => ?_
      by_cases ha : key a = k <;> simp [ha, hk]
    have hgt : l.filter (fun a => decide (key a = k) && decide (key e < key a)) = [] := by
      refine List.filter_eq_nil_iff.mpr fun a _ => ?_
      by_cases ha : key a = k <;> simp [ha, Std.not_lt.mpr hk]
    rw [hle, hgt]
  · have hne : key e ≠ k := by
      rintro rfl
      exact hk (Std.le_refl _)
    have hle : l.filter (fun a => decide (key a = k) && decide (key a ≤ key e)) = [] := by
      refine List.filter_eq_nil_iff.mpr fun a _ => ?_
      by_cases ha : key a = k <;> simp [ha, hk]
    have hgt : l.filter (fun a => decide (key a = k) && decide (key e < key a)) =
        l.filter fun a => key a = k := by
      refine List.filter_congr fun a _ => ?_
      by_cases ha : key a = k <;> simp [ha, Std.not_le.mp hk]
    rw [hle, hgt, if_neg hne, if_neg hne, List.append_nil, List.nil_append]

/-! ## Where an insertion goes

`eq_insert` puts a new entry behind those of its key and of lower ones.  Seen from
an entry that is in the list already, it goes in front if its key is lower, and
behind otherwise. -/

section Insertion

omit [Min K] [DecidableEq K] [Std.LawfulOrderMin K]

variable {ahead later : List E} {e : E}

private theorem Sorted.split (h : Sorted key (ahead ++ e :: later)) :
    (∀ a ∈ ahead, key a ≤ key e) ∧ ∀ a ∈ e :: later, key e ≤ key a := by
  rw [Sorted, List.pairwise_append, List.pairwise_cons] at h
  obtain ⟨-, ⟨hlater, -⟩, hahead⟩ := h
  refine ⟨fun a ha => hahead a ha e List.mem_cons_self, fun a ha => ?_⟩
  rcases List.mem_cons.mp ha with rfl | ha
  · exact Std.le_refl _
  · exact hlater a ha

variable [LT K] [DecidableLT K] [DecidableLE K] [Std.LawfulOrderLT K]

/-- An entry of a lower key goes in front. -/
theorem Sorted.insert_in_front (h : Sorted key (ahead ++ e :: later)) (new : E)
    (hnew : key new < key e) :
    ∃ front, ((ahead ++ e :: later).filter fun a => key a ≤ key new) ++
        new :: ((ahead ++ e :: later).filter fun a => key new < key a) = front ++ e :: later ∧
      front.length = ahead.length + 1 := by
  have hlater := h.split.2
  have hle : (e :: later).filter (fun a => decide (key a ≤ key new)) = [] := by
    rw [List.filter_eq_nil_iff]
    intro a ha
    simpa [Std.not_le] using Std.lt_of_lt_of_le hnew (hlater a ha)
  have hlt : (e :: later).filter (fun a => decide (key new < key a)) = e :: later := by
    rw [List.filter_eq_self]
    intro a ha
    simpa using Std.lt_of_lt_of_le hnew (hlater a ha)
  have hnot : ∀ a : E, decide (key new < key a) = !decide (key a ≤ key new) := by
    intro a
    by_cases ha : key a ≤ key new
    · simp [ha, Std.not_lt.mpr ha]
    · simp [ha, Std.not_le.mp ha]
  refine ⟨(ahead.filter fun a => key a ≤ key new) ++
    new :: (ahead.filter fun a => key new < key a), ?_, ?_⟩
  · rw [List.filter_append, List.filter_append, hle, hlt, List.append_nil, List.append_assoc,
      List.cons_append]
  · have hparts := List.length_eq_length_filter_add (l := ahead) fun a => decide (key a ≤ key new)
    simp only [List.length_append, List.length_cons, hnot]
    omega

/-- Any other entry goes behind. -/
theorem Sorted.insert_behind (h : Sorted key (ahead ++ e :: later)) (new : E)
    (hnew : key e ≤ key new) :
    ∃ back, ((ahead ++ e :: later).filter fun a => key a ≤ key new) ++
      new :: ((ahead ++ e :: later).filter fun a => key new < key a) = ahead ++ e :: back := by
  have hahead : ∀ a ∈ ahead ++ [e], key a ≤ key new := by
    intro a ha
    rcases List.mem_append.mp ha with ha | ha
    · exact Std.le_trans (h.split.1 a ha) hnew
    · rwa [List.mem_singleton.mp ha]
  have hsplit : ahead ++ e :: later = (ahead ++ [e]) ++ later := List.append_cons ..
  have hle : (ahead ++ e :: later).filter (fun a => decide (key a ≤ key new)) =
      (ahead ++ [e]) ++ later.filter fun a => key a ≤ key new := by
    rw [hsplit, List.filter_append, List.filter_eq_self.mpr]
    intro a ha
    simpa using hahead a ha
  have hlt : (ahead ++ e :: later).filter (fun a => decide (key new < key a)) =
      later.filter fun a => key new < key a := by
    rw [hsplit, List.filter_append, List.filter_eq_nil_iff.mpr, List.nil_append]
    intro a ha
    simpa [Std.not_lt] using hahead a ha
  refine ⟨(later.filter fun a => key a ≤ key new) ++
    new :: (later.filter fun a => key new < key a), ?_⟩
  rw [hle, hlt, List.append_assoc, List.append_assoc, List.singleton_append]

end Insertion

omit [Min K] [Std.IsLinearOrder K] [Std.LawfulOrderMin K] in
/-- A relation that holds from lower keys to higher ones, and along each key,
holds along a sorted list. -/
theorem Sorted.pairwise {l : List E} {R : E → E → Prop} (h : Sorted key l)
    (hkeys : ∀ a b, key a ≤ key b → key a ≠ key b → R a b)
    (hsame : ∀ k, (atKey key l k).Pairwise R) : l.Pairwise R := by
  induction l with
  | nil => exact List.Pairwise.nil
  | cons a l ih =>
      have hsorted := List.pairwise_cons.mp h
      rw [List.pairwise_cons]
      constructor
      · intro b hb
        by_cases hkey : key a = key b
        · have hthis := hsame (key a)
          rw [atKey_cons, if_pos rfl] at hthis
          apply (List.pairwise_cons.mp hthis).1 b
          rw [hkey]
          exact (mem_iff_mem_atKey key l b).mp hb
        · exact hkeys a b (hsorted.1 b hb) hkey
      · apply ih hsorted.2
        intro k
        refine (hsame k).sublist ?_
        exact (List.sublist_cons_self a l).filter _

omit [Min K] [Std.IsLinearOrder K] [Std.LawfulOrderMin K] in
/-- **Grouping by key keeps every order that favours lower keys.** -/
theorem Same.pairwise {l m : List E} {R : E → E → Prop} (h : Same key l m) (hl : Sorted key l)
    (hkeys : ∀ a b, key a ≤ key b → key a ≠ key b → R a b) (hm : m.Pairwise R) :
    l.Pairwise R := by
  apply hl.pairwise hkeys
  intro k
  rw [h k]
  exact hm.filter _

omit [LE K] [Min K] [Std.IsLinearOrder K] [Std.LawfulOrderMin K] in
/-- In an ordered list the earliest entry of a key is itself or in front of
every other entry of that key. -/
private theorem earliest_le {l : List E} {R : E → E → Prop} (h : l.Pairwise R) {a e : E}
    (ha : earliest key l (key e) = some a) (he : e ∈ l) : a = e ∨ R a e := by
  have hmem := (mem_iff_mem_atKey key l e).mp he
  have hordered : (atKey key l (key e)).Pairwise R := h.filter _
  rw [earliest_eq_head?] at ha
  cases hl : atKey key l (key e) with
  | nil => simp [hl] at ha
  | cons b rest =>
      rw [hl, List.head?_cons, Option.some.injEq] at ha
      subst ha
      rw [hl] at hmem hordered
      rcases List.mem_cons.mp hmem with rfl | hrest
      · exact .inl rfl
      · exact .inr ((List.pairwise_cons.mp hordered).1 e hrest)

/-- **Looking at the earliest entries only finds all that is stale**, when an
entry is never stale before an earlier one of its key. -/
theorem not_stale_of_mem_keepBelow [LT K] [DecidableLT K] [Std.LawfulOrderLT K]
    {stale : K → E → Bool} {l : List E}
    (hinherit : l.Pairwise fun a b => key a = key b → stale (key b) b → stale (key a) a) {e : E}
    (he : e ∈ keepBelow key (cutoff key stale l) l) : stale (key e) e = false := by
  have hmem : e ∈ l := by
    cases hc : cutoff key stale l with
    | none => simpa [StableQueue.keepBelow, hc] using he
    | some c =>
        rw [hc] at he
        exact (List.mem_filter.mp he).1
  cases hstale : stale (key e) e with
  | false => rfl
  | true =>
      obtain ⟨a, ha⟩ : ∃ a, earliest key l (key e) = some a := by
        rw [← Option.isSome_iff_exists, earliest, List.find?_isSome]
        exact ⟨e, hmem, by simp⟩
      have hkey : key a = key e := by simpa using List.find?_some ha
      have hfront : stale (key e) a = true := by
        rcases earliest_le hinherit ha hmem with rfl | hle
        · exact hstale
        · exact hkey ▸ hle hkey hstale
      have hcandidate : key e ∈ (l.map key).filter fun k => (earliest key l k).any (stale k) := by
        rw [List.mem_filter]
        exact ⟨List.mem_map_of_mem hmem, by simpa [ha] using hfront⟩
      cases hc : cutoff key stale l with
      | none =>
          rw [cutoff, List.min?_eq_none_iff] at hc
          simp [hc] at hcandidate
      | some c =>
          have hle : c ≤ key e := (List.min?_eq_some_iff.mp hc).2 _ hcandidate
          rw [hc] at he
          have hlt : key e < c := by simpa using (List.mem_filter.mp he).2
          exact absurd hle (Std.not_le.mpr hlt)

omit [LE K] [Std.IsLinearOrder K] [Std.LawfulOrderMin K] in
/-- Where nothing is stale there is nothing to cut off. -/
theorem cutoff_eq_none {stale : K → E → Bool} {l : List E}
    (h : ∀ e ∈ l, stale (key e) e = false) : cutoff key stale l = none := by
  rw [cutoff, List.min?_eq_none_iff, List.filter_eq_nil_iff]
  intro k _ hstale
  obtain ⟨e, he, hek⟩ := (Option.any_eq_true _ _).mp hstale
  have hkey : key e = k := by simpa using List.find?_some he
  have hfresh := h e (List.mem_of_find?_eq_some he)
  rw [hkey, hek] at hfresh
  cases hfresh

end Order

/-! ## Accounts

Whatever was added to a queue has been taken off it, waits in it, or was
dropped. -/

section Accounts

variable {E : Type} {added taken waiting waiting' dropped : List E}

theorem accounts_add {e : E} (h : added.Perm (taken ++ waiting ++ dropped))
    (hadd : waiting'.Perm (waiting ++ [e])) :
    (added ++ [e]).Perm (taken ++ waiting' ++ dropped) := by
  have hmoved : (added ++ [e]).Perm (taken ++ (waiting ++ [e]) ++ dropped) := by
    apply (h.append_right [e]).trans
    simp only [List.append_assoc]
    exact (List.perm_append_comm.append_left _).append_left _
  exact hmoved.trans ((hadd.symm.append_left _).append_right _)

theorem accounts_drop {gone : List E} (h : added.Perm (taken ++ waiting ++ dropped))
    (hdrop : waiting = waiting' ++ gone) :
    added.Perm (taken ++ waiting' ++ (dropped ++ gone)) := by
  subst hdrop
  apply h.trans
  simp only [List.append_assoc]
  exact (List.perm_append_comm.append_left _).append_left _

/-- What was taken over from one account is all there is to another. -/
theorem accounts_join {inFlight lost read unread copied : List E}
    (h : added.Perm (taken ++ waiting ++ dropped))
    (htaken : (inFlight ++ lost ++ (read ++ unread)).Perm (taken ++ copied)) :
    (added ++ copied).Perm (read ++ unread ++ inFlight ++ lost ++ waiting ++ dropped) := by
  rw [← Multiset.coe_eq_coe] at h htaken ⊢
  simp only [← Multiset.coe_add] at h htaken ⊢
  calc (added : Multiset E) + copied = taken + copied + waiting + dropped := by
        rw [h]
        abel
    _ = inFlight + lost + (read + unread) + waiting + dropped := by rw [htaken]
    _ = read + unread + inFlight + lost + waiting + dropped := by abel

end Accounts

end SocketCollection.StableQueue
