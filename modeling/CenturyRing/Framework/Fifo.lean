import CenturyRing.Framework.System
import Mathlib.Data.List.Infix

/-! # First-in first-out queues

  - `BoundedQueue`: a queue that never holds more than its capacity.
  - `Unbounded`: the abstract queue a bounded one stands for. It remembers
    everything ever accepted and how much of it has been taken.
  - `batchOf`: if elements are taken in batches, the batch in which the
    element at a position was taken.
-/

open LTS

namespace Fifo

universe u

variable {α : Type u}

/-! ### Bounded queues -/

/-- A queue with its capacity; the bound is part of the value. -/
structure BoundedQueue (α : Type u) where
  capacity : Nat
  entries : List α
  length_le : entries.length ≤ capacity

namespace BoundedQueue

/-- The empty queue of a capacity. -/
def empty (capacity : Nat) : BoundedQueue α := ⟨capacity, [], Nat.zero_le _⟩

/-- Append an element, unless the queue is full. -/
def push (q : BoundedQueue α) (a : α) : Option (BoundedQueue α) :=
  if h : q.entries.length < q.capacity then
    some ⟨q.capacity, q.entries ++ [a], by rw [List.length_append]; exact h⟩
  else
    none

/-- Remove the first `k` elements. -/
def drop (q : BoundedQueue α) (k : Nat) : BoundedQueue α :=
  ⟨q.capacity, q.entries.drop k, by
    have := q.length_le
    simp only [List.length_drop]
    omega⟩

@[simp] theorem empty_entries (capacity : Nat) :
    (empty capacity : BoundedQueue α).entries = [] := rfl

@[simp] theorem empty_capacity (capacity : Nat) :
    (empty capacity : BoundedQueue α).capacity = capacity := rfl

@[simp] theorem drop_entries (q : BoundedQueue α) (k : Nat) :
    (q.drop k).entries = q.entries.drop k := rfl

@[simp] theorem drop_capacity (q : BoundedQueue α) (k : Nat) :
    (q.drop k).capacity = q.capacity := rfl

/-- A push either finds room and appends, or the queue was full. -/
theorem push_cases (q : BoundedQueue α) (a : α) :
    (∃ q', q.push a = some q' ∧ q.entries.length < q.capacity ∧
      q'.capacity = q.capacity ∧ q'.entries = q.entries ++ [a]) ∨
    (q.push a = none ∧ q.entries.length = q.capacity) := by
  unfold push
  split
  · next h => exact Or.inl ⟨_, rfl, h, rfl, rfl⟩
  · next h => exact Or.inr ⟨rfl, Nat.le_antisymm q.length_le (Nat.not_lt.mp h)⟩

end BoundedQueue

/-! ### The unbounded queue -/

/-- Everything accepted so far, in order, and how much of it was taken. -/
structure Unbounded (α : Type u) where
  accepted : List α
  taken : Nat

/-- What has been accepted and not taken yet. -/
def Unbounded.pending (q : Unbounded α) : List α := q.accepted.drop q.taken

/-- The two things that happen to a queue. -/
inductive Label (α : Type u) where
  /-- An element is accepted. -/
  | push (a : α)
  /-- The next `k` elements are taken. -/
  | pop (k : Nat)

/-- The unbounded queue as a transition system. -/
def unbounded : System (Unbounded α) (Label α) where
  init := fun q => q.accepted = [] ∧ q.taken = 0
  step := fun q l q' =>
    match l with
    | .push a => q' = { q with accepted := q.accepted ++ [a] }
    | .pop k => k ≤ q.pending.length ∧ q' = { q with taken := q.taken + k }

/-- No more is taken than was accepted. -/
theorem taken_le_accepted {tr : List (Step (Unbounded α) (Label α))} {q : Unbounded α}
    (h : Run unbounded tr q) : q.taken ≤ q.accepted.length := by
  refine Run.invariant (I := fun q => q.taken ≤ q.accepted.length)
    (fun q hq => ?_) (fun q l q' hle hstep => ?_) h
  · simp [hq.1, hq.2]
  · cases l with
    | push a =>
      obtain rfl : q' = _ := hstep
      simp only [List.length_append]
      omega
    | pop k =>
      obtain ⟨hk, rfl⟩ := hstep
      simp only [Unbounded.pending, List.length_drop] at hk
      show q.taken + k ≤ q.accepted.length
      omega

theorem path_push (q : Unbounded α) (as : List α) :
    ∃ tr, Path unbounded q tr ⟨q.accepted ++ as, q.taken⟩ := by
  induction as using List.reverseRecOn with
  | nil => exact ⟨[], by rw [List.append_nil]; exact .nil⟩
  | append_singleton as a ih =>
    obtain ⟨tr, htr⟩ := ih
    refine ⟨_, .snoc (.push a) htr ?_⟩
    show _ = _
    rw [List.append_assoc]

/-- **Simulation rule**: to accept some elements and then take some, never
    more than there are, is a path of the unbounded queue. -/
theorem path_of_append {q q' : Unbounded α} {as : List α}
    (haccepted : q'.accepted = q.accepted ++ as) (htaken : q.taken ≤ q'.taken)
    (hle : q'.taken ≤ q'.accepted.length) : ∃ tr, Path unbounded q tr q' := by
  obtain ⟨tr, htr⟩ := path_push q as
  refine ⟨_, .snoc (.pop (q'.taken - q.taken)) htr ?_⟩
  constructor
  · simp only [Unbounded.pending, List.length_drop, ← haccepted]
    omega
  · obtain ⟨accepted, taken⟩ := q'
    obtain rfl : accepted = _ := haccepted
    have htaken : q.taken ≤ taken := htaken
    simp only [Unbounded.mk.injEq, true_and]
    omega

/-! ### Batches -/

/-- The batch in which the element at position `n` of `bs.flatten` stands;
    `none` if there are not that many elements. -/
def batchOf : List (List α) → Nat → Option Nat
  | [], _ => none
  | b :: bs, n => if n < b.length then some 0 else (batchOf bs (n - b.length)).map (· + 1)

/-- A batch taken later does not move an element that was taken before. -/
theorem batchOf_append_left {bs : List (List α)} {n : Nat} (cs : List (List α))
    (h : n < bs.flatten.length) : batchOf (bs ++ cs) n = batchOf bs n := by
  induction bs generalizing n with
  | nil => simp at h
  | cons b bs ih =>
    simp only [List.flatten_cons, List.length_append] at h
    simp only [List.cons_append, batchOf]
    split
    · rfl
    · rw [ih (by omega)]

/-- The elements of the next batch are those right behind what was taken. -/
theorem batchOf_append_right {bs : List (List α)} {b : List α} {n : Nat}
    (h : bs.flatten.length ≤ n) (h' : n < bs.flatten.length + b.length) :
    batchOf (bs ++ [b]) n = some bs.length := by
  induction bs generalizing n with
  | nil => simpa [batchOf] using h'
  | cons b' bs ih =>
    simp only [List.flatten_cons, List.length_append] at h h'
    rw [List.cons_append, batchOf, if_neg (by omega), ih (by omega) (by omega)]
    rfl

/-- An element that was taken was taken in one of the batches. -/
theorem batchOf_lt {bs : List (List α)} {n : Nat} (h : n < bs.flatten.length) :
    ∃ b, batchOf bs n = some b ∧ b < bs.length := by
  induction bs generalizing n with
  | nil => simp at h
  | cons b bs ih =>
    simp only [List.flatten_cons, List.length_append] at h
    rw [batchOf]
    split
    · exact ⟨0, rfl, Nat.succ_pos _⟩
    · obtain ⟨b', hb', hlt⟩ := ih (n := n - b.length) (by omega)
      exact ⟨b' + 1, by rw [hb']; rfl, by simpa using hlt⟩

/-! ### Queues that are taken whole -/

/-- A queue together with the batches taken from it so far. -/
structure Batched (α : Type u) where
  batches : List (List α)
  pending : List α

namespace Batched

/-- Everything accepted so far. -/
def total (q : Batched α) : Nat := q.batches.flatten.length + q.pending.length

/-- Append an element. -/
def push (q : Batched α) (a : α) : Batched α := { q with pending := q.pending ++ [a] }

/-- Take everything as one batch. -/
def flush (q : Batched α) : Batched α := ⟨q.batches ++ [q.pending], []⟩

/-- Append an element to a queue that holds `c`, flushing it first if it is
    full. -/
def autopush (c : Nat) (q : Batched α) (a : α) : Batched α :=
  if q.pending.length < c then q.push a else q.flush.push a

/-- The queue may be appended to and flushed, in any order. -/
inductive Moves (q : Batched α) : Batched α → Prop where
  | refl : Moves q q
  | push {q' : Batched α} (h : Moves q q') (a : α) : Moves q (q'.push a)
  | flush {q' : Batched α} (h : Moves q q') : Moves q q'.flush

theorem Moves.trans {q q' q'' : Batched α} (h : Moves q q') (h' : Moves q' q'') :
    Moves q q'' := by
  induction h' with
  | refl => exact h
  | push _ a ih => exact ih.push a
  | flush _ ih => exact ih.flush

/-- Either nothing was taken, or the first batch taken begins with what was
    pending. -/
theorem Moves.first_batch {q q' : Batched α} (h : Moves q q') :
    (q'.batches = q.batches ∧ q.pending <+: q'.pending) ∨
      ∃ b bs, q'.batches = q.batches ++ b :: bs ∧ q.pending <+: b := by
  induction h with
  | refl => exact Or.inl ⟨rfl, List.prefix_refl _⟩
  | push _ a ih =>
    rcases ih with ⟨hbatches, hpending⟩ | ⟨b, bs, hbatches, hb⟩
    · exact Or.inl ⟨hbatches, hpending.trans (List.prefix_append _ _)⟩
    · exact Or.inr ⟨b, bs, hbatches, hb⟩
  | @flush q' _ ih =>
    rcases ih with ⟨hbatches, hpending⟩ | ⟨b, bs, hbatches, hb⟩
    · exact Or.inr ⟨q'.pending, [], by simp [Batched.flush, hbatches], hpending⟩
    · exact Or.inr ⟨b, bs ++ [q'.pending], by simp [Batched.flush, hbatches], hb⟩

/-- **Together rule**: the last `n` elements of a queue are taken in one batch
    exactly if all of them are still pending. -/
theorem Moves.together_iff {q q' : Batched α} (h : Moves q q') {n : Nat} (hn : 0 < n)
    (hle : n ≤ q.total) (hlast : q.pending ≠ [])
    (htaken : q.total ≤ q'.batches.flatten.length) :
    (∃ b, ∀ i < n, batchOf q'.batches (q.total - n + i) = some b) ↔ n ≤ q.pending.length := by
  have hpos : 0 < q.pending.length := List.length_pos_iff.mpr hlast
  have htotal : q.total = q.batches.flatten.length + q.pending.length := rfl
  obtain ⟨b, bs, hbatches, hb⟩ : ∃ b bs, q'.batches = q.batches ++ b :: bs ∧ q.pending <+: b := by
    refine h.first_batch.resolve_left fun ⟨hbatches, _⟩ => ?_
    rw [hbatches] at htaken
    omega
  -- What was pending is in the next batch; what was taken before is in an earlier one.
  have hnext : ∀ x, q.batches.flatten.length ≤ x → x < q.total →
      batchOf q'.batches x = some q.batches.length := by
    intro x hx hx'
    have hlen := hb.length_le
    rw [hbatches, List.append_cons, batchOf_append_left, batchOf_append_right hx (by omega)]
    simp only [List.flatten_append, List.length_append, List.flatten_singleton]
    omega
  constructor
  · intro hpair
    obtain ⟨b', hall⟩ := hpair
    by_contra hlt
    have hfirst := hall 0 hn
    have hlast' := hall (n - 1) (by omega)
    rw [hnext _ (by omega) (by omega)] at hlast'
    have hbefore : q.total - n + 0 < q.batches.flatten.length := by omega
    obtain ⟨b'', hb'', hb''lt⟩ := batchOf_lt hbefore
    rw [hbatches, batchOf_append_left _ hbefore, hb''] at hfirst
    cases hfirst
    cases hlast'
    exact Nat.lt_irrefl _ hb''lt
  · intro hpending
    exact ⟨q.batches.length, fun i hi => hnext _ (by omega) (by omega)⟩

/-! ### Filling a queue -/

/-- Appending no more than fit flushes the queue at most once, and only when it
    is full. -/
theorem foldl_autopush_pending {c : Nat} {q : Batched α} (hq : q.pending.length ≤ c)
    {as : List α} (has : as.length ≤ c) :
    (as.foldl (autopush c) q).pending.length =
      if q.pending.length + as.length ≤ c then q.pending.length + as.length
      else q.pending.length + as.length - c := by
  induction as using List.reverseRecOn with
  | nil => simp [hq]
  | append_singleton as a ih =>
    simp only [List.length_append, List.length_singleton] at has
    have hprev := ih (by omega)
    simp only [List.foldl_append, List.foldl_cons, List.foldl_nil, List.length_append,
      List.length_singleton]
    generalize as.foldl (autopush c) q = q' at hprev ⊢
    unfold autopush
    split
    · simp only [push, List.length_append, List.length_singleton]
      split at hprev <;> split <;> omega
    · simp only [push, flush, List.nil_append, List.length_singleton]
      split at hprev <;> split <;> omega

/-- So what was appended last is still pending exactly if it all fitted, or if
    the queue was full to begin with. -/
theorem le_foldl_autopush_iff {c : Nat} {q : Batched α} (hq : q.pending.length ≤ c)
    {as : List α} (_hpos : 0 < as.length) (has : as.length ≤ c) :
    as.length ≤ (as.foldl (autopush c) q).pending.length ↔
      q.pending.length = c ∨ q.pending.length + as.length ≤ c := by
  rw [foldl_autopush_pending hq has]
  split <;> omega

theorem Moves.autopush {q q' : Batched α} (h : Moves q q') (c : Nat) (a : α) :
    Moves q (q'.autopush c a) := by
  unfold Batched.autopush
  split
  · exact h.push a
  · exact h.flush.push a

theorem autopush_total (c : Nat) (q : Batched α) (a : α) :
    (autopush c q a).total = q.total + 1 := by
  unfold autopush
  split
  · simp only [total, push, List.length_append, List.length_singleton]
    omega
  · simp [total, push, flush]

theorem foldl_autopush_total (c : Nat) (q : Batched α) (as : List α) :
    (as.foldl (autopush c) q).total = q.total + as.length := by
  induction as generalizing q with
  | nil => rfl
  | cons a as ih =>
    rw [List.foldl_cons, ih, autopush_total, List.length_cons]
    omega

theorem foldl_autopush_ne_nil (c : Nat) (q : Batched α) {as : List α} (h : as ≠ []) :
    (as.foldl (autopush c) q).pending ≠ [] := by
  obtain ⟨as, a, rfl⟩ := List.eq_nil_or_concat as |>.resolve_left h
  rw [List.concat_eq_append, List.foldl_append, List.foldl_cons, List.foldl_nil]
  unfold autopush
  split <;> simp [push]

end Batched

end Fifo
