import CenturyRing.Framework.System

/-! # What happens in the end

  Properties of moments, and rules to prove that one leads to another.

  `Line.everyone_served`: in a line in which somebody is served as long as
  somebody waits, everyone is served.

  `History` is a run that goes on for ever, seen at moments between which any
  number of steps are taken.
-/

namespace LTS

universe u v

/-! ### Leading to -/

section leads_to

variable {P P' Q Q' R B : Nat → Prop}

/-- Whenever `P` holds, `Q` holds then or later. -/
def LeadsTo (P Q : Nat → Prop) : Prop := ∀ n, P n → ∃ m, n ≤ m ∧ Q m

/-- What holds once holds from then on. -/
def Stable (P : Nat → Prop) : Prop := ∀ n, P n → P (n + 1)

/-- What holds goes on holding as long as `B` does not come about. -/
def Unless (P B : Nat → Prop) : Prop := ∀ n, P n → P (n + 1) ∨ B (n + 1)

theorem Stable.of_le (h : Stable P) {n m : Nat} (hle : n ≤ m) (hn : P n) : P m := by
  induction hle with
  | refl => exact hn
  | @step m _ ih => exact h m ih

theorem LeadsTo.trans (h : LeadsTo P Q) (h' : LeadsTo Q R) : LeadsTo P R := by
  intro n hn
  obtain ⟨m, hm, hQ⟩ := h n hn
  obtain ⟨k, hk, hR⟩ := h' m hQ
  exact ⟨k, Nat.le_trans hm hk, hR⟩

/-- **Consequence rule**. -/
theorem LeadsTo.mono (h : LeadsTo P Q) (hP : ∀ n, P' n → P n) (hQ : ∀ n, Q n → Q' n) :
    LeadsTo P' Q' := by
  intro n hn
  obtain ⟨m, hm, hQm⟩ := h n (hP n hn)
  exact ⟨m, hm, hQ m hQm⟩

/-- What is reached anyway need not be left again. -/
theorem LeadsTo.or_trans (h : LeadsTo P (fun n => Q n ∨ B n)) (h' : LeadsTo Q B) :
    LeadsTo P B := by
  intro n hn
  obtain ⟨m, hm, hQ | hB⟩ := h n hn
  · obtain ⟨k, hk, hB⟩ := h' m hQ
    exact ⟨k, Nat.le_trans hm hk, hB⟩
  · exact ⟨m, hm, hB⟩

/-- At a later moment `R` still holds, or `B` came about on the way. -/
theorem Unless.of_le (h : Unless R B) {n m : Nat} (hle : n ≤ m) (hn : R n) :
    R m ∨ ∃ k, n ≤ k ∧ B k := by
  induction hle with
  | refl => exact .inl hn
  | @step m hle ih =>
    rcases ih with hR | hB
    · rcases h m hR with hR' | hB'
      · exact .inl hR'
      · exact .inr ⟨m + 1, Nat.le_succ_of_le hle, hB'⟩
    · exact .inr hB

/-- **Progress under a condition**: what `P` leads to comes about while `R`
    holds, or `B` puts an end to it. -/
theorem LeadsTo.unless (h : LeadsTo P Q) (hR : Unless R B) :
    LeadsTo (fun n => P n ∧ R n) (fun n => (Q n ∧ R n) ∨ B n) := by
  intro n hn
  obtain ⟨m, hm, hQ⟩ := h n hn.1
  rcases hR.of_le hm hn.2 with hR' | ⟨k, hk, hB⟩
  · exact ⟨m, hm, .inl ⟨hQ, hR'⟩⟩
  · exact ⟨k, hk, .inr hB⟩

/-- **Action rule**: an action that is taken in the end and brings `Q` about. -/
theorem LeadsTo.of_action {A : Nat → Prop} (h : LeadsTo P A) (hkeep : Unless P Q)
    (haction : ∀ n, A n → P n → Q (n + 1)) : LeadsTo P Q := by
  have hready : LeadsTo P fun n => (A n ∧ P n) ∨ Q n :=
    (h.unless hkeep).mono (fun n hn => ⟨hn, hn⟩) fun n hn => hn
  exact hready.or_trans fun n hn => ⟨n + 1, Nat.le_succ n, haction n hn.1 hn.2⟩

/-- What leads to its own end: `Q` has come about by the time `R` ends. -/
theorem LeadsTo.leave (h : LeadsTo R (fun n => ¬R n)) (hP : Stable P)
    (hsplit : ∀ n, P n → R n ∨ Q n) : LeadsTo P Q := by
  intro n hn
  rcases hsplit n hn with hR | hQ
  · obtain ⟨m, hm, hnot⟩ := h n hR
    exact ⟨m, hm, (hsplit m (hP.of_le hm hn)).resolve_left hnot⟩
  · exact ⟨n, Nat.le_refl n, hQ⟩

/-- **Variant rule**: every time `P` holds, `Q` does, or `P` holds again later
    with a smaller variant. -/
theorem LeadsTo.of_variant (φ : Nat → Nat)
    (h : ∀ n, P n → Q n ∨ ∃ m, n ≤ m ∧ P m ∧ φ m < φ n) : LeadsTo P Q := by
  intro n hn
  induction hφ : φ n using Nat.strongRecOn generalizing n with
  | ind k ih =>
    rcases h n hn with hQ | ⟨m, hm, hPm, hlt⟩
    · exact ⟨n, Nat.le_refl n, hQ⟩
    · obtain ⟨m', hm', hQ⟩ := ih (φ m) (hφ ▸ hlt) m hPm rfl
      exact ⟨m', Nat.le_trans hm hm', hQ⟩

end leads_to

/-! ### Lines -/

/-- A list that grows goes on growing. -/
theorem prefix_of_le {α : Type u} {f : Nat → List α} (h : ∀ n, f n <+: f (n + 1)) {n m : Nat}
    (hle : n ≤ m) : f n <+: f m := by
  induction hle with
  | refl => exact List.prefix_refl _
  | @step m _ ih => exact ih.trans (h m)

/-- A line in which people are served in the order in which they join. -/
structure Line (α : Type u) where
  /-- Who has joined so far. -/
  joined : Nat → List α
  /-- Who has been served so far. -/
  served : Nat → List α
  joined_grows : ∀ n, joined n <+: joined (n + 1)
  served_first : ∀ n, served n <+: joined n

namespace Line

variable {α : Type u} (l : Line α)

/-- Who waits. -/
def waiting (n : Nat) : List α := (l.joined n).drop (l.served n).length

/-- As long as somebody waits, more are served. -/
def Moves : Prop :=
  ∀ n, l.waiting n ≠ [] → ∃ m, n ≤ m ∧ (l.served n).length < (l.served m).length

/-- Nobody goes away. -/
theorem joined_stable (a : α) : Stable fun n => a ∈ l.joined n :=
  fun n hn => (l.joined_grows n).subset hn

/-- A place in the line is kept. -/
theorem place_stable (i : Nat) (a : α) : Stable fun n => (l.joined n)[i]? = some a := by
  intro n hn
  obtain ⟨more, hmore⟩ := l.joined_grows n
  have hi : i < (l.joined n).length := (List.getElem?_eq_some_iff.mp hn).1
  show (l.joined (n + 1))[i]? = some a
  rw [← hmore, List.getElem?_append_left hi]
  exact hn

/-- A place behind those who were served is the place of somebody who waits. -/
theorem served_or_waiting {n i : Nat} {a : α} (h : (l.joined n)[i]? = some a) :
    a ∈ l.served n ∨ (l.served n).length ≤ i ∧ l.waiting n ≠ [] := by
  obtain ⟨rest, hrest⟩ := l.served_first n
  have hi : i < (l.joined n).length := (List.getElem?_eq_some_iff.mp h).1
  by_cases hserved : i < (l.served n).length
  · left
    rw [← hrest, List.getElem?_append_left hserved] at h
    exact List.mem_of_getElem? h
  · right
    refine ⟨Nat.not_lt.mp hserved, fun hnil => ?_⟩
    have hle : (l.joined n).length ≤ (l.served n).length := List.drop_eq_nil_iff.mp hnil
    omega

/-- **Everyone is served** in a line that moves. The variant is the number of
    those ahead. -/
theorem everyone_served (h : l.Moves) (a : α) :
    LeadsTo (fun n => a ∈ l.joined n) (fun n => a ∈ l.served n) := by
  have hplace : ∀ i : Nat,
      LeadsTo (fun n => (l.joined n)[i]? = some a) (fun n => a ∈ l.served n) := by
    intro i
    refine .of_variant (fun n => i + 1 - (l.served n).length) fun n hn => ?_
    rcases l.served_or_waiting hn with hserved | ⟨hle, hwaiting⟩
    · exact .inl hserved
    · obtain ⟨m, hm, hlt⟩ := h n hwaiting
      exact .inr ⟨m, hm, (l.place_stable i a).of_le hm hn, by omega⟩
  intro n hn
  obtain ⟨i, hi⟩ := List.getElem?_of_mem hn
  exact hplace i n hi

end Line

/-! ### Histories -/

variable {State : Type u} {Label : Type v}

/-- A run that goes on for ever, seen at moments. -/
structure History (sys : System State Label) where
  states : Nat → State
  /-- The steps up to a moment. -/
  trace : Nat → List (Step State Label)
  init : sys.init (states 0)
  trace_zero : trace 0 = []
  grows : ∀ n, ∃ more, trace (n + 1) = trace n ++ more ∧
    Path sys (states n) more (states (n + 1))

namespace History

variable {sys : System State Label} (h : History sys)

theorem path (n : Nat) : Path sys (h.states 0) (h.trace n) (h.states n) := by
  induction n with
  | zero =>
    rw [h.trace_zero]
    exact .nil
  | succ n ih =>
    obtain ⟨more, htrace, hpath⟩ := h.grows n
    rw [htrace]
    exact ih.append hpath

/-- What every step keeps is stable. -/
theorem stable {I : State → Prop} (hstep : ∀ s l s', I s → sys.step s l s' → I s') :
    Stable fun n => I (h.states n) := by
  intro n hn
  obtain ⟨more, -, hpath⟩ := h.grows n
  exact hpath.invariant hstep hn

end History

/-! ### Executions from their labels -/

section unroll

variable (run : State → Label → State)

/-- The states that the steps `labels` lead through, if `run` says what a step
    does. -/
def unroll (labels : Nat → Label) (s : State) : Nat → State
  | 0 => s
  | n + 1 => run (unroll labels s n) (labels n)

/-- The steps `ls`, and then the steps `more`. -/
def followed_by : List Label → (Nat → Label) → Nat → Label
  | [], more, n => more n
  | l :: _, _, 0 => l
  | _ :: ls, more, n + 1 => followed_by ls more n

theorem unroll_succ (labels : Nat → Label) (s : State) (n : Nat) :
    unroll run labels s (n + 1) =
      unroll run (fun k => labels (k + 1)) (run s (labels 0)) n := by
  induction n with
  | zero => rfl
  | succ n ih => rw [unroll, ih, unroll]

theorem unroll_followed_by (ls : List Label) (more : Nat → Label) (s : State) (n : Nat) :
    unroll run (followed_by ls more) s (n + ls.length) = unroll run more (ls.foldl run s) n := by
  induction ls generalizing s with
  | nil => rfl
  | cons l ls ih =>
    rw [List.length_cons, ← Nat.add_assoc, unroll_succ]
    exact ih (run s l)

/-- What holds of the steps `ls` and of all later ones holds of every step. -/
theorem forall_unroll {P : State → Label → Prop} {ls : List Label} {more : Nat → Label} {s : State}
    (hfirst : ∀ t ∈ trace_of run ls s, P t.src t.label)
    (hlater : ∀ n, P (unroll run more (ls.foldl run s) n) (more n)) (n : Nat) :
    P (unroll run (followed_by ls more) s n) (followed_by ls more n) := by
  induction ls generalizing s n with
  | nil => exact hlater n
  | cons l ls ih =>
    obtain ⟨hhead, htail⟩ := List.forall_mem_cons.mp hfirst
    cases n with
    | zero => exact hhead
    | succ n =>
      rw [unroll_succ]
      exact ih htail hlater n

/-- The first moments one by one, and all others. -/
theorem forall_moments {P : Nat → Prop} (k : Nat) (hfirst : ∀ n < k, P n)
    (hlater : ∀ n, P (n + k)) (n : Nat) : P n := by
  by_cases hn : n < k
  · exact hfirst n hn
  · obtain ⟨m, rfl⟩ := Nat.exists_eq_add_of_le' (Nat.not_lt.mp hn)
    exact hlater m

end unroll

namespace Execution

variable {sys : System State Label} (e : Execution sys)

/-- The execution with the steps `labels`. -/
def of_run (run : State → Label → State) (labels : Nat → Label) (s : State)
    (hstep : ∀ n, sys.step (unroll run labels s n) (labels n) (unroll run labels s (n + 1))) :
    Execution sys := ⟨unroll run labels s, labels, hstep⟩

/-- An execution, seen after every step. -/
def history (hinit : sys.init (e.states 0)) : History sys where
  states := e.states
  trace := e.trace
  init := hinit
  trace_zero := rfl
  grows := fun n => ⟨[e.nth n], rfl, .single (e.step n)⟩

theorem mem_trace {t : Step State Label} {n : Nat} :
    t ∈ e.trace n ↔ ∃ m, m < n ∧ t = e.nth m := by
  induction n with
  | zero => simp [trace]
  | succ n ih =>
    rw [trace, List.mem_append, ih, List.mem_singleton]
    constructor
    · rintro (⟨m, hm, heq⟩ | hlast)
      · exact ⟨m, Nat.lt_succ_of_lt hm, heq⟩
      · exact ⟨n, Nat.lt_succ_self n, hlast⟩
    · rintro ⟨m, hm, heq⟩
      rcases Nat.lt_succ_iff_lt_or_eq.mp hm with hlt | rfl
      · exact .inl ⟨m, hlt, heq⟩
      · exact .inr heq

end Execution

end LTS
