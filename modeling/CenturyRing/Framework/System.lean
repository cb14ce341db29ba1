import Mathlib.Init

/-! # Labelled transition systems with traces

  A `System` is a set of initial states and a labelled step relation. A
  `Path` is kept together with its trace, the list of the steps it took:

  - a safety property speaks of the last state of every run;
  - a property of the history of a run (everything that was returned, every
    label that was fired) is a function of the trace;
  - an assumption on the environment, or the exact condition under which a
    property survives, is a predicate on the steps of the trace.

  The proof rules turn a fact about one step into a fact about whole runs.
-/

namespace LTS

universe u v

variable {State : Type u} {Label : Type v}

/-- A labelled transition system. -/
structure System (State : Type u) (Label : Type v) where
  /-- The initial states. -/
  init : State → Prop
  /-- `step s l s'`: the system can go from `s` to `s'` by firing `l`. -/
  step : State → Label → State → Prop

/-- One step of a trace. -/
structure Step (State : Type u) (Label : Type v) where
  src : State
  label : Label
  dst : State

/-- `sys.restrict P` takes only those steps of `sys` whose source and label
    satisfy `P`: an assumption on the environment of the system. -/
def System.restrict (sys : System State Label) (P : State → Label → Prop) :
    System State Label where
  init := sys.init
  step := fun s l s' => P s l ∧ sys.step s l s'

/-- `Path sys s tr s'`: `sys` can go from `s` to `s'` by the steps of `tr`. -/
inductive Path (sys : System State Label) (s : State) :
    List (Step State Label) → State → Prop where
  | nil : Path sys s [] s
  | snoc {tr : List (Step State Label)} {m s' : State} (l : Label) :
      Path sys s tr m → sys.step m l s' → Path sys s (tr ++ [⟨m, l, s'⟩]) s'

/-- A run: a path from an initial state. -/
def Run (sys : System State Label) (tr : List (Step State Label)) (s : State) : Prop :=
  ∃ s₀, sys.init s₀ ∧ Path sys s₀ tr s

/-! ### Paths -/

section paths

variable {sys : System State Label} {s s' s'' : State}
         {tr tr' : List (Step State Label)}

theorem Path.single {l : Label} (h : sys.step s l s') : Path sys s [⟨s, l, s'⟩] s' :=
  Path.snoc l Path.nil h

theorem Path.append (h : Path sys s tr s') (h' : Path sys s' tr' s'') :
    Path sys s (tr ++ tr') s'' := by
  induction h' with
  | nil => simpa using h
  | snoc l _ hstep ih =>
    rw [← List.append_assoc]
    exact Path.snoc l ih hstep

theorem Path.cons {l : Label} (h : sys.step s l s') (h' : Path sys s' tr' s'') :
    Path sys s (⟨s, l, s'⟩ :: tr') s'' :=
  (Path.single h).append h'

theorem Run.append (h : Run sys tr s) (h' : Path sys s tr' s') : Run sys (tr ++ tr') s' := by
  obtain ⟨s₀, hinit, hpath⟩ := h
  exact ⟨s₀, hinit, hpath.append h'⟩

/-- Every step of the trace of a path is a step of the system. -/
theorem Path.step_of_mem (h : Path sys s tr s') {t : Step State Label} (ht : t ∈ tr) :
    sys.step t.src t.label t.dst := by
  induction h with
  | nil => simp at ht
  | snoc l _ hstep ih =>
    rcases List.mem_append.mp ht with ht | ht
    · exact ih ht
    · obtain rfl := List.mem_singleton.mp ht
      exact hstep

/-- The steps before and after one step of a path are paths themselves. -/
theorem Path.split (h : Path sys s (tr ++ tr') s') :
    ∃ m, Path sys s tr m ∧ Path sys m tr' s' := by
  generalize hall : tr ++ tr' = all at h
  induction h generalizing tr' with
  | nil =>
    obtain ⟨rfl, rfl⟩ := List.append_eq_nil_iff.mp hall
    exact ⟨s, Path.nil, Path.nil⟩
  | @snoc front m s' l hfront hstep ih =>
    rcases List.eq_nil_or_concat tr' with rfl | ⟨back, t, rfl⟩
    · rw [List.append_nil] at hall
      subst hall
      exact ⟨s', Path.snoc l hfront hstep, Path.nil⟩
    · rw [List.concat_eq_append, ← List.append_assoc] at hall
      obtain ⟨hfront', ht⟩ := List.append_inj' hall rfl
      obtain rfl : t = ⟨m, l, s'⟩ := by simpa using ht
      obtain ⟨mid, hleft, hright⟩ := ih hfront'
      exact ⟨mid, hleft, by rw [List.concat_eq_append]; exact Path.snoc l hright hstep⟩

theorem Path.eq_of_nil (h : Path sys s [] s') : s' = s := by
  generalize hall : [] = all at h
  cases h with
  | nil => rfl
  | snoc l _ _ => simp at hall

/-- A path begins where its first step does. -/
theorem Path.src_of_cons {t : Step State Label} (h : Path sys s (t :: tr) s') : s = t.src := by
  rw [← List.singleton_append] at h
  obtain ⟨m, hfirst, -⟩ := h.split
  generalize hall : [t] = all at hfirst
  cases hfirst with
  | nil => cases hall
  | snoc l hfront _ =>
    rw [← List.nil_append [t]] at hall
    obtain ⟨rfl, ht⟩ := List.append_inj' hall rfl
    cases ht
    exact hfront.eq_of_nil.symm

/-- The source of a step is where the steps before it lead. -/
theorem Path.to_src {t : Step State Label} (h : Path sys s (tr ++ t :: tr') s') :
    Path sys s tr t.src := by
  obtain ⟨m, hleft, hright⟩ := h.split
  rwa [hright.src_of_cons] at hleft

theorem Path.eq_dst {t : Step State Label} (h : Path sys s (tr ++ [t]) s') : s' = t.dst := by
  generalize hall : tr ++ [t] = all at h
  cases h with
  | nil => simp at hall
  | snoc l _ _ =>
    obtain ⟨-, ht⟩ := List.append_inj' hall rfl
    cases ht
    rfl

/-- The steps behind a step begin where it leads. -/
theorem Path.from_dst {t : Step State Label} (h : Path sys s (tr ++ t :: tr') s') :
    Path sys t.dst tr' s' := by
  rw [List.append_cons] at h
  obtain ⟨m, hleft, hright⟩ := h.split
  rwa [hleft.eq_dst] at hright

/-- The trace of the steps `ls`, where `run` says what a step does. -/
def trace_of (run : State → Label → State) : List Label → State → List (Step State Label)
  | [], _ => []
  | l :: ls, s => ⟨s, l, run s l⟩ :: trace_of run ls (run s l)

theorem trace_of_dst {run : State → Label → State} (ls : List Label) (s : State) :
    ∀ t ∈ trace_of run ls s, t.dst = run t.src t.label := by
  induction ls generalizing s with
  | nil => exact nofun
  | cons l ls ih => exact List.forall_mem_cons.mpr ⟨rfl, ih (run s l)⟩

theorem path_of {run : State → Label → State} (ls : List Label) (s : State)
    (h : ∀ t ∈ trace_of run ls s, sys.step t.src t.label t.dst) :
    Path sys s (trace_of run ls s) (ls.foldl run s) := by
  induction ls generalizing s with
  | nil => exact .nil
  | cons l ls ih =>
    rw [trace_of, List.forall_mem_cons] at h
    exact .cons h.1 (ih (run s l) h.2)

end paths

/-! ### Invariant rules -/

section rules

variable {sys : System State Label} {s s' : State} {tr : List (Step State Label)}

/-- **Invariant rule with history**: what holds at the start with an empty
    trace and is kept by every step holds at the end of every path. -/
theorem Path.trace_invariant {I : List (Step State Label) → State → Prop}
    (hstep : ∀ tr s l s', I tr s → sys.step s l s' → I (tr ++ [⟨s, l, s'⟩]) s')
    (h : Path sys s tr s') (hs : I [] s) : I tr s' := by
  induction h with
  | nil => exact hs
  | snoc l _ hl ih => exact hstep _ _ l _ ih hl

/-- **Invariant rule along a condition**: what every step that meets `C`
    keeps holds at the end of every path all of whose steps meet `C`. -/
theorem Path.invariant_along {I : State → Prop} {C : State → Label → Prop}
    (hstep : ∀ s l s', I s → C s l → sys.step s l s' → I s')
    (h : Path sys s tr s') (hok : ∀ t ∈ tr, C t.src t.label) (hs : I s) : I s' := by
  induction h with
  | nil => exact hs
  | snoc l _ hl ih =>
    have hprev := ih fun t ht => hok t (List.mem_append_left _ ht)
    exact hstep _ l _ hprev (hok _ (List.mem_append_right _ (List.mem_singleton_self _))) hl

/-- **Invariant rule**: what every step keeps holds at the end of every path. -/
theorem Path.invariant {I : State → Prop}
    (hstep : ∀ s l s', I s → sys.step s l s' → I s')
    (h : Path sys s tr s') (hs : I s) : I s' :=
  h.invariant_along (C := fun _ _ => True) (fun s l s' hi _ hl => hstep s l s' hi hl)
    (fun _ _ => trivial) hs

/-- The same for runs. -/
theorem Run.invariant {I : State → Prop} (hinit : ∀ s, sys.init s → I s)
    (hstep : ∀ s l s', I s → sys.step s l s' → I s')
    (h : Run sys tr s) : I s := by
  obtain ⟨s₀, hs₀, hpath⟩ := h
  exact hpath.invariant hstep (hinit s₀ hs₀)

/-- If a property holds before a path and after each of its steps, it holds
    at its end. -/
theorem Path.last {P : State → Prop} (h : Path sys s tr s') (hs : P s)
    (hdst : ∀ t ∈ tr, P t.dst) : P s' := by
  cases h with
  | nil => exact hs
  | snoc l _ _ => exact hdst _ (List.mem_append_right _ (List.mem_singleton_self _))

/-- **Persistence rule**: what every step keeps, once it holds before a step,
    holds before every later one. -/
theorem Path.persists {P : State → Prop} (hkeep : ∀ s l s', sys.step s l s' → P s → P s')
    {tr' : List (Step State Label)} {t u : Step State Label}
    (h : Path sys s (tr ++ t :: tr') s') (hu : u ∈ tr ++ [t]) (hP : P u.src) : P t.src := by
  rcases List.mem_append.mp hu with hu | hu
  · obtain ⟨front, back, rfl⟩ := List.append_of_mem hu
    -- The steps from `u` to `t` are a path, and `P` is kept along it.
    obtain ⟨m, -, hback⟩ := h.to_src.split
    obtain rfl : m = u.src := hback.src_of_cons
    exact hback.invariant (fun s l s' hs hl => hkeep s l s' hl hs) hP
  · rwa [← List.mem_singleton.mp hu]

/-- **Backward rule**: what holds before a step whenever it holds after it
    holds all along a path at whose end it holds. -/
theorem Path.backward {Q : State → Prop} (hback : ∀ s l s', sys.step s l s' → Q s' → Q s)
    (h : Path sys s tr s') (hs' : Q s') : Q s ∧ ∀ t ∈ tr, Q t.dst := by
  induction h with
  | nil => exact ⟨hs', by simp⟩
  | snoc l _ hl ih =>
    obtain ⟨hs, htr⟩ := ih (hback _ l _ hl hs')
    exact ⟨hs, List.forall_mem_append.mpr ⟨htr, by simpa using hs'⟩⟩

/-- A path all of whose steps are allowed is a path of the restricted system. -/
theorem Path.restrict {P : State → Label → Prop} (h : Path sys s tr s')
    (hP : ∀ t ∈ tr, P t.src t.label) : Path (sys.restrict P) s tr s' := by
  induction h with
  | nil => exact .nil
  | snoc l _ hl ih =>
    rw [List.forall_mem_append, List.forall_mem_singleton] at hP
    exact .snoc l (ih hP.1) ⟨hP.2, hl⟩

/-- **Exact condition rule**: if a step from a good state leads to a good
    state exactly when it meets `C`, then the states of a path are all good
    exactly when all its steps meet `C`. `I` is what else is known of the
    states on the way. -/
theorem Path.good_iff {I G : State → Prop} {C : State → Label → Prop}
    (hinv : ∀ s l s', I s → sys.step s l s' → I s')
    (hgood : ∀ s l s', I s → G s → sys.step s l s' → (G s' ↔ C s l))
    (h : Path sys s tr s') (hs : I s) (hs' : G s) :
    (∀ t ∈ tr, G t.dst) ↔ ∀ t ∈ tr, C t.src t.label := by
  induction h with
  | nil => simp
  | @snoc tr m s' l hpath hl ih =>
    have hm : I m := hpath.invariant hinv hs
    simp only [List.forall_mem_append, List.forall_mem_singleton]
    constructor
    · intro hpair
      obtain ⟨htr, hlast⟩ := hpair
      exact ⟨ih.mp htr, (hgood m l s' hm (hpath.last hs' htr) hl).mp hlast⟩
    · intro hpair
      obtain ⟨htr, hlast⟩ := hpair
      have htr' := ih.mpr htr
      exact ⟨htr', (hgood m l s' hm (hpath.last hs' htr') hl).mpr hlast⟩

/-- **Variant rule**: if no step raises `φ`, and each step of the kind `K`
    lowers it, a path has no more steps of that kind than `φ` at its start. -/
theorem Path.countP_add_le {I : State → Prop} {φ : State → Nat} {K : Step State Label → Bool}
    (hinv : ∀ s l s', I s → sys.step s l s' → I s')
    (hstep : ∀ s l s', I s → sys.step s l s' → φ s' + (if K ⟨s, l, s'⟩ then 1 else 0) ≤ φ s)
    (h : Path sys s tr s') (hs : I s) : tr.countP K + φ s' ≤ φ s := by
  induction h with
  | nil => simp
  | @snoc tr m s' l hpath hl ih =>
    have hm : I m := hpath.invariant hinv hs
    have hlast := hstep m l s' hm hl
    rw [List.countP_append, List.countP_singleton]
    omega

end rules

/-! ### Infinite executions -/

/-- An execution that goes on for ever. -/
structure Execution (sys : System State Label) where
  states : Nat → State
  labels : Nat → Label
  step : ∀ n, sys.step (states n) (labels n) (states (n + 1))

namespace Execution

variable {sys : System State Label}

/-- The `n`-th step. -/
def nth (e : Execution sys) (n : Nat) : Step State Label :=
  ⟨e.states n, e.labels n, e.states (n + 1)⟩

/-- The first `n` steps. -/
def trace (e : Execution sys) : Nat → List (Step State Label)
  | 0 => []
  | n + 1 => e.trace n ++ [e.nth n]

variable (e : Execution sys)

theorem path (n : Nat) : Path sys (e.states 0) (e.trace n) (e.states n) := by
  induction n with
  | zero => exact .nil
  | succ n ih => exact .snoc (e.labels n) ih (e.step n)

theorem countP_trace_le (K : Step State Label → Bool) {n m : Nat} (h : n ≤ m) :
    (e.trace n).countP K ≤ (e.trace m).countP K := by
  induction h with
  | refl => exact Nat.le_refl _
  | @step m _ ih =>
    rw [trace, List.countP_append]
    omega

/-- **Progress rule**: if a step of the kind `K` follows as long as `P` does
    not hold, and there are at most `bound` such steps, `P` holds at some
    time. -/
theorem reaches {P : State → Prop} {K : Step State Label → Bool} {bound : Nat}
    (hbound : ∀ n, (e.trace n).countP K ≤ bound)
    (hfair : ∀ n, ¬P (e.states n) → ∃ m, n ≤ m ∧ K (e.nth m) = true) :
    ∃ n, P (e.states n) := by
  apply Classical.byContradiction
  intro hcontra
  have hnever : ∀ n, ¬P (e.states n) := fun n hP => hcontra ⟨n, hP⟩
  -- Otherwise there are as many steps of that kind as one likes.
  have hmany : ∀ k, ∃ n, k ≤ (e.trace n).countP K := by
    intro k
    induction k with
    | zero => exact ⟨0, Nat.zero_le _⟩
    | succ k ih =>
      obtain ⟨n, hn⟩ := ih
      obtain ⟨m, hm, hK⟩ := hfair n (hnever n)
      have hle := e.countP_trace_le K hm
      have hnext : (e.trace (m + 1)).countP K = (e.trace m).countP K + 1 := by
        simp [trace, hK]
      exact ⟨m + 1, by omega⟩
  obtain ⟨n, hn⟩ := hmany (bound + 1)
  have hle := hbound n
  omega

end Execution

/-! ### What can be observed -/

section outputs

universe w

variable {Out : Type w} {run : State → Label → State} {out : State → Label → Out}
         {s s' : State}

/-- What is put out at each of the steps `ls`, where `run` says what a step
    does and `out` what it puts out. -/
def outputs (run : State → Label → State) (out : State → Label → Out) :
    List Label → State → List Out
  | [], _ => []
  | l :: ls, s => out s l :: outputs run out ls (run s l)

/-- No steps tell the two states apart. -/
def Alike (run : State → Label → State) (out : State → Label → Out) (s s' : State) : Prop :=
  ∀ ls, outputs run out ls s = outputs run out ls s'

theorem Alike.symm (h : Alike run out s s') : Alike run out s' s := fun ls => (h ls).symm

/-- After the same steps, the next one puts out the same. -/
theorem Alike.after (h : Alike run out s s') (ls : List Label) (l : Label) :
    out (ls.foldl run s) l = out (ls.foldl run s') l := by
  induction ls generalizing s s' with
  | nil => exact List.head_eq_of_cons_eq (h [l])
  | cons l' ls ih => exact ih fun ls' => List.tail_eq_of_cons_eq (h (l' :: ls'))

end outputs

/-! ### Refinement -/

section refinement

universe w x

variable {Abs : Type w} {AbsLabel : Type x}

/-- `Simulates conc abs f`: seen through `f`, every step of `conc` is a path
    of `abs`. -/
structure Simulates (conc : System State Label) (abs : System Abs AbsLabel)
    (f : State → Abs) : Prop where
  init : ∀ s, conc.init s → abs.init (f s)
  step : ∀ s l s', conc.step s l s' → ∃ tr, Path abs (f s) tr (f s')

/-- A run of the concrete system is, seen through `f`, a run of the abstract
    one. -/
theorem Simulates.run {conc : System State Label} {abs : System Abs AbsLabel}
    {f : State → Abs} (hsim : Simulates conc abs f) {tr : List (Step State Label)} {s : State}
    (h : Run conc tr s) : ∃ atr, Run abs atr (f s) := by
  obtain ⟨s₀, hinit, hpath⟩ := h
  induction hpath with
  | nil => exact ⟨[], f s₀, hsim.init s₀ hinit, Path.nil⟩
  | snoc l _ hl ih =>
    obtain ⟨atr, hrun⟩ := ih
    obtain ⟨atr', hpath'⟩ := hsim.step _ l _ hl
    exact ⟨atr ++ atr', hrun.append hpath'⟩

end refinement

end LTS
