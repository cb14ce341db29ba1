import CenturyRing.Runs

/-! # Closed handles

  Handles belong to the process and not to a ring: a handle may be closed by
  hand, by a `with` block, or by `prep_close` on one ring, and then be given
  to any other. Once closed, a handle stays closed, and all calls but
  `prep_openat` look at it before they do anything else.
-/

open LTS

namespace CenturyRing

/-! ### A process with several rings -/

/-- Which ring object is meant. -/
abbrev RingId := Nat

/-- The handles and the rings of a process. -/
structure ProcessState where
  handles : HandleId → FdHandle
  rings : RingId → World

/-- What a call on one ring sees. -/
def ProcessState.view (s : ProcessState) (ring : RingId) : PyState := ⟨s.handles, s.rings ring⟩

/-- A step on one of the rings. The steps that work on a handle alone may be
    put down to any of them. -/
structure ProcessLabel where
  ring : RingId
  label : RingLabel

def ProcessLabel.run (l : ProcessLabel) (s : ProcessState) : ProcessState :=
  let s' := l.label.run (s.view l.ring)
  { handles := s'.handles, rings := Function.update s.rings l.ring s'.world }

/-- A process that uses its rings and handles in any order. -/
def process_system : System ProcessState ProcessLabel where
  init := fun s => ∀ ring, (s.view ring).initial
  step := fun s l s' => s' = l.run s

/-! ### Closed is for good -/

theorem PyState.mark_closed_close_called (s : PyState) (closing handle : HandleId) :
    ((s.mark_closed closing).handles handle)._close_called =
      if closing = handle then true else (s.handles handle)._close_called := by
  unfold PyState.mark_closed
  by_cases heq : closing = handle
  · rw [if_pos heq, heq]
    simp only [Function.update_self]
  · rw [if_neg heq]
    simp only [Function.update_of_ne (Ne.symm heq)]

theorem PyState.mark_closed_keeps_closed {s : PyState} (closing : HandleId) {handle : HandleId}
    (h : (s.handles handle)._close_called = true) :
    ((s.mark_closed closing).handles handle)._close_called = true := by
  rw [s.mark_closed_close_called, h, ite_self]

theorem Prep.keeps_closed {p : Prep} {s : PyState} {handle : HandleId}
    (h : (s.handles handle)._close_called = true) :
    (p.handles s handle)._close_called = true := by
  unfold Prep.handles
  split
  · next closing _ => exact s.mark_closed_keeps_closed closing h
  · exact h

theorem PyState.os_close_close_called (s : PyState) (closing handle : HandleId) :
    ((s.os_close closing).handles handle)._close_called = (s.handles handle)._close_called := by
  unfold PyState.os_close
  by_cases heq : handle = closing
  · rw [heq]
    simp only [Function.update_self]
  · simp only [Function.update_of_ne heq]

/-- Whatever `os.close` does, the handle counts as closed afterwards, and
    nothing happens to the others. -/
theorem FdHandle.close_close_called (answer : Option Int32) (closing handle : HandleId)
    (s : PyState) :
    ((FdHandle.close answer closing s).2.handles handle)._close_called =
      if closing = handle then true else (s.handles handle)._close_called := by
  rw [FdHandle.close_state]
  split
  · next hclosed =>
    split
    · next heq => rw [← heq, hclosed]
    · rfl
  · rw [PyState.mark_closed_close_called, s.os_close_close_called]

/-- Only preparations, `FdHandle.close` and the end of a `with` block change
    handles. -/
theorem RingLabel.same_handles {l : RingLabel} (s : PyState)
    (hprep : ∀ p answer, l ≠ .prep p answer)
    (hclose : ∀ answer handle, l ≠ .close_handle answer handle)
    (hexit : ∀ answer handle, l ≠ .exit_handle answer handle) :
    (l.run s).handles = s.handles := by
  cases l with
  | prep p answer => exact absurd rfl (hprep p answer)
  | close_handle answer handle => exact absurd rfl (hclose answer handle)
  | exit_handle answer handle => exact absurd rfl (hexit answer handle)
  | submit_and_wait count answer =>
    show (CenturyRing.submit_and_wait count answer s).2.handles = s.handles
    rw [CenturyRing.submit_and_wait]
    cases extract_usize count <;> rfl
  | submit_and_wait_with_timeout seconds nsec first last =>
    show (CenturyRing.submit_and_wait_with_timeout seconds nsec first last s).2.handles = s.handles
    rw [CenturyRing.submit_and_wait_with_timeout]
    cases extract_u64 seconds with
    | error e => rfl
    | ok sec => cases extract_u32 nsec <;> rfl
  | submit | get_completion_entries | close | kernel => rfl

/-- **Step lemma**: no step opens a handle again. -/
theorem RingLabel.keeps_closed (l : RingLabel) {s : PyState} {handle : HandleId}
    (h : (s.handles handle)._close_called = true) :
    ((l.run s).handles handle)._close_called = true := by
  cases l with
  | prep p answer =>
    have hprepped := p.run_prepped answer s
    show ((p.run answer s).2.handles handle)._close_called = true
    generalize p.run answer s = out at hprepped ⊢
    obtain ⟨r, s'⟩ := out
    cases hprepped with
    | refused e counter hcounter hrefused => exact h
    | queued hhandle hqueued => exact p.keeps_closed h
  | close_handle answer closing =>
    show ((FdHandle.close answer closing s).2.handles handle)._close_called = true
    rw [FdHandle.close_close_called, h, ite_self]
  | exit_handle answer closing =>
    show ((FdHandle.exit answer closing s).2.handles handle)._close_called = true
    rw [FdHandle.exit_state, FdHandle.close_close_called, h, ite_self]
  | _ =>
    rw [RingLabel.same_handles s ?_ ?_ ?_]
    · exact h
    all_goals
      intro _ _ hl
      cases hl

/-- A handle that was closed before a step of a run is closed at it. -/
theorem closed_persists {s₀ s : ProcessState} {pre post : List (Step ProcessState ProcessLabel)}
    {t u : Step ProcessState ProcessLabel} (h : Path process_system s₀ (pre ++ t :: post) s)
    (hu : u ∈ pre ++ [t]) {handle : HandleId}
    (hclosed : (u.src.handles handle)._close_called = true) :
    (t.src.handles handle)._close_called = true := by
  refine h.persists (P := fun s => (s.handles handle)._close_called = true) ?_ hu hclosed
  intro s l s' hstep hs
  obtain rfl := hstep
  exact RingLabel.keeps_closed l.label (s := s.view l.ring) hs

/-! ### Calls that are refused -/

/-- The call raises a `ValueError` and pushes nothing. -/
def Refuses (p : Prep) (answer : Enter) (s : PyState) : Prop :=
  (∃ message, (p.run answer s).1 = .error (.value_error message)) ∧
    (RingLabel.prep p answer).pushes s = []

theorem refuses_iff {p : Prep} {answer : Enter} {s : PyState} :
    Refuses p answer s ↔ ∃ message, (p.run answer s).1 = .error (.value_error message) := by
  apply and_iff_left_of_imp
  intro hpair
  obtain ⟨message, hraised⟩ := hpair
  simp [RingLabel.pushes_prep, RingLabel.returned, hraised, Except.toOption]

/-- The ring has no room for an entry and `autosubmit` says so with a
    `ValueError`: it is closed, or it is full and submitting it is not allowed
    or moves nothing. -/
def World.turns_away (w : World) (answer : Enter) : Prop :=
  w.is_open = false ∨
    ¬w.has_room ∧ (w.ring.autosubmit = false ∨
      ∃ k, answer = .ok k ∧ ¬(w.consume k).has_room)

/-- The counters have no part in it. -/
theorem World.turns_away_advance (w : World) (counter : UInt64) (blocks : Nat) (answer : Enter) :
    (w.advance counter blocks).turns_away answer ↔ w.turns_away answer := by
  simp only [turns_away, w.advance_has_room, w.advance_consume_has_room, advance_is_open]
  rfl

theorem Autosubmit.not_turned_away {entry : Entry} {answer : Enter} {w w' : World}
    (h : Autosubmit entry answer w (.ok ()) w') : ¬w.turns_away answer := by
  intro hcase
  rcases hcase with hclosed | ⟨hfull, hrest⟩
  · cases h with
    | at_once hroom => simp [World.is_open_of_has_room hroom] at hclosed
    | retried hopen => simp [hopen] at hclosed
  · cases h with
    | at_once hroom => exact hfull hroom
    | retried hopen hfull' hauto consumed hanswer hroom =>
      rcases hrest with hmanual | ⟨k, hk, hstuck⟩
      · simp [hauto] at hmanual
      · obtain rfl : consumed = k := by simpa [hanswer] using hk
        exact hstuck hroom

theorem Autosubmit.turned_away_iff {entry : Entry} {answer : Enter} {w w' : World} {e : PyErr}
    (h : Autosubmit entry answer w (.error e) w') :
    (∃ message, e = .value_error message) ↔ w.turns_away answer := by
  cases h with
  | closed hclosed => exact iff_of_true ⟨_, rfl⟩ (.inl hclosed)
  | disabled hopen hfull hauto => exact iff_of_true ⟨_, rfl⟩ (.inr ⟨hfull, .inl hauto⟩)
  | still_full hopen hfull hauto consumed hanswer hfull' =>
    exact iff_of_true ⟨_, rfl⟩ (.inr ⟨hfull, .inr ⟨consumed, hanswer, hfull'⟩⟩)
  | failed hopen hfull hauto errno hanswer =>
    apply iff_of_false nofun
    intro hcase
    rcases hcase with hclosed | ⟨-, hmanual | ⟨k, hk, -⟩⟩
    · simp [hopen] at hclosed
    · simp [hauto] at hmanual
    · simp [hanswer] at hk

/-- The arguments of a `prep_openat` fit the parameters of the Rust function. -/
structure OpenatFits (dirfd raw_flags permissions sqe_flags : Int) : Prop where
  dirfd : -2 ^ 31 ≤ dirfd ∧ dirfd < 2 ^ 31
  raw_flags : -2 ^ 31 ≤ raw_flags ∧ raw_flags < 2 ^ 31
  permissions : 0 ≤ permissions ∧ permissions < 2 ^ 32
  sqe_flags : 0 ≤ sqe_flags ∧ sqe_flags < 2 ^ 8

/-- Why a `prep_openat` can be refused although it does not look at its handle:
    its arguments fit and the kernel knows the operation, but the flags ask for
    `SKIP_SUCCESS` or the ring turns the entry away. -/
structure OpenatRefused (dirfd raw_flags permissions sqe_flags : Int) (answer : Enter)
    (w : World) : Prop where
  fits : OpenatFits dirfd raw_flags permissions sqe_flags
  supported : w.ring.probe .OpenAt = true
  refused : (Flags.from_bits_truncate (UInt8.ofInt sqe_flags)).contains .SKIP_SUCCESS = true ∨
    w.turns_away answer

/-- The same for a call in state `s`; no other call can get past a closed
    handle. -/
def Prep.refused_anyway (p : Prep) (answer : Enter) (s : PyState) : Prop :=
  match p with
  | openat relative_to _ open_mode flags permissions sqe_flags =>
    OpenatRefused (open_dirfd relative_to s) ↑(raw_open_flags flags ||| open_mode.value)
      permissions (sqe_flags.getD 0) answer s.world
  | _ => True

section openat

open Fallible

variable {answer : Enter}

/-- The ways a `prep_openat` can end: `Q` if it returns, `E e` if it raises
    `e`. -/
theorem wp_openat {relative_to : Option AcceptableFile} {path : List UInt8}
    {open_mode : FileOpenMode} {flags : Option (List FileOpenFlag)} {permissions : Int}
    {sqe_flags : Option Int} {s : PyState} {Q : Prop} {E : PyErr → Prop}
    (hunfit : ¬OpenatFits (Prep.open_dirfd relative_to s) ↑(raw_open_flags flags ||| open_mode.value)
      permissions (sqe_flags.getD 0) → E .overflow_error)
    (hunsupported : s.world.ring.probe .OpenAt = false → E (.not_implemented_error "openat"))
    (hrest : OpenatFits (Prep.open_dirfd relative_to s) ↑(raw_open_flags flags ||| open_mode.value)
        permissions (sqe_flags.getD 0) → s.world.ring.probe .OpenAt = true →
      let skip := (Flags.from_bits_truncate (UInt8.ofInt (sqe_flags.getD 0))).contains .SKIP_SUCCESS
      let w := s.world.advance (s.world.ring.user_data_counter + 1) (s.world.blocks + 1)
      (skip = true → ∀ message, E (.value_error message)) ∧
      (skip = false → ∀ entry w', (Autosubmit entry answer w (.ok ()) w' → Q) ∧
        ∀ e, Autosubmit entry answer w (.error e) w' → E e)) :
    ((Prep.openat relative_to path open_mode flags permissions sqe_flags).run answer).wp
      (fun _ _ => Q) (fun e _ => E e) s := by
  rw [Prep.run, prep_openat, wp_bind, wp_get, wp_get_next_user_data]
  -- The arguments are converted one after the other.
  apply wp_conversion (fun hx => hunfit fun hfits => hx hfits.dirfd)
  intro hdirfd
  apply wp_conversion (fun hx => hunfit fun hfits => hx hfits.raw_flags)
  intro hflags
  apply wp_conversion (fun hx => hunfit fun hfits => hx hfits.permissions)
  intro hpermissions
  apply wp_conversion (fun hx => hunfit fun hfits => hx hfits.sqe_flags)
  intro hsqe_flags
  rw [wp_bind, wp_rust, ioring_prep_openat, wp_bind, wp_require_supported]
  refine ⟨?_, hunsupported⟩
  intro hsupported
  obtain ⟨hskipped, hqueued⟩ := hrest ⟨hdirfd, hflags, hpermissions, hsqe_flags⟩ hsupported
  refine wp_check (fun e h => ?_) fun _ h => ?_
  · obtain ⟨⟨message, rfl⟩, hskip⟩ := owned_flags_skip h
    exact hskipped hskip message
  obtain ⟨rfl, hskip⟩ := owned_flags_ok h
  rw [wp_bind, wp_new_vec, wp_bind]
  refine wp_mono (autosubmit_cases _ answer _) (fun _ w' h => ?_) fun e w' h => ?_
  · rw [add_owned_path, owned_data_insert, wp_modify, wp_pure]
    exact (hqueued hskip _ w').1 h
  · exact (hqueued hskip _ w').2 e h

/-- `prep_openat` raises a `ValueError` exactly for these reasons. -/
theorem wp_openat_refused (answer : Enter) (relative_to : Option AcceptableFile) (path : List UInt8)
    (open_mode : FileOpenMode) (flags : Option (List FileOpenFlag)) (permissions : Int)
    (sqe_flags : Option Int) (s : PyState) :
    let p := Prep.openat relative_to path open_mode flags permissions sqe_flags
    (p.run answer).wp (fun _ _ => ¬p.refused_anyway answer s)
      (fun e _ => (∃ message, e = .value_error message) ↔ p.refused_anyway answer s) s := by
  intro p
  refine wp_openat (fun hunfit => ?_) (fun hunsupported => ?_) fun hfits hsupported => ?_
  · exact iff_of_false nofun fun hrefused => hunfit hrefused.fits
  · apply iff_of_false nofun
    intro hrefused
    exact Bool.false_ne_true (hunsupported.symm.trans hrefused.supported)
  · intro skip w
    have hiff : p.refused_anyway answer s ↔ (skip = true ∨ s.world.turns_away answer) :=
      ⟨fun hrefused => hrefused.refused, fun hrefused => ⟨hfits, hsupported, hrefused⟩⟩
    constructor
    · intro hskip message
      exact iff_of_true ⟨message, rfl⟩ (hiff.mpr (.inl hskip))
    · intro hskip entry w'
      have hturned : p.refused_anyway answer s ↔ w.turns_away answer := by
        rw [hiff, hskip, s.world.turns_away_advance]
        simp
      rw [hturned]
      exact ⟨fun h => h.not_turned_away, fun e h => h.turned_away_iff⟩

end openat

/-- A call that is given a closed handle is refused exactly if it looks at the
    handle or is refused anyway. -/
theorem Prep.refuses_closed_iff {p : Prep} {answer : Enter} {s : PyState} {handle : HandleId}
    (hhandle : p.handle = some handle) (hclosed : (s.handles handle)._close_called = true) :
    Refuses p answer s ↔ p.refused_anyway answer s := by
  rw [refuses_iff]
  cases hopenat : p.is_openat with
  | false =>
    -- All calls but `prep_openat` look at the handle.
    have hrefused : p.refused_anyway answer s := by
      cases p with
      | openat => cases hopenat
      | _ => trivial
    refine iff_of_true ?_ hrefused
    have h : (p.run answer).wp (fun _ _ => False)
        (fun e _ => ∃ message, e = .value_error message) s := p.run_closed hopenat hhandle hclosed
    rcases hrun : p.run answer s with ⟨r, s'⟩
    cases r with
    | ok ud => exact (Fallible.wp_ok h hrun).elim
    | error e =>
      obtain ⟨message, rfl⟩ := Fallible.wp_error h hrun
      exact ⟨message, rfl⟩
  | true =>
    cases p with
    | openat relative_to path open_mode flags permissions sqe_flags =>
      have h := wp_openat_refused answer relative_to path open_mode flags permissions sqe_flags s
      rcases hrun : (Prep.openat relative_to path open_mode flags permissions sqe_flags).run
        answer s with ⟨r, s'⟩
      cases r with
      | ok ud => exact iff_of_false nofun (Fallible.wp_ok h hrun)
      | error e => simpa using Fallible.wp_error h hrun
    | _ => cases hopenat

/-! ### Runs of a process -/

/-- The trace of a run of a process. -/
abbrev ProcessTrace := List (Step ProcessState ProcessLabel)

/-- `t` is a call, after `pre`, that is given a handle for which `close_called`
    was true at some time before. -/
structure OnClosed (pre : ProcessTrace) (t : Step ProcessState ProcessLabel) (p : Prep)
    (answer : Enter) (handle : HandleId) : Prop where
  label : t.label.label = .prep p answer
  given : p.handle = some handle
  closed : ∃ u ∈ pre ++ [t], (u.src.handles handle)._close_called = true

/-- **Closed handles are refused**, in any run over any number of handles and
    rings, exactly as long as every `prep_openat` that is given one is refused
    for a reason of its own. -/
theorem closed_handles_refused_iff {s₀ s : ProcessState} {tr : ProcessTrace}
    (h : Path process_system s₀ tr s) :
    (∀ pre t post p answer handle, tr = pre ++ t :: post → OnClosed pre t p answer handle →
        Refuses p answer (t.src.view t.label.ring)) ↔
      ∀ pre t post p answer handle, tr = pre ++ t :: post → OnClosed pre t p answer handle →
        p.is_openat = true → p.refused_anyway answer (t.src.view t.label.ring) := by
  have hiff : ∀ pre t post p answer handle, tr = pre ++ t :: post →
      OnClosed pre t p answer handle → (Refuses p answer (t.src.view t.label.ring) ↔
        p.refused_anyway answer (t.src.view t.label.ring)) := by
    intro pre t post p answer handle heq hpair
    obtain rfl := heq
    obtain ⟨hlabel, hhandle, u, hu, hclosed⟩ := hpair
    exact Prep.refuses_closed_iff hhandle (closed_persists h hu hclosed)
  constructor
  · intro hrefuses pre t post p answer handle htr hcall _
    exact (hiff pre t post p answer handle htr hcall).mp
      (hrefuses pre t post p answer handle htr hcall)
  · intro hcondition pre t post p answer handle htr hcall
    rw [hiff pre t post p answer handle htr hcall]
    cases hopenat : p.is_openat with
    | true => exact hcondition pre t post p answer handle htr hcall hopenat
    | false =>
      cases p with
      | openat => cases hopenat
      | _ => trivial

/-- A process with an open handle and new rings. -/
def ProcessState.fresh : ProcessState where
  handles := (PyState.fresh 2 0).handles
  rings := fun _ => (PyState.fresh 2 0).world

/-- The handle is closed. -/
def close_step : Step ProcessState ProcessLabel where
  src := .fresh
  label := ⟨0, .close_handle none 0⟩
  dst := ProcessLabel.run ⟨0, .close_handle none 0⟩ .fresh

/-- Then `p` is called on another ring. -/
def call_step (p : Prep) : Step ProcessState ProcessLabel where
  src := close_step.dst
  label := ⟨1, .prep p (.ok 0)⟩
  dst := ProcessLabel.run ⟨1, .prep p (.ok 0)⟩ close_step.dst

theorem close_call_path (p : Prep) :
    Path process_system .fresh [close_step, call_step p] (call_step p).dst :=
  .cons rfl (.single rfl)

theorem close_call_onClosed {p : Prep} (h : p.handle = some 0) :
    OnClosed [close_step] (call_step p) p (.ok 0) 0 where
  label := rfl
  given := h
  closed := by
    have hclosed : (close_step.dst.handles 0)._close_called = true := by decide
    exact ⟨call_step p, by simp, hclosed⟩

/-- A read is refused. -/
theorem closed_handles_refused_iff_read :
    Refuses (.read (.handle 0) 16 (-1) none) (.ok 0) (close_step.dst.view 1) := by
  refine (closed_handles_refused_iff (close_call_path _)).mpr ?_ [close_step] _ []
    (.read (.handle 0) 16 (-1) none) (.ok 0) 0 rfl (close_call_onClosed rfl)
  intro pre t post p answer handle htr hcall hopenat
  have hlabel := hcall.label
  have hmem : t ∈ pre ++ t :: post := by simp
  rw [← htr, List.mem_cons, List.mem_singleton] at hmem
  rcases hmem with rfl | rfl
  · cases hlabel
  · cases hlabel
    cases hopenat

/-- A `prep_openat` is not: its entry carries the descriptor of the handle. -/
theorem openat_on_closed_handle :
    let openat := Prep.openat (some (.handle 0)) [46] .READ_ONLY none 0o666 none
    (∀ ring, (ProcessState.fresh.view ring).initial) ∧
      Path process_system .fresh [close_step, call_step openat] (call_step openat).dst ∧
      (close_step.dst.handles 0)._close_called = true ∧
      (RingLabel.prep openat (.ok 0)).pushes (close_step.dst.view 1) =
        [⟨.OpenAt 3 0 0o2000000 0o666, .empty, 0⟩] ∧
      ¬∀ pre t post p answer handle, [close_step, call_step openat] = pre ++ t :: post →
        OnClosed pre t p answer handle → Refuses p answer (t.src.view t.label.ring) := by
  intro openat
  refine ⟨fun _ => fresh_initial, close_call_path _, by decide, by decide, ?_⟩
  intro hrefuses
  have hrefused := hrefuses [close_step] _ [] openat (.ok 0) 0 rfl (close_call_onClosed rfl)
  have hpushes : (RingLabel.prep openat (.ok 0)).pushes (close_step.dst.view 1) ≠ [] := by decide
  exact hpushes hrefused.2

end CenturyRing
