import CenturyRing.HandleRuns

/-! # How often a descriptor is closed

  A handle is closed by hand, by a `with` block, or through a ring. The three
  ways share one flag: closing by hand looks at it and sets it whatever
  `os.close` does, and `prep_close` looks at it before anything else and sets
  it only when the entry has been pushed.
-/

open LTS

namespace CenturyRing

/-! ### One step -/

/-- What `os.close` was called with on behalf of a handle in a step. -/
def RingLabel.os_closes (l : RingLabel) (handle : HandleId) (s : PyState) : List Int :=
  ((l.run s).handles handle).os_closed.drop (s.handles handle).os_closed.length

/-- The handle that a call of `prep_close` is to close. -/
def Prep.closes : Prep → Option HandleId
  | close fd _ => fd.as_handle
  | _ => none

/-- The close entries pushed on behalf of a handle in a step. -/
def RingLabel.close_entries (l : RingLabel) (handle : HandleId) (s : PyState) : List Entry :=
  match l with
  | prep p _ => if p.closes = some handle then l.pushes s else []
  | _ => []

/-- How often a step closes the descriptor of a handle on behalf of the handle:
    by a call of `os.close`, or by a close entry in a submission queue. -/
def RingLabel.closings (l : RingLabel) (handle : HandleId) (s : PyState) : Nat :=
  (l.os_closes handle s).length + (l.close_entries handle s).length

theorem PyState.mark_closed_os_closed (s : PyState) (closing handle : HandleId) :
    ((s.mark_closed closing).handles handle).os_closed = (s.handles handle).os_closed := by
  unfold PyState.mark_closed
  by_cases heq : handle = closing
  · rw [heq]
    simp only [Function.update_self]
  · simp only [Function.update_of_ne heq]

theorem PyState.os_close_os_closed (s : PyState) (closing handle : HandleId) :
    ((s.os_close closing).handles handle).os_closed =
      (s.handles handle).os_closed ++ if closing = handle then [(s.handles handle).fd] else [] := by
  unfold PyState.os_close
  by_cases heq : closing = handle
  · rw [if_pos heq, heq]
    simp only [Function.update_self]
  · rw [if_neg heq, List.append_nil]
    simp only [Function.update_of_ne (Ne.symm heq)]

/-- `FdHandle.close` calls `os.close` once if the handle is open. -/
theorem FdHandle.close_os_closed (answer : Option Int32) (closing handle : HandleId)
    (s : PyState) :
    ((FdHandle.close answer closing s).2.handles handle).os_closed =
      (s.handles handle).os_closed ++
        if closing = handle ∧ (s.handles handle)._close_called = false then
          [(s.handles handle).fd]
        else [] := by
  rw [FdHandle.close_state]
  by_cases hclosed : (s.handles closing)._close_called = true
  · rw [if_pos hclosed, if_neg, List.append_nil]
    intro hboth
    rw [← hboth.1, hclosed] at hboth
    cases hboth.2
  · rw [if_neg hclosed, PyState.mark_closed_os_closed, s.os_close_os_closed]
    by_cases heq : closing = handle
    · rw [heq] at hclosed
      rw [if_pos heq, if_pos ⟨heq, Bool.eq_false_iff.mpr hclosed⟩]
    · rw [if_neg heq, if_neg fun hboth => heq hboth.1]

/-- A call that raises closes no handle. -/
theorem Prep.raised_handles {p : Prep} {answer : Enter} {s : PyState}
    (h : (RingLabel.prep p answer).returned s = none) :
    ((RingLabel.prep p answer).run s).handles = s.handles := by
  have hprepped := p.run_prepped answer s
  change (p.run answer s).1.toOption = none at h
  show (p.run answer s).2.handles = s.handles
  generalize p.run answer s = out at hprepped h ⊢
  obtain ⟨r, s'⟩ := out
  cases hprepped with
  | refused e counter hcounter hrefused => rfl
  | queued hhandle hqueued => cases h

/-- A call of `prep_close` that returns has found its handle open, and closes
    it. -/
theorem Prep.returned_handles {p : Prep} {answer : Enter} {s : PyState} {ud : UInt64}
    (h : (RingLabel.prep p answer).returned s = some ud) :
    ((RingLabel.prep p answer).run s).handles = p.handles s ∧
      ∀ handle, p.closes = some handle → (s.handles handle)._close_called = false := by
  have hprepped := p.run_prepped answer s
  change (p.run answer s).1.toOption = some ud at h
  show (p.run answer s).2.handles = p.handles s ∧ _
  generalize p.run answer s = out at hprepped h ⊢
  obtain ⟨r, s'⟩ := out
  cases hprepped with
  | refused e counter hcounter hrefused => cases h
  | queued hhandle hqueued =>
    refine ⟨rfl, ?_⟩
    intro handle hcloses
    cases p with
    | close fd sqe_flags => exact hhandle rfl handle hcloses
    | _ => cases hcloses

theorem Prep.handles_eq (p : Prep) (s : PyState) :
    p.handles s = (p.closes.elim s fun handle => s.mark_closed handle).handles := by
  cases p with
  | close fd sqe_flags => cases fd <;> rfl
  | _ => rfl

theorem RingLabel.os_closes_close (answer : Option Int32) (closing handle : HandleId)
    (s : PyState) :
    (close_handle answer closing).os_closes handle s =
      if closing = handle ∧ (s.handles handle)._close_called = false then [(s.handles handle).fd]
      else [] := by
  show ((FdHandle.close answer closing s).2.handles handle).os_closed.drop _ = _
  rw [FdHandle.close_os_closed, List.drop_left]

/-- The end of a `with` block and closing by hand are the same step. -/
theorem RingLabel.exit_run (answer : Option Int32) (closing : HandleId) (s : PyState) :
    (exit_handle answer closing).run s = (close_handle answer closing).run s :=
  FdHandle.exit_state answer closing s

theorem RingLabel.os_closes_exit (answer : Option Int32) (closing handle : HandleId)
    (s : PyState) :
    (exit_handle answer closing).os_closes handle s =
      (close_handle answer closing).os_closes handle s := by
  simp only [os_closes, exit_run]

/-- A call of `prep_close` does not call `os.close`, and neither does any other
    preparation. -/
theorem RingLabel.os_closes_prep (p : Prep) (answer : Enter) (handle : HandleId) (s : PyState) :
    (prep p answer).os_closes handle s = [] := by
  have hsame : (((prep p answer).run s).handles handle).os_closed =
      (s.handles handle).os_closed := by
    cases hreturned : (prep p answer).returned s with
    | none => rw [Prep.raised_handles hreturned]
    | some ud =>
      rw [(Prep.returned_handles hreturned).1, p.handles_eq]
      cases p.closes with
      | none => rfl
      | some closing => exact s.mark_closed_os_closed closing handle
  rw [os_closes, hsame, List.drop_length]

/-- `os.close` is called at most once in a step, with the descriptor of the
    handle. -/
theorem RingLabel.mem_os_closes {l : RingLabel} {handle : HandleId} {s : PyState} {fd : Int}
    (h : fd ∈ l.os_closes handle s) : fd = (s.handles handle).fd := by
  have hclose : ∀ answer closing, fd ∈ (close_handle answer closing).os_closes handle s →
      fd = (s.handles handle).fd := by
    intro answer closing hfd
    rw [os_closes_close] at hfd
    split at hfd
    · exact List.mem_singleton.mp hfd
    · cases hfd
  cases l with
  | prep p answer =>
    rw [os_closes_prep] at h
    cases h
  | close_handle answer closing => exact hclose answer closing h
  | exit_handle answer closing =>
    rw [os_closes_exit] at h
    exact hclose answer closing h
  | _ =>
    rw [os_closes, RingLabel.same_handles s ?_ ?_ ?_, List.drop_length] at h
    · cases h
    all_goals
      intro _ _ hl
      cases hl

/-- A close entry pushed on behalf of a handle names its descriptor. -/
theorem RingLabel.mem_close_entries {l : RingLabel} {handle : HandleId} {s : PyState}
    {entry : Entry} (h : entry ∈ l.close_entries handle s) :
    entry.op = .Close (Int32.ofInt (s.handles handle).fd) := by
  cases l with
  | prep p answer =>
    simp only [close_entries] at h
    split at h
    · next hcloses =>
      obtain ⟨-, rfl⟩ : (∃ ud, (prep p answer).returned s = some ud) ∧ p.sqe s = entry := by
        simpa [pushes] using h
      cases p with
      | close fd sqe_flags =>
        cases fd with
        | int fd => cases hcloses
        | handle closing =>
          cases hcloses
          rfl
      | _ => cases hcloses
    · cases h
  | _ => cases h

/-- **Step lemma**: a step closes a descriptor exactly as often as it closes
    its handle. -/
theorem RingLabel.closings_step (l : RingLabel) (handle : HandleId) (s : PyState) :
    l.closings handle s + (s.handles handle)._close_called.toNat =
      ((l.run s).handles handle)._close_called.toNat := by
  have hclose : ∀ answer closing,
      (close_handle answer closing).closings handle s + (s.handles handle)._close_called.toNat =
        (((close_handle answer closing).run s).handles handle)._close_called.toNat := by
    intro answer closing
    show ((close_handle answer closing).os_closes handle s).length + 0 + _ =
      ((FdHandle.close answer closing s).2.handles handle)._close_called.toNat
    rw [os_closes_close, FdHandle.close_close_called]
    by_cases heq : closing = handle
    · cases hclosed : (s.handles handle)._close_called <;> simp [heq]
    · simp [heq]
  cases l with
  | close_handle answer closing => exact hclose answer closing
  | exit_handle answer closing =>
    rw [exit_run, ← hclose answer closing]
    show ((exit_handle answer closing).os_closes handle s).length + 0 + _ = _
    rw [os_closes_exit]
    rfl
  | prep p answer =>
    show ((prep p answer).os_closes handle s).length +
      (if p.closes = some handle then (prep p answer).pushes s else []).length + _ = _
    rw [os_closes_prep, pushes_prep]
    -- A call that raises pushes nothing and marks nothing.
    cases hreturned : (prep p answer).returned s with
    | none => simp [Prep.raised_handles hreturned]
    | some ud =>
      obtain ⟨hhandles, hopen⟩ := Prep.returned_handles hreturned
      rw [hhandles, p.handles_eq]
      cases hcloses : p.closes with
      | none => simp
      | some closing =>
        show _ = ((s.mark_closed closing).handles handle)._close_called.toNat
        rw [s.mark_closed_close_called]
        by_cases heq : closing = handle
        -- A call that returns was given an open handle.
        · rw [← heq, hopen closing hcloses]
          simp
        · simp [heq]
  | _ =>
    rw [closings, os_closes, RingLabel.same_handles s ?_ ?_ ?_, List.drop_length]
    · exact Nat.zero_add _
    all_goals
      intro _ _ hl
      cases hl

/-! ### Whole runs -/

/-- How often the descriptor of a handle is closed in a run, by `os.close` and
    by close entries on any ring. -/
def closings (handle : HandleId) (tr : ProcessTrace) : Nat :=
  (tr.map fun t => t.label.label.closings handle (t.src.view t.label.ring)).sum

/-- What holds of a handle after a run. -/
structure ClosedOnce (handle : HandleId) (tr : ProcessTrace) (s : ProcessState) : Prop where
  at_most_once : closings handle tr ≤ 1
  iff_closed : closings handle tr = 1 ↔ (s.handles handle)._close_called = true
  /-- A `prep_close` that raises leaves the handle as it is. -/
  raised : ∀ t ∈ tr, ∀ sqe_flags answer,
    t.label.label = .prep (.close (.handle handle) sqe_flags) answer →
    t.label.label.returned (t.src.view t.label.ring) = none →
    t.dst.handles handle = t.src.handles handle
  /-- An `os.close` that raises leaves it closed. -/
  os_close_raised : ∀ t ∈ tr, ∀ errno, t.label.label = .close_handle (some errno) handle ∨
    t.label.label = .exit_handle (some errno) handle →
      (t.dst.handles handle)._close_called = true
  /-- What is closed on its behalf is its own descriptor. -/
  own : ∀ t ∈ tr, (∀ fd ∈ t.label.label.os_closes handle (t.src.view t.label.ring),
      fd = (t.src.handles handle).fd) ∧
    ∀ entry ∈ t.label.label.close_entries handle (t.src.view t.label.ring),
      entry.op = .Close (Int32.ofInt (t.src.handles handle).fd)

/-- The closings in a run are counted by the flag. -/
theorem closings_eq {s₀ s : ProcessState} {tr : ProcessTrace} (h : Path process_system s₀ tr s)
    (handle : HandleId) :
    closings handle tr + (s₀.handles handle)._close_called.toNat =
      (s.handles handle)._close_called.toNat := by
  induction h with
  | nil => exact Nat.zero_add _
  | @snoc tr m s' l hpath hstep ih =>
    obtain rfl : s' = l.run m := hstep
    have hl := l.label.closings_step handle (m.view l.ring)
    have hsum : closings handle (tr ++ [⟨m, l, l.run m⟩]) =
        closings handle tr + l.label.closings handle (m.view l.ring) := by
      simp [closings]
    change _ = ((l.run m).handles handle)._close_called.toNat at hl
    change l.label.closings handle (m.view l.ring) +
      (m.handles handle)._close_called.toNat = _ at hl
    omega

/-- **A descriptor is closed at most once** on behalf of a handle that is made
    open, and once exactly if the handle says so. -/
theorem closed_at_most_once {s₀ s : ProcessState} {tr : ProcessTrace}
    (h : Path process_system s₀ tr s) {handle : HandleId}
    (hopen : (s₀.handles handle)._close_called = false) : ClosedOnce handle tr s := by
  have heq := closings_eq h handle
  rw [hopen] at heq
  constructor
  · have hle := Bool.toNat_le (s.handles handle)._close_called
    omega
  · rw [← Bool.toNat_eq_one, ← heq]
    rfl
  · intro t ht sqe_flags answer hlabel hraised
    rw [hlabel] at hraised
    have hstep : t.dst = t.label.run t.src := h.step_of_mem ht
    have hsame := Prep.raised_handles hraised
    rw [hstep]
    show (t.label.label.run _).handles handle = _
    rw [hlabel, hsame]
    rfl
  · intro t ht errno hlabel
    have hstep : t.dst = t.label.run t.src := h.step_of_mem ht
    have hclosed : ∀ s : PyState,
        ((FdHandle.close (some errno) handle s).2.handles handle)._close_called = true := by
      intro s
      rw [FdHandle.close_close_called, if_pos rfl]
    rw [hstep]
    show ((t.label.label.run _).handles handle)._close_called = true
    rcases hlabel with hlabel | hlabel
    · rw [hlabel]
      exact hclosed _
    · rw [hlabel, RingLabel.exit_run]
      exact hclosed _
  · intro t _
    exact ⟨fun fd hfd => RingLabel.mem_os_closes hfd,
      fun entry hentry => RingLabel.mem_close_entries hentry⟩

/-- A ring is closed; `prep_close` fails on it, succeeds on another ring, and
    then the `with` block of the handle ends. -/
def closed_thrice : List ProcessLabel :=
  [⟨0, .close⟩, ⟨0, .prep (.close (.handle 0) none) (.ok 0)⟩,
    ⟨1, .prep (.close (.handle 0) none) (.ok 0)⟩, ⟨1, .exit_handle none 0⟩]

/-- The descriptor is closed once. -/
theorem closed_at_most_once_thrice :
    let tr := trace_of (fun s l => ProcessLabel.run l s) closed_thrice .fresh
    closings 0 tr = 1 ∧
      ClosedOnce 0 tr (closed_thrice.foldl (fun s l => ProcessLabel.run l s) .fresh) := by
  intro tr
  exact ⟨by decide +kernel,
    closed_at_most_once (path_of closed_thrice _ (trace_of_dst closed_thrice _)) rfl⟩

end CenturyRing
