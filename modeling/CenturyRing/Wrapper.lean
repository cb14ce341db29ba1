import CenturyRing.HandleRuns
import CenturyRing.RawCalls
import CenturyRing.Service

/-! # The Python methods over the Rust functions

  A `prep_*` method takes a user data from the ring, turns its arguments into
  those of a Rust function and calls it.

  - `Prep.accepted_iff`: a method returns exactly if its arguments can be turned
    into those of the Rust function and this function accepts them.
  - `wrapper_refines_raw`: every run of the methods is a run of direct calls of
    the Rust functions, in which each call has the user data that was handed out
    last and no step lays hands on the memory of an operation in use.
-/

open LTS

namespace CenturyRing

/-! ### From the arguments of a method to those of a function -/

/-- What `unwrap_file` ends with. -/
def unwrapped (fd : AcceptableFile) (s : PyState) : Except PyErr Int :=
  match fd with
  | .int fd => .ok fd
  | .handle h =>
    if (s.handles h)._close_called then .error (handle_closed (s.handles h))
    else .ok (s.handles h).fd

namespace Prep

/-- The check of a file offset, which comes before all others. -/
def offset_error : Prep → Option PyErr
  | read _ _ offset _ =>
    if offset < 0 ∧ offset < -1 then some (negative_offset offset) else none
  | write _ _ file_offset _ _ _ =>
    if file_offset < -1 then some (negative_offset file_offset) else none
  | _ => none

/-- The call of a Rust function that a method makes in state `s`. -/
def raw (p : Prep) (s : PyState) : Except PyErr RawPrep :=
  let user_data := s.world.ring.user_data_counter
  match p with
  | openat relative_to path open_mode flags permissions sqe_flags => do
    let dirfd ← extract_i32 (Prep.open_dirfd relative_to s)
    let file_flags ← extract_i32 ↑(raw_open_flags flags ||| open_mode.value)
    let mode ← extract_u32 permissions
    let sqe_flags ← extract_u8 (sqe_flags.getD 0)
    return .openat dirfd path user_data file_flags mode sqe_flags
  | close fd sqe_flags => do
    let raw_fd ← unwrapped fd s
    let raw_fd ← extract_i32 raw_fd
    let sqe_flags ← extract_u8 (sqe_flags.getD 0)
    return .close raw_fd user_data sqe_flags
  | read fd byte_count offset sqe_flags => do
    let raw_fd ← unwrapped fd s
    let raw_fd ← extract_i32 raw_fd
    let max_size ← extract_u32 byte_count
    let offset ← extract_i64 offset
    let sqe_flags ← extract_u8 (sqe_flags.getD 0)
    return .read raw_fd max_size offset user_data sqe_flags
  | write fd buffer file_offset count buffer_offset sqe_flags => do
    let raw_fd ← unwrapped fd s
    let raw_fd ← extract_i32 raw_fd
    let size ← extract_usize (count.getD buffer.length)
    let buffer_offset ← extract_usize (buffer_offset.getD 0)
    let file_offset ← extract_i64 file_offset
    let sqe_flags ← extract_u8 (sqe_flags.getD 0)
    return .write raw_fd buffer size buffer_offset file_offset user_data sqe_flags
  | create_socket domain type protocol nonblocking sqe_flags => do
    let domain ← extract_i32 domain
    let socket_type ← extract_i32 (raw_socket_type type nonblocking)
    let protocol ← extract_i32 protocol
    let sqe_flags ← extract_u8 (sqe_flags.getD 0)
    return .create_socket domain socket_type protocol user_data sqe_flags
  | connect_v4 fd address port sqe_flags => do
    let raw_fd ← unwrapped fd s
    let raw_fd ← extract_i32 raw_fd
    let port ← extract_u16 port
    let sqe_flags ← extract_u8 (sqe_flags.getD 0)
    return .connect_v4 raw_fd address port user_data sqe_flags
  | connect_v6 fd address port sqe_flags => do
    let raw_fd ← unwrapped fd s
    let raw_fd ← extract_i32 raw_fd
    let port ← extract_u16 port
    let sqe_flags ← extract_u8 (sqe_flags.getD 0)
    return .connect_v6 raw_fd address port user_data sqe_flags
  | recv fd byte_count flags sqe_flags => do
    let raw_fd ← unwrapped fd s
    let raw_fd ← extract_i32 raw_fd
    let max_size ← extract_u32 byte_count
    let flags ← extract_i32 flags
    let sqe_flags ← extract_u8 (sqe_flags.getD 0)
    return .recv raw_fd max_size flags user_data sqe_flags
  | send fd buffer count buffer_offset flags sqe_flags => do
    let raw_fd ← unwrapped fd s
    let raw_fd ← extract_i32 raw_fd
    let size ← extract_usize (count.getD buffer.length)
    let buffer_offset ← extract_usize (buffer_offset.getD 0)
    let flags ← extract_i32 flags
    let sqe_flags ← extract_u8 (sqe_flags.getD 0)
    return .send raw_fd buffer size buffer_offset flags user_data sqe_flags

/-- Everything a method can do, in terms of the Rust function it calls. -/
inductive Called (p : Prep) (answer : Enter) (s : PyState) :
    Except PyErr UInt64 → PyState → Prop where
  | bad_offset (e : PyErr) (hoffset : p.offset_error = some e) : Called p answer s (.error e) s
  | bad_argument (e : PyErr) (hoffset : p.offset_error = none) (hraw : p.raw s = .error e) :
      Called p answer s (.error e) s.allocated
  | raised (c : RawPrep) (e : PyErr) (w' : World) (hoffset : p.offset_error = none)
      (hraw : p.raw s = .ok c) (hrun : c.run answer s.allocated.world = (.error e, w')) :
      Called p answer s (.error e) { s with world := w' }
  | returned (c : RawPrep) (w' : World) (hoffset : p.offset_error = none)
      (hraw : p.raw s = .ok c) (hrun : c.run answer s.allocated.world = (.ok (), w')) :
      Called p answer s (.ok s.world.ring.user_data_counter)
        { handles := p.handles s, world := w' }

section called

open Fallible

variable {p : Prep} {answer : Enter} {s : PyState} {Q : UInt64 → PyState → Prop}

/-- An argument is turned into one of the Rust function. -/
theorem wp_turned {α : Type} {r : Except PyErr α} {k : α → Except PyErr RawPrep}
    {f : α → PyM UInt64} (hoffset : p.offset_error = none) (hraw : p.raw s = r >>= k)
    (hf : ∀ y, p.raw s = k y →
      (f y).wp Q (fun e s' => p.Called answer s (.error e) s') s.allocated) :
    (check r >>= f).wp Q (fun e s' => p.Called answer s (.error e) s') s.allocated := by
  refine wp_check (fun e h => ?_) fun y h => hf y ?_
  · exact .bad_argument e hoffset (by rw [hraw, h]; rfl)
  · rw [hraw, h]
    rfl

theorem unwrap_file_eq (fd : AcceptableFile) (s : PyState) :
    unwrap_file fd s = (unwrapped fd s, s) := by
  cases fd with
  | int fd => rfl
  | handle h =>
    have hclosed : close_called h s = (.ok (s.handles h)._close_called, s) := rfl
    simp only [unwrap_file, unwrapped]
    rw [run_bind_ok (run_get s), run_bind_ok hclosed]
    split
    · rfl
    · rfl

theorem wp_unwrapped {fd : AcceptableFile} {k : Int → Except PyErr RawPrep}
    {f : Int → PyM UInt64} (hoffset : p.offset_error = none)
    (hraw : p.raw s = unwrapped fd s >>= k)
    (hf : ∀ y, p.raw s = k y →
      (f y).wp Q (fun e s' => p.Called answer s (.error e) s') s.allocated) :
    (unwrap_file fd >>= f).wp Q (fun e s' => p.Called answer s (.error e) s') s.allocated := by
  have hturned := wp_turned hoffset hraw hf
  rw [wp_bind] at hturned ⊢
  unfold wp at hturned ⊢
  rw [unwrap_file_eq]
  exact hturned

/-- The Rust function is called, and what comes behind that does not fail. -/
theorem wp_called {c : RawPrep} {f : Unit → PyM UInt64} (hoffset : p.offset_error = none)
    (hraw : p.raw s = .ok c) (hf : ∀ w', f () { s with world := w' } =
      (.ok s.world.ring.user_data_counter, { handles := p.handles s, world := w' })) :
    (rust (c.run answer) >>= f).wp (fun ud s' => p.Called answer s (.ok ud) s')
      (fun e s' => p.Called answer s (.error e) s') s.allocated := by
  rw [wp_bind, wp_rust]
  rcases hrun : c.run answer s.allocated.world with ⟨r, w'⟩
  cases r with
  | error e =>
    unfold wp
    rw [hrun]
    exact .raised c e w' hoffset hraw hrun
  | ok _ =>
    rw [wp_of_run hrun]
    exact (wp_of_run (hf w')).mpr (.returned c w' hoffset hraw hrun)

/-- What a method does is what its Rust function does. -/
theorem run_called (p : Prep) (answer : Enter) (s : PyState) :
    (p.run answer).wp (fun ud s' => p.Called answer s (.ok ud) s')
      (fun e s' => p.Called answer s (.error e) s') s := by
  cases p with
  | openat relative_to path open_mode flags permissions sqe_flags =>
    rw [run, prep_openat, wp_bind, wp_get, wp_get_next_user_data]
    refine wp_turned rfl rfl fun dirfd h => wp_turned rfl h fun file_flags h => ?_
    refine wp_turned rfl h fun mode h => wp_turned rfl h fun sqe_flags h => ?_
    exact wp_called rfl h fun _ => rfl
  | read fd byte_count offset sqe_flags =>
    rw [run, prep_read, wp_ite]
    refine ⟨fun hlow => ?_, fun hlow => ?_⟩
    · rw [wp_bind, wp_throw]
      exact .bad_offset _ (if_pos hlow)
    have hoffset : (read fd byte_count offset sqe_flags).offset_error = none := if_neg hlow
    rw [wp_get_next_user_data]
    refine wp_unwrapped hoffset rfl fun raw_fd h => wp_turned hoffset h fun raw_fd h => ?_
    refine wp_turned hoffset h fun max_size h => wp_turned hoffset h fun offset h => ?_
    refine wp_turned hoffset h fun sqe_flags h => ?_
    exact wp_called hoffset h fun _ => rfl
  | write fd buffer file_offset count buffer_offset sqe_flags =>
    rw [run, prep_write, wp_ite]
    refine ⟨fun hlow => ?_, fun hlow => ?_⟩
    · rw [wp_bind, wp_throw]
      exact .bad_offset _ (if_pos hlow)
    have hoffset : (write fd buffer file_offset count buffer_offset sqe_flags).offset_error =
      none := if_neg hlow
    rw [wp_get_next_user_data]
    refine wp_unwrapped hoffset rfl fun raw_fd h => wp_turned hoffset h fun raw_fd h => ?_
    refine wp_turned hoffset h fun size h => wp_turned hoffset h fun buffer_offset h => ?_
    refine wp_turned hoffset h fun file_offset h => wp_turned hoffset h fun sqe_flags h => ?_
    exact wp_called hoffset h fun _ => rfl
  | create_socket domain type protocol nonblocking sqe_flags =>
    rw [run, prep_create_socket, wp_get_next_user_data]
    refine wp_turned rfl rfl fun domain h => wp_turned rfl h fun socket_type h => ?_
    refine wp_turned rfl h fun protocol h => wp_turned rfl h fun sqe_flags h => ?_
    exact wp_called rfl h fun _ => rfl
  | connect_v4 fd address port sqe_flags =>
    rw [run, prep_connect_v4, prep_connect, wp_get_next_user_data]
    refine wp_unwrapped rfl rfl fun raw_fd h => wp_turned rfl h fun raw_fd h => ?_
    refine wp_turned rfl h fun port h => wp_turned rfl h fun sqe_flags h => ?_
    exact wp_called rfl h fun _ => rfl
  | connect_v6 fd address port sqe_flags =>
    rw [run, prep_connect_v6, prep_connect, wp_get_next_user_data]
    refine wp_unwrapped rfl rfl fun raw_fd h => wp_turned rfl h fun raw_fd h => ?_
    refine wp_turned rfl h fun port h => wp_turned rfl h fun sqe_flags h => ?_
    exact wp_called rfl h fun _ => rfl
  | recv fd byte_count flags sqe_flags =>
    rw [run, prep_recv, wp_get_next_user_data]
    refine wp_unwrapped rfl rfl fun raw_fd h => wp_turned rfl h fun raw_fd h => ?_
    refine wp_turned rfl h fun max_size h => wp_turned rfl h fun flags h => ?_
    refine wp_turned rfl h fun sqe_flags h => ?_
    exact wp_called rfl h fun _ => rfl
  | send fd buffer count buffer_offset flags sqe_flags =>
    rw [run, prep_send, wp_get_next_user_data]
    refine wp_unwrapped rfl rfl fun raw_fd h => wp_turned rfl h fun raw_fd h => ?_
    refine wp_turned rfl h fun size h => wp_turned rfl h fun buffer_offset h => ?_
    refine wp_turned rfl h fun flags h => wp_turned rfl h fun sqe_flags h => ?_
    exact wp_called rfl h fun _ => rfl
  | close fd sqe_flags =>
    rw [run, prep_close, wp_get_next_user_data]
    refine wp_unwrapped rfl rfl fun raw_fd h => wp_turned rfl h fun raw_fd h => ?_
    refine wp_turned rfl h fun sqe_flags h => ?_
    -- Marking the handle comes last.
    cases fd with
    | int fd => exact wp_called rfl h fun _ => rfl
    | handle handle => exact wp_called rfl h fun _ => rfl

theorem called (p : Prep) (answer : Enter) (s : PyState) :
    p.Called answer s (p.run answer s).1 (p.run answer s).2 := by
  have h := p.run_called answer s
  unfold wp at h
  generalize p.run answer s = out at h ⊢
  obtain ⟨r, s'⟩ := out
  cases r with
  | ok ud => exact h
  | error e => exact h

/-- **Acceptance**: a method returns exactly if its offset is none of a negative
    kind, its file and its numbers are what the Rust function takes, and this
    function accepts them. -/
theorem accepted_iff (p : Prep) (answer : Enter) (s : PyState) :
    (∃ ud, (p.run answer s).1 = .ok ud) ↔
      p.offset_error = none ∧ ∃ c, p.raw s = .ok c ∧ c.Accepted answer s.allocated.world := by
  refine Fallible.returns_iff (wp_mono (p.run_called answer s) ?_ ?_)
  · intro ud s' hcalled
    cases hcalled with
    | returned c w' hoffset hraw hrun =>
      have hreturns := (Fallible.returns_iff (c.wp_accepted answer _)).mp ⟨(), by rw [hrun]⟩
      exact ⟨hoffset, c, hraw, hreturns⟩
  · intro e s' hcalled haccepted
    obtain ⟨hoffset, c, hraw, haccepted⟩ := haccepted
    cases hcalled with
    | bad_offset _ hbad =>
      rw [hoffset] at hbad
      cases hbad
    | bad_argument _ _ hbad =>
      rw [hraw] at hbad
      cases hbad
    | raised c' _ w' _ hraw' hrun =>
      rw [hraw] at hraw'
      cases hraw'
      obtain ⟨_, hok⟩ := (Fallible.returns_iff (c.wp_accepted answer _)).mpr haccepted
      rw [hrun] at hok
      cases hok

end called

/-- The call has the user data the method took. -/
theorem raw_user_data {p : Prep} {s : PyState} {c : RawPrep} (h : p.raw s = .ok c) :
    c.user_data = s.world.ring.user_data_counter := by
  cases p
  all_goals
    repeat obtain ⟨_, -, h⟩ := Fallible.bind_ok h
    cases h
    rfl

end Prep

/-! ### Steps of the methods as direct calls -/

/-- The user data of a direct call that returned. -/
def RawLabel.returned (l : RawLabel) (w : World) : Option UInt64 :=
  match l with
  | prep c answer => (c.run answer w).1.toOption.map fun _ => c.user_data
  | _ => none

/-- The events a step hands out. -/
def RawLabel.events (l : RawLabel) (w : World) : List CompletionEvent :=
  match l with
  | get_completion_entries bursts =>
    ((CenturyRing.get_completion_entries bursts w).1.toOption).getD []
  | _ => []

/-- The trace of a run of direct calls. -/
abbrev RawTrace := List (Step World RawLabel)

def raw_returned (tr : RawTrace) : List UInt64 :=
  tr.flatMap fun t => (t.label.returned t.src).toList

def raw_events (tr : RawTrace) : List CompletionEvent := tr.flatMap fun t => t.label.events t.src

/-- Each call has the user data that was handed out last. -/
def Numbered (tr : RawTrace) : Prop :=
  ∀ t ∈ tr, ∀ c answer, t.label = .prep c answer →
    c.user_data + 1 = t.src.ring.user_data_counter

/-- The direct calls a step is made of. -/
def RingLabel.raw (l : RingLabel) (s : PyState) : List RawLabel :=
  match l with
  | prep p answer =>
    match p.offset_error, p.raw s with
    | some _, _ => []
    | none, .error _ => [.get_next_user_data]
    | none, .ok c => [.get_next_user_data, .prep c answer]
  | submit answer => [.submit answer]
  | submit_and_wait count answer =>
    match extract_usize count with
    | .ok want => [.wait want answer]
    | .error _ => []
  | submit_and_wait_with_timeout seconds nsec first last =>
    match extract_u64 seconds, extract_u32 nsec with
    | .ok sec, .ok nsec => [.wait_with_timeout sec nsec first last]
    | _, _ => []
  | get_completion_entries bursts => [.get_completion_entries bursts]
  | close => [.close]
  | close_handle .. | exit_handle .. => []
  | kernel ev => [.kernel ev]

/-- The direct calls a run is made of, in order. -/
def raw_steps (tr : RingTrace) : List RawLabel := tr.flatMap fun t => t.label.raw t.src

/-- The operations under way are told apart, and none has the user data that is
    handed out next. -/
structure World.Apart (w : World) : Prop where
  sound : w.Sound []
  free_key : ∀ entry ∈ w.live, entry.user_data ≠ w.ring.user_data_counter

/-- `rtr.Unfolds l s`: the direct calls of `rtr` do what step `l` does in state
    `s`. -/
structure RawTrace.Unfolds (rtr : RawTrace) (l : RingLabel) (s : PyState) : Prop where
  path : Path raw_system s.world rtr (l.run s).world
  labels : rtr.map (·.label) = l.raw s
  returned : raw_returned rtr = (l.returned s).toList
  events : raw_events rtr = l.events s
  numbered : Numbered rtr
  spared : s.world.Apart → SparedThroughout rtr

section steps

variable {l : RingLabel} {s : PyState} {w : World}

theorem World.live_of_in_use {entry : Entry} (h : entry ∈ w.in_use) : entry ∈ w.live := by
  rcases (World.mem_in_use.mp h).1 with hpending | hrunning
  · exact List.mem_append_left _ (List.mem_append_left _ hpending)
  · exact List.mem_append_left _ (List.mem_append_right _ hrunning)

/-- Reaping spares what is in use: it has other user data than what is reaped. -/
theorem World.Apart.spares_reap (h : w.Apart) (bursts : List (List KernelEvent)) :
    (RawLabel.get_completion_entries bursts).spares w := by
  intro entry hentry hreaped
  obtain ⟨cqe, hcqe, hud⟩ := List.mem_map.mp hreaped
  have hapart := (h.sound.drain bursts).1.apart
  rw [List.pairwise_append] at hapart
  have htold := hapart.2.2 entry (live_of_in_use hentry) _ (List.mem_map_of_mem hcqe)
  have hpointer := Operation.pointer_of_is_timeout (htold.1 hud.symm).1
  have hsome := (World.mem_in_use.mp hentry).2
  rw [hpointer] at hsome
  cases hsome

/-- A step that reaches no Rust function. -/
theorem unfolds_nothing (hraw : l.raw s = []) (hrun : (l.run s).world = s.world)
    (hreturned : l.returned s = none) (hevents : l.events s = []) :
    ∃ rtr : RawTrace, rtr.Unfolds l s := by
  refine ⟨[], ?_, hraw.symm, ?_, hevents.symm, ?_, ?_⟩
  · rw [hrun]
    exact .nil
  · rw [hreturned]
    rfl
  · intro t ht
    cases ht
  · intro _ t ht
    cases ht

/-- A step that calls one Rust function, and not to prepare an operation. -/
theorem unfolds_single (l' : RawLabel) (hraw : l.raw s = [l'])
    (hrun : (l.run s).world = l'.run s.world) (hnot : ∀ c answer, l' ≠ .prep c answer)
    (hreturned : l.returned s = none) (hevents : l.events s = l'.events s.world)
    (hspares : s.world.Apart → l'.spares s.world) : ∃ rtr : RawTrace, rtr.Unfolds l s := by
  refine ⟨[⟨s.world, l', l'.run s.world⟩], ?_, hraw.symm, ?_, ?_, ?_, ?_⟩
  · rw [hrun]
    exact .single rfl
  · rw [hreturned]
    cases l' with
    | prep c answer => exact absurd rfl (hnot c answer)
    | _ => rfl
  · rw [hevents]
    simp [raw_events]
  · intro t ht c answer hlabel
    obtain rfl := List.mem_singleton.mp ht
    exact absurd hlabel (hnot c answer)
  · intro hapart t ht
    obtain rfl := List.mem_singleton.mp ht
    exact hspares hapart

/-- A method takes a user data and makes its call. -/
theorem unfolds_call {p : Prep} {answer : Enter} {c : RawPrep} {r : Except PyErr Unit}
    {w' : World} (hoffset : p.offset_error = none) (hraw : p.raw s = .ok c)
    (hcall : c.run answer s.allocated.world = (r, w'))
    (hrun : ((RingLabel.prep p answer).run s).world = w')
    (hreturned : (RingLabel.prep p answer).returned s =
      r.toOption.map fun _ => s.world.ring.user_data_counter) :
    ∃ rtr : RawTrace, rtr.Unfolds (.prep p answer) s := by
  have htake : Path raw_system s.world [⟨s.world, .get_next_user_data, s.allocated.world⟩]
    s.allocated.world := .single rfl
  have hprep : Path raw_system s.allocated.world [⟨s.allocated.world, .prep c answer, w'⟩] w' := by
    refine .single ?_
    show w' = (c.run answer s.allocated.world).2
    rw [hcall]
  refine ⟨_, hrun ▸ htake.append hprep, ?_, ?_, rfl, ?_, ?_⟩
  · simp only [RingLabel.raw, hoffset, hraw]
    rfl
  · rw [hreturned, ← Prep.raw_user_data hraw]
    simp [raw_returned, RawLabel.returned, hcall]
  · intro t ht c' answer' hlabel
    rcases List.mem_append.mp ht with ht | ht
    · obtain rfl := List.mem_singleton.mp ht
      cases hlabel
    · obtain rfl := List.mem_singleton.mp ht
      cases hlabel
      rw [Prep.raw_user_data hraw]
      rfl
  · intro hapart t ht
    rcases List.mem_append.mp ht with ht | ht
    · obtain rfl := List.mem_singleton.mp ht
      trivial
    · obtain rfl := List.mem_singleton.mp ht
      intro _ _ entry hentry
      rw [Prep.raw_user_data hraw]
      exact hapart.free_key entry (World.live_of_in_use hentry)

theorem unfolds_prep (p : Prep) (answer : Enter) (s : PyState) :
    ∃ rtr : RawTrace, rtr.Unfolds (.prep p answer) s := by
  have hcalled := p.called answer s
  rcases hrun : p.run answer s with ⟨r, s'⟩
  rw [hrun] at hcalled
  have hstep : ((RingLabel.prep p answer).run s).world = s'.world := congrArg (·.2.world) hrun
  have hreturned : (RingLabel.prep p answer).returned s = r.toOption :=
    congrArg (·.1.toOption) hrun
  cases hcalled with
  | bad_offset e hoffset =>
    refine unfolds_nothing ?_ hstep hreturned rfl
    simp only [RingLabel.raw, hoffset]
  | bad_argument e hoffset hraw =>
    refine unfolds_single .get_next_user_data ?_ hstep (fun _ _ => by simp) hreturned rfl
      fun _ => trivial
    simp only [RingLabel.raw, hoffset, hraw]
  | raised c e w' hoffset hraw hcall => exact unfolds_call hoffset hraw hcall hstep hreturned
  | returned c w' hoffset hraw hcall => exact unfolds_call hoffset hraw hcall hstep hreturned

/-- **Step lemma**: every step is made of direct calls. -/
theorem RingLabel.unfolds (l : RingLabel) (s : PyState) :
    ∃ rtr : RawTrace, rtr.Unfolds l s := by
  cases l with
  | prep p answer => exact unfolds_prep p answer s
  | submit answer => exact unfolds_single _ rfl rfl (fun _ _ => by simp) rfl rfl fun _ => trivial
  | submit_and_wait count answer =>
    cases hcount : extract_usize count with
    | error e =>
      refine unfolds_nothing ?_ ?_ rfl rfl
      · simp only [RingLabel.raw, hcount]
      · simp only [RingLabel.run, CenturyRing.submit_and_wait, hcount]
        rfl
    | ok want =>
      refine unfolds_single (.wait want answer) ?_ ?_ (fun _ _ => by simp) rfl rfl
        fun _ => trivial
      · simp only [RingLabel.raw, hcount]
      · simp only [RingLabel.run, CenturyRing.submit_and_wait, hcount]
        rfl
  | submit_and_wait_with_timeout seconds nsec first last =>
    cases hsec : extract_u64 seconds with
    | error e =>
      refine unfolds_nothing ?_ ?_ rfl rfl
      · simp only [RingLabel.raw, hsec]
      · simp only [RingLabel.run, CenturyRing.submit_and_wait_with_timeout, hsec]
        rfl
    | ok sec =>
      cases hnsec : extract_u32 nsec with
      | error e =>
        refine unfolds_nothing ?_ ?_ rfl rfl
        · simp only [RingLabel.raw, hsec, hnsec]
        · simp only [RingLabel.run, CenturyRing.submit_and_wait_with_timeout, hsec, hnsec]
          rfl
      | ok nsec =>
        refine unfolds_single (.wait_with_timeout sec nsec first last) ?_ ?_
          (fun _ _ => by simp) rfl rfl fun _ => trivial
        · simp only [RingLabel.raw, hsec, hnsec]
        · simp only [RingLabel.run, CenturyRing.submit_and_wait_with_timeout, hsec, hnsec]
          rfl
  | get_completion_entries bursts =>
    exact unfolds_single _ rfl rfl (fun _ _ => by simp) rfl rfl
      fun hapart => hapart.spares_reap bursts
  | close => exact unfolds_single _ rfl rfl (fun _ _ => by simp) rfl rfl fun _ => trivial
  | close_handle answer handle =>
    refine unfolds_nothing rfl ?_ rfl rfl
    show (FdHandle.close answer handle s).2.world = s.world
    rw [effect_close_handle]
  | exit_handle answer handle =>
    refine unfolds_nothing rfl ?_ rfl rfl
    show (FdHandle.exit answer handle s).2.world = s.world
    rw [effect_exit_handle]
  | kernel ev => exact unfolds_single _ rfl rfl (fun _ _ => by simp) rfl rfl fun _ => trivial

end steps

/-! ### Runs -/

theorem PyState.initial.raw {s : PyState} (h : s.initial) : raw_system.init s.world := by
  obtain ⟨host, entries, cq_size, sqpoll_idle_ms, single_issuer, autosubmit, hhost, hmake⟩ := h
  obtain ⟨entries, -, hmake⟩ := Fallible.bind_ok hmake
  obtain ⟨cq_size, -, hmake⟩ := Fallible.bind_ok hmake
  obtain ⟨idle, -, hmake⟩ := Fallible.bind_ok hmake
  exact ⟨host, entries, cq_size, idle, single_issuer, autosubmit, hhost, hmake⟩

theorem Ledger.world_apart {tr : RingTrace} {w : World} (h : Ledger tr w)
    (hbound : allocations tr < 2 ^ 63) : w.Apart :=
  ⟨h.sound hbound, (h.free_key hbound).2⟩

/-- Steps that spare what is in use keep it. -/
theorem kept_of_spared {w₀ w : World} {tr : RawTrace} (hinit : raw_system.init w₀)
    (h : Path raw_system w₀ tr w) (hspared : SparedThroughout tr) : KeptThroughout tr := by
  obtain ⟨hkeyed, hkept⟩ := raw_initial hinit
  refine (h.good_iff (I := Keyed) (G := MemoryKept) ?_ ?_ hkeyed hkept).mpr hspared
  · rintro w l _ hw rfl
    exact (l.step_kept hw).1
  · rintro w l _ hw hkept rfl
    exact (l.step_kept hw).2 hkept

/-- **Refinement**: a run of the methods is a run of direct calls of the Rust
    functions that returns the same user data and the same events. It is one of
    those runs in which the memory in use is kept: each call has the user data
    that was handed out last, and no step lays hands on an operation in use. -/
theorem wrapper_refines_raw {s₀ s : PyState} {tr : RingTrace} (hinit : s₀.initial)
    (h : Path ring_system s₀ tr s) (hbound : allocations tr < 2 ^ 63) :
    ∃ rtr : RawTrace, Run raw_system rtr s.world ∧ rtr.map (·.label) = raw_steps tr ∧
      raw_returned rtr = returned tr ∧ raw_events rtr = events tr ∧ Numbered rtr ∧
      SparedThroughout rtr ∧ KeptThroughout rtr := by
  have hboth := h.trace_invariant (I := fun tr s => allocations tr < 2 ^ 63 →
    Ledger tr s.world ∧ ∃ rtr : RawTrace, Path raw_system s₀.world rtr s.world ∧
      rtr.map (·.label) = raw_steps tr ∧ raw_returned rtr = returned tr ∧
      raw_events rtr = events tr ∧ Numbered rtr ∧ SparedThroughout rtr) ?_ ?_
  · obtain ⟨-, rtr, hpath, hlabels, hreturned, hevents, hnumbered, hspared⟩ := hboth hbound
    exact ⟨rtr, ⟨s₀.world, hinit.raw, hpath⟩, hlabels, hreturned, hevents, hnumbered, hspared,
      kept_of_spared hinit.raw hpath hspared⟩
  · intro tr s l s' ih hstep hbound
    have hbound' := Nat.lt_of_le_of_lt (allocations_le_snoc _ _) hbound
    obtain ⟨hledger, rtr, hpath, hlabels, hreturned, hevents, hnumbered, hspared⟩ := ih hbound'
    refine ⟨hledger.snoc (t := ⟨s, l, s'⟩) hstep hbound, ?_⟩
    obtain ⟨rtr', hunfolds⟩ := l.unfolds s
    have hspared' := hunfolds.spared (hledger.world_apart hbound')
    rw [show s' = l.run s from hstep]
    refine ⟨rtr ++ rtr', hpath.append hunfolds.path, ?_, ?_, ?_, ?_, ?_⟩
    · rw [List.map_append, hlabels, hunfolds.labels]
      simp [raw_steps]
    · rw [returned_snoc, ← hreturned, ← hunfolds.returned]
      exact List.flatMap_append
    · rw [events_snoc, ← hevents, ← hunfolds.events]
      exact List.flatMap_append
    · exact List.forall_mem_append.mpr ⟨hnumbered, hunfolds.numbered⟩
    · exact List.forall_mem_append.mpr ⟨hspared, hspared'⟩
  · exact fun _ => ⟨hinit.blank.ledger, [], .nil, rfl, rfl, rfl, by simp [Numbered],
      by simp [SparedThroughout]⟩

/-- A read on a handle: the two direct calls it is made of. -/
theorem wrapper_refines_raw_read :
    let ls : List RingLabel := [.prep (.read (.int 3) 4 (-1) none) (.ok 0), .submit (.ok 1),
      .kernel (.complete 0 4), .get_completion_entries []]
    ∃ rtr : RawTrace, Run raw_system rtr (run_all ls (.fresh 2 0)).world ∧
      rtr.map (·.label) = [.get_next_user_data, .prep (.read 3 4 (-1) 0 0) (.ok 0),
        .submit (.ok 1), .kernel (.complete 0 4), .get_completion_entries []] ∧
      raw_returned rtr = [0] ∧ raw_events rtr = [⟨0, 4, some [0, 0, 0, 0]⟩] ∧ Numbered rtr ∧
      SparedThroughout rtr ∧ KeptThroughout rtr := by
  intro ls
  exact wrapper_refines_raw fresh_initial (path_all ls _) (by decide)

end CenturyRing
