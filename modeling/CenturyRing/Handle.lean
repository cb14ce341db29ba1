import CenturyRing.Prep

/-! # File-like handles (`handle.py`)

  A handle wraps a file descriptor and remembers whether closing it has been
  attempted. Python code works on the handles and on a ring.
-/

namespace CenturyRing

/-- `FdHandle`, with what `os.close` was called with on its behalf. -/
structure FdHandle where
  fd : Int
  _close_called : Bool
  /-- The descriptors that `os.close` was called with, in order. -/
  os_closed : List Int
  deriving DecidableEq, Repr

/-- Which handle object is meant. -/
abbrev HandleId := Nat

/-- What Python code of one ring sees: the handles and the ring. -/
structure PyState where
  handles : HandleId → FdHandle
  world : World

/-- A Python function that works on handles and a ring. -/
abbrev PyM (α : Type) : Type := Fallible PyState PyErr α

/-- Call a Rust function. -/
def rust {α : Type} (m : RustM α) : PyM α :=
  m.zoom (·.world) (fun w s => { s with world := w })

/-! ### `FdHandle` -/

/-- `FdHandle.close_called`. -/
def close_called (handle : HandleId) : PyM Bool := do
  return ((← get).handles handle)._close_called

/-- The effect of `self._close_called = True`. -/
def PyState.mark_closed (s : PyState) (handle : HandleId) : PyState :=
  let closed := { s.handles handle with _close_called := true }
  { s with handles := Function.update s.handles handle closed }

/-- `FdHandle.mark_closed`. -/
def mark_closed (handle : HandleId) : PyM Unit := modify (·.mark_closed handle)

/-- The effect of `os.close(self.fd)`. -/
def PyState.os_close (s : PyState) (handle : HandleId) : PyState :=
  let h := s.handles handle
  let closed := { h with os_closed := h.os_closed ++ [h.fd] }
  { s with handles := Function.update s.handles handle closed }

/-- `os.close(self.fd)`; `answer` is the error it ends with, if any. -/
def os_close (answer : Option Int32) (handle : HandleId) : PyM Unit := do
  modify (·.os_close handle)
  match answer with
  | some errno => throw (.os_error errno)
  | none => return

/-- `FdHandle.close`; `answer` is the error `os.close` ends with, if any. -/
def FdHandle.close (answer : Option Int32) (handle : HandleId) : PyM Unit := do
  if ← close_called handle then
    return
  Fallible.try_finally (os_close answer handle) (mark_closed handle)

/-- `FdHandle.__exit__`: leaving a `with` block closes the handle. -/
def FdHandle.exit (answer : Option Int32) (handle : HandleId) : PyM Bool := do
  FdHandle.close answer handle
  return false

/-- An open handle is closed and marked, whatever `os.close` does; one that is
    marked is left alone. -/
theorem FdHandle.close_state (answer : Option Int32) (handle : HandleId) (s : PyState) :
    (FdHandle.close answer handle s).2 =
      if (s.handles handle)._close_called then s else (s.os_close handle).mark_closed handle := by
  refine Fallible.wp_state (P := fun s' => s' = _) ?_
  simp only [FdHandle.close, close_called, os_close, CenturyRing.mark_closed,
    Fallible.wp_try_finally, Fallible.wp_bind, Fallible.wp_get, Fallible.wp_pure, Fallible.wp_ite,
    Fallible.wp_modify]
  refine ⟨fun hclosed => (if_pos hclosed).symm, fun hopen => ?_⟩
  rw [if_neg hopen]
  cases answer with
  | some errno => exact (Fallible.wp_throw _).mpr rfl
  | none => exact (Fallible.wp_pure _).mpr rfl

/-- The end of a `with` block leaves what closing by hand leaves. -/
theorem FdHandle.exit_state (answer : Option Int32) (handle : HandleId) (s : PyState) :
    (FdHandle.exit answer handle s).2 = (FdHandle.close answer handle s).2 := by
  simp only [FdHandle.exit, bind, Fallible.bind]
  split
  · next heq =>
    rw [heq]
    rfl
  · next heq => rw [heq]

/-! ### Arguments that name a file -/

/-- `AcceptableFile`: a handle or a bare descriptor. -/
inductive AcceptableFile where
  | int (fd : Int)
  | handle (h : HandleId)
  deriving DecidableEq, Repr

/-- The handle, if it is one. -/
def AcceptableFile.as_handle : AcceptableFile → Option HandleId
  | .int _ => none
  | .handle h => some h

/-- The descriptor that is meant. -/
def AcceptableFile.fd (handles : HandleId → FdHandle) : AcceptableFile → Int
  | .int fd => fd
  | .handle h => (handles h).fd

/-- The error for a handle that was closed. -/
def handle_closed (handle : FdHandle) : PyErr :=
  let fd := handle.fd
  .value_error s!"Handle FdHandle(fd={fd}) is closed"

/-- `unwrap_file` of `ring.py`: the descriptor of a handle that is not closed. -/
def unwrap_file (fd : AcceptableFile) : PyM Int := do
  match fd with
  | .int fd => return fd
  | .handle h =>
    let s ← get
    if ← close_called h then
      throw (handle_closed (s.handles h))
    return (s.handles h).fd

end CenturyRing
