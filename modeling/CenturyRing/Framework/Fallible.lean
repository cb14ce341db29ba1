import Mathlib.Init

/-! # Fallible stateful programs

  `Fallible σ ε α` is a program that works on a state `σ` and either returns
  an `α` or raises an `ε`. A raise does not undo anything: what was written
  to the state before it stays written.

  `m.wp Q E` is the weakest precondition of `m` for the two ways it can end:
  `Q` when it returns and `E` when it raises. The rules below compute it
  along the shape of the program.
-/

universe u

/-- A program on a state `σ` that returns an `α` or raises an `ε`. -/
def Fallible (σ ε α : Type u) : Type u := σ → Except ε α × σ

namespace Fallible

variable {σ τ ε α β : Type u}

/-- Run a program and hand what it returns to the next one. -/
protected def bind (m : Fallible σ ε α) (f : α → Fallible σ ε β) : Fallible σ ε β := fun s =>
  match m s with
  | (.ok a, s') => f a s'
  | (.error e, s') => (.error e, s')

instance : Monad (Fallible σ ε) where
  pure a := fun s => (.ok a, s)
  bind := Fallible.bind

instance : MonadExceptOf ε (Fallible σ ε) where
  throw e := fun s => (.error e, s)
  tryCatch m f := fun s =>
    match m s with
    | (.ok a, s') => (.ok a, s')
    | (.error e, s') => f e s'

instance : MonadStateOf σ (Fallible σ ε) where
  get := fun s => (.ok s, s)
  set s := fun _ => (.ok ⟨⟩, s)
  modifyGet f := fun s => (.ok (f s).1, (f s).2)

/-- A check that does not look at the state. -/
def check (r : Except ε α) : Fallible σ ε α := fun s => (r, s)

/-- Run a program on a part of a larger state. -/
def zoom (view : τ → σ) (put : σ → τ → τ) (m : Fallible σ ε α) : Fallible τ ε α := fun t =>
  ((m (view t)).1, put (m (view t)).2 t)

/-- Run a program, and `cleanup` however it ends. What `cleanup` raises comes
    in the place of what the program returned or raised. -/
def try_finally (m : Fallible σ ε α) (cleanup : Fallible σ ε PUnit) : Fallible σ ε α := fun s =>
  match cleanup (m s).2 with
  | (.ok _, s') => ((m s).1, s')
  | (.error e, s') => (.error e, s')

/-! ### Checks -/

section checks

variable {ε' : Type u} {x : Except ε α} {a : α}

theorem bind_ok {f : α → Except ε β} {b : β} (h : x >>= f = .ok b) :
    ∃ a, x = .ok a ∧ f a = .ok b := by
  cases x with
  | error e => cases h
  | ok a => exact ⟨a, rfl, h⟩

theorem mapError_ok {f : ε → ε'} (h : x.mapError f = .ok a) : x = .ok a := by
  cases x with
  | error e => cases h
  | ok a' =>
    cases h
    rfl

/-- A check that does nothing but raise was passed. -/
theorem guard_ok {c : Prop} [Decidable c] {e : ε}
    (h : (if c then throw e >>= fun (_ : PUnit) => x else x) = .ok a) : ¬c ∧ x = .ok a := by
  split at h
  · cases h
  · next hc => exact ⟨hc, h⟩

end checks

/-! ### Running a program -/

@[simp] theorem run_pure (a : α) (s : σ) : (pure a : Fallible σ ε α) s = (.ok a, s) := rfl

@[simp] theorem run_throw (e : ε) (s : σ) :
    (throw e : Fallible σ ε α) s = (.error e, s) := rfl

@[simp] theorem run_get (s : σ) : (get : Fallible σ ε σ) s = (.ok s, s) := rfl

@[simp] theorem run_modify (f : σ → σ) (s : σ) :
    (modify f : Fallible σ ε PUnit) s = (.ok ⟨⟩, f s) := rfl

@[simp] theorem run_check (r : Except ε α) (s : σ) :
    (check r : Fallible σ ε α) s = (r, s) := rfl

theorem run_bind_ok {m : Fallible σ ε α} {f : α → Fallible σ ε β} {s s' : σ} {a : α}
    (h : m s = (.ok a, s')) : (m >>= f) s = f a s' := by
  show (match m s with
    | (.ok a, s') => f a s'
    | (.error e, s') => (.error e, s')) = f a s'
  rw [h]

theorem run_bind_error {m : Fallible σ ε α} {f : α → Fallible σ ε β} {s s' : σ} {e : ε}
    (h : m s = (.error e, s')) : (m >>= f) s = (.error e, s') := by
  show (match m s with
    | (.ok a, s') => f a s'
    | (.error e, s') => (.error e, s')) = (.error e, s')
  rw [h]

/-! ### Weakest preconditions -/

/-- `m.wp Q E s`: run from `s`, `m` returns in a state that satisfies `Q` or
    raises in a state that satisfies `E`. -/
def wp (m : Fallible σ ε α) (Q : α → σ → Prop) (E : ε → σ → Prop) (s : σ) : Prop :=
  match m s with
  | (.ok a, s') => Q a s'
  | (.error e, s') => E e s'

section rules

variable {Q Q' : α → σ → Prop} {E E' : ε → σ → Prop} {s s' : σ}

@[simp] theorem wp_pure (a : α) : (pure a : Fallible σ ε α).wp Q E s ↔ Q a s := Iff.rfl

@[simp] theorem wp_throw (e : ε) : (throw e : Fallible σ ε α).wp Q E s ↔ E e s := Iff.rfl

@[simp] theorem wp_get {Q : σ → σ → Prop} : (get : Fallible σ ε σ).wp Q E s ↔ Q s s := Iff.rfl

@[simp] theorem wp_modify {Q : PUnit → σ → Prop} (f : σ → σ) :
    (modify f : Fallible σ ε PUnit).wp Q E s ↔ Q ⟨⟩ (f s) := Iff.rfl

@[simp] theorem wp_modifyGet (f : σ → α × σ) :
    (modifyGet f : Fallible σ ε α).wp Q E s ↔ Q (f s).1 (f s).2 := Iff.rfl

theorem wp_bind {m : Fallible σ ε α} {f : α → Fallible σ ε β} {Q : β → σ → Prop} :
    (m >>= f).wp Q E s ↔ m.wp (fun a s' => (f a).wp Q E s') E s := by
  unfold wp
  rcases h : m s with ⟨r, s'⟩
  cases r with
  | ok a => rw [run_bind_ok h]
  | error e => rw [run_bind_error h]

theorem wp_ite {c : Prop} [Decidable c] {m m' : Fallible σ ε α} :
    (if c then m else m').wp Q E s ↔ (c → m.wp Q E s) ∧ (¬c → m'.wp Q E s) := by
  by_cases h : c <;> simp [h]

/-- A check either raises its error or hands its value to the rest. -/
theorem wp_check_iff {r : Except ε α} :
    (check r : Fallible σ ε α).wp Q E s ↔
      (∀ a, r = .ok a → Q a s) ∧ (∀ e, r = .error e → E e s) := by
  cases r <;> simp [wp]

/-- **Check rule**: a check leaves the state alone and adds what its outcome
    says. -/
theorem wp_check {r : Except ε α} {f : α → Fallible σ ε β} {Q : β → σ → Prop}
    (hE : ∀ e, r = .error e → E e s) (hf : ∀ a, r = .ok a → (f a).wp Q E s) :
    (check r >>= f).wp Q E s := by
  rw [wp_bind, wp_check_iff]
  exact ⟨hf, hE⟩

theorem wp_zoom {view : τ → σ} {put : σ → τ → τ} {m : Fallible σ ε α}
    {Q : α → τ → Prop} {E : ε → τ → Prop} {t : τ} :
    (m.zoom view put).wp Q E t ↔
      m.wp (fun a s' => Q a (put s' t)) (fun e s' => E e (put s' t)) (view t) := by
  unfold wp zoom
  rcases m (view t) with ⟨r, s'⟩
  cases r <;> rfl

/-- **Handler rule**: the handler runs in the state in which the program
    raised. -/
theorem wp_tryCatch {m : Fallible σ ε α} {f : ε → Fallible σ ε α} :
    (tryCatch m f).wp Q E s ↔ m.wp Q (fun e s' => (f e).wp Q E s') s := by
  unfold wp
  simp only [tryCatch, tryCatchThe, MonadExceptOf.tryCatch]
  rcases m s with ⟨r, s'⟩
  cases r <;> rfl

/-- **Cleanup rule**: `cleanup` runs in every state in which the program can
    end. -/
theorem wp_try_finally {m : Fallible σ ε α} {cleanup : Fallible σ ε PUnit} :
    (m.try_finally cleanup).wp Q E s ↔
      m.wp (fun a s' => cleanup.wp (fun _ s'' => Q a s'') E s')
        (fun e s' => cleanup.wp (fun _ s'' => E e s'') E s') s := by
  unfold wp try_finally
  rcases m s with ⟨r, s'⟩
  rcases hcleanup : cleanup s' with ⟨r', s''⟩
  cases r <;> cases r' <;> simp [hcleanup]

/-- **Consequence rule.** -/
theorem wp_mono {m : Fallible σ ε α} (h : m.wp Q E s) (hQ : ∀ a s', Q a s' → Q' a s')
    (hE : ∀ e s', E e s' → E' e s') : m.wp Q' E' s := by
  unfold wp at h ⊢
  rcases hm : m s with ⟨r, s'⟩
  rw [hm] at h
  cases r with
  | ok a => exact hQ a s' h
  | error e => exact hE e s' h

/-- A program that is known to return. -/
theorem wp_of_run {m : Fallible σ ε α} {a : α} (hm : m s = (.ok a, s')) :
    m.wp Q E s ↔ Q a s' := by
  unfold wp
  rw [hm]

/-- The precondition of a program that returned. -/
theorem wp_ok {m : Fallible σ ε α} {a : α} (h : m.wp Q E s) (hm : m s = (.ok a, s')) :
    Q a s' := by
  unfold wp at h
  rwa [hm] at h

/-- The precondition of a program that raised. -/
theorem wp_error {m : Fallible σ ε α} {e : ε} (h : m.wp Q E s) (hm : m s = (.error e, s')) :
    E e s' := by
  unfold wp at h
  rwa [hm] at h

/-- **Return rule**: a program that can only return if `P` holds, and only raise
    if it does not, returns exactly if `P` holds. -/
theorem returns_iff {m : Fallible σ ε α} {P : Prop} (h : m.wp (fun _ _ => P) (fun _ _ => ¬P) s) :
    (∃ a, (m s).1 = .ok a) ↔ P := by
  rcases hm : m s with ⟨r, s'⟩
  cases r with
  | ok a =>
    have hP : P := wp_ok h hm
    exact iff_of_true ⟨a, rfl⟩ hP
  | error e =>
    have hP : ¬P := wp_error h hm
    exact iff_of_false nofun hP

/-- What holds however the program ends holds of the state it leaves. -/
theorem wp_state {m : Fallible σ ε α} {P : σ → Prop}
    (h : m.wp (fun _ s' => P s') (fun _ s' => P s') s) : P (m s).2 := by
  unfold wp at h
  rcases hm : m s with ⟨r, s'⟩
  rw [hm] at h
  cases r <;> exact h

/-- However the program ends, it leaves a state that satisfies `P`. -/
abbrev Ends (m : Fallible σ ε α) (P : σ → Prop) (s : σ) : Prop :=
  m.wp (fun _ s' => P s') (fun _ s' => P s') s

theorem Ends.mono {m : Fallible σ ε α} {P P' : σ → Prop} (h : m.Ends P s)
    (hP : ∀ s', P s' → P' s') : m.Ends P' s :=
  wp_mono h (fun _ s' hs' => hP s' hs') fun _ s' hs' => hP s' hs'

end rules

/-! ### Invariants -/

/-- Started where `I` holds, the program ends where `I` holds, however it
    ends. -/
def Keeps (I : σ → Prop) (m : Fallible σ ε α) : Prop :=
  ∀ s, I s → m.wp (fun _ s' => I s') (fun _ s' => I s') s

section keeps

variable {I : σ → Prop} {m : Fallible σ ε α}

theorem Keeps.check (r : Except ε α) : (Fallible.check r).Keeps I :=
  fun _ hs => wp_check_iff.mpr ⟨fun _ _ => hs, fun _ _ => hs⟩

theorem Keeps.pure (a : α) : (Pure.pure a : Fallible σ ε α).Keeps I :=
  fun _ hs => (wp_pure a).mpr hs

theorem Keeps.throw (e : ε) : (MonadExcept.throw e : Fallible σ ε α).Keeps I :=
  fun _ hs => (wp_throw e).mpr hs

theorem Keeps.modify {f : σ → σ} (hf : ∀ s, I s → I (f s)) :
    (modify f : Fallible σ ε PUnit).Keeps I :=
  fun s hs => (wp_modify f).mpr (hf s hs)

theorem Keeps.bind {f : α → Fallible σ ε β} (hm : m.Keeps I) (hf : ∀ a, (f a).Keeps I) :
    (m >>= f).Keeps I :=
  fun s hs => wp_bind.mpr (wp_mono (hm s hs) (fun a s' hs' => hf a s' hs') fun _ _ hs' => hs')

theorem Keeps.ite {c : Prop} [Decidable c] {m' : Fallible σ ε α} (hm : m.Keeps I)
    (hm' : m'.Keeps I) : (if c then m else m').Keeps I :=
  fun s hs => wp_ite.mpr ⟨fun _ => hm s hs, fun _ => hm' s hs⟩

theorem Keeps.tryCatch {f : ε → Fallible σ ε α} (hm : m.Keeps I) (hf : ∀ e, (f e).Keeps I) :
    (MonadExcept.tryCatch m f).Keeps I :=
  fun s hs => wp_tryCatch.mpr
    (wp_mono (hm s hs) (fun _ _ hs' => hs') fun e s' hs' => hf e s' hs')

theorem Keeps.try_finally {cleanup : Fallible σ ε PUnit} (hm : m.Keeps I)
    (hcleanup : cleanup.Keeps I) : (m.try_finally cleanup).Keeps I :=
  fun s hs => wp_try_finally.mpr
    (wp_mono (hm s hs) (fun _ s' hs' => hcleanup s' hs') fun _ s' hs' => hcleanup s' hs')

end keeps

-- Goals about a program are computed by the rules, never by running it.
attribute [irreducible] wp

end Fallible
