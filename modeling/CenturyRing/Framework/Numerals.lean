import Mathlib.Data.List.Induction
import Mathlib.Data.List.Basic

/-! # Numerals

  A number is written in base `b` by its digits, the first digit first and no
  zero in front of others. `Nat.toDigits` writes numbers in this way, and every
  numeral of this form is one it writes.
-/

namespace Numerals

/-- The number that the digits `ds` stand for in base `b`. -/
def value (b : Nat) (ds : List Nat) : Nat := ds.foldl (fun n d => n * b + d) 0

/-- The digits of a number as it is written in base `b`. -/
structure Canonical (b : Nat) (ds : List Nat) : Prop where
  ne_nil : ds ≠ []
  lt : ∀ d ∈ ds, d < b
  no_leading_zero : 1 < ds.length → ds.head? ≠ some 0

variable {b : Nat} {ds : List Nat}

@[simp] theorem value_nil : value b [] = 0 := rfl

@[simp] theorem value_append_one (ds : List Nat) (d : Nat) :
    value b (ds ++ [d]) = value b ds * b + d := by
  simp [value]

theorem value_one (d : Nat) : value b [d] = d := by
  simp [value]

/-- A number whose first digit is not zero is not zero. -/
theorem value_pos (hb : 0 < b) (hne : ds ≠ []) (hhead : ds.head? ≠ some 0) : 0 < value b ds := by
  induction ds using List.reverseRecOn with
  | nil => exact absurd rfl hne
  | append_singleton ds d ih =>
    rw [value_append_one]
    cases ds with
    | nil =>
      have hd : d ≠ 0 := by simpa using hhead
      rw [value_nil]
      omega
    | cons d' ds =>
      have hpos := ih (by simp) (by simpa using hhead)
      exact Nat.add_pos_left (Nat.mul_pos hpos hb) d

/-- The digits of a number but the last are those of a number that is not
    zero, if there are any. -/
theorem Canonical.init {d : Nat} (h : Canonical b (ds ++ [d])) (hne : ds ≠ []) :
    Canonical b ds ∧ ds.head? ≠ some 0 := by
  have hlength : 1 < (ds ++ [d]).length := by
    have := List.length_pos_iff.mpr hne
    rw [List.length_append, List.length_singleton]
    omega
  have hhead := h.no_leading_zero hlength
  rw [List.head?_append_of_ne_nil _ hne] at hhead
  exact ⟨⟨hne, fun d hd => h.lt d (List.mem_append_left _ hd), fun _ => hhead⟩, hhead⟩

theorem Canonical.last_lt {d : Nat} (h : Canonical b (ds ++ [d])) : d < b :=
  h.lt d (by simp)

/-- A canonical numeral is the one written for its value. -/
theorem Canonical.toDigits_value (hb : 1 < b) (h : Canonical b ds) :
    Nat.toDigits b (value b ds) = ds.map Nat.digitChar := by
  induction ds using List.reverseRecOn with
  | nil => exact absurd rfl h.ne_nil
  | append_singleton ds d ih =>
    have hd := h.last_lt
    by_cases hne : ds = []
    · subst hne
      rw [List.nil_append, value_one, Nat.toDigits_of_lt_base hd]
      rfl
    · obtain ⟨hinit, hhead⟩ := h.init hne
      have hpos := value_pos (Nat.lt_trans Nat.zero_lt_one hb) hne hhead
      rw [value_append_one, Nat.mul_comm, ← Nat.toDigits_append_toDigits hb hpos hd, ih hinit,
        Nat.toDigits_of_lt_base hd, List.map_append]
      rfl

/-- Every number has a canonical numeral. -/
theorem exists_canonical (hb : 1 < b) (n : Nat) : ∃ ds, Canonical b ds ∧ value b ds = n := by
  induction n using Nat.strongRecOn with
  | _ n ih =>
    by_cases hn : n < b
    · exact ⟨[n], ⟨by simp, by simpa using hn, by simp⟩, value_one n⟩
    · have hquot : 0 < n / b := Nat.div_pos (Nat.le_of_not_lt hn) (by omega)
      obtain ⟨ds, hds, hvalue⟩ := ih (n / b) (Nat.div_lt_self (by omega) hb)
      refine ⟨ds ++ [n % b], ⟨by simp, ?_, ?_⟩, ?_⟩
      · intro d hd
        rcases List.mem_append.mp hd with hd | hd
        · exact hds.lt d hd
        · obtain rfl := List.mem_singleton.mp hd
          exact Nat.mod_lt n (by omega)
      · intro _ hhead
        rw [List.head?_append_of_ne_nil _ hds.ne_nil] at hhead
        -- A leading zero would be the only digit of `n / b`.
        by_cases hlength : 1 < ds.length
        · exact hds.no_leading_zero hlength hhead
        · obtain ⟨d, rfl⟩ : ∃ d, ds = [d] := by
            have := List.length_pos_iff.mpr hds.ne_nil
            exact List.length_eq_one_iff.mp (by omega)
          obtain rfl : d = 0 := by simpa using hhead
          rw [value_one] at hvalue
          omega
      · rw [value_append_one, hvalue, Nat.mul_comm]
        exact Nat.div_add_mod n b

/-- What is written for a number is its canonical numeral. -/
theorem toDigits_eq (hb : 1 < b) (n : Nat) :
    ∃ ds, Canonical b ds ∧ value b ds = n ∧ Nat.toDigits b n = ds.map Nat.digitChar := by
  obtain ⟨ds, hds, rfl⟩ := exists_canonical hb n
  exact ⟨ds, hds, rfl, hds.toDigits_value hb⟩

end Numerals
