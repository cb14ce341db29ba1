import CenturyRing.Address
import CenturyRing.Framework.Numerals
import Mathlib.Data.List.TakeWhile
import Mathlib.Tactic.IntervalCases

/-! # Addresses as text

  `prep_connect_v4` and `prep_connect_v6` turn an address of the `ipaddress`
  module into text with `str`, and the Rust side parses the text. Here what
  `str` writes is read back.

  - `Ipv4Addr.from_str_iff`: what is accepted for an IPv4 address is what `str`
    writes for it, and nothing else.
  - `IPv6Address.from_str_str`: what `str` writes for an IPv6 address is read
    back as this address, unless the address has a scope id. Then it is refused.
-/

open Numerals

namespace CenturyRing

/-! ### What `str` writes -/

/-- `str` of a `ipaddress.IPv4Address`: its octets in decimal. -/
def Ipv4Addr.chars (a : Ipv4Addr) : List Char :=
  let (one, two, three, four) := a.octets
  ['.'].intercalate ([one, two, three, four].map fun octet => Nat.toDigits 10 octet.toNat)

def Ipv4Addr.str (a : Ipv4Addr) : String := .ofList a.chars

namespace IPv6Address

/-- The variables of the loop in `_compress_hextets`. -/
structure Compress where
  best_doublecolon_start : Int
  best_doublecolon_len : Nat
  doublecolon_start : Int
  doublecolon_len : Nat

/-- The body of the loop. -/
def Compress.next (c : Compress) (index : Nat) (hextet : List Char) : Compress :=
  if hextet = ['0'] then
    let doublecolon_len := c.doublecolon_len + 1
    let doublecolon_start := if c.doublecolon_start = -1 then (index : Int)
      else c.doublecolon_start
    if doublecolon_len > c.best_doublecolon_len then
      ⟨doublecolon_start, doublecolon_len, doublecolon_start, doublecolon_len⟩
    else
      { c with doublecolon_start, doublecolon_len }
  else
    { c with doublecolon_start := -1, doublecolon_len := 0 }

/-- The loop over the hextets from index `index` on. -/
def Compress.loop (c : Compress) (index : Nat) : List (List Char) → Compress
  | [] => c
  | hextet :: hextets => (c.next index hextet).loop (index + 1) hextets

/-- `IPv6Address._compress_hextets`: the longest run of zeros, if there is one
    of at least two, becomes an empty string. -/
def compress_hextets (hextets : List (List Char)) : List (List Char) :=
  let c := Compress.loop ⟨-1, 0, -1, 0⟩ 0 hextets
  if c.best_doublecolon_len > 1 then
    let start := c.best_doublecolon_start.toNat
    let best_doublecolon_end := start + c.best_doublecolon_len
    let hextets := if best_doublecolon_end = hextets.length then hextets ++ [[]] else hextets
    let hextets := hextets.take start ++ [[]] ++ hextets.drop best_doublecolon_end
    if start = 0 then [] :: hextets else hextets
  else
    hextets

/-- `'%x' % segment`. -/
def hextet (segment : UInt16) : List Char := Nat.toDigits 16 segment.toNat

/-- `IPv6Address._string_from_ip_int`. -/
def string_from_segments (segments : List UInt16) : List Char :=
  [':'].intercalate (compress_hextets (segments.map hextet))

end IPv6Address

/-- `IPv6Address.ipv4_mapped`. -/
def Ipv6Addr.ipv4_mapped (a : Ipv6Addr) : Option Ipv4Addr :=
  if a.segments.take 6 = [0, 0, 0, 0, 0, 0xFFFF] then
    match a.segments.drop 6 with
    | [high, low] =>
      some ⟨(high >>> 8).toUInt8, high.toUInt8, (low >>> 8).toUInt8, low.toUInt8⟩
    | _ => none
  else
    none

/-- An `ipaddress.IPv6Address`. What follows a `%` in its text is its scope id,
    which is not empty. -/
structure IPv6Address where
  ip : Ipv6Addr
  scope_id : Option (List Char)
  scope_id_ne_nil : scope_id ≠ some []

/-- `str` of the address without its scope id. An address that is mapped from
    an IPv4 address ends in its octets in decimal. -/
def Ipv6Addr.chars (a : Ipv6Addr) : List Char :=
  match a.ipv4_mapped with
  | none => IPv6Address.string_from_segments a.segments
  | some v4 => IPv6Address.string_from_segments [0, 0, 0, 0, 0, 0, 0, 0xFFFF] ++ [':'] ++ v4.chars

/-- `str` of an `ipaddress.IPv6Address`. -/
def IPv6Address.str (a : IPv6Address) : String :=
  .ofList (match a.scope_id with
    | some scope_id => a.ip.chars ++ ['%'] ++ scope_id
    | none => a.ip.chars)

namespace Parser

/-! ### Numbers -/

section numbers

variable {radix max_digits max n : Nat} {zero_prefix_allowed : Bool} {input rest : List Char}

/-- The characters of a numeral are read as its digits. -/
theorem to_digit_digitChar {d : Nat} (hradix : radix ≤ 16) (hd : d < radix) :
    to_digit radix d.digitChar = some d := by
  have : d < 16 := by omega
  interval_cases d <;> exact if_pos hd

/-- In base 10 there are no other characters for a digit. -/
theorem eq_digitChar_of_to_digit {c : Char} {d : Nat} (h : to_digit 10 c = some d) :
    c = d.digitChar ∧ d < 10 := by
  simp only [to_digit, Option.ite_none_right_eq_some, Option.some.injEq] at h
  obtain ⟨hlt, rfl⟩ := h
  by_cases hc : '0' ≤ c ∧ c ≤ '9'
  · rw [if_pos hc] at hlt ⊢
    have hlow : 48 ≤ c.toNat := UInt32.le_iff_toNat_le.mp hc.1
    refine ⟨Char.toNat_inj.mp ?_, hlt⟩
    rw [Nat.toNat_digitChar_of_lt_ten hlt]
    exact (Nat.add_sub_cancel' hlow).symm
  · rw [if_neg hc] at hlt
    split at hlt
    · omega
    · split at hlt <;> omega

/-- What does not begin with a digit. -/
def NoDigit (radix : Nat) (rest : List Char) : Prop :=
  ∀ c, rest.head? = some c → to_digit radix c = none

theorem noDigit_nil : NoDigit radix [] := by
  intro c hc
  cases hc

theorem takeWhile_noDigit (h : NoDigit radix rest) :
    rest.takeWhile (fun c => (to_digit radix c).isSome) = [] := by
  cases rest with
  | nil => rfl
  | cons c rest => simp [h c rfl]

/-- The digits in front of the rest are read, all of them. -/
theorem digits_read {ds : List Nat} (hradix : radix ≤ 16) (hds : ∀ d ∈ ds, d < radix)
    (hrest : NoDigit radix rest) :
    ((ds.map Nat.digitChar ++ rest).takeWhile fun c => (to_digit radix c).isSome).filterMap
      (to_digit radix) = ds := by
  have hdigit : ∀ d ∈ ds, to_digit radix d.digitChar = some d :=
    fun d hd => to_digit_digitChar hradix (hds d hd)
  rw [List.takeWhile_append_of_pos, takeWhile_noDigit hrest, List.append_nil, List.filterMap_map]
  · conv_rhs => rw [← List.filterMap_some (l := ds)]
    exact List.filterMap_congr fun d hd => hdigit d hd
  · intro c hc
    obtain ⟨d, hd, rfl⟩ := List.mem_map.mp hc
    rw [hdigit d hd]
    rfl

/-- A number written in its base is read back, up to where its digits end. -/
theorem read_number_toDigits (hradix : 1 < radix ∧ radix ≤ 16) (hn : n ≤ max)
    (hlength : (Nat.toDigits radix n).length ≤ max_digits) (hrest : NoDigit radix rest) :
    read_number radix max_digits max zero_prefix_allowed (Nat.toDigits radix n ++ rest) =
      some (n, rest) := by
  obtain ⟨ds, hds, hvalue, htext⟩ := toDigits_eq hradix.1 n
  rw [htext, List.length_map] at hlength
  simp only [read_number, htext, digits_read hradix.2 hds.lt hrest]
  have hpos := List.length_pos_iff.mpr hds.ne_nil
  rw [if_neg (by omega), if_neg, if_pos, List.drop_left' (List.length_map _)]
  · exact congrArg (fun n => some (n, rest)) hvalue
  · rw [← hvalue] at hn
    exact hn
  · -- no zero stands in front of others
    intro hzero
    simp only [Bool.and_eq_true, decide_eq_true_eq, beq_iff_eq] at hzero
    obtain ⟨⟨-, hhead⟩, hlong⟩ := hzero
    refine hds.no_leading_zero hlong ?_
    cases ds with
    | nil => exact absurd rfl hds.ne_nil
    | cons d ds =>
      have hd : d.digitChar = '0' := by simpa using hhead
      have hdigit := to_digit_digitChar hradix.2 (hds.lt d List.mem_cons_self)
      have hzero := to_digit_digitChar hradix.2 (Nat.lt_trans Nat.zero_lt_one hradix.1)
      rw [hd] at hdigit
      exact hdigit.symm.trans hzero

/-- The digits `input` begins with. -/
def leading_digits (radix : Nat) (input : List Char) : List Nat :=
  (input.takeWhile fun c => (to_digit radix c).isSome).filterMap (to_digit radix)

/-- Everything a number that is read satisfies. -/
theorem read_number_cases (h : read_number radix max_digits max zero_prefix_allowed input =
    some (n, rest)) :
    leading_digits radix input ≠ [] ∧
      (zero_prefix_allowed = false → 1 < (leading_digits radix input).length →
        input.head? ≠ some '0') ∧
      value radix (leading_digits radix input) = n ∧ n ≤ max ∧
      input.drop (leading_digits radix input).length = rest := by
  simp only [read_number] at h
  split at h
  · cases h
  next hlength =>
  split at h
  · cases h
  next hprefix =>
  split at h
  · next hmax =>
    cases h
    refine ⟨fun hnil => hlength (.inr (List.length_eq_zero_iff.mpr hnil)), ?_, rfl, hmax, rfl⟩
    intro hallow hlong hzero
    refine hprefix ?_
    simp only [Bool.and_eq_true, decide_eq_true_eq, beq_iff_eq]
    exact ⟨⟨by rw [hallow]; rfl, hzero⟩, hlong⟩
  · cases h

/-- What is left once a number is read begins where its digits end. -/
theorem read_number_rest (h : read_number radix max_digits max zero_prefix_allowed input =
    some (n, rest)) : rest = input.dropWhile fun c => (to_digit radix c).isSome := by
  obtain ⟨-, -, -, -, rfl⟩ := read_number_cases h
  have hlength : (leading_digits radix input).length =
      (input.takeWhile fun c => (to_digit radix c).isSome).length := by
    rw [leading_digits, List.filterMap_length_eq_length]
    exact fun c hc => List.mem_takeWhile_imp (p := fun c => (to_digit radix c).isSome) hc
  rw [hlength]
  conv_lhs => rw [← List.takeWhile_append_dropWhile (p := fun c => (to_digit radix c).isSome)
    (l := input)]
  exact List.drop_left' (by rw [List.takeWhile_append_dropWhile])

/-- In base 10 the characters of the digits are those of a numeral. -/
theorem map_digitChar_leading_digits (input : List Char) :
    (leading_digits 10 input).map Nat.digitChar =
      input.takeWhile fun c => (to_digit 10 c).isSome := by
  rw [leading_digits, List.map_filterMap]
  conv_rhs => rw [← List.filterMap_some
    (l := input.takeWhile fun c => (to_digit 10 c).isSome)]
  refine List.filterMap_congr fun c hc => ?_
  obtain ⟨d, hd⟩ : ∃ d, to_digit 10 c = some d :=
    Option.isSome_iff_exists.mp
      (List.mem_takeWhile_imp (p := fun c => (to_digit 10 c).isSome) hc)
  rw [hd, (eq_digitChar_of_to_digit hd).1]
  rfl

/-- In base 10 a number that is read is as it is written. -/
theorem read_number_some (h : read_number 10 max_digits max false input = some (n, rest)) :
    input = Nat.toDigits 10 n ++ rest ∧ n ≤ max := by
  obtain ⟨hne, hzero, rfl, hmax, -⟩ := read_number_cases h
  obtain rfl := read_number_rest h
  refine ⟨?_, hmax⟩
  have hcanonical : Canonical 10 (leading_digits 10 input) := by
    refine ⟨hne, ?_, ?_⟩
    · intro d hd
      obtain ⟨c, -, hc⟩ := List.mem_filterMap.mp hd
      exact (eq_digitChar_of_to_digit hc).2
    · intro hlong hhead
      have htext := congrArg List.head? (map_digitChar_leading_digits input)
      rw [List.head?_map, hhead, List.head?_takeWhile] at htext
      exact hzero rfl hlong (Option.filter_eq_some_iff.mp htext.symm).1
  rw [hcanonical.toDigits_value (by decide), map_digitChar_leading_digits,
    List.takeWhile_append_dropWhile]

end numbers

/-! ### IPv4 addresses -/

section ipv4

variable {a : Ipv4Addr} {input rest : List Char}

theorem chars_ipv4 (one two three four : UInt8) (rest : List Char) :
    (Ipv4Addr.mk (one, two, three, four)).chars ++ rest =
      Nat.toDigits 10 one.toNat ++ '.' :: (Nat.toDigits 10 two.toNat ++ '.' ::
        (Nat.toDigits 10 three.toNat ++ '.' :: (Nat.toDigits 10 four.toNat ++ rest))) := by
  simp [Ipv4Addr.chars, List.intercalate]

theorem noDigit_dot : NoDigit 10 ('.' :: rest) := by
  intro c hc
  cases hc
  decide

/-- An octet is read back. -/
theorem read_octet (octet : UInt8) (hrest : NoDigit 10 rest) :
    read_number 10 3 255 false (Nat.toDigits 10 octet.toNat ++ rest) =
      some (octet.toNat, rest) := by
  have hoctet := octet.toNat_lt
  refine read_number_toDigits (by decide) (by omega) ?_ hrest
  exact (Nat.length_toDigits_le_iff (by decide) (by decide)).mpr (by omega)

/-- What is written for an IPv4 address is read back. -/
theorem read_ipv4_addr_chars (a : Ipv4Addr) (hrest : NoDigit 10 rest) :
    read_ipv4_addr (a.chars ++ rest) = some (a, rest) := by
  obtain ⟨one, two, three, four⟩ := a
  rw [chars_ipv4]
  simp [read_ipv4_addr, read_separator, read_given_char, read_octet, noDigit_dot, hrest]

/-- An element that is not the first has its separator in front. -/
theorem read_separator_some {α : Type} {sep : Char} {i : Nat}
    {inner : List Char → Option (α × List Char)} {x : α}
    (h : read_separator sep (i + 1) inner input = some (x, rest)) :
    ∃ input', input = sep :: input' ∧ inner input' = some (x, rest) := by
  rw [read_separator, if_pos (Nat.succ_pos i)] at h
  obtain ⟨input', hsep, hinner⟩ := Option.bind_eq_some_iff.mp h
  refine ⟨input', ?_, hinner⟩
  unfold read_given_char at hsep
  split at hsep
  · cases hsep
  · split at hsep
    · next heq =>
      cases hsep
      rw [heq]
    · cases hsep

theorem read_octet_some {n : Nat} (h : read_number 10 3 255 false input = some (n, rest)) :
    input = Nat.toDigits 10 (UInt8.ofNat n).toNat ++ rest := by
  obtain ⟨htext, hmax⟩ := read_number_some h
  rw [UInt8.toNat_ofNat_of_lt' (Nat.lt_succ_of_le hmax)]
  exact htext

/-- Nothing else is read as the address. -/
theorem read_ipv4_addr_some (h : read_ipv4_addr input = some (a, rest)) :
    input = a.chars ++ rest := by
  simp only [read_ipv4_addr, Option.bind_eq_bind, Option.bind_eq_some_iff] at h
  obtain ⟨⟨one, input₁⟩, h₁, ⟨two, input₂⟩, h₂, ⟨three, input₃⟩, h₃, ⟨four, input₄⟩, h₄, h⟩ := h
  cases h
  obtain ⟨input₁', rfl, h₂⟩ := read_separator_some h₂
  obtain ⟨input₂', rfl, h₃⟩ := read_separator_some h₃
  obtain ⟨input₃', rfl, h₄⟩ := read_separator_some h₄
  rw [chars_ipv4, ← read_octet_some h₄, ← read_octet_some h₃, ← read_octet_some h₂]
  exact read_octet_some h₁

/-- An address needs a dot behind its first number. -/
theorem read_ipv4_addr_none
    (h : (input.dropWhile fun c => (to_digit 10 c).isSome).head? ≠ some '.') :
    read_ipv4_addr input = none := by
  rw [Option.eq_none_iff_forall_not_mem]
  intro out hout
  simp only [Option.mem_def, read_ipv4_addr, Option.bind_eq_bind, Option.bind_eq_some_iff] at hout
  obtain ⟨⟨one, input₁⟩, h₁, ⟨two, input₂⟩, h₂, -⟩ := hout
  obtain ⟨input₁', rfl, -⟩ := read_separator_some h₂
  refine h ?_
  rw [← read_number_rest h₁]
  rfl

end ipv4

/-! ### IPv6 addresses -/

section ipv6

open IPv6Address

variable {segments : List UInt16} {input rest : List Char}

theorem noDigit_of_hex (h : NoDigit 16 rest) : NoDigit 10 rest := by
  intro c hc
  rw [Option.eq_none_iff_forall_not_mem]
  intro d hd
  obtain ⟨rfl, hlt⟩ := eq_digitChar_of_to_digit hd
  have hdigit := to_digit_digitChar (Nat.le_refl 16) (Nat.lt_trans hlt (by decide))
  rw [h _ hc] at hdigit
  cases hdigit

/-- A group is read back. -/
theorem read_hextet (segment : UInt16) (hrest : NoDigit 16 rest) :
    read_number 16 4 65535 true (hextet segment ++ rest) = some (segment.toNat, rest) := by
  have hsegment := segment.toNat_lt
  refine read_number_toDigits (by decide) (by omega) ?_ hrest
  exact (Nat.length_toDigits_le_iff (by decide) (by decide)).mpr (by omega)

/-- No dot comes right behind the decimal digits a group begins with. -/
theorem read_ipv4_addr_hextet (segment : UInt16) (hrest : NoDigit 16 rest)
    (hdot : rest.head? ≠ some '.') : read_ipv4_addr (hextet segment ++ rest) = none := by
  apply read_ipv4_addr_none
  have hnodot : ∀ c ∈ hextet segment, c ≠ '.' := by
    intro c hc
    obtain ⟨ds, hds, -, htext⟩ := toDigits_eq (b := 16) (by decide) segment.toNat
    rw [hextet, htext] at hc
    obtain ⟨d, hd, rfl⟩ := List.mem_map.mp hc
    intro heq
    have hdigit := to_digit_digitChar (Nat.le_refl 16) (hds.lt d hd)
    rw [heq, show to_digit 16 '.' = none by decide] at hdigit
    cases hdigit
  generalize hextet segment = cs at hnodot
  induction cs with
  | nil =>
    cases rest with
    | nil => simp
    | cons c rest =>
      rw [List.nil_append, List.dropWhile_cons, noDigit_of_hex hrest c rfl]
      exact hdot
  | cons c cs ih =>
    rw [List.cons_append, List.dropWhile_cons]
    split
    · exact ih fun c' hc' => hnodot c' (List.mem_cons_of_mem _ hc')
    · simpa using hnodot c List.mem_cons_self

/-- No further group can be read from `rest`. -/
structure NoGroup (rest : List Char) : Prop where
  no_digit : NoDigit 16 rest
  no_dot : rest.head? ≠ some '.'
  no_number : ∀ i, read_separator ':' i (read_number 16 4 65535 true) rest = none
  no_ipv4 : ∀ i, read_separator ':' i read_ipv4_addr rest = none

theorem noDigit_colon : NoDigit 16 (':' :: rest) := by
  intro c hc
  cases hc
  decide

theorem read_number_none {max_digits max : Nat} {zero_prefix_allowed : Bool}
    (h : NoDigit 16 rest) : read_number 16 max_digits max zero_prefix_allowed rest = none := by
  simp [read_number, takeWhile_noDigit h]

/-- Nothing is read from a text that ends here or goes on with something else. -/
theorem NoGroup.of_end (h : NoDigit 16 rest) (hdot : rest.head? ≠ some '.')
    (hcolon : rest.head? ≠ some ':') : NoGroup rest := by
  have hsep : read_given_char ':' rest = none := by
    cases rest with
    | nil => rfl
    | cons c rest =>
      rw [read_given_char, if_neg]
      simpa using hcolon
  have hipv4 : read_ipv4_addr rest = none := by
    refine read_ipv4_addr_none ?_
    cases rest with
    | nil => simp
    | cons c rest =>
      rw [List.dropWhile_cons, noDigit_of_hex h c rfl]
      exact hdot
  refine ⟨h, hdot, ?_, ?_⟩
  · intro i
    rw [read_separator, hsep, read_number_none h]
    split <;> rfl
  · intro i
    rw [read_separator, hsep, hipv4]
    split <;> rfl

/-- No group is read from the two colons. -/
theorem NoGroup.colons : NoGroup (':' :: ':' :: rest) := by
  have hipv4 : ∀ rest, read_ipv4_addr (':' :: rest) = none := by
    intro rest
    have hcolon : NoDigit 16 (':' :: rest) := noDigit_colon
    refine read_ipv4_addr_none ?_
    rw [List.dropWhile_cons, noDigit_of_hex hcolon ':' rfl]
    simp
  refine ⟨noDigit_colon, by simp, ?_, ?_⟩
  · intro i
    rw [read_separator]
    split
    · show read_number 16 4 65535 true (':' :: rest) = none
      exact read_number_none noDigit_colon
    · exact read_number_none noDigit_colon
  · intro i
    rw [read_separator]
    split
    · exact hipv4 _
    · exact hipv4 _

/-- The hextets behind the first, each with its colon. -/
def behind (segments : List UInt16) : List Char :=
  (segments.map hextet).flatMap fun hextet => ':' :: hextet

/-- The hextets that are read when `i` groups have been. -/
def groups_text (i : Nat) (segments : List UInt16) : List Char :=
  if i = 0 then [':'].intercalate (segments.map hextet) else behind segments

theorem intercalate_cons (sep : Char) (text : List Char) (texts : List (List Char)) :
    [sep].intercalate (text :: texts) = text ++ texts.flatMap (sep :: ·) := by
  induction texts generalizing text with
  | nil => simp
  | cons text' texts ih =>
    rw [List.intercalate_cons_cons, ih, List.flatMap_cons]
    simp

theorem read_separator_groups {α : Type} (inner : List Char → Option (α × List Char)) (i : Nat)
    (segment : UInt16) (segments : List UInt16) :
    read_separator ':' i inner (groups_text i (segment :: segments) ++ rest) =
      inner (hextet segment ++ (behind segments ++ rest)) := by
  rw [groups_text, read_separator, List.map_cons]
  split
  · next hi =>
    rw [if_neg (Nat.ne_of_gt hi)]
    simp [behind, read_given_char]
  · next hi =>
    rw [if_pos (Nat.eq_zero_of_not_pos hi), intercalate_cons, List.append_assoc]
    rfl

/-- Groups are read back as far as they go. -/
theorem read_groups_groups_text (limit room : Nat) (groups segments : List UInt16)
    (hroom : segments.length ≤ room) (hrest : NoGroup rest) :
    read_groups limit room groups (groups_text groups.length segments ++ rest) =
      ((groups ++ segments, false), rest) := by
  induction segments generalizing room groups with
  | nil =>
    have htext : groups_text groups.length [] = [] := by
      unfold groups_text
      split <;> rfl
    rw [htext, List.nil_append, List.append_nil]
    cases room with
    | zero => rfl
    | succ room =>
      simp only [read_groups, hrest.no_number, hrest.no_ipv4, ite_self]
  | cons segment segments ih =>
    cases room with
    | zero => exact absurd hroom (Nat.not_succ_le_zero _)
    | succ room =>
      have hbehind : NoDigit 16 (behind segments ++ rest) ∧
          (behind segments ++ rest).head? ≠ some '.' := by
        cases segments with
        | nil => exact ⟨hrest.no_digit, hrest.no_dot⟩
        | cons segment' segments => exact ⟨noDigit_colon, by simp [behind]⟩
      have hnext := ih room (groups ++ [segment]) (Nat.le_of_succ_le_succ hroom)
      rw [groups_text, List.length_append, List.length_singleton, if_neg (Nat.succ_ne_zero _),
        List.append_assoc] at hnext
      simp only [read_groups, read_separator_groups, read_ipv4_addr_hextet segment hbehind.1
        hbehind.2, read_hextet segment hbehind.1, ite_self, UInt16.ofNat_toNat]
      exact hnext

theorem ipv6_of_groups_segments (a : Ipv6Addr) : ipv6_of_groups a.segments = some a :=
  dif_pos a.length_eq

/-- The groups of a text without `::` are read back. -/
theorem read_ipv6_addr_groups (a : Ipv6Addr) (hrest : NoGroup rest) :
    read_ipv6_addr ([':'].intercalate (a.segments.map hextet) ++ rest) = some (a, rest) := by
  have hread := read_groups_groups_text 8 8 [] a.segments (Nat.le_of_eq a.length_eq) hrest
  rw [groups_text, if_pos List.length_nil, List.nil_append] at hread
  simp [read_ipv6_addr, hread, a.length_eq, ipv6_of_groups_segments]

/-- The groups around a `::` are read back, with zeros between them. -/
theorem read_ipv6_addr_colons (a : Ipv6Addr) {before after : List UInt16} {n : Nat}
    (hn : 2 ≤ n) (hsegments : a.segments = before ++ List.replicate n 0 ++ after)
    (hrest : NoGroup rest) :
    read_ipv6_addr ([':'].intercalate (before.map hextet) ++ ':' :: ':' ::
      ([':'].intercalate (after.map hextet) ++ rest)) = some (a, rest) := by
  have hlength := a.length_eq
  rw [hsegments, List.length_append, List.length_append, List.length_replicate] at hlength
  have hcolons : NoGroup (':' :: ':' :: ([':'].intercalate (after.map hextet) ++ rest)) := .colons
  have hhead := read_groups_groups_text 8 8 [] before (by omega) hcolons
  have htail := read_groups_groups_text (7 - before.length) (7 - before.length) [] after
    (by omega) hrest
  rw [groups_text, if_pos List.length_nil, List.nil_append] at hhead htail
  have hzeros : 8 - (before.length + after.length) = n := by omega
  have hgroups := ipv6_of_groups_segments a
  rw [hsegments, List.append_assoc] at hgroups
  have hshort : before.length ≠ 8 := by omega
  simp [read_ipv6_addr, hhead, hshort, read_given_char, htail, hzeros, hgroups]

end ipv6

end Parser

/-! ### The run of zeros -/

namespace IPv6Address

/-- What the loop knows after the hextets `done`: the run of zeros at their end
    and the longest one so far. -/
structure Compress.Knows (c : Compress) (done : List (List Char)) : Prop where
  current : c.doublecolon_start = -1 ∧ c.doublecolon_len = 0 ∨ ∃ before,
    done = before ++ List.replicate c.doublecolon_len ['0'] ∧
      c.doublecolon_start = before.length
  best : c.best_doublecolon_len = 0 ∨ ∃ before after,
    done = before ++ List.replicate c.best_doublecolon_len ['0'] ++ after ∧
      c.best_doublecolon_start = before.length

variable {c : Compress} {done : List (List Char)}

/-- The best run stays where it is. -/
theorem Compress.Knows.best_snoc (h : c.Knows done) (hextet : List Char) :
    c.best_doublecolon_len = 0 ∨ ∃ before after,
      done ++ [hextet] = before ++ List.replicate c.best_doublecolon_len ['0'] ++ after ∧
        c.best_doublecolon_start = before.length := by
  refine h.best.imp_right ?_
  rintro ⟨before, after, rfl, hstart⟩
  exact ⟨before, after ++ [hextet], by simp, hstart⟩

/-- **Step lemma** of the loop. -/
theorem Compress.Knows.next (h : c.Knows done) (hextet : List Char) :
    (c.next done.length hextet).Knows (done ++ [hextet]) := by
  unfold Compress.next
  by_cases hzero : hextet = ['0']
  · rw [if_pos hzero]
    dsimp only
    subst hzero
    have hcurrent : ∃ before, done ++ [['0']] =
        before ++ List.replicate (c.doublecolon_len + 1) ['0'] ∧
        (if c.doublecolon_start = -1 then (done.length : Int) else c.doublecolon_start) =
          before.length := by
      rcases h.current with ⟨hstart, hlen⟩ | ⟨before, hdone, hstart⟩
      · exact ⟨done, by rw [hlen]; rfl, if_pos hstart⟩
      · refine ⟨before, ?_, ?_⟩
        · rw [List.replicate_succ', ← List.append_assoc, ← hdone]
        · rw [if_neg (by omega), hstart]
    by_cases hlonger : c.doublecolon_len + 1 > c.best_doublecolon_len
    · rw [if_pos hlonger]
      obtain ⟨before, hdone, hstart⟩ := hcurrent
      exact ⟨.inr ⟨before, hdone, hstart⟩,
        .inr ⟨before, [], by rw [List.append_nil, hdone], hstart⟩⟩
    · rw [if_neg hlonger]
      exact ⟨.inr hcurrent, h.best_snoc _⟩
  · rw [if_neg hzero]
    exact ⟨.inl ⟨rfl, rfl⟩, h.best_snoc _⟩

theorem Compress.Knows.loop (h : c.Knows done) (hextets : List (List Char)) :
    (c.loop done.length hextets).Knows (done ++ hextets) := by
  induction hextets generalizing c done with
  | nil =>
    rw [List.append_nil]
    exact h
  | cons hextet hextets ih =>
    have hnext := ih (h.next hextet)
    rw [List.length_append, List.length_singleton, List.append_assoc] at hnext
    exact hnext

/-- An empty string among the hextets is written as `::`, also if it is the
    first one. -/
theorem intercalate_empty (before tail : List (List Char)) :
    [':'].intercalate (if before.length = 0 then [] :: (before ++ [[]] ++ tail)
      else before ++ [[]] ++ tail) =
    [':'].intercalate before ++ ':' :: tail.flatMap (':' :: ·) := by
  cases before with
  | nil => simp [Parser.intercalate_cons]
  | cons text before => simp [Parser.intercalate_cons]

/-- Compressed hextets have `::` in the place of two zeros or more. -/
theorem compress_hextets_cases (hextets : List (List Char)) :
    compress_hextets hextets = hextets ∨ ∃ before n after,
      2 ≤ n ∧ hextets = before ++ List.replicate n ['0'] ++ after ∧
      [':'].intercalate (compress_hextets hextets) =
        [':'].intercalate before ++ ':' :: ':' :: [':'].intercalate after := by
  have hstart : Compress.Knows ⟨-1, 0, -1, 0⟩ [] := ⟨.inl ⟨rfl, rfl⟩, .inl rfl⟩
  have hknows := hstart.loop hextets
  rw [List.nil_append, List.length_nil] at hknows
  unfold compress_hextets
  generalize Compress.loop ⟨-1, 0, -1, 0⟩ 0 hextets = c at hknows ⊢
  dsimp only
  by_cases hlen : c.best_doublecolon_len > 1
  · right
    rw [if_pos hlen]
    rcases hknows.best with hnone | ⟨before, after, hextets_eq, hstart⟩
    · omega
    refine ⟨before, c.best_doublecolon_len, after, hlen, hextets_eq, ?_⟩
    rw [hstart, Int.toNat_natCast]
    have hends : before.length + c.best_doublecolon_len = hextets.length ↔ after = [] := by
      rw [hextets_eq, ← List.length_eq_zero_iff]
      simp only [List.length_append, List.length_replicate]
      omega
    -- Behind the run stands what is left, or an empty string if nothing is.
    obtain ⟨tail, htail, hcolon⟩ : ∃ tail,
        (if before.length + c.best_doublecolon_len = hextets.length then hextets ++ [[]]
          else hextets) = before ++ List.replicate c.best_doublecolon_len ['0'] ++ tail ∧
        tail.flatMap (':' :: ·) = ':' :: [':'].intercalate after := by
      cases after with
      | nil =>
        refine ⟨[[]], ?_, by simp⟩
        rw [if_pos (hends.mpr rfl), hextets_eq, List.append_nil]
      | cons text after =>
        refine ⟨text :: after, ?_, by rw [Parser.intercalate_cons]; simp⟩
        rw [if_neg (fun heq => by cases hends.mp heq), hextets_eq]
    have htake : (before ++ List.replicate c.best_doublecolon_len ['0'] ++ tail).take
        before.length = before := by
      rw [List.append_assoc, List.take_left]
    rw [htail, htake, List.drop_left' (by simp), intercalate_empty, hcolon]
  · exact .inl (if_neg hlen)

theorem eq_zero_of_hextet {segment : UInt16} (h : hextet segment = ['0']) : segment = 0 := by
  have hread := Parser.read_hextet segment Parser.noDigit_nil
  rw [h] at hread
  have hzero : some (0, []) = some (segment.toNat, []) := hread
  exact UInt16.toNat_inj.mp (by simpa using hzero.symm)

/-- What is written for segments is all of them, or those around a run of zeros. -/
theorem string_from_segments_cases (segments : List UInt16) :
    string_from_segments segments = [':'].intercalate (segments.map hextet) ∨
    ∃ before n after, 2 ≤ n ∧ segments = before ++ List.replicate n 0 ++ after ∧
      string_from_segments segments = [':'].intercalate (before.map hextet) ++
        ':' :: ':' :: [':'].intercalate (after.map hextet) := by
  rcases compress_hextets_cases (segments.map hextet) with hall | ⟨before, n, after, hn, heq, htext⟩
  · exact .inl (congrArg _ hall)
  · right
    obtain ⟨head, after, rfl, hhead, rfl⟩ := List.map_eq_append_iff.mp heq
    obtain ⟨before, zeros, rfl, rfl, hzeros⟩ := List.map_eq_append_iff.mp hhead
    have hreplicate : zeros = List.replicate n 0 := by
      rw [List.eq_replicate_iff] at hzeros ⊢
      rw [List.length_map] at hzeros
      refine ⟨hzeros.1, fun segment hmem => eq_zero_of_hextet ?_⟩
      exact hzeros.2 _ (List.mem_map_of_mem hmem)
    exact ⟨before, n, after, hn, by rw [hreplicate], htext⟩

end IPv6Address

/-! ### Round trips -/

namespace Parser

variable {rest : List Char}

/-- What is written for the segments of an address is read back. -/
theorem read_ipv6_addr_string (a : Ipv6Addr) (hrest : NoGroup rest) :
    read_ipv6_addr (IPv6Address.string_from_segments a.segments ++ rest) = some (a, rest) := by
  rcases IPv6Address.string_from_segments_cases a.segments with
    hall | ⟨before, n, after, hn, hsegments, htext⟩
  · rw [hall]
    exact read_ipv6_addr_groups a hrest
  · rw [htext, List.append_assoc]
    exact read_ipv6_addr_colons a hn hsegments hrest

/-- A group is put together again from its two octets. -/
theorem embedded_group (segment : UInt16) :
    (segment >>> 8).toUInt8.toUInt16 * 256 + segment.toUInt8.toUInt16 = segment := by
  have hlt := segment.toNat_lt
  apply UInt16.toNat_inj.mp
  simp only [UInt16.toNat_add, UInt16.toNat_mul, UInt8.toNat_toUInt16, UInt16.toNat_toUInt8,
    UInt16.toNat_shiftRight, UInt16.reduceToNat, Nat.reducePow, Nat.reduceMod,
    Nat.shiftRight_eq_div_pow]
  omega

theorem segments_of_mapped {a : Ipv6Addr} {v4 : Ipv4Addr} (h : a.ipv4_mapped = some v4) :
    a.segments = [0, 0, 0, 0, 0, 0xFFFF] ++ embedded_groups v4 := by
  unfold Ipv6Addr.ipv4_mapped at h
  split at h
  · next htake =>
    split at h
    · next high low hdrop =>
      cases h
      show a.segments = ([0, 0, 0, 0, 0, 0xFFFF] : List UInt16) ++
        [(high >>> 8).toUInt8.toUInt16 * 256 + high.toUInt8.toUInt16,
          (low >>> 8).toUInt8.toUInt16 * 256 + low.toUInt8.toUInt16]
      rw [embedded_group, embedded_group, ← htake, ← hdrop, List.take_append_drop]
    · cases h
  · cases h

/-- An address that is mapped from an IPv4 address is read back. -/
theorem read_ipv6_addr_mapped {a : Ipv6Addr} {v4 : Ipv4Addr} (hmapped : a.ipv4_mapped = some v4)
    (hrest : NoDigit 10 rest) :
    read_ipv6_addr (IPv6Address.string_from_segments [0, 0, 0, 0, 0, 0, 0, 0xFFFF] ++ [':'] ++
      v4.chars ++ rest) = some (a, rest) := by
  have hffff : IPv6Address.string_from_segments [0, 0, 0, 0, 0, 0, 0, 0xFFFF] =
      ':' :: ':' :: IPv6Address.hextet 0xFFFF := by decide
  have htail : read_groups 7 7 [] (IPv6Address.hextet 0xFFFF ++ ':' :: (v4.chars ++ rest)) =
      ((0xFFFF :: embedded_groups v4, true), rest) := by
    have hcolon : NoDigit 16 (':' :: (v4.chars ++ rest)) := noDigit_colon
    have hnot := read_ipv4_addr_hextet 0xFFFF hcolon (by simp)
    have hnumber := read_hextet 0xFFFF hcolon
    simp [read_groups, read_separator, hnot, hnumber, read_given_char,
      read_ipv4_addr_chars v4 hrest]
  have hlength : (embedded_groups v4).length = 2 := rfl
  have hgroups := ipv6_of_groups_segments a
  rw [segments_of_mapped hmapped] at hgroups
  simp only [List.cons_append, List.nil_append] at hgroups
  rw [hffff, List.append_assoc, List.append_assoc]
  simp only [List.cons_append, List.nil_append]
  generalize IPv6Address.hextet 0xFFFF ++ ':' :: (v4.chars ++ rest) = after at htail ⊢
  have hcolons : NoGroup (':' :: ':' :: after) := .colons
  have hhead : read_groups 8 8 [] (':' :: ':' :: after) = (([], false), ':' :: ':' :: after) :=
    read_groups_groups_text 8 8 [] [] (Nat.zero_le 8) hcolons
  simp [read_ipv6_addr, hhead, read_given_char, htail, hlength, hgroups]

/-- What `str` writes for an address is read back. -/
theorem read_ipv6_addr_chars (a : Ipv6Addr) (hrest : NoGroup rest) :
    read_ipv6_addr (a.chars ++ rest) = some (a, rest) := by
  unfold Ipv6Addr.chars
  split
  · exact read_ipv6_addr_string a hrest
  · next v4 hmapped => exact read_ipv6_addr_mapped hmapped (noDigit_of_hex hrest.no_digit)

end Parser

/-- The text of an IPv4 address has at most 15 characters. -/
theorem Ipv4Addr.length_chars (a : Ipv4Addr) : a.chars.length ≤ 15 := by
  obtain ⟨one, two, three, four⟩ := a
  have hoctet : ∀ octet : UInt8, (Nat.toDigits 10 octet.toNat).length ≤ 3 := fun octet =>
    (Nat.length_toDigits_le_iff (by decide) (by decide)).mpr
      (Nat.lt_trans octet.toNat_lt (by decide))
  have h₁ := hoctet one
  have h₂ := hoctet two
  have h₃ := hoctet three
  have h₄ := hoctet four
  have htext := Parser.chars_ipv4 one two three four []
  rw [List.append_nil] at htext
  rw [htext]
  simp only [List.length_append, List.length_cons, List.length_nil]
  omega

/-- **Canonical**: an IPv4 address is accepted in exactly one form, the one
    `str` writes. -/
theorem Ipv4Addr.from_str_iff (s : String) (a : Ipv4Addr) :
    Ipv4Addr.from_str s = some a ↔ s = a.str := by
  constructor
  · intro h
    simp only [Ipv4Addr.from_str, Parser.parse_with] at h
    split at h
    · cases h
    · split at h
      · next hread =>
        cases h
        have htext := Parser.read_ipv4_addr_some hread
        rw [List.append_nil] at htext
        rw [Ipv4Addr.str, ← htext, String.ofList_toList]
      · cases h
  · rintro rfl
    have hlength : ¬15 < a.str.length := by
      rw [Ipv4Addr.str, String.length_ofList]
      exact Nat.not_lt.mpr a.length_chars
    have hread := Parser.read_ipv4_addr_chars a Parser.noDigit_nil
    rw [List.append_nil] at hread
    rw [Ipv4Addr.from_str, if_neg hlength, Ipv4Addr.str, String.toList_ofList, Parser.parse_with,
      hread]

/-- **Round trip**: what `str` writes for an IPv6 address is read back as this
    address, however it is compressed. With a scope id behind it, it is refused. -/
theorem IPv6Address.from_str_str (a : IPv6Address) :
    Ipv6Addr.from_str a.str = if a.scope_id = none then some a.ip else none := by
  simp only [Ipv6Addr.from_str, IPv6Address.str, String.toList_ofList]
  cases a.scope_id with
  | none =>
    have hend : Parser.NoGroup [] := .of_end Parser.noDigit_nil (by simp) (by simp)
    have hread := Parser.read_ipv6_addr_chars a.ip hend
    rw [List.append_nil] at hread
    rw [if_pos rfl, Parser.parse_with, hread]
  | some scope_id =>
    have hnoDigit : Parser.NoDigit 16 ('%' :: scope_id) := by
      intro c hc
      cases hc
      decide
    have hread := Parser.read_ipv6_addr_chars a.ip (.of_end hnoDigit (by simp) (by simp))
    show Parser.parse_with Parser.read_ipv6_addr (a.ip.chars ++ ['%'] ++ scope_id) = none
    rw [List.append_assoc, List.singleton_append, Parser.parse_with, hread]

end CenturyRing
