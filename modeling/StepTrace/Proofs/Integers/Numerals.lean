import Mathlib.Data.List.Basic
import StepTrace.Format.Spec

/-!
Numerals of natural numbers: digits in a base, and separators between groups of three.
-/

set_option autoImplicit false

namespace StepTrace

open Number

variable {base n d : Nat} {capital : Bool} {cs ds text : List Char} {separator : Char}

/-! ### Digits -/

-- The digits of `n` in a base without zeros in front; letters among them are of one case.
structure Numeral (base : Nat) (capital : Bool) (n : Nat) (cs : List Char) : Prop where
  value : digits? base cs = some n
  leading : cs.head? = some '0' → cs = ['0']
  letters : ∀ c ∈ cs, c.isDigit = true ∨ (if capital then c.isUpper else c.isLower) = true

theorem digits?_eq_some : digits? base cs = some n ↔ cs ≠ [] ∧ digitsFrom? base 0 cs = some n := by
  rw [digits?, Option.ite_none_left_eq_some, List.isEmpty_iff]

theorem digitsFrom?_append (acc : Nat) :
    digitsFrom? base acc (cs ++ ds) = (digitsFrom? base acc cs).bind (digitsFrom? base · ds) := by
  induction cs generalizing acc with
  | nil => rfl
  | cons c rest ih =>
    rw [List.cons_append, digitsFrom?, digitsFrom?]
    cases digitValue? c with
    | none => rfl
    | some d =>
      dsimp only
      split
      next => exact ih _
      next => rfl

def inCase (capital : Bool) (c : Char) : Char := if capital then c.toUpper else c

theorem map_inCase_false (cs : List Char) : cs.map (inCase false) = cs :=
  List.map_id'' (fun _ => rfl) cs

-- The character of a digit below sixteen.
def digitOf (capital : Bool) (d : Nat) : Char := inCase capital (Nat.digitChar d)

theorem digitOf_facts (capital : Bool) (small : d < 16) :
    digitValue? (digitOf capital d) = some d ∧ (digitOf capital d = '0' → d = 0) ∧
      ((digitOf capital d).isDigit = true ∨
        (if capital then (digitOf capital d).isUpper else (digitOf capital d).isLower) = true) :=
  (by decide : ∀ (capital : Bool) (d : Fin 16),
    digitValue? (digitOf capital d) = some d.val ∧ (digitOf capital d = '0' → d.val = 0) ∧
      ((digitOf capital d).isDigit = true ∨
        (if capital then (digitOf capital d).isUpper else (digitOf capital d).isLower) = true))
    capital ⟨d, small⟩

theorem digitsFrom?_digitOf (small : d < base) (fits : base ≤ 16) (acc : Nat) :
    digitsFrom? base acc [digitOf capital d] = some (acc * base + d) := by
  rw [digitsFrom?, (digitOf_facts capital (Nat.lt_of_lt_of_le small fits)).1]
  exact if_pos small

namespace Numeral

theorem ne_nil (h : Numeral base capital n cs) : cs ≠ [] := (digits?_eq_some.1 h.value).1

theorem digit (small : d < base) (fits : base ≤ 16) :
    Numeral base capital d [digitOf capital d] where
  value := by
    refine digits?_eq_some.2 ⟨by simp, ?_⟩
    rw [digitsFrom?_digitOf small fits, Nat.zero_mul, Nat.zero_add]
  leading first := by rw [Option.some.inj first]
  letters c member := by
    rw [List.mem_singleton.1 member]
    exact (digitOf_facts capital (Nat.lt_of_lt_of_le small fits)).2.2

-- A numeral that begins with a zero is that of zero.
theorem head?_ne (h : Numeral base capital n cs) (positive : 0 < n) : cs.head? ≠ some '0' := by
  intro first
  have value := (digits?_eq_some.1 h.value).2
  rw [h.leading first, digitsFrom?, show digitValue? '0' = some 0 from rfl] at value
  dsimp only at value
  split at value
  next => exact absurd (Option.some.inj value) (by simpa using Nat.ne_of_lt positive)
  next => cases value

-- A digit is put after the numeral of a positive number.
theorem push (h : Numeral base capital n cs) (positive : 0 < n) (small : d < base)
    (fits : base ≤ 16) : Numeral base capital (n * base + d) (cs ++ [digitOf capital d]) where
  value := by
    refine digits?_eq_some.2 ⟨List.append_ne_nil_of_left_ne_nil h.ne_nil _, ?_⟩
    rw [digitsFrom?_append, (digits?_eq_some.1 h.value).2]
    exact digitsFrom?_digitOf small fits n
  leading first := by
    rw [List.head?_append_of_ne_nil cs h.ne_nil] at first
    exact absurd first (h.head?_ne positive)
  letters c member := by
    rcases List.mem_append.1 member with before | last
    next => exact h.letters c before
    next =>
      rw [List.mem_singleton.1 last]
      exact (digitOf_facts capital (Nat.lt_of_lt_of_le small fits)).2.2

-- Induction on the number, which loses its last digit by a division.
theorem toDigits (capital : Bool) (two : 1 < base) (fits : base ≤ 16) (n : Nat) :
    Numeral base capital n ((Nat.toDigits base n).map (inCase capital)) := by
  induction n using Nat.strongRecOn with
  | ind n ih =>
    rw [Nat.toDigits_eq_if two]
    by_cases small : n < base
    next =>
      rw [if_pos small]
      exact digit small fits
    next =>
      have one : 0 < base := Nat.lt_of_succ_lt two
      have positive : 0 < n / base := Nat.div_pos (Nat.le_of_not_lt small) one
      have less : n / base < n := Nat.div_lt_self (Nat.pos_of_div_pos positive) two
      have pushed := (ih _ less).push positive (Nat.mod_lt n one) fits
      rw [Nat.div_add_mod'] at pushed
      rw [if_neg small, List.map_append]
      exact pushed

-- Neither separator is a character of a numeral.
theorem not_mem (h : Numeral base capital n cs) {c : Char} (digit : c.isDigit = false)
    (upper : c.isUpper = false) (lower : c.isLower = false) : c ∉ cs := by
  intro member
  cases capital <;> simpa [digit, upper, lower] using h.letters c member

end Numeral

/-! ### Groups of three -/

-- The text has a separator between groups of three characters counted from the right.
inductive Grouped (separator : Char) : List Char → List Char → Prop
  | one {cs : List Char} (some : 0 < cs.length) (few : cs.length ≤ 3) : Grouped separator cs cs
  | more {cs text : List Char} (before : Grouped separator cs text) (a b c : Char) :
      Grouped separator (cs ++ [a, b, c]) (text ++ [separator, a, b, c])

namespace Grouped

-- Without its separators the text is what has been grouped.
theorem removed (h : Grouped separator cs text) (other : separator ∉ cs) :
    text.filter (· != separator) = cs := by
  have kept : ∀ ds : List Char, separator ∉ ds → ds.filter (· != separator) = ds := by
    intro ds other
    refine List.filter_eq_self.2 fun c member => ?_
    rw [bne_iff_ne]
    rintro rfl
    exact other member
  induction h with
  | one some few => exact kept _ other
  | more before a b c ih =>
    rw [List.mem_append, not_or] at other
    rw [List.filter_append, ih other.1, List.filter_cons_of_neg (by simp), kept _ other.2]

end Grouped

namespace FormatSpec

-- Three more characters at the end make one group more.
theorem groupDigits_go_append (separator a b c : Char) (some : cs ≠ []) :
    groupDigits.go separator (cs ++ [a, b, c]) =
      groupDigits.go separator cs ++ [separator, a, b, c] := by
  induction cs with
  | nil => exact absurd rfl some
  | cons d rest ih =>
    cases rest with
    | nil => simp [groupDigits.go]
    | cons e rest =>
      have place : (rest ++ [a, b, c]).length + 1 = (rest.length + 1) + 3 := by simp
      have later := ih (List.cons_ne_nil e rest)
      rw [List.cons_append] at later
      rw [List.cons_append, List.cons_append, groupDigits.go, groupDigits.go, place,
        Nat.add_mod_right, later]
      split
      next => rfl
      next => rfl

theorem groupDigits_go_few (separator : Char) (few : cs.length ≤ 3) :
    groupDigits.go separator cs = cs := by
  match cs with
  | [] | [_] | [_, _] | [_, _, _] => rfl
  | _ :: _ :: _ :: _ :: _ => simp only [List.length_cons] at few; omega

-- Induction on the length, which loses a group at the end.
theorem groupDigits_grouped (separator : Char) (some : cs ≠ []) :
    Grouped separator cs (groupDigits (.some separator) cs) := by
  change Grouped separator cs (groupDigits.go separator cs)
  induction length : cs.length using Nat.strongRecOn generalizing cs with
  | ind n ih =>
    by_cases few : cs.length ≤ 3
    next =>
      rw [groupDigits_go_few separator few]
      exact .one (List.length_pos_iff.2 some) few
    next =>
      have three : (cs.drop (cs.length - 3)).length = 3 := by rw [List.length_drop]; omega
      obtain ⟨a, b, c, last⟩ := List.length_eq_three.1 three
      have shorter : (cs.take (cs.length - 3)).length < n := by rw [List.length_take]; omega
      have before : cs.take (cs.length - 3) ≠ [] := by
        refine List.ne_nil_of_length_pos ?_
        rw [List.length_take]
        omega
      have grouped := (ih _ shorter before rfl).more a b c
      rwa [← groupDigits_go_append separator a b c before, ← last, List.take_append_drop] at grouped

end FormatSpec

end StepTrace
