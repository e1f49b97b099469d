import StepTrace.Proofs.Integers.Numerals

/-!
Specifications for integers, `[[fill]align][sign][#][0][width][,|_][type]`: how they are written
and what is read from them.
-/

set_option autoImplicit false

namespace StepTrace

open Number

/-! ### The grammar -/

def Alignment.char : Alignment → Char
  | .left => '<'
  | .right => '>'
  | .center => '^'
  | .afterSign => '='

inductive SignOption
  | plus | minus | space
deriving DecidableEq, Repr

def SignOption.char : SignOption → Char
  | .plus => '+'
  | .minus => '-'
  | .space => ' '

inductive Separator
  | comma | underscore
deriving DecidableEq, Repr

def Separator.char : Separator → Char
  | .comma => ','
  | .underscore => '_'

inductive IntegerKind
  | decimal | hex | capitalHex | octal | binary
deriving DecidableEq, Repr

namespace IntegerKind

def letter : IntegerKind → Char
  | decimal => 'd'
  | hex => 'x'
  | capitalHex => 'X'
  | octal => 'o'
  | binary => 'b'

def base : IntegerKind → Nat
  | decimal => 10
  | hex | capitalHex => 16
  | octal => 8
  | binary => 2

-- What `#` asks for in front of the digits.
def mark : IntegerKind → List Char
  | decimal => []
  | hex => ['0', 'x']
  | capitalHex => ['0', 'X']
  | octal => ['0', 'o']
  | binary => ['0', 'b']

end IntegerKind

-- A fill character is written in front of an alignment only.
structure IntegerSpec where
  align : Option (Option Char × Alignment) := none
  sign : Option SignOption := none
  alternate : Bool := false
  zero : Bool := false
  width : Option Nat := none
  separator : Option Separator := none
  kind : Option IntegerKind := none
  width_lt : ∀ w ∈ width, w < 0x80000000 := by decide

namespace IntegerSpec

def kindText (s : IntegerSpec) : List Char := (s.kind.map IntegerKind.letter).toList

def separatorText (s : IntegerSpec) : List Char := (s.separator.map Separator.char).toList

def widthText (s : IntegerSpec) : List Char := s.width.elim [] (Nat.toDigits 10)

def signText (s : IntegerSpec) : List Char := (s.sign.map SignOption.char).toList

def alignText (s : IntegerSpec) : List Char :=
  s.align.elim [] fun (fill, align) => fill.toList ++ [align.char]

-- From the group separator on.
def ending (s : IntegerSpec) : List Char := s.separatorText ++ s.kindText

-- From the zero flag on.
def size (s : IntegerSpec) : List Char :=
  (if s.zero then ['0'] else []) ++ (s.widthText ++ s.ending)

-- From the mark of another form on.
def form (s : IntegerSpec) : List Char := (if s.alternate then ['#'] else []) ++ s.size

def text (s : IntegerSpec) : List Char := s.alignText ++ (s.signText ++ s.form)

-- The fields as they have been written; a zero alone is the flag and not a width.
def fields (s : IntegerSpec) : FormatSpec where
  fill := s.align.bind Prod.fst
  align := s.align.map Prod.snd
  sign := s.sign.map SignOption.char
  alternate := s.alternate
  zero := s.zero || s.width == some 0
  width := s.width.getD 0
  grouping := s.separator.map Separator.char
  kind := s.kind.map IntegerKind.letter

end IntegerSpec

/-! ### Reading -/

variable {s : IntegerSpec} {c : Char} {allowed cs : List Char}

theorem Alignment.ofChar?_char (a : Alignment) : Alignment.ofChar? a.char = some a := by
  cases a <;> rfl

theorem Alignment.ofChar?_eq_none (other : c ∉ ['<', '>', '^', '=']) :
    Alignment.ofChar? c = none := by
  simp only [List.mem_cons, List.not_mem_nil, or_false, not_or] at other
  unfold ofChar?
  split <;> simp_all

namespace FormatSpec

theorem optional_absent (absent : ∀ c ∈ cs.head?, c ∉ allowed) :
    optional allowed cs = (none, cs) := by
  cases cs with
  | nil => rfl
  | cons c rest =>
    rw [optional, if_neg]
    simpa using absent c rfl

theorem optional_present (present : c ∈ allowed) :
    optional allowed (c :: cs) = (some c, cs) := by
  rw [optional, if_pos (List.contains_iff_mem.2 present)]

-- A part of at most one character, with what follows it.
theorem optional_append {part : Option Char} (present : ∀ c ∈ part, c ∈ allowed)
    (absent : ∀ c ∈ cs, c ∉ allowed) : optional allowed (part.toList ++ cs) = (part, cs) := by
  cases part with
  | none => exact optional_absent fun c first => absent c (List.mem_of_mem_head? first)
  | some c => exact optional_present (present c rfl)

theorem size?_toDigits {w : Nat} (small : w < 0x10000000000000000) :
    size? (Nat.toDigits 10 w) = some w := by
  rw [size?, digits?_toDigits, Option.filter_some, if_pos (decide_eq_true small)]

-- The digits of a width that may be missing, with what follows them.
theorem readWidth?_append {width : Option Nat} (small : ∀ w ∈ width, w < 0x10000000000000000)
    (absent : ∀ c ∈ cs, c.isDigit = false) :
    readWidth? (width.elim [] (Nat.toDigits 10) ++ cs) = some (width.getD 0, cs) := by
  have none : cs.takeWhile Char.isDigit = [] := by
    cases cs with
    | nil => rfl
    | cons c rest => rw [List.takeWhile_cons, absent c List.mem_cons_self]; rfl
  cases width with
  | none => rw [Option.elim_none, List.nil_append, readWidth?, none]; rfl
  | some w =>
    have digits : ∀ c ∈ Nat.toDigits 10 w, c.isDigit = true := fun c hc =>
      Nat.isDigit_of_mem_toDigits (by decide) (by decide) hc
    rw [Option.elim_some, readWidth?, List.takeWhile_append_of_pos digits, none, List.append_nil,
      size?_toDigits (small w rfl), List.drop_left, if_neg (by simp)]
    rfl

theorem readAlignment_none (plain : ∀ c ∈ cs, Alignment.ofChar? c = none) :
    readAlignment cs = ({}, cs) := by
  unfold readAlignment
  split
  next c d rest =>
    rw [plain d (by simp), plain c (by simp)]
  next c =>
    rw [plain c (by simp)]
  next => rfl

theorem readAlignment_char (a : Alignment) (plain : ∀ c ∈ cs, Alignment.ofChar? c = none) :
    readAlignment (a.char :: cs) = ({ align := some a }, cs) := by
  cases cs with
  | nil => simp [readAlignment, a.ofChar?_char]
  | cons d rest => simp [readAlignment, a.ofChar?_char, plain d]

theorem readAlignment_fill (fill : Char) (a : Alignment) (cs : List Char) :
    readAlignment (fill :: a.char :: cs) = ({ fill := some fill, align := some a }, cs) := by
  simp [readAlignment, a.ofChar?_char]

end FormatSpec

namespace IntegerSpec

open FormatSpec

theorem mem_ending (member : c ∈ s.ending) :
    c ∈ [',', '_', 'd', 'x', 'X', 'o', 'b'] := by
  rcases List.mem_append.1 member with separator | kind
  next =>
    rw [separatorText, Option.mem_toList, Option.map_eq_some_iff] at separator
    obtain ⟨separator, -, rfl⟩ := separator
    cases separator <;> decide
  next =>
    rw [kindText, Option.mem_toList, Option.map_eq_some_iff] at kind
    obtain ⟨kind, -, rfl⟩ := kind
    cases kind <;> decide

theorem isDigit_of_mem_widthText (member : c ∈ s.widthText) : c.isDigit = true := by
  rw [widthText] at member
  cases width : s.width with
  | none => rw [width] at member; cases member
  | some w =>
    rw [width] at member
    exact Nat.isDigit_of_mem_toDigits (by decide) (by decide) member

theorem isDigit_of_mem_ending (member : c ∈ s.ending) : c.isDigit = false := by
  have other : ∀ c ∈ [',', '_', 'd', 'x', 'X', 'o', 'b'], Char.isDigit c = false := by
    simp [Char.isDigit]
  exact other c (mem_ending member)

-- None of the characters of the earlier parts is one of these.
theorem not_mem_of_mem_size (member : c ∈ s.size) :
    c ∉ ['<', '>', '^', '=', '+', '-', ' ', '#'] := by
  have digit : ∀ c ∈ ['<', '>', '^', '=', '+', '-', ' ', '#'], Char.isDigit c = false := by
    simp [Char.isDigit]
  have ending : ∀ c ∈ [',', '_', 'd', 'x', 'X', 'o', 'b'],
      c ∉ ['<', '>', '^', '=', '+', '-', ' ', '#'] := by simp
  rcases List.mem_append.1 member with zero | rest
  next =>
    split at zero
    next => rw [List.mem_singleton.1 zero]; simp
    next => cases zero
  next =>
    rcases List.mem_append.1 rest with width | last
    next => exact fun early => by simpa [isDigit_of_mem_widthText width] using digit c early
    next => exact ending c (mem_ending last)

theorem not_mem_of_mem_form (member : c ∈ s.form) :
    c ∉ ['<', '>', '^', '=', '+', '-', ' '] := by
  rcases List.mem_append.1 member with alternate | size
  next =>
    split at alternate
    next => rw [List.mem_singleton.1 alternate]; decide
    next => cases alternate
  next =>
    have fresh := not_mem_of_mem_size size
    simp_all

theorem not_mem_of_mem_signed (member : c ∈ s.signText ++ s.form) :
    c ∉ ['<', '>', '^', '='] := by
  rcases List.mem_append.1 member with sign | form
  next =>
    rw [signText, Option.mem_toList, Option.map_eq_some_iff] at sign
    obtain ⟨sign, -, rfl⟩ := sign
    cases sign <;> decide
  next =>
    have fresh := not_mem_of_mem_form form
    simp_all

theorem readAlignment_text (s : IntegerSpec) :
    readAlignment s.text =
      ({ fill := s.align.bind Prod.fst, align := s.align.map Prod.snd }, s.signText ++ s.form) := by
  have plain : ∀ c ∈ s.signText ++ s.form, Alignment.ofChar? c = none := fun c member =>
    Alignment.ofChar?_eq_none (not_mem_of_mem_signed member)
  rw [text, alignText]
  match s.align with
  | none => exact readAlignment_none plain
  | some (none, a) => exact readAlignment_char a plain
  | some (some fill, a) => exact readAlignment_fill fill a _

theorem head?_ne (s : IntegerSpec) (positive : ¬s.width = some 0) :
    (s.widthText ++ s.ending).head? ≠ some '0' := by
  rw [widthText]
  cases width : s.width with
  | none => exact fun first => absurd (mem_ending (List.mem_of_mem_head? first)) (by decide)
  | some w =>
    have numeral : Numeral 10 false w ((Nat.toDigits 10 w).map (inCase false)) :=
      .toDigits false (by decide) (by decide) w
    rw [map_inCase_false] at numeral
    have positive : 0 < w := Nat.pos_of_ne_zero fun zero => positive (zero ▸ width)
    rw [Option.elim_some, List.head?_append_of_ne_nil _ numeral.ne_nil]
    exact numeral.head?_ne positive

-- A zero in front is the flag; only the width zero begins with one.
theorem optional_size (s : IntegerSpec) :
    ∃ rest, optional ['0'] s.size = (if s.fields.zero then some '0' else none, rest) ∧
      readWidth? rest = some (s.width.getD 0, s.ending) := by
  have small : ∀ w ∈ s.width, w < 0x10000000000000000 := fun w member =>
    Nat.lt_trans (s.width_lt w member) (by decide)
  have read : readWidth? (s.widthText ++ s.ending) = some (s.width.getD 0, s.ending) :=
    readWidth?_append small fun c => isDigit_of_mem_ending
  by_cases zero : s.zero
  next =>
    refine ⟨s.widthText ++ s.ending, ?_, read⟩
    rw [size, fields, if_pos zero, zero]
    rfl
  next =>
    have size : s.size = s.widthText ++ s.ending := by rw [size, if_neg zero, List.nil_append]
    by_cases none : s.width = some 0
    next =>
      refine ⟨s.ending, ?_, ?_⟩
      next => rw [size, widthText, fields, none, beq_self_eq_true, Bool.or_true]; rfl
      next =>
        have nothing : ∀ w ∈ Option.none, w < 0x10000000000000000 := by simp
        rw [none]
        exact readWidth?_append nothing fun c => isDigit_of_mem_ending
    next =>
      have flag : s.fields.zero = false := by simp [fields, zero, none]
      refine ⟨s.widthText ++ s.ending, ?_, read⟩
      rw [flag, size]
      refine optional_absent fun c first => ?_
      rw [List.mem_singleton]
      rintro rfl
      exact s.head?_ne none first

theorem read?_text (s : IntegerSpec) : FormatSpec.read? s.text = some s.fields := by
  obtain ⟨rest, zero, width⟩ := s.optional_size
  have sign : optional ['+', '-', ' '] (s.signText ++ s.form) =
      (s.sign.map SignOption.char, s.form) := by
    refine optional_append (fun c present => ?_) fun c later => ?_
    next =>
      obtain ⟨sign, -, rfl⟩ := Option.map_eq_some_iff.1 present
      cases sign <;> decide
    next =>
      have fresh := not_mem_of_mem_form later
      simp_all
  have alternate : optional ['#'] s.form = (if s.alternate then some '#' else none, s.size) := by
    rw [form]
    split
    next => exact optional_present List.mem_cons_self
    next =>
      refine optional_absent fun c first => ?_
      have fresh := not_mem_of_mem_size (List.mem_of_mem_head? first)
      simp_all
  have separator : optional [',', '_'] s.ending = (s.separator.map Separator.char, s.kindText) := by
    refine optional_append (fun c present => ?_) fun c later => ?_
    next =>
      obtain ⟨separator, -, rfl⟩ := Option.map_eq_some_iff.1 present
      cases separator <;> decide
    next =>
      rw [kindText, Option.mem_toList, Option.map_eq_some_iff] at later
      obtain ⟨kind, -, rfl⟩ := later
      cases kind <;> decide
  have precision : readPrecision? s.kindText = some (none, s.kindText) := by
    rw [kindText]
    match s.kind with
    | none => rfl
    | some kind => cases kind <;> rfl
  have flags : ∀ (flag : Bool) (c : Char), (if flag then some c else none).isSome = flag := by
    intro flag c
    cases flag <;> rfl
  simp only [FormatSpec.read?, readAlignment_text, sign, alternate, zero, width, separator,
    precision, flags, Option.bind_eq_bind, Option.bind_some]
  rw [kindText]
  cases kind : s.kind with
  | none => simp [fields, kind]
  | some k => simp [fields, kind]

-- A zero is the fill, the flag and a digit of the width.
example : FormatSpec.read? ['0', '<', '0', '5', '0'] =
    some { fill := some '0', align := some .left, zero := true, width := 50 } := by decide

end IntegerSpec

end StepTrace
