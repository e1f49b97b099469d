import Mathlib.Data.List.Chain
import Mathlib.Data.List.DropRight
import StepTrace.Eval.Builtin
import StepTrace.Proofs.Integers.Formatting

/-!
Integers read from texts: a grammar of the texts that denote an integer, and what is read from
them. The digits are read as a word before the sign is applied, so the least word is out of reach;
the reader of digits allows for a sign of its own, so a second sign is let through.
-/

set_option autoImplicit false

namespace StepTrace

open Number

variable {base n d : Nat} {c : Char} {cs ds text : List Char}

/-! ### The grammar -/

-- The digits of all bases, in order.
def digitChars : List Char := "0123456789abcdefghijklmnopqrstuvwxyz".toList

/-- A digit of a base and its value; letters may be of either case. -/
def IsDigit (base : Nat) (c : Char) (d : Nat) : Prop :=
  d < base ∧ digitChars[d]? = some c.toLower

-- Digits with single underscores between them, and the number that they denote.
inductive DigitRun (base : Nat) : List Char → Nat → Prop
  | one {c : Char} {d : Nat} (digit : IsDigit base c d) : DigitRun base [c] d
  | next {cs : List Char} {n : Nat} {c : Char} {d : Nat} (before : DigitRun base cs n)
      (digit : IsDigit base c d) : DigitRun base (cs ++ [c]) (n * base + d)
  | gap {cs : List Char} {n : Nat} {c : Char} {d : Nat} (before : DigitRun base cs n)
      (digit : IsDigit base c d) : DigitRun base (cs ++ ['_', c]) (n * base + d)

inductive IntegerSign : List Char → Int → Prop
  | none : IntegerSign [] 1
  | plus : IntegerSign ['+'] 1
  | minus : IntegerSign ['-'] (-1)

-- No mark, or that of the base with its letter in either case.
def BaseMark (base : Nat) (mark : List Char) : Prop :=
  mark = [] ∨ mark.map Char.toLower = Interp.baseMark base

inductive IntegerWord (base : Nat) : List Char → Int → Prop
  | mk {sign mark digits : List Char} {factor : Int} {n : Nat} (signed : IntegerSign sign factor)
      (marked : BaseMark base mark) (run : DigitRun base digits n) :
      IntegerWord base (sign ++ mark ++ digits) (factor * n)

def Blank (cs : List Char) : Prop := ∀ c ∈ cs, Text.isBlank c = true

/-- A text that denotes an integer in a base, with white space at either end. -/
def IntegerText (base : Nat) (text : List Char) (v : Int) : Prop :=
  ∃ before word after, text = before ++ word ++ after ∧ Blank before ∧ Blank after ∧
    IntegerWord base word v

def IsSign (c : Char) : Prop := c = '+' ∨ c = '-'

instance (c : Char) : Decidable (IsSign c) := inferInstanceAs (Decidable (_ ∨ _))

/-- A text with a sign that stands behind another one or behind the mark of the base. -/
def SignedTwice (base : Nat) (text : List Char) : Prop :=
  ∃ before lead factor mark c rest, text = before ++ (lead ++ mark ++ c :: rest) ∧ Blank before ∧
    IntegerSign lead factor ∧ BaseMark base mark ∧ lead ++ mark ≠ [] ∧ IsSign c

/-! ### Lower case -/

-- Only the capital letters change.
theorem toLower_cases {P : Char → Char → Prop} (same : ∀ c, P c c)
    (capitals : ∀ i : Fin 26, P (Char.ofNat (i + 65)) (Char.ofNat (i + 65)).toLower) (c : Char) :
    P c c.toLower := by
  by_cases capital : c.val ≥ 'A'.val ∧ c.val ≤ 'Z'.val
  next =>
    have bounds : 65 ≤ c.toNat ∧ c.toNat ≤ 90 := capital
    have letter := capitals ⟨c.toNat - 65, by omega⟩
    rwa [Nat.sub_add_cancel bounds.1, Char.ofNat_toNat] at letter
  next =>
    rw [show c.toLower = c from dif_neg capital]
    exact same c

theorem digitValue?_toLower (c : Char) : digitValue? c.toLower = digitValue? c :=
  toLower_cases (P := fun c l => digitValue? l = digitValue? c) (fun _ => rfl) (by decide) c

theorem isBlank_toLower (c : Char) : Text.isBlank c.toLower = Text.isBlank c :=
  toLower_cases (P := fun c l => Text.isBlank l = Text.isBlank c) (fun _ => rfl) (by decide) c

theorem isSign_toLower (c : Char) : IsSign c.toLower ↔ IsSign c :=
  toLower_cases (P := fun c l => IsSign l ↔ IsSign c) (fun _ => Iff.rfl) (by decide) c

theorem toLower_eq_underscore : c.toLower = '_' ↔ c = '_' :=
  toLower_cases (P := fun c l => l = '_' ↔ c = '_') (fun _ => Iff.rfl) (by decide) c

/-! ### Digits -/

theorem isDigit_iff : IsDigit base c d ↔ d < base ∧ digitValue? c = some d := by
  refine and_congr_right fun _ => ⟨fun place => ?_, fun value => ?_⟩
  · have values : ∀ i : Fin 36, digitChars[i]?.bind digitValue? = some i.val := by decide
    have few : d < 36 := (List.getElem?_eq_some_iff.1 place).1
    have value : digitChars[d]?.bind digitValue? = some d := values ⟨d, few⟩
    rwa [place, Option.bind_some, digitValue?_toLower] at value
  · have places : ∀ i : Fin 123, ∀ d ∈ digitValue? (Char.ofNat i),
        digitChars[d]? = some (Char.ofNat i).toLower := by decide
    have small : c.toNat < 123 := by
      unfold digitValue? at value
      split at value
      next decimal => exact Nat.lt_of_le_of_lt decimal.2 (by decide)
      next =>
      split at value
      next lower => exact Nat.lt_of_le_of_lt lower.2 (by decide)
      next =>
      split at value
      next upper => exact Nat.lt_of_le_of_lt upper.2 (by decide)
      next => cases value
    have place := places ⟨c.toNat, small⟩ d
    rw [Char.ofNat_toNat] at place
    exact place value

-- No sign, blank or underscore is a digit.
theorem IsDigit.facts (digit : IsDigit base c d) :
    ¬ IsSign c ∧ Text.isBlank c = false ∧ c ≠ '_' := by
  have plain : digitChars.all
      (fun c => decide (¬ IsSign c ∧ Text.isBlank c = false ∧ c ≠ '_')) = true := by decide
  have lower := of_decide_eq_true (List.all_eq_true.1 plain _ (List.mem_of_getElem? digit.2))
  rwa [isSign_toLower, isBlank_toLower, Ne, toLower_eq_underscore] at lower

/-! ### Runs of digits -/

def SingleGaps (cs : List Char) : Prop := cs.IsChain fun a b => ¬ (a = '_' ∧ b = '_')

theorem find?_double_gap : Text.find? ['_', '_'] cs = none ↔ SingleGaps cs := by
  unfold SingleGaps
  induction cs with
  | nil => simp [Text.find?]
  | cons c rest ih =>
    cases rest with
    | nil => by_cases first : '_' = c <;> simp [Text.find?, Text.after?, first]
    | cons d rest =>
      rw [List.isChain_cons_cons, ← ih, Text.find?, Text.after?, Text.after?, Text.after?]
      rcases eq_or_ne c '_' with rfl | other
      · rcases eq_or_ne d '_' with rfl | other
        · simp
        · simp [other, other.symm]
      · simp [other, other.symm]

-- What may stand before a last digit.
def BeforeDigit (cs : List Char) : Prop := cs.head? ≠ some '_' ∧ SingleGaps cs

theorem goodUnderscores_iff : Interp.goodUnderscores cs = true ↔
    cs ≠ [] ∧ cs.getLast? ≠ some '_' ∧ BeforeDigit cs := by
  simp only [Interp.goodUnderscores, Bool.and_eq_true, Bool.not_eq_true', List.isEmpty_eq_false_iff,
    bne_iff_ne, Option.isNone_iff_eq_none, find?_double_gap, BeforeDigit]
  tauto

theorem goodUnderscores_concat (other : c ≠ '_') :
    Interp.goodUnderscores (cs ++ [c]) = true ↔ BeforeDigit cs := by
  have gaps : SingleGaps (cs ++ [c]) ↔ SingleGaps cs := by
    simp [SingleGaps, List.isChain_append, other]
  rw [goodUnderscores_iff, List.getLast?_concat, BeforeDigit, gaps, BeforeDigit]
  cases cs <;> simp [other]

theorem beforeDigit_concat_gap : BeforeDigit (cs ++ ['_']) ↔ Interp.goodUnderscores cs = true := by
  have gaps : SingleGaps (cs ++ ['_']) ↔ SingleGaps cs ∧ cs.getLast? ≠ some '_' := by
    simp only [SingleGaps, List.isChain_append, List.isChain_singleton, List.head?_cons,
      Option.mem_def, Option.some.injEq, forall_eq', and_true, true_and]
    exact and_congr_right fun _ =>
      ⟨fun all last => all _ last rfl, fun all c last same => all (same ▸ last)⟩
  rw [goodUnderscores_iff, BeforeDigit, gaps, BeforeDigit]
  cases cs
  next => simp
  next => simp; tauto

theorem digitsFrom?_singleton {acc : Nat} :
    digitsFrom? base acc [c] = some n ↔ ∃ d, IsDigit base c d ∧ acc * base + d = n := by
  simp only [isDigit_iff, digitsFrom?]
  cases digitValue? c with
  | none => simp
  | some d => by_cases small : d < base <;> simp [small]

def digitsIn (cs : List Char) : List Char := cs.filter (· != '_')

theorem digitsFrom?_digitsIn_concat (other : c ≠ '_') :
    digitsFrom? base 0 (digitsIn (cs ++ [c])) = some n ↔
      ∃ k d, digitsFrom? base 0 (digitsIn cs) = some k ∧ IsDigit base c d ∧ k * base + d = n := by
  have last : digitsIn (cs ++ [c]) = digitsIn cs ++ [c] := by simp [digitsIn, other]
  rw [last, digitsFrom?_append, Option.bind_eq_some_iff]
  simp only [digitsFrom?_singleton, exists_and_left]

theorem digitsIn_concat_gap : digitsIn (cs ++ ['_']) = digitsIn cs := by
  simp [digitsIn]

theorem DigitRun.read (run : DigitRun base cs n) :
    Interp.goodUnderscores cs = true ∧ digitsFrom? base 0 (digitsIn cs) = some n := by
  induction run with
  | @one c d digit =>
    have other := digit.facts.2.2
    rw [← List.nil_append [c], goodUnderscores_concat other, digitsFrom?_digitsIn_concat other]
    exact ⟨by simp [BeforeDigit, SingleGaps], 0, d, rfl, digit, by rw [Nat.zero_mul, Nat.zero_add]⟩
  | @next cs n c d before digit ih =>
    have other := digit.facts.2.2
    rw [goodUnderscores_concat other, digitsFrom?_digitsIn_concat other]
    exact ⟨(goodUnderscores_iff.1 ih.1).2.2, n, d, ih.2, digit, rfl⟩
  | @gap cs n c d before digit ih =>
    have other := digit.facts.2.2
    rw [List.append_cons cs '_' [c], goodUnderscores_concat other,
      digitsFrom?_digitsIn_concat other, beforeDigit_concat_gap, digitsIn_concat_gap]
    exact ⟨ih.1, n, d, ih.2, digit, rfl⟩

-- Induction on the length: a digit comes off the end, and the underscore before it if there is one.
theorem DigitRun.of_read (good : Interp.goodUnderscores cs = true)
    (value : digitsFrom? base 0 (digitsIn cs) = some n) : DigitRun base cs n := by
  induction length : cs.length using Nat.strongRecOn generalizing cs n with
  | ind k ih =>
  obtain ⟨some, last, _⟩ := goodUnderscores_iff.1 good
  obtain ⟨before, c, rfl⟩ := (List.eq_nil_or_concat' cs).resolve_left some
  have other : c ≠ '_' := by simpa using last
  rw [goodUnderscores_concat other] at good
  obtain ⟨m, d, read, digit, rfl⟩ := (digitsFrom?_digitsIn_concat other).1 value
  rcases List.eq_nil_or_concat' before with rfl | ⟨start, b, rfl⟩
  next =>
    cases read
    rw [Nat.zero_mul, Nat.zero_add]
    exact .one digit
  next =>
    have shorter : start.length + 2 = k := by simpa using length
    rcases eq_or_ne b '_' with rfl | inner
    next =>
      rw [digitsIn_concat_gap] at read
      rw [List.append_assoc]
      exact .gap (ih _ (by omega) (beforeDigit_concat_gap.1 good) read rfl) digit
    next =>
      have good : Interp.goodUnderscores (start ++ [b]) = true :=
        goodUnderscores_iff.2 ⟨by simp, by simpa using inner, good⟩
      exact .next (ih _ (by simp; omega) good read rfl) digit

theorem digitRun_iff : DigitRun base cs n ↔
    Interp.goodUnderscores cs = true ∧ digitsFrom? base 0 (digitsIn cs) = some n :=
  ⟨DigitRun.read, fun read => .of_read read.1 read.2⟩

theorem goodUnderscores_lower (cs : List Char) :
    Interp.goodUnderscores (cs.map Char.toLower) = Interp.goodUnderscores cs := by
  rw [Bool.eq_iff_iff, goodUnderscores_iff, goodUnderscores_iff]
  simp [BeforeDigit, SingleGaps, List.isChain_map, toLower_eq_underscore]

theorem digitsIn_lower (cs : List Char) :
    digitsIn (cs.map Char.toLower) = (digitsIn cs).map Char.toLower := by
  rw [digitsIn, List.filter_map, digitsIn]
  congr 2
  funext c
  exact Bool.eq_iff_iff.2 (by simp [toLower_eq_underscore])

theorem digitsFrom?_lower (acc : Nat) :
    digitsFrom? base acc (cs.map Char.toLower) = digitsFrom? base acc cs := by
  induction cs generalizing acc with
  | nil => rfl
  | cons c rest ih => simp only [List.map_cons, digitsFrom?, digitValue?_toLower, ih]

theorem DigitRun.lower_iff : DigitRun base (cs.map Char.toLower) n ↔ DigitRun base cs n := by
  rw [digitRun_iff, digitRun_iff, goodUnderscores_lower, digitsIn_lower, digitsFrom?_lower]

theorem DigitRun.mem (run : DigitRun base cs n) (member : c ∈ cs) :
    c = '_' ∨ ∃ d, IsDigit base c d := by
  induction run with
  | one digit =>
    rw [List.mem_singleton.1 member]
    exact .inr ⟨_, digit⟩
  | next before digit ih =>
    rcases List.mem_append.1 member with earlier | last
    · exact ih earlier
    · rw [List.mem_singleton.1 last]
      exact .inr ⟨_, digit⟩
  | gap before digit ih =>
    rcases List.mem_append.1 member with earlier | last
    · exact ih earlier
    · rcases List.mem_pair.1 last with rfl | rfl
      · exact .inl rfl
      · exact .inr ⟨_, digit⟩

/-! ### What is read -/

-- The reader of digits has a sign of its own, which is not there.
theorem readWord?_unsigned (unsigned : ∀ c ∈ cs.head?, ¬ IsSign c) :
    readWord? base cs = (digits? base cs).bind fun n => ofInt? n := by
  unfold readWord?
  split
  next => exact absurd (.inr rfl) (unsigned '-' rfl)
  next => exact absurd (.inl rfl) (unsigned '+' rfl)
  next => rfl

-- What is read behind a sign and a mark.
def run? (base : Nat) (cs : List Char) : Option Int64 :=
  if !Interp.goodUnderscores cs then none else readWord? base (cs.filter (· != '_'))

theorem run?_eq_some {w : Int64} (unsigned : ∀ c ∈ cs.head?, ¬ IsSign c) :
    run? base cs = some w ↔ ∃ n, DigitRun base cs n ∧ w.toInt = n := by
  rw [run?]
  simp only [digitRun_iff]
  cases good : Interp.goodUnderscores cs with
  | false => simp
  | true =>
    obtain ⟨some, _, first, _⟩ := goodUnderscores_iff.1 good
    obtain ⟨c, rest, rfl⟩ := List.exists_cons_of_ne_nil some
    have kept : digitsIn (c :: rest) = c :: digitsIn rest := by
      simp [digitsIn, show c ≠ '_' by simpa using first]
    have plain : ∀ b ∈ (digitsIn (c :: rest)).head?, ¬ IsSign b := by rwa [kept]
    change readWord? base (digitsIn (c :: rest)) = _ ↔ _
    rw [readWord?_unsigned plain, digits?, if_neg (by simp [kept]), Option.bind_eq_some_iff]
    simp [ofInt?_eq_some_iff]

-- The text without the mark of its base, if it has one.
def withoutMark (base : Nat) (cs : List Char) : List Char :=
  if (Interp.baseMark base).isEmpty then cs else (Text.after? (Interp.baseMark base) cs).getD cs

theorem withoutMark_split (base : Nat) (cs : List Char) :
    ∃ mark rest, cs = mark ++ rest ∧ BaseMark base mark ∧
      withoutMark base (cs.map Char.toLower) = rest.map Char.toLower := by
  unfold withoutMark
  split
  next => exact ⟨[], cs, rfl, .inl rfl, rfl⟩
  next =>
    cases after : Text.after? (Interp.baseMark base) (cs.map Char.toLower) with
    | none => exact ⟨[], cs, rfl, .inl rfl, rfl⟩
    | some rest =>
      obtain ⟨mark, rest, rfl, marked, rfl⟩ :=
        List.map_eq_append_iff.1 (Text.after?_eq_some_iff.1 after)
      exact ⟨mark, rest, rfl, .inr marked, rfl⟩

theorem IsDigit.lt {v : Nat} (digit : IsDigit base c d) (value : digitValue? c = some v) :
    v < base := by
  obtain ⟨small, same⟩ := isDigit_iff.1 digit
  rwa [← Option.some.inj (same.symm.trans value)]

-- The letter of a mark is no digit of its base.
theorem baseMark_letter (base : Nat) : Interp.baseMark base = [] ∨
    ∃ c v, Interp.baseMark base = ['0', c] ∧ digitValue? c = some v ∧ base ≤ v := by
  fun_cases Interp.baseMark base
  case case1 => exact .inr ⟨'x', 33, rfl, rfl, by decide⟩
  case case2 => exact .inr ⟨'o', 24, rfl, rfl, by decide⟩
  case case3 => exact .inr ⟨'b', 11, rfl, rfl, by decide⟩
  case case4 => exact .inl rfl

theorem withoutMark_of_run {mark digits : List Char} (marked : BaseMark base mark)
    (run : DigitRun base digits n) :
    withoutMark base ((mark ++ digits).map Char.toLower) = digits.map Char.toLower := by
  unfold withoutMark
  rcases marked with rfl | marked
  next =>
    rcases baseMark_letter base with empty | ⟨c, v, letters, value, great⟩
    next => rw [empty]; rfl
    next =>
      have none : Text.after? (Interp.baseMark base) (digits.map Char.toLower) = none := by
        refine Option.eq_none_iff_forall_ne_some.2 fun rest after => ?_
        have member : c ∈ digits.map Char.toLower := by
          rw [Text.after?_eq_some_iff.1 after, letters]
          simp
        rcases (DigitRun.lower_iff.2 run).mem member with rfl | ⟨d, digit⟩
        · cases value
        · exact absurd (digit.lt value) (Nat.not_lt.2 great)
      rw [List.nil_append, none]
      split <;> rfl
  next =>
    rw [List.map_append, marked, Text.after?_eq_some_iff.2 rfl]
    split
    next empty => rw [List.isEmpty_iff.1 empty]; rfl
    next => rfl

-- What is read behind a sign.
def magnitude? (base : Nat) (cs : List Char) : Option Int64 :=
  run? base (withoutMark base (cs.map Char.toLower))

theorem DigitRun.unsigned (run : DigitRun base cs n) : ∀ c ∈ cs, ¬ IsSign c := by
  intro c member
  rcases run.mem member with rfl | ⟨d, digit⟩
  · decide
  · exact digit.facts.1

theorem magnitude?_of_run {mark digits : List Char} {w : Int64} (marked : BaseMark base mark)
    (run : DigitRun base digits n) (value : w.toInt = n) :
    magnitude? base (mark ++ digits) = some w := by
  have lower := DigitRun.lower_iff.2 run
  have unsigned : ∀ c ∈ (digits.map Char.toLower).head?, ¬ IsSign c := fun c first =>
    lower.unsigned c (List.mem_of_mem_head? first)
  rw [magnitude?, withoutMark_of_run marked run, run?_eq_some unsigned]
  exact ⟨n, lower, value⟩

theorem run_of_magnitude? {w : Int64}
    (unsigned : ∀ mark c rest, cs = mark ++ c :: rest → BaseMark base mark → ¬ IsSign c)
    (read : magnitude? base cs = some w) : ∃ mark digits n, cs = mark ++ digits ∧
      BaseMark base mark ∧ DigitRun base digits n ∧ w.toInt = n := by
  obtain ⟨mark, rest, split, marked, left⟩ := withoutMark_split base cs
  have plain : ∀ b ∈ (rest.map Char.toLower).head?, ¬ IsSign b := by
    intro b first
    cases rest with
    | nil => cases first
    | cons c rest =>
      rw [← Option.some.inj first, isSign_toLower]
      exact unsigned mark c rest split marked
  rw [magnitude?, left, run?_eq_some plain] at read
  obtain ⟨n, run, value⟩ := read
  exact ⟨mark, rest, n, split, marked, DigitRun.lower_iff.1 run, value⟩

/-! ### Signs -/

-- What is read between blank ends.
def signed? (base : Nat) (word : List Char) : Option Int64 :=
  match word with
  | '-' :: rest => (magnitude? base rest).bind fun w => ofInt? (-w.toInt)
  | '+' :: rest => magnitude? base rest
  | cs => magnitude? base cs

theorem readInteger?_eq (base : Nat) (t : String) :
    Interp.readInteger? base t = signed? base (Text.trimWhile Text.isBlank t.toList) := by
  have behind : ∀ (negative : Bool) (cs : List Char),
      (do
        let cs := withoutMark base (cs.map Char.toLower)
        if !Interp.goodUnderscores cs then none
        let w ← readWord? base (cs.filter (· != '_'))
        if negative then ofInt? (-w.toInt) else some w) =
      (magnitude? base cs).bind fun w => if negative then ofInt? (-w.toInt) else some w := by
    intro negative cs
    rw [magnitude?, run?]
    dsimp only
    split <;> rfl
  rw [Interp.readInteger?, Text.trim, String.toList_ofList]
  generalize Text.trimWhile Text.isBlank t.toList = word
  fun_cases signed? base word
  case case1 rest => exact behind true rest
  case case2 rest => exact (behind false rest).trans (Option.bind_fun_some _)
  case case3 minus plus =>
    split
    next pair =>
      split at pair
      next rest => exact absurd rfl (minus rest)
      next rest => exact absurd rfl (plus rest)
      next =>
        cases pair
        exact (behind false word).trans (Option.bind_fun_some _)

theorem signed?_unsigned (unsigned : ∀ c ∈ cs.head?, ¬ IsSign c) :
    signed? base cs = magnitude? base cs := by
  unfold signed?
  split
  next => exact absurd (.inr rfl) (unsigned '-' rfl)
  next => exact absurd (.inl rfl) (unsigned '+' rfl)
  next => rfl

-- The least word is the only one whose size is none.
theorem exists_size {v : Int64} (other : v ≠ -0x8000000000000000) (value : -(n : Int) = v.toInt) :
    ∃ w : Int64, w.toInt = n := by
  have fits := fits_toInt v
  have apart : v.toInt ≠ -0x8000000000000000 := fun same => other (Int64.toInt_inj.1 same)
  exact ⟨Int64.ofInt n, toInt_ofInt_of_fits ⟨by omega, by unfold FitsWord at fits; omega⟩⟩

theorem BaseMark.facts {mark : List Char} (marked : BaseMark base mark) (member : c ∈ mark) :
    ¬ IsSign c ∧ Text.isBlank c = false := by
  rcases marked with rfl | marked
  · cases member
  · have lower : c.toLower ∈ Interp.baseMark base := marked ▸ List.mem_map_of_mem member
    have plain : ¬ IsSign c.toLower ∧ Text.isBlank c.toLower = false := by
      revert lower
      generalize c.toLower = l
      fun_cases Interp.baseMark base
      case case4 => intro member; cases member
      all_goals
        intro member
        rcases List.mem_pair.1 member with rfl | rfl <;> decide
    rwa [isSign_toLower, isBlank_toLower] at plain

theorem BaseMark.unsigned {mark digits : List Char} (marked : BaseMark base mark)
    (run : DigitRun base digits n) : ∀ c ∈ mark ++ digits, ¬ IsSign c := fun c member =>
  (List.mem_append.1 member).elim (fun letter => (marked.facts letter).1) (run.unsigned c)

theorem signed?_of_word {word : List Char} {v : Int64} (other : v ≠ -0x8000000000000000)
    (written : IntegerWord base word v.toInt) : signed? base word = some v := by
  generalize value : v.toInt = k at written
  obtain @⟨sign, mark, digits, factor, n, signed, marked, run⟩ := written
  cases signed with
  | none =>
    have unsigned : ∀ c ∈ (mark ++ digits).head?, ¬ IsSign c := fun c first =>
      marked.unsigned run c (List.mem_of_mem_head? first)
    rw [List.nil_append, signed?_unsigned unsigned]
    exact magnitude?_of_run marked run (by omega)
  | plus => exact magnitude?_of_run marked run (by omega)
  | minus =>
    obtain ⟨w, size⟩ := exists_size (n := n) other (by omega)
    change (magnitude? base (mark ++ digits)).bind (fun w => ofInt? (-w.toInt)) = some v
    rw [magnitude?_of_run marked run size, Option.bind_some, ofInt?_eq_some_iff]
    omega

theorem word_of_signed? {word : List Char} {v : Int64}
    (once : ∀ lead factor mark c rest, word = lead ++ mark ++ c :: rest →
      IntegerSign lead factor → BaseMark base mark → lead ++ mark ≠ [] → ¬ IsSign c)
    (read : signed? base word = some v) : IntegerWord base word v.toInt := by
  revert read
  fun_cases signed? base word
  case case1 rest =>
    intro read
    obtain ⟨w, read, negative⟩ := Option.bind_eq_some_iff.1 read
    have unsigned : ∀ mark c left, rest = mark ++ c :: left → BaseMark base mark → ¬ IsSign c :=
      fun mark c left split marked =>
        once _ _ mark c left (congrArg _ split) .minus marked (by simp)
    obtain ⟨mark, digits, n, rfl, marked, run, size⟩ := run_of_magnitude? unsigned read
    have value : v.toInt = -1 * n := by
      rw [ofInt?_eq_some_iff.1 negative, size, Int.neg_one_mul]
    rw [value]
    exact .mk .minus marked run
  case case2 rest =>
    intro read
    have unsigned : ∀ mark c left, rest = mark ++ c :: left → BaseMark base mark → ¬ IsSign c :=
      fun mark c left split marked =>
        once _ _ mark c left (congrArg _ split) .plus marked (by simp)
    obtain ⟨mark, digits, n, rfl, marked, run, size⟩ := run_of_magnitude? unsigned read
    rw [size, ← Int.one_mul (n : Int)]
    exact .mk .plus marked run
  case case3 minus plus =>
    intro read
    have unsigned : ∀ mark c rest, word = mark ++ c :: rest → BaseMark base mark → ¬ IsSign c := by
      intro mark c rest split marked sign
      rcases mark.eq_nil_or_concat with rfl | ⟨_, _, rfl⟩
      · rcases sign with rfl | rfl
        · exact plus rest split
        · exact minus rest split
      · exact once [] 1 _ c rest split .none marked (by simp) sign
    obtain ⟨mark, digits, n, rfl, marked, run, size⟩ := run_of_magnitude? unsigned read
    rw [size, ← Int.one_mul (n : Int)]
    exact .mk .none marked run

/-! ### Blank ends -/

theorem Text.dropWhile_of_stops {p : Char → Bool} (all : ∀ c ∈ cs, p c = true)
    (stops : ∀ c ∈ ds.head?, p c = false) : (cs ++ ds).dropWhile p = ds := by
  rw [List.dropWhile_append_of_pos all]
  cases ds with
  | nil => rfl
  | cons d rest => exact List.dropWhile_cons_of_neg (by simp [stops d rfl])

theorem Text.trimWhile_eq {p : Char → Bool} {before word after : List Char}
    (start : ∀ c ∈ before, p c = true) (ends : ∀ c ∈ after, p c = true) (some : word ≠ [])
    (inside : ∀ c ∈ word, p c = false) : trimWhile p (before ++ word ++ after) = word := by
  have first : ∀ c ∈ (word ++ after).head?, p c = false := by
    rw [List.head?_append_of_ne_nil _ some]
    exact fun c first => inside c (List.mem_of_mem_head? first)
  have last : ∀ c ∈ word.reverse.head?, p c = false := fun c last =>
    inside c (List.mem_reverse.1 (List.mem_of_mem_head? last))
  have ends : ∀ c ∈ after.reverse, p c = true := fun c member => ends c (List.mem_reverse.1 member)
  rw [trimWhile, dropEndWhile, List.append_assoc, dropWhile_of_stops start first,
    List.reverse_append, dropWhile_of_stops ends last, List.reverse_reverse]

theorem Text.trimWhile_split (p : Char → Bool) (cs : List Char) :
    ∃ before after, cs = before ++ trimWhile p cs ++ after ∧ (∀ c ∈ before, p c = true) ∧
      ∀ c ∈ after, p c = true := by
  refine ⟨cs.takeWhile p, (cs.dropWhile p).rtakeWhile p, ?_, fun c => List.mem_takeWhile_imp,
    fun c => List.mem_rtakeWhile_imp⟩
  change _ = _ ++ (cs.dropWhile p).rdropWhile p ++ _
  rw [List.append_assoc, List.rdropWhile_append_rtakeWhile, List.takeWhile_append_dropWhile]

theorem DigitRun.ne_nil (run : DigitRun base cs n) : cs ≠ [] :=
  (goodUnderscores_iff.1 run.read.1).1

theorem DigitRun.not_blank (run : DigitRun base cs n) (member : c ∈ cs) :
    Text.isBlank c = false := by
  rcases run.mem member with rfl | ⟨d, digit⟩
  · decide
  · exact digit.facts.2.1

theorem IntegerSign.not_blank {sign mark : List Char} {factor : Int}
    (signed : IntegerSign sign factor) (marked : BaseMark base mark) (member : c ∈ sign ++ mark) :
    Text.isBlank c = false := by
  rcases List.mem_append.1 member with front | letter
  · cases signed with
    | none => cases front
    | plus | minus =>
      rw [List.mem_singleton.1 front]
      decide
  · exact (marked.facts letter).2

namespace IntegerWord

variable {word : List Char} {k : Int}

theorem ne_nil (h : IntegerWord base word k) : word ≠ [] := by
  obtain ⟨_, _, run⟩ := h
  exact List.append_ne_nil_of_right_ne_nil _ run.ne_nil

theorem not_blank (h : IntegerWord base word k) (member : c ∈ word) : Text.isBlank c = false := by
  obtain ⟨signed, marked, run⟩ := h
  exact (List.mem_append.1 member).elim (signed.not_blank marked) run.not_blank

theorem head_not_blank (h : IntegerWord base word k) (rest : List Char) :
    ∀ c ∈ (word ++ rest).head?, Text.isBlank c = false := by
  rw [List.head?_append_of_ne_nil _ h.ne_nil]
  exact fun c first => h.not_blank (List.mem_of_mem_head? first)

theorem unsigned_tail (h : IntegerWord base word k) : ∀ c ∈ word.tail, ¬ IsSign c := by
  obtain @⟨sign, mark, digits, factor, n, signed, marked, run⟩ := h
  rw [List.append_assoc]
  cases signed with
  | none => exact fun c member => marked.unsigned run c (List.mem_of_mem_tail member)
  | plus | minus => exact marked.unsigned run

end IntegerWord

theorem integerText_iff {k : Int} :
    IntegerText base text k ↔ IntegerWord base (Text.trimWhile Text.isBlank text) k := by
  constructor
  next =>
    rintro ⟨before, word, after, rfl, start, ends, written⟩
    rwa [Text.trimWhile_eq start ends written.ne_nil fun c => written.not_blank]
  next =>
    intro written
    obtain ⟨before, after, split, start, ends⟩ := Text.trimWhile_split Text.isBlank text
    exact ⟨before, _, after, split, start, ends, written⟩

theorem IntegerSign.unique {sign sign' : List Char} {factor factor' : Int}
    (signed : IntegerSign sign factor) (signed' : IntegerSign sign' factor')
    (unsigned : ∀ c ∈ cs, ¬ IsSign c) (plain : ∀ c ∈ ds, ¬ IsSign c)
    (same : sign ++ cs = sign' ++ ds) : factor = factor' ∧ cs = ds := by
  cases signed with
  | none =>
    cases signed' with
    | none => exact ⟨rfl, same⟩
    | plus =>
      rw [show cs = '+' :: ds from same] at unsigned
      exact absurd (.inl rfl) (unsigned '+' List.mem_cons_self)
    | minus =>
      rw [show cs = '-' :: ds from same] at unsigned
      exact absurd (.inr rfl) (unsigned '-' List.mem_cons_self)
  | plus =>
    cases signed' with
    | none =>
      rw [← show '+' :: cs = ds from same] at plain
      exact absurd (.inl rfl) (plain '+' List.mem_cons_self)
    | plus => exact ⟨rfl, List.tail_eq_of_cons_eq same⟩
    | minus => exact absurd (List.head_eq_of_cons_eq same) (by decide)
  | minus =>
    cases signed' with
    | none =>
      rw [← show '-' :: cs = ds from same] at plain
      exact absurd (.inr rfl) (plain '-' List.mem_cons_self)
    | plus => exact absurd (List.head_eq_of_cons_eq same) (by decide)
    | minus => exact ⟨rfl, List.tail_eq_of_cons_eq same⟩

-- A text denotes one integer at most.
theorem IntegerText.unique {k k' : Int} (h : IntegerText base text k)
    (h' : IntegerText base text k') : k = k' := by
  rw [integerText_iff] at h h'
  generalize Text.trimWhile Text.isBlank text = word at h h'
  obtain @⟨sign, mark, digits, factor, n, signed, marked, run⟩ := h
  generalize split : sign ++ mark ++ digits = word at h'
  obtain @⟨sign', mark', digits', factor', n', signed', marked', run'⟩ := h'
  rw [List.append_assoc, List.append_assoc] at split
  obtain ⟨rfl, bodies⟩ := signed.unique signed' (marked.unsigned run) (marked'.unsigned run') split
  have lower := withoutMark_of_run marked run
  rw [bodies, withoutMark_of_run marked' run'] at lower
  have value := (DigitRun.lower_iff.2 run).read.2
  rw [← lower, (DigitRun.lower_iff.2 run').read.2] at value
  rw [Option.some.inj value]

-- What is signed twice denotes nothing.
theorem IntegerText.signed_once {k : Int} (h : IntegerText base text k) :
    ¬ SignedTwice base text := by
  rintro ⟨before, lead, factor, mark, c, rest, split, blank, signed, marked, some, sign⟩
  obtain ⟨start, word, after, rfl, begins, ends, written⟩ := h
  have stops : ∀ b ∈ (lead ++ mark ++ c :: rest).head?, Text.isBlank b = false := by
    rw [List.head?_append_of_ne_nil _ some]
    exact fun b first => signed.not_blank marked (List.mem_of_mem_head? first)
  have same : word ++ after = lead ++ mark ++ c :: rest := by
    rw [← Text.dropWhile_of_stops blank stops, ← split, List.append_assoc]
    exact (Text.dropWhile_of_stops begins (written.head_not_blank after)).symm
  have member : c ∈ (word ++ after).tail := by
    rw [same, List.tail_append_of_ne_nil some]
    exact List.mem_append_right _ List.mem_cons_self
  rw [List.tail_append_of_ne_nil written.ne_nil] at member
  rcases List.mem_append.1 member with inside | behind
  · exact written.unsigned_tail c inside sign
  · have blank := ends c behind
    revert blank
    rcases sign with rfl | rfl <;> decide

/-! ### Texts of integers -/

theorem goodUnderscores_of_not_mem (some : cs ≠ []) (none : '_' ∉ cs) :
    Interp.goodUnderscores cs = true := by
  have gaps : SingleGaps cs :=
    (List.pairwise_of_forall_mem_list fun a member b _ (same : a = '_' ∧ b = '_') =>
      none (same.1 ▸ member)).isChain
  exact goodUnderscores_iff.2 ⟨some, fun last => none (List.mem_of_mem_getLast? last),
    fun first => none (List.mem_of_mem_head? first), gaps⟩

theorem digitRun_of_numeral (numeral : Numeral base false n cs) : DigitRun base cs n := by
  have none : '_' ∉ cs := numeral.not_mem rfl rfl rfl
  have kept : digitsIn cs = cs := by
    refine List.filter_eq_self.2 fun c member => bne_iff_ne.2 ?_
    rintro rfl
    exact none member
  obtain ⟨some, value⟩ := digits?_eq_some.1 numeral.value
  exact .of_read (goodUnderscores_of_not_mem some none) (kept.symm ▸ value)

theorem integerText_str (h : Heap) (v : Int64) :
    IntegerText 10 (h.str (.int v)).toList v.toInt := by
  have negative : v < 0 ↔ v.toInt < 0 := Int64.lt_iff_toInt_lt
  have word : IntegerWord 10 (h.str (.int v)).toList v.toInt := by
    rw [h.str_int]
    generalize v.toInt = k at negative ⊢
    have run : DigitRun 10 (Nat.toDigits 10 k.natAbs) k.natAbs := by
      have numeral := Numeral.toDigits false (by decide : 1 < 10) (by decide) k.natAbs
      rw [map_inCase_false] at numeral
      exact digitRun_of_numeral numeral
    by_cases below : v < 0
    next =>
      have word := IntegerWord.mk .minus (.inl rfl) run
      have value : -1 * (k.natAbs : Int) = k := by have := negative.1 below; omega
      rw [value] at word
      rwa [if_pos below]
    next =>
      have word := IntegerWord.mk .none (.inl rfl) run
      have value : 1 * (k.natAbs : Int) = k := by have := mt negative.2 below; omega
      rw [value] at word
      rwa [if_neg below]
  exact ⟨[], _, [], by simp, by simp [Blank], by simp [Blank], word⟩

theorem Interp.toInt_str {s : String} {v : Int64} (read : readInteger? 10 s = some v)
    (m : Machine) : toInt [.str s] [] m = .ok (.int v) m := by
  simp [toInt, arity, read]
  rfl

theorem readInteger?_of_text {t : String} {v : Int64} (other : v ≠ -0x8000000000000000)
    (written : IntegerText base t.toList v.toInt) : Interp.readInteger? base t = some v := by
  rw [readInteger?_eq]
  exact signed?_of_word other (integerText_iff.1 written)

theorem text_of_readInteger? {t : String} {v : Int64} (once : ¬ SignedTwice base t.toList)
    (read : Interp.readInteger? base t = some v) : IntegerText base t.toList v.toInt := by
  obtain ⟨before, after, split, start, -⟩ := Text.trimWhile_split Text.isBlank t.toList
  rw [readInteger?_eq] at read
  refine integerText_iff.2 (word_of_signed? ?_ read)
  intro lead factor mark c rest same signed marked some sign
  refine once ⟨before, lead, factor, mark, c, rest ++ after, ?_, start, signed, marked, some, sign⟩
  rw [split, same]
  simp only [List.append_assoc, List.cons_append]

/--
A text is read as the integer that it denotes, and nothing is read from other texts. What a second
sign makes of a text, and the text of the least word, are apart.
-/
theorem integers_are_read_as_written (base : Nat) (t : String) (v : Int64) :
    (v ≠ -0x8000000000000000 → IntegerText base t.toList v.toInt →
      Interp.readInteger? base t = some v) ∧
    (¬ SignedTwice base t.toList → Interp.readInteger? base t = some v →
      IntegerText base t.toList v.toInt) ∧
    (v ≠ -0x8000000000000000 → ∀ m : Machine,
      Interp.toInt [.str (m.heap.str (.int v))] [] m = .ok (.int v) m) :=
  ⟨readInteger?_of_text, text_of_readInteger?, fun other m =>
    Interp.toInt_str (readInteger?_of_text other (integerText_str m.heap v)) m⟩

-- A mark and an underscore, with letters in either case.
theorem integers_are_read_as_written_marked :
    Interp.readInteger? 16 " -0xF_f " = some (-255) ∧
      IntegerText 16 " -0xF_f ".toList (-255) ∧
      ∀ m : Machine, Interp.toInt [.str (m.heap.str (.int (-255)))] [] m = .ok (.int (-255)) m := by
  have settled := integers_are_read_as_written 16 " -0xF_f " (-255)
  have first : IsDigit 16 'F' 15 := ⟨by decide, rfl⟩
  have last : IsDigit 16 'f' 15 := ⟨by decide, rfl⟩
  have run : DigitRun 16 ['F', '_', 'f'] 255 := .gap (.one first) last
  have marked : BaseMark 16 ['0', 'x'] := .inr rfl
  have blank : Blank [' '] := List.forall_mem_singleton.2 rfl
  have text : IntegerText 16 " -0xF_f ".toList (-255) :=
    ⟨[' '], _, [' '], rfl, blank, blank, .mk .minus marked run⟩
  exact ⟨settled.1 (by decide) text, settled.2.1 text.signed_once (by decide +kernel),
    settled.2.2 (by decide)⟩

-- The text of the least word is refused, and a second sign is let through.
theorem signs_are_misread :
    let s := (Heap.empty 1).str (.int (-0x8000000000000000))
    (IntegerText 10 s.toList (-0x8000000000000000) ∧ FitsWord (-0x8000000000000000) ∧
      Interp.readInteger? 10 s = none) ∧
    Interp.readInteger? 10 "--5" = some 5 ∧ ∀ k, ¬ IntegerText 10 "--5".toList k := by
  intro s
  have text : IntegerText 10 s.toList (-0x8000000000000000) := integerText_str _ _
  have letters : s = "-9223372036854775808" := by
    rw [← String.toList_inj, (Heap.empty 1).str_int]
    decide +kernel
  refine ⟨⟨text, by decide, ?_⟩, by decide +kernel, fun k denotes => denotes.signed_once ?_⟩
  · rw [letters]
    decide +kernel
  · exact ⟨[], ['-'], _, [], '-', ['5'], rfl, by simp [Blank], .minus, .inl rfl, by simp, .inr rfl⟩

end StepTrace
