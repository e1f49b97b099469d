import StepTrace.Proofs.Integers.Specifications

/-!
Integers under a specification: sign, mark and digits, and the padding around or between them.
-/

set_option autoImplicit false

namespace StepTrace

open Number

/-! ### The parts -/

namespace IntegerSpec

def base (s : IntegerSpec) : Nat := s.kind.elim 10 IntegerKind.base

def capital (s : IntegerSpec) : Bool := s.kind == some .capitalHex

-- Only decimal digits are grouped.
def grouping (s : IntegerSpec) : Option Char :=
  if s.base = 10 then s.separator.map Separator.char else none

def mark (s : IntegerSpec) : List Char :=
  if s.alternate then s.kind.elim [] IntegerKind.mark else []

def signOf (s : IntegerSpec) (n : Int64) : List Char :=
  if n < 0 then ['-']
  else
    match s.sign with
    | some .plus => ['+']
    | some .space => [' ']
    | some .minus | none => []

-- The digits of `n` under the specification; without their separators they are a numeral.
structure Digits (s : IntegerSpec) (n : Nat) (digits : List Char) : Prop where
  numeral : Numeral s.base s.capital n (digits.filter (some · != s.grouping))
  grouped : ∀ c ∈ s.grouping, Grouped c (digits.filter (some · != s.grouping)) digits

def fill (s : IntegerSpec) : Char :=
  match s.align with
  | some (fill, _) => fill.getD ' '
  | none => if s.fields.zero then '0' else ' '

def place (s : IntegerSpec) : Alignment :=
  match s.align with
  | some (_, align) => align
  | none => if s.fields.zero then .afterSign else .right

def core (s : IntegerSpec) (n : Int64) (digits : List Char) : List Char :=
  s.signOf n ++ s.mark ++ digits

-- How many characters are missing to the width.
def gap (s : IntegerSpec) (n : Int64) (digits : List Char) : Nat :=
  s.width.getD 0 - (s.core n digits).length

end IntegerSpec

/-! ### The padding -/

-- Extra characters around `lead` and `tail`, or between them.
inductive Laid (fill : Char) (gap : Nat) (lead tail : List Char) : Alignment → List Char → Prop
  | left : Laid fill gap lead tail .left (lead ++ tail ++ List.replicate gap fill)
  | right : Laid fill gap lead tail .right (List.replicate gap fill ++ lead ++ tail)
  | center {before after : Nat} (all : before + after = gap) (even : before ≤ after + 1)
      (even' : after ≤ before + 1) :
      Laid fill gap lead tail .center
        (List.replicate before fill ++ lead ++ tail ++ List.replicate after fill)
  | afterSign : Laid fill gap lead tail .afterSign (lead ++ List.replicate gap fill ++ tail)

namespace Laid

variable {fill : Char} {gap : Nat} {align : Alignment} {lead mark tail text : List Char}

-- What begins the tail may count to the lead unless it is cut off by padding.
theorem assoc (h : Laid fill gap lead (mark ++ tail) align text)
    (whole : align = .afterSign → mark = [] ∨ gap = 0) :
    Laid fill gap (lead ++ mark) tail align text := by
  have joined : ∀ cs : List Char, cs ++ lead ++ (mark ++ tail) = cs ++ (lead ++ mark) ++ tail := by
    intro cs
    simp only [List.append_assoc]
  cases h with
  | left => rw [← List.append_assoc lead]; exact .left
  | right => rw [joined]; exact .right
  | center all even even' => rw [joined]; exact .center all even even'
  | afterSign =>
    rcases whole rfl with rfl | rfl
    next => rw [List.nil_append, List.append_nil]; exact .afterSign
    next =>
      have close : lead ++ List.replicate 0 fill ++ (mark ++ tail) =
          lead ++ mark ++ List.replicate 0 fill ++ tail := by simp
      rw [close]
      exact .afterSign

end Laid

namespace IntegerSpec

theorem pad_laid (s : IntegerSpec) (sign body : List Char) :
    Laid s.fill (s.width.getD 0 - (sign.length + body.length)) sign body s.place
      (s.fields.pad true sign body) := by
  rw [fill, place, FormatSpec.pad]
  cases written : s.align with
  | none =>
    have absent : s.fields.align = none := by rw [fields, written]; rfl
    cases zero : s.fields.zero with
    | false =>
      simp only [absent, if_true, Bool.false_eq_true, if_false]
      exact .right
    | true =>
      simp only [absent, if_true]
      exact .afterSign
  | some parts =>
    obtain ⟨fill, align⟩ := parts
    have present : s.fields.align = some align := by rw [fields, written]; rfl
    have filled : s.fields.fill = fill := by rw [fields, written]; rfl
    simp only [present, filled]
    cases align with
    | left => exact .left
    | right => exact .right
    | center =>
      have width : s.fields.width = s.width.getD 0 := rfl
      exact .center (by omega) (by omega) (by omega)
    | afterSign => exact .afterSign

/-! ### The digits -/

def written (s : IntegerSpec) (n : Nat) : List Char :=
  FormatSpec.groupDigits s.grouping ((Nat.toDigits s.base n).map (inCase s.capital))

theorem base_bounds (s : IntegerSpec) : 1 < s.base ∧ s.base ≤ 16 := by
  rw [base]
  match s.kind with
  | none => decide
  | some kind => cases kind <;> decide

theorem not_mem_of_mem_grouping {s : IntegerSpec} {n : Nat} {c : Char} {cs : List Char}
    (separator : c ∈ s.grouping) (numeral : Numeral s.base s.capital n cs) : c ∉ cs := by
  rw [grouping] at separator
  split at separator
  next =>
    obtain ⟨written, -, rfl⟩ := Option.map_eq_some_iff.1 separator
    cases written <;> exact numeral.not_mem (by decide) (by decide) (by decide)
  next => cases separator

theorem digits_written (s : IntegerSpec) (n : Nat) : s.Digits n (s.written n) := by
  have numeral := Numeral.toDigits s.capital s.base_bounds.1 s.base_bounds.2 n
  rw [written]
  cases separator : s.grouping with
  | none =>
    have all : ((Nat.toDigits s.base n).map (inCase s.capital)).filter (some · != s.grouping) =
        (Nat.toDigits s.base n).map (inCase s.capital) := by
      rw [separator]
      exact List.filter_eq_self.2 fun c member => rfl
    refine ⟨?_, fun c here => ?_⟩
    next => rw [FormatSpec.groupDigits, all]; exact numeral
    next => rw [separator] at here; cases here
  | some c =>
    have grouped := FormatSpec.groupDigits_grouped c numeral.ne_nil
    have removed := grouped.removed (not_mem_of_mem_grouping separator numeral)
    have same : (fun d => some d != s.grouping) = (· != c) := by
      rw [separator]
      rfl
    refine ⟨?_, fun d here => ?_⟩
    next => rw [same, removed]; exact numeral
    next =>
      obtain rfl : c = d := Option.some.inj (separator.symm.trans here)
      rw [same, removed]
      exact grouped

theorem base?_letter (k : IntegerKind) : FormatSpec.base? k.letter = some (k.base, k.mark) := by
  cases k <;> rfl

theorem intBody?_fields (s : IntegerSpec) (n : Int64) :
    s.fields.intBody? n = some (s.mark ++ s.written n.toInt.natAbs) := by
  rw [FormatSpec.intBody?, mark, written, grouping, base, capital]
  cases kind : s.kind with
  | none => simp [fields, kind, map_inCase_false]
  | some k =>
    have letters : ∀ cs : List Char, (if k.letter = 'X' then cs.map Char.toUpper else cs) =
        cs.map (inCase (some k == some .capitalHex)) := by
      intro cs
      cases k with
      | capitalHex => rfl
      | decimal | hex | octal | binary => exact (map_inCase_false cs).symm
    have groups : ∀ (separator : Option Char) (cs : List Char),
        (if k.letter = 'd' then FormatSpec.groupDigits separator cs else cs) =
          FormatSpec.groupDigits (if k.base = 10 then separator else none) cs := by
      intro separator cs
      cases k <;> rfl
    simp only [fields, kind, Option.map_some, base?_letter, letters, groups, Option.elim_some]
    rfl

theorem signText_fields (s : IntegerSpec) (n : Int64) :
    s.fields.signText (n < 0) = s.signOf n := by
  rw [FormatSpec.signText, signOf]
  by_cases negative : n < 0
  next => simp [negative]
  next =>
    cases sign : s.sign with
    | none => simp [negative, fields, sign]
    | some option => cases option <;> simp [negative, fields, sign, SignOption.char]

end IntegerSpec

/-! ### The format -/

theorem Heap.str_int (h : Heap) (n : Int64) :
    (h.str (.int n)).toList =
      (if n < 0 then ['-'] else []) ++ Nat.toDigits 10 n.toInt.natAbs := by
  have text : h.str (.int n) = toString n.toInt := by simp [str, repr, appendValue]
  have sign : n < 0 ↔ ¬0 ≤ n.toInt := by rw [Int64.lt_iff_toInt_lt, Int64.toInt_zero, Int.not_le]
  rw [text, Int.toString_eq_repr, Int.repr_eq_if]
  by_cases positive : 0 ≤ n.toInt
  next =>
    have same : n.toInt.toNat = n.toInt.natAbs := by omega
    rw [if_pos positive, if_neg fun negative => sign.1 negative positive, Nat.toList_repr, same]
    rfl
  next =>
    have same : (-n.toInt).toNat = n.toInt.natAbs := by omega
    rw [if_neg positive, if_pos (sign.2 positive), String.toList_append, Nat.toList_repr, same]
    rfl

namespace FormatSpec

theorem apply_int (h : Heap) (raw : String) {spec : FormatSpec} {n : Int64} {body : List Char}
    (kind : spec.kind ≠ some 'c') (digits : spec.intBody? n = some body) :
    spec.apply h raw (.int n) = .ok (spec.pad true (spec.signText (n < 0)) body) := by
  simp [apply, Value.int?, kind, digits]

-- Without any part of a specification the format is the text of the number.
theorem str_int (h : Heap) {n : Int64} {body : List Char}
    (digits : FormatSpec.intBody? {} n = some body) :
    h.str (.int n) = String.ofList (FormatSpec.pad {} true (signText {} (n < 0)) body) := by
  have plain : Nat.toDigits 10 n.toInt.natAbs = body := by
    simpa [intBody?, groupDigits] using digits
  rw [← String.ofList_toList (s := h.str (.int n)), h.str_int, ← plain]
  by_cases negative : n < 0 <;> simp [pad, signText, negative]

end FormatSpec

namespace IntegerSpec

theorem format_eq (h : Heap) (s : IntegerSpec) (n : Int64) :
    h.format (.int n) (String.ofList s.text) = .ok (String.ofList
      (s.fields.pad true (s.signOf n) (s.mark ++ s.written n.toInt.natAbs))) := by
  have body := s.intBody?_fields n
  rw [Heap.format, String.toList_ofList, s.read?_text, ← s.signText_fields]
  by_cases empty : s.text = []
  next =>
    have read : some {} = some s.fields := by rw [← s.read?_text, empty]; rfl
    have nothing : (String.ofList []).isEmpty = true := rfl
    rw [← Option.some.inj read] at body ⊢
    rw [empty, if_pos nothing, FormatSpec.str_int h body]
  next =>
    have kind : s.fields.kind ≠ some 'c' := by
      change s.kind.map IntegerKind.letter ≠ some 'c'
      cases s.kind with
      | none => decide
      | some k => cases k <;> decide
    rw [if_neg (by simpa using empty)]
    dsimp only
    rw [FormatSpec.apply_int h _ kind body]
    rfl

end IntegerSpec

theorem integers_format_as_specified (h : Heap) (s : IntegerSpec) (n : Int64) :
    FormatSpec.read? s.text = some s.fields ∧
      ∃ digits text, s.Digits n.toInt.natAbs digits ∧
        h.format (.int n) (String.ofList s.text) = .ok (String.ofList text) ∧
        text.length = max (s.width.getD 0) (s.core n digits).length ∧
        Laid s.fill (s.gap n digits) (s.signOf n) (s.mark ++ digits) s.place text ∧
        ((s.place = .afterSign → s.mark = [] ∨ s.gap n digits = 0) →
          Laid s.fill (s.gap n digits) (s.signOf n ++ s.mark) digits s.place text) := by
  have laid := s.pad_laid (s.signOf n) (s.mark ++ s.written n.toInt.natAbs)
  have core : (s.core n (s.written n.toInt.natAbs)).length =
      (s.signOf n).length + (s.mark ++ s.written n.toInt.natAbs).length := by
    rw [IntegerSpec.core, List.append_assoc, List.length_append]
  rw [← core, ← IntegerSpec.gap] at laid
  refine ⟨s.read?_text, s.written n.toInt.natAbs, _, s.digits_written _, s.format_eq h n, ?_, laid,
    laid.assoc⟩
  rw [FormatSpec.length_pad, core]
  rfl

theorem integers_format_as_specified_zeros :
    let s : IntegerSpec := { zero := true, width := some 5, kind := some .decimal }
    ∃ digits text, s.Digits 42 digits ∧
      (Heap.empty 0).format (.int (-42)) (String.ofList s.text) = .ok (String.ofList text) ∧
      text.length = max 5 (s.core (-42) digits).length ∧
      Laid '0' (s.gap (-42) digits) ['-'] digits .afterSign text := by
  obtain ⟨-, digits, text, same, format, length, -, laid⟩ := integers_format_as_specified
    (Heap.empty 0) { zero := true, width := some 5, kind := some .decimal } (-42)
  exact ⟨digits, text, same, format, length, laid fun _ => .inl rfl⟩

def zeroPaddedHex : IntegerSpec where
  alternate := true
  zero := true
  width := some 10
  kind := some .hex

-- The zeros stand in front of `0x` and not behind it.
theorem zeros_precede_the_mark :
    String.ofList zeroPaddedHex.text = "#010x" ∧
      (Heap.empty 0).format (.int 255) "#010x" = .ok "0000000xff" ∧
      ¬∃ digits, Laid zeroPaddedHex.fill (zeroPaddedHex.gap 255 digits)
        (zeroPaddedHex.signOf 255 ++ zeroPaddedHex.mark) digits zeroPaddedHex.place
        "0000000xff".toList := by
  have text : String.ofList zeroPaddedHex.text = "#010x" := by decide
  have padded : zeroPaddedHex.fields.pad true (zeroPaddedHex.signOf 255)
      (zeroPaddedHex.mark ++ zeroPaddedHex.written (255 : Int64).toInt.natAbs) =
        "0000000xff".toList := by decide
  refine ⟨text, ?_, ?_⟩
  next =>
    rw [← text, zeroPaddedHex.format_eq, padded, String.ofList_toList]
  next =>
    rintro ⟨digits, laid⟩
    have sign : zeroPaddedHex.signOf 255 = [] := by decide
    have place : zeroPaddedHex.place = .afterSign := rfl
    have mark : zeroPaddedHex.mark = ['0', 'x'] := rfl
    have written : "0000000xff".toList = '0' :: '0' :: "00000xff".toList := by decide
    rw [sign, place, mark, written] at laid
    generalize rest : '0' :: '0' :: "00000xff".toList = text at laid
    cases laid with
    | afterSign =>
      have second : '0' = 'x' := (List.cons.inj (List.cons.inj rest).2).1
      cases second

end StepTrace
