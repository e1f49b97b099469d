import Mathlib
import StepTrace.Grammar.Expression
import StepTrace.Proofs.Runs

/-!
How a formatted string is written, and that its parts are read back from what is written. Literal
text doubles its braces, so that a brace on its own belongs to a field. In a field, the scanner
counts brackets and looks for the quote that closes a text; outside both, `!`, `:` and a closing
brace end the expression.
-/

set_option autoImplicit false

namespace StepTrace

/-! ### Writing -/

def quoteMarks : List Char := ['\'', '"']

def openingMarks : List Char := ['(', '[', openBrace]

def closingMarks : List Char := [')', ']', closeBrace]

-- The marks that end the expression of a field, unless brackets or quotes are around them.
def fieldMarks : List Char := ['!', ':']

/--
Text in which quotes are closed and brackets pair up, of whatever kinds. It has the marks that end
an expression only inside its brackets and quotes, or anywhere if it stands `within` brackets.
-/
inductive Bracketed : (within : Bool) → List Char → Prop
  | nil {within : Bool} : Bracketed within []
  | plain {within : Bool} {c : Char} {rest : List Char}
      (unquoted : c ∉ quoteMarks) (unopened : c ∉ openingMarks) (unclosed : c ∉ closingMarks)
      (free : c ∈ fieldMarks → within = true) (more : Bracketed within rest) :
      Bracketed within (c :: rest)
  | quoted {within : Bool} {quote : Char} {text rest : List Char}
      (marks : quote ∈ quoteMarks) (inside : quote ∉ text) (more : Bracketed within rest) :
      Bracketed within (quote :: (text ++ quote :: rest))
  | group {within : Bool} {l r : Char} {content rest : List Char}
      (opens : l ∈ openingMarks) (closes : r ∈ closingMarks)
      (inside : Bracketed true content) (more : Bracketed within rest) :
      Bracketed within (l :: (content ++ r :: rest))

inductive Conversion where
  | repr
  | str
  deriving Repr, DecidableEq

namespace Conversion

def mark : Conversion → Char
  | repr => 'r'
  | str => 's'

-- The function that a conversion calls.
def function : Conversion → String
  | repr => "repr"
  | str => "str"

-- The value of a field, converted if the field asks for it.
def apply (value : Expr) : Option Conversion → Expr
  | none => value
  | some k => .call value.location (.name value.location k.function) [value] []

end Conversion

/--
A replacement field. Its expression does not begin with a brace, which would make the brace of the
field a literal one, and its specification does not close the field.
-/
structure Replacement where
  expression : String
  conversion : Option Conversion
  spec : Option String
  bracketed : Bracketed false expression.toList
  single : expression.toList.head? ≠ some openBrace
  unclosed : ∀ text ∈ spec, closeBrace ∉ text.toList

/-- A fragment of a formatted string: literal text, which is not empty, or a field. -/
inductive Fragment where
  | text (literal : String) (nonempty : literal ≠ "")
  | field (f : Replacement)

-- A character of literal text; a brace is doubled.
def doubled (c : Char) : List Char :=
  if c = openBrace ∨ c = closeBrace then [c, c] else [c]

namespace Replacement

def suffix (f : Replacement) : List Char :=
  (f.conversion.elim [] fun k => ['!', k.mark]) ++ (f.spec.elim [] fun text => ':' :: text.toList)

def written (f : Replacement) : List Char :=
  openBrace :: (f.expression.toList ++ f.suffix ++ [closeBrace])

-- The field as the scanner gives it.
def fieldText (f : Replacement) : FieldText :=
  ⟨f.expression.toList, f.conversion.map Conversion.mark, f.spec⟩

end Replacement

namespace Fragment

def isText : Fragment → Bool
  | text _ _ => true
  | field _ => false

def written : Fragment → List Char
  | text literal _ => literal.toList.flatMap doubled
  | field f => f.written

-- Two literals side by side are one literal when they are read.
def Apart (p q : Fragment) : Prop :=
  p.isText = true → q.isText = false

/-- The part that a fragment becomes. An expression is read without the white space around it. -/
inductive Becomes (read : String → Location → Except SyntaxError Expr) (loc : Location) :
    Fragment → FPart → Prop
  | text {literal : String} (nonempty : literal ≠ "") :
      Becomes read loc (.text literal nonempty) (.text literal)
  | field {f : Replacement} {value : Expr} (reads : read (Text.trim f.expression) loc = .ok value) :
      Becomes read loc (.field f) (.field (Conversion.apply value f.conversion) f.spec)

end Fragment

/-- A formatted string as it is written, between its quotes. -/
def writtenFragments (fragments : List Fragment) : List Char :=
  fragments.flatMap Fragment.written

/-! ### The scan of a field -/

section Scan

variable {depth : Nat} {text rest : List Char} {conversion : Option Char}

attribute [local simp] fieldFrom specFrom

theorem fieldFrom_plain {c : Char} (unquoted : c ∉ quoteMarks) (unopened : c ∉ openingMarks)
    (unclosed : c ∉ closingMarks) (free : c ∈ fieldMarks → 0 < depth) :
    fieldFrom depth none text conversion (c :: rest) =
      fieldFrom depth none (c :: text) conversion rest := by
  simp only [quoteMarks, openingMarks, closingMarks, fieldMarks, List.mem_cons, List.not_mem_nil,
    or_false, not_or] at unquoted unopened unclosed free
  rw [fieldFrom.eq_def]
  grind

-- Only the quote that opened a text closes it.
theorem fieldFrom_quoted {quote : Char} {body : List Char} (inside : quote ∉ body) :
    fieldFrom depth (some quote) text conversion (body ++ quote :: rest) =
      fieldFrom depth none (quote :: (body.reverse ++ text)) conversion rest := by
  induction body generalizing text with
  | nil => simp [fieldFrom]
  | cons c body ih =>
    obtain ⟨other, inside⟩ := not_or.1 (mt List.mem_cons.2 inside)
    rw [List.cons_append, fieldFrom]
    simp only [if_neg (Ne.symm other), ih inside, List.reverse_cons, List.append_assoc,
      List.singleton_append]

theorem fieldFrom_quote {quote : Char} (marks : quote ∈ quoteMarks) :
    fieldFrom depth none text conversion (quote :: rest) =
      fieldFrom depth (some quote) (quote :: text) conversion rest := by
  rw [fieldFrom.eq_def]
  exact if_pos (by simpa [quoteMarks] using marks)

theorem fieldFrom_open {c : Char} (opens : c ∈ openingMarks) :
    fieldFrom depth none text conversion (c :: rest) =
      fieldFrom (depth + 1) none (c :: text) conversion rest := by
  simp only [openingMarks, List.mem_cons, List.not_mem_nil, or_false] at opens
  rw [fieldFrom.eq_def]
  rcases opens with rfl | rfl | rfl <;> rfl

theorem fieldFrom_close {c : Char} (closes : c ∈ closingMarks) :
    fieldFrom (depth + 1) none text conversion (c :: rest) =
      fieldFrom depth none (c :: text) conversion rest := by
  simp only [closingMarks, List.mem_cons, List.not_mem_nil, or_false] at closes
  rw [fieldFrom.eq_def]
  rcases closes with rfl | rfl | rfl <;> rfl

-- The scan goes over such a text and comes out at the depth where it went in.
theorem fieldFrom_bracketed {within : Bool} {cs : List Char} (h : Bracketed within cs)
    (deep : within = true → 0 < depth) :
    fieldFrom depth none text conversion (cs ++ rest) =
      fieldFrom depth none (cs.reverse ++ text) conversion rest := by
  induction h generalizing depth text rest with
  | nil => rfl
  | plain unquoted unopened unclosed free _ more =>
    rw [List.cons_append, fieldFrom_plain unquoted unopened unclosed fun mark => deep (free mark),
      more deep]
    simp
  | quoted marks inside _ more =>
    simp only [List.cons_append, List.append_assoc]
    rw [fieldFrom_quote marks, fieldFrom_quoted inside, more deep]
    simp
  | group opens closes _ _ inside more =>
    simp only [List.cons_append, List.append_assoc]
    rw [fieldFrom_open opens, inside fun _ => Nat.succ_pos _, fieldFrom_close closes, more deep]
    simp

theorem specFrom_written {spec : List Char} (unclosed : closeBrace ∉ spec) :
    specFrom text (spec ++ closeBrace :: rest) =
      some (String.ofList (text.reverse ++ spec), rest) := by
  induction spec generalizing text with
  | nil => simp
  | cons c spec ih =>
    obtain ⟨other, unclosed⟩ := not_or.1 (mt List.mem_cons.2 unclosed)
    rw [List.cons_append, specFrom, if_neg (Ne.symm other), ih unclosed]
    simp

theorem fieldFrom_conversion (k : Conversion) :
    fieldFrom 0 none text conversion ('!' :: k.mark :: rest) =
      fieldFrom 0 none text (some k.mark) rest := by
  cases k <;> rfl

theorem fieldFrom_end :
    fieldFrom 0 none text conversion (closeBrace :: rest) =
      some (⟨text.reverse, conversion, none⟩, rest) := by
  rw [fieldFrom.eq_def]
  rfl

theorem fieldFrom_spec {spec : String} (unclosed : closeBrace ∉ spec.toList) :
    fieldFrom 0 none text conversion (':' :: (spec.toList ++ closeBrace :: rest)) =
      some (⟨text.reverse, conversion, some spec⟩, rest) := by
  rw [fieldFrom.eq_def]
  refine (congrArg (Option.map _) (specFrom_written unclosed)).trans ?_
  simp

end Scan

theorem Replacement.scanned (f : Replacement) (rest : List Char) :
    fieldFrom 0 none [] none (f.expression.toList ++ (f.suffix ++ closeBrace :: rest)) =
      some (f.fieldText, rest) := by
  obtain ⟨expression, conversion, spec, bracketed, _, unclosed⟩ := f
  rw [fieldFrom_bracketed bracketed (by simp)]
  cases conversion with
  | none => cases spec with
    | none => simp [suffix, fieldText, fieldFrom_end]
    | some spec => simp [suffix, fieldText, fieldFrom_spec (unclosed spec rfl)]
  | some k => cases spec with
    | none => simp [suffix, fieldText, fieldFrom_conversion, fieldFrom_end]
    | some spec =>
      simp [suffix, fieldText, fieldFrom_conversion, fieldFrom_spec (unclosed spec rfl)]

-- The brace of a field stands alone: neither its expression nor what follows begins with one.
theorem Replacement.opens_once (f : Replacement) (rest : List Char) :
    (f.expression.toList ++ (f.suffix ++ closeBrace :: rest)).head? ≠ some openBrace := by
  cases written : f.expression.toList with
  | cons c cs =>
    rw [List.cons_append, List.head?_cons]
    exact fun same => f.single (by rw [written, List.head?_cons, same])
  | nil =>
    rw [List.nil_append, suffix]
    cases f.conversion with
    | some k => exact (by decide : some '!' ≠ some openBrace)
    | none => cases f.spec with
      | some spec => exact (by decide : some ':' ≠ some openBrace)
      | none => exact (by decide : some closeBrace ≠ some openBrace)

/-! ### The parts of what is written -/

section Parts

variable {read : String → Location → Except SyntaxError Expr} {loc : Location}
  {literal rest : List Char} {done : List FPart}

-- An expression that can be read is not blank, and a field without one would not be accepted.
theorem Replacement.value {f : Replacement} {value : Expr}
    (blank : ∀ e, read "" loc ≠ .ok e) (reads : read (Text.trim f.expression) loc = .ok value) :
    fieldValue read loc f.fieldText =
      .ok (.field (Conversion.apply value f.conversion) f.spec) := by
  have inked : (Text.trim f.expression).isEmpty = false := by
    cases empty : (Text.trim f.expression).isEmpty with
    | false => rfl
    | true => exact absurd reads (String.isEmpty_iff.1 empty ▸ blank value)
  have same : String.ofList f.fieldText.expression = f.expression := String.ofList_toList
  simp only [fieldValue, same, inked, reads]
  cases kind : f.conversion with
  | none => simp [fieldText, kind, Conversion.apply]
  | some k => cases k <;> simp [fieldText, kind, Conversion.apply, Conversion.mark] <;> rfl

theorem fstringFrom_doubled (c : Char) :
    fstringFrom read loc literal done (doubled c ++ rest) =
      fstringFrom read loc (c :: literal) done rest := by
  by_cases brace : c = openBrace ∨ c = closeBrace
  · rw [doubled, if_pos brace, List.cons_append, fstringFrom, if_pos ⟨brace, rfl⟩]
    rfl
  · obtain ⟨unopened, unclosed⟩ := not_or.1 brace
    rw [doubled, if_neg brace, List.cons_append, fstringFrom, if_neg fun h => brace h.1,
      if_neg unclosed, if_neg unopened]
    rfl

theorem fstringFrom_literal (cs : List Char) :
    fstringFrom read loc literal done (cs.flatMap doubled ++ rest) =
      fstringFrom read loc (cs.reverse ++ literal) done rest := by
  induction cs generalizing literal with
  | nil => rfl
  | cons c cs ih =>
    rw [List.flatMap_cons, List.append_assoc, fstringFrom_doubled, ih, List.reverse_cons,
      List.append_assoc, List.singleton_append]

theorem fstringFrom_field {f : Replacement} {part : FPart}
    (reads : fieldValue read loc f.fieldText = .ok part) :
    fstringFrom read loc literal done (f.written ++ rest) =
      fstringFrom read loc [] (part :: (literalPart literal ++ done)) rest := by
  have shape : f.written ++ rest =
      openBrace :: (f.expression.toList ++ (f.suffix ++ closeBrace :: rest)) := by
    simp [Replacement.written]
  have shorter : rest.length ≤
      (f.expression.toList ++ (f.suffix ++ closeBrace :: rest)).length := by
    simp only [List.length_append, List.length_cons]
    omega
  rw [shape, fstringFrom, if_neg fun h => f.opens_once rest h.2, if_neg (by decide), if_pos rfl,
    f.scanned rest]
  dsimp only
  rw [if_pos shorter, reads]
  rfl

/--
The scan goes through what is written, fragment by fragment. Literal text that is still gathered
comes before the fragments, so no text may follow it.
-/
theorem fstringFrom_fragments {fragments : List Fragment} {parts : List FPart}
    (blank : ∀ e, read "" loc ≠ .ok e)
    (becomes : List.Forall₂ (Fragment.Becomes read loc) fragments parts)
    (apart : fragments.IsChain Fragment.Apart)
    (gathered : ∀ p ∈ fragments.head?, p.isText = true → literal = []) :
    fstringFrom read loc literal done (writtenFragments fragments) =
      .ok ((literalPart literal ++ done).reverse ++ parts) := by
  induction becomes generalizing literal done with
  | nil => rw [writtenFragments, List.flatMap_nil, fstringFrom, List.append_nil]
  | @cons fragment part fragments parts becomes _ ih =>
    obtain ⟨next, others⟩ := List.isChain_cons.1 apart
    rw [writtenFragments, List.flatMap_cons]
    cases becomes with
    | text nonempty =>
      obtain rfl := gathered _ rfl rfl
      refine (fstringFrom_literal _).trans ?_
      have alone : ∀ p ∈ fragments.head?, p.isText = false := fun p first => next p first rfl
      refine (ih others fun p first isText => ?_).trans ?_
      · exact absurd isText (Bool.eq_false_iff.1 (alone p first))
      simp [literalPart, nonempty]
    | field reads =>
      refine (fstringFrom_field (Replacement.value blank reads)).trans ?_
      refine (ih others fun _ _ _ => rfl).trans ?_
      simp [literalPart]

-- No expression can be read in an empty text.
theorem fieldAt_empty (depth : Nat) (loc : Location) (e : Expr) : fieldAt depth "" loc ≠ .ok e := by
  intro read
  cases depth with
  | zero => cases read
  | succ depth =>
    have tokens : tokensAt "" loc = .ok [⟨.eof, loc⟩] := by
      rw [tokensAt, Layout.run]
      rfl
    have stuck : fieldAt (depth + 1) "" loc = .error ⟨.unexpected .eof, loc⟩ := by
      rw [fieldAt, fieldExpression, tokens]
      rfl
    cases stuck.symm.trans read

/--
Splitting a formatted string undoes writing it, whatever fragments it is written from, as long as no
two literals are side by side and the expressions can be read: literal text comes back with single
braces, each field as its expression, converted as it asks for, and its specification as it is.
-/
theorem splitting_undoes_writing (depth : Nat) (loc : Location) (fragments : List Fragment)
    (parts : List FPart) (apart : fragments.IsChain Fragment.Apart)
    (becomes : List.Forall₂ (Fragment.Becomes (fieldAt depth) loc) fragments parts) :
    fstringParts (fieldAt depth) loc (String.ofList (writtenFragments fragments)) = .ok parts := by
  rw [fstringParts, String.toList_ofList,
    fstringFrom_fragments (fieldAt_empty depth loc) becomes apart fun _ _ _ => rfl]
  rfl

-- All items of a name, and the places in the expression.
def wholeSlice? : Expr → Option (List Location × String)
  | .subscript l (.name l₁ x) (.slice l₂ .none .none .none) => some ([l, l₁, l₂], x)
  | _ => none

theorem eq_of_wholeSlice? {e : Expr} {l l₁ l₂ : Location} {x : String}
    (h : wholeSlice? e = some ([l, l₁, l₂], x)) :
    e = .subscript l (.name l₁ x) (.slice l₂ .none .none .none) := by
  unfold wholeSlice? at h
  split at h
  · cases h
    rfl
  · cases h

theorem splitting_undoes_writing_beside_braces :
    fstringParts (fieldAt 1) ⟨1, 1⟩ "\x7b\x7b\x7bx[:]!r:2\x7d\x7d\x7d" = .ok
      [.text "\x7b",
        .field (.call ⟨1, 2⟩ (.name ⟨1, 2⟩ "repr")
          [.subscript ⟨1, 2⟩ (.name ⟨1, 1⟩ "x") (.slice ⟨1, 3⟩ none none none)] []) (some "2"),
        .text "\x7d"] := by
  have colon : Bracketed true [':'] :=
    .plain (by decide) (by decide) (by decide) (fun _ => rfl) .nil
  have expression : Bracketed false "x[:]".toList :=
    .plain (by decide) (by decide) (by decide) (by decide)
      (.group (by decide) (by decide) colon .nil)
  have reads : fieldAt 1 (Text.trim "x[:]") ⟨1, 1⟩ =
      .ok (.subscript ⟨1, 2⟩ (.name ⟨1, 1⟩ "x") (.slice ⟨1, 3⟩ none none none)) := by
    have shape : (fieldAt 1 (Text.trim "x[:]") ⟨1, 1⟩).toOption.any (fun e =>
        wholeSlice? e = some ([⟨1, 2⟩, ⟨1, 1⟩, ⟨1, 3⟩], "x")) = true := by decide +kernel
    obtain ⟨_, read, same⟩ := Except.of_any shape
    obtain rfl := eq_of_wholeSlice? (of_decide_eq_true same)
    exact read
  let field : Replacement := ⟨"x[:]", some .repr, some "2", expression, by decide, by decide⟩
  let fragments : List Fragment :=
    [.text "\x7b" (by decide), .field field, .text "\x7d" (by decide)]
  have written : writtenFragments fragments = "\x7b\x7b\x7bx[:]!r:2\x7d\x7d\x7d".toList := by
    simp [fragments, field, writtenFragments, Fragment.written, doubled, Replacement.written,
      Replacement.suffix, Conversion.mark, openBrace, closeBrace]
  have apart : fragments.IsChain Fragment.Apart := by
    simp [fragments, Fragment.Apart, Fragment.isText]
  have becomes := Fragment.Becomes.field (f := field) reads
  rw [← String.ofList_toList (s := "\x7b\x7b\x7bx[:]!r:2\x7d\x7d\x7d"), ← written]
  exact splitting_undoes_writing 1 ⟨1, 1⟩ fragments _ apart
    (.cons (.text _) (.cons becomes (.cons (.text _) .nil)))

end Parts

end StepTrace
