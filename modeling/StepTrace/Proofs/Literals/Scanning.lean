import Mathlib
import StepTrace.Number.Read
import StepTrace.Token.Scan

/-!
Scanning the words, numbers and quoted strings that literals consist of, up to what may come after a
literal.
-/

set_option autoImplicit false

namespace StepTrace

-- What ends a number or a word: the end of the text, a separator or a closing bracket.
def Ends : List Char → Prop
  | [] => True
  | c :: _ => c ∈ [',', ':', ')', ']', '\x7d']

theorem Ends.takeWhile {p : Char → Bool} {word rest : List Char} (ends : Ends rest)
    (all : ∀ c ∈ word, p c = true) (stops : [',', ':', ')', ']', '\x7d'].any p = false) :
    (word ++ rest).takeWhile p = word := by
  rw [List.takeWhile_append_of_pos all]
  cases rest with
  | nil => simp
  | cons c rest =>
    have stop : ¬ p c := List.any_eq_false.1 stops c ends
    rw [List.takeWhile_cons, if_neg stop, List.append_nil]

-- A character that is neither passed over between tokens nor ends a line.
structure StartsToken (c : Char) : Prop where
  blank : isIndentChar c = false
  feed : c ≠ '\x0c'
  slash : c ≠ '\\'
  ret : c ≠ '\r'
  line : c ≠ '\n'
  hash : c ≠ '#'

/-! ### Words -/

-- A word goes on up to a character that is no part of words and opens no string.
theorem scanWord_of_head {word rest : List Char}
    (letters : ∀ c ∈ word, (Text.isLetterOrDigit c || c == '_') = true)
    (stop : ∀ c ∈ rest.head?, (Text.isLetterOrDigit c || c == '_') = false ∧ c ≠ '"' ∧ c ≠ '\'')
    (loc : Location) : ∃ loc', scanWord ⟨word ++ rest, loc⟩ =
      .ok (wordToken (String.ofList word), ⟨rest, loc'⟩) := by
  have run : (word ++ rest).takeWhile (fun c => Text.isLetterOrDigit c || c == '_') = word := by
    rw [List.takeWhile_append_of_pos letters]
    cases rest with
    | nil => simp
    | cons c rest =>
      rw [List.takeWhile_cons, (stop c rfl).1]
      exact List.append_nil word
  refine ⟨loc.afterAll word, ?_⟩
  simp only [scanWord, run, Scanner.skip, List.drop_left, List.take_left]
  cases rest with
  | nil => rfl
  | cons c rest => simp [(stop c rfl).2]

theorem scanWord_of_ends {word rest : List Char}
    (letters : ∀ c ∈ word, (Text.isLetterOrDigit c || c == '_') = true) (ends : Ends rest)
    (loc : Location) : ∃ loc', scanWord ⟨word ++ rest, loc⟩ =
      .ok (wordToken (String.ofList word), ⟨rest, loc'⟩) := by
  refine scanWord_of_head letters (fun c here => ?_) loc
  cases rest with
  | nil => cases here
  | cons d rest =>
    obtain rfl : d = c := Option.some.inj here
    simp [Ends] at ends
    rcases ends with rfl | rfl | rfl | rfl | rfl <;> decide

theorem scanToken_of_letter {c : Char} (letter : Text.isLetter c = true)
    (quote : c ≠ '"' ∧ c ≠ '\'') (number : c.isDigit = false ∧ c ≠ '.') (cs : List Char)
    (loc : Location) : scanToken ⟨c :: cs, loc⟩ = scanWord ⟨c :: cs, loc⟩ := by
  simp [scanToken, quote, number, letter]

/-! ### Numbers -/

theorem numberBody_digits {digits rest : List Char} (all : ∀ c ∈ digits, c.isDigit = true)
    (ends : Ends rest) (acc : List Char) (loc : Location) :
    ∃ loc', numberBody false acc (digits ++ rest) loc =
      (acc.reverse ++ digits, false, ⟨rest, loc'⟩) := by
  induction digits generalizing acc loc with
  | nil =>
    cases rest with
    | nil => exact ⟨loc, by rw [List.nil_append, numberBody, List.append_nil]⟩
    | cons c rest =>
      refine ⟨loc, ?_⟩
      rw [Ends] at ends
      rw [List.nil_append, numberBody.eq_def]
      simp at ends
      rcases ends with rfl | rfl | rfl | rfl | rfl <;> simp
  | cons c digits ih =>
    obtain ⟨digit, all⟩ := List.forall_mem_cons.1 all
    obtain ⟨loc', read⟩ := ih all (c :: acc) (loc.after c)
    refine ⟨loc', ?_⟩
    rw [List.cons_append, numberBody.eq_def]
    dsimp only
    rw [if_pos digit, read, List.reverse_cons, List.append_assoc]
    rfl

-- What comes after the first digit is no letter that announces a base.
theorem baseOf?_head {digits rest : List Char} (all : ∀ c ∈ digits, c.isDigit = true)
    (ends : Ends rest) : (digits ++ rest).head?.bind baseOf? = none := by
  cases digits with
  | nil =>
    cases rest with
    | nil => rfl
    | cons c rest =>
      simp [Ends] at ends
      rcases ends with rfl | rfl | rfl | rfl | rfl <;> rfl
  | cons c digits =>
    have digit := all c List.mem_cons_self
    change baseOf? c = none
    unfold baseOf?
    split <;> first | rfl | exact absurd digit (by decide)

theorem scanToken_digits {c : Char} {digits rest : List Char} {w : Int64}
    (all : ∀ d ∈ c :: digits, d.isDigit = true) (ends : Ends rest)
    (value : Number.readWord? 10 (c :: digits) = some w) (loc : Location) :
    ∃ loc', scanToken ⟨c :: digits ++ rest, loc⟩ = .ok (.int w, ⟨rest, loc'⟩) := by
  obtain ⟨digit, others⟩ := List.forall_mem_cons.1 all
  obtain ⟨loc', body⟩ := numberBody_digits others ends [c] (loc.after c)
  refine ⟨loc', ?_⟩
  have quote : ¬ (c = '"' ∨ c = '\'') := by
    rintro (rfl | rfl) <;> exact absurd digit (by decide)
  have dot : (c == '.') = false := by
    refine beq_eq_false_iff_ne.2 ?_
    rintro rfl
    exact absurd digit (by decide)
  have base : (if c = '0' then (digits ++ rest).head?.bind baseOf? else none) = none := by
    rw [baseOf?_head others ends, ite_self]
  have skip : Scanner.skip ⟨c :: (digits ++ rest), loc⟩ 1 = ⟨digits ++ rest, loc.after c⟩ := rfl
  have numeric : (c.isDigit || (c == '.' && (digits ++ rest).head?.any Char.isDigit)) = true := by
    rw [digit, Bool.true_or]
  rw [List.cons_append, scanToken]
  dsimp only
  rw [if_neg quote, if_pos numeric, skip, scanNumber, base]
  dsimp only
  rw [dot, body]
  dsimp only
  rw [List.reverse_singleton, List.singleton_append, value]
  rfl

theorem readWord?_digits {cs : List Char} {n : Nat} (all : ∀ c ∈ cs, c.isDigit = true)
    (value : Number.digits? 10 cs = some n) : Number.readWord? 10 cs = Number.ofInt? n := by
  unfold Number.readWord?
  split
  · exact absurd (all '-' List.mem_cons_self) (by decide)
  · exact absurd (all '+' List.mem_cons_self) (by decide)
  · rw [value, Option.bind_some]

theorem startsToken_of_isDigit {c : Char} (digit : c.isDigit = true) : StartsToken c := by
  have ne : ∀ d : Char, d.isDigit = false → c ≠ d := by
    rintro d other rfl
    rw [digit] at other
    cases other
  have blank : isIndentChar c = false := by
    simp [isIndentChar, ne ' ' (by decide), ne '\t' (by decide)]
  exact ⟨blank, ne _ (by decide), ne _ (by decide), ne _ (by decide), ne _ (by decide),
    ne _ (by decide)⟩

/-! ### Strings -/

section

variable {quote : Char} (isQuote : quote = '"' ∨ quote = '\'')
include isQuote

theorem stringBody_escape (e : Char) (cs acc : List Char) (loc : Location) :
    ∃ loc', stringBody quote false false acc ('\\' :: e :: cs) loc =
      stringBody quote false false ((unescape e).reverse ++ acc) cs loc' := by
  refine ⟨(loc.after '\\').after e, ?_⟩
  rw [stringBody.eq_def]
  rcases isQuote with rfl | rfl <;> rfl

omit isQuote in
theorem stringBody_plain {c : Char} (other : c ≠ quote) (line : c ≠ '\n') (slash : c ≠ '\\')
    (cs acc : List Char) (loc : Location) :
    ∃ loc', stringBody quote false false acc (c :: cs) loc =
      stringBody quote false false (c :: acc) cs loc' := by
  refine ⟨loc.after c, ?_⟩
  rw [stringBody.eq_def]
  simp [other, line, slash]

theorem stringBody_quotedChar (c : Char) (cs acc : List Char) (loc : Location) :
    ∃ loc', stringBody quote false false acc (Text.quotedChar quote c ++ cs) loc =
      stringBody quote false false (c :: acc) cs loc' := by
  unfold Text.quotedChar
  split
  iterate 4 exact stringBody_escape isQuote _ cs acc loc
  next slash line _ _ =>
    split
    · next same =>
      subst same
      obtain ⟨loc', read⟩ := stringBody_escape isQuote c cs acc loc
      refine ⟨loc', read.trans ?_⟩
      rcases isQuote with rfl | rfl <;> rfl
    · next other => exact stringBody_plain other line slash cs acc loc

theorem stringBody_quoted (cs acc rest : List Char) (loc : Location) :
    ∃ loc', stringBody quote false false acc (cs.flatMap (Text.quotedChar quote) ++ quote :: rest)
      loc = some (String.ofList (acc.reverse ++ cs), ⟨rest, loc'⟩) := by
  induction cs generalizing acc loc with
  | nil =>
    refine ⟨loc.after quote, ?_⟩
    rw [List.append_nil, List.flatMap_nil, List.nil_append, stringBody.eq_def]
    simp
  | cons c cs ih =>
    obtain ⟨loc₁, first⟩ := stringBody_quotedChar isQuote c
      (cs.flatMap (Text.quotedChar quote) ++ quote :: rest) acc loc
    obtain ⟨loc', others⟩ := ih (c :: acc) loc₁
    refine ⟨loc', ?_⟩
    rw [List.flatMap_cons, List.append_assoc, first, others, List.reverse_cons, List.append_assoc]
    rfl

-- No text starts with three quotes.
theorem quotedChar_head (c : Char) : ∃ d ds, Text.quotedChar quote c = d :: ds ∧ d ≠ quote := by
  have slash : '\\' ≠ quote := by rcases isQuote with rfl | rfl <;> decide
  unfold Text.quotedChar
  split
  iterate 4 exact ⟨_, _, rfl, slash⟩
  split
  · exact ⟨_, _, rfl, slash⟩
  · next other => exact ⟨_, _, rfl, other⟩

omit isQuote in
theorem scanString_of_single {raw : Bool} {start loc : Location} {cs : List Char}
    {read : String × Scanner} (single : ∀ tail, cs ≠ quote :: quote :: tail)
    (body : stringBody quote false raw [] cs loc = some read) :
    scanString quote raw start ⟨cs, loc⟩ = .ok read := by
  match cs with
  | [] => rw [scanString]; dsimp only; rw [body]
  | [a] => rw [scanString]; dsimp only; rw [body]
  | a :: b :: tail =>
    have other : ¬ (a = quote ∧ b = quote) := by
      rintro ⟨rfl, rfl⟩
      exact single tail rfl
    rw [scanString]
    dsimp only
    rw [if_neg other, body]

theorem scanString_quoted (cs : List Char) {rest : List Char} (ends : Ends rest)
    (start loc : Location) : ∃ loc', scanString quote false start
      ⟨cs.flatMap (Text.quotedChar quote) ++ quote :: rest, loc⟩ =
        .ok (String.ofList cs, ⟨rest, loc'⟩) := by
  obtain ⟨loc', body⟩ := stringBody_quoted isQuote cs [] rest loc
  refine ⟨loc', scanString_of_single (fun tail same => ?_) body⟩
  cases cs with
  | nil =>
    rw [(List.cons.inj same).2] at ends
    simp [Ends] at ends
    rcases isQuote with rfl | rfl <;> simp at ends
  | cons c cs =>
    obtain ⟨d, ds, head, other⟩ := quotedChar_head isQuote c
    rw [List.flatMap_cons, head] at same
    exact other (List.cons.inj same).1

theorem scanToken_quoted (cs : List Char) {rest : List Char} (ends : Ends rest) (loc : Location) :
    ∃ loc', scanToken ⟨quote :: (cs.flatMap (Text.quotedChar quote) ++ quote :: rest), loc⟩ =
      .ok (.str (String.ofList cs), ⟨rest, loc'⟩) := by
  obtain ⟨loc', read⟩ := scanString_quoted isQuote cs ends loc (loc.after quote)
  refine ⟨loc', ?_⟩
  rw [scanToken]
  dsimp only
  rw [if_pos isQuote]
  rw [show Scanner.skip ⟨_, loc⟩ 1 =
    ⟨cs.flatMap (Text.quotedChar quote) ++ quote :: rest, loc.after quote⟩ from rfl, read]
  rfl

end

theorem isQuote_quoteFor (cs : List Char) : Text.quoteFor cs = '"' ∨ Text.quoteFor cs = '\'' := by
  unfold Text.quoteFor
  split
  · exact .inl rfl
  · exact .inr rfl

end StepTrace
