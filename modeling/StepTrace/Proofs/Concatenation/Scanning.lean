import Mathlib
import StepTrace.Proofs.Concatenation.Shift
import StepTrace.Proofs.Runs
import StepTrace.Token.Scan

/-!
Scanning a text that goes on and stands further down: what is read from the text itself stays the
same.
-/

set_option autoImplicit false

namespace StepTrace

variable {n : Nat} {more rest : List Char} {loc : Location} {s left : Scanner} {c : Char}

theorem Location.after_shift (n : Nat) (l : Location) (c : Char) :
    (l.shift n).after c = (l.after c).shift n := by
  unfold Location.after
  split
  · simp only [Location.shift, Nat.add_right_comm]
  · rfl

theorem Location.afterAll_append (l : Location) (cs ds : List Char) :
    l.afterAll (cs ++ ds) = (l.afterAll cs).afterAll ds :=
  List.foldl_append

theorem Location.afterAll_shift (n : Nat) (l : Location) (cs : List Char) :
    (l.shift n).afterAll cs = (l.afterAll cs).shift n := by
  induction cs generalizing l with
  | nil => rfl
  | cons c cs ih =>
    change ((l.shift n).after c).afterAll cs = ((l.after c).afterAll cs).shift n
    rw [Location.after_shift, ih]

-- The text goes on with `more` and starts `n` lines further down.
def Scanner.moved (n : Nat) (more : List Char) (s : Scanner) : Scanner :=
  ⟨s.rest ++ more, s.loc.shift n⟩

-- The second scanner stands further on in the same text.
def Scanner.Onward (s s' : Scanner) : Prop :=
  ∃ read, s.rest = read ++ s'.rest ∧ s'.loc = s.loc.afterAll read

namespace Scanner.Onward

variable {s' s'' : Scanner}

theorem refl (s : Scanner) : s.Onward s := ⟨[], rfl, rfl⟩

theorem trans (h : s.Onward s') (h' : s'.Onward s'') : s.Onward s'' := by
  obtain ⟨read, rest, loc⟩ := h
  obtain ⟨read', rest', loc'⟩ := h'
  refine ⟨read ++ read', by rw [rest, rest', List.append_assoc], ?_⟩
  rw [loc', loc, Location.afterAll_append]

theorem skip (s : Scanner) (k : Nat) : s.Onward (s.skip k) :=
  ⟨s.rest.take k, (List.take_append_drop k s.rest).symm, rfl⟩

theorem suffix (h : s.Onward s') : s'.rest <:+ s.rest :=
  h.elim fun read h => ⟨read, h.1.symm⟩

-- One character further.
theorem next (h : Onward ⟨rest, loc.after c⟩ left) : Onward ⟨c :: rest, loc⟩ left :=
  trans (skip ⟨c :: rest, loc⟩ 1) h

end Scanner.Onward

-- If anything follows the text, it follows on a line of its own.
def Cut (more text : List Char) : Prop := more = [] ∨ ∃ line, text = line ++ ['\n']

namespace Cut

theorem nil (text : List Char) : Cut [] text := .inl rfl

theorem suffix (h : Cut more rest) {left : List Char} (suffix : left <:+ rest)
    (unread : left ≠ []) : Cut more left := by
  refine h.imp id fun ⟨line, same⟩ => ?_
  obtain ⟨before, rfl⟩ := suffix
  rcases List.append_eq_append_iff.1 same with ⟨line', -, rfl⟩ | ⟨line', -, same⟩
  · exact ⟨line', rfl⟩
  · cases line' with
    | nil => exact ⟨[], same.symm⟩
    | cons c line' =>
      have none := (List.append_eq_nil_iff.1 (List.cons.inj same).2.symm).2
      exact absurd none unread

theorem tail (h : Cut more (c :: rest)) (other : c ≠ '\n') : Cut more rest := by
  rcases h with none | ⟨line, same⟩
  · exact .inl none
  · cases line with
    | nil => cases same; exact absurd rfl other
    | cons d line => cases same; exact .inr ⟨line, rfl⟩

theorem eq_nil (h : Cut more []) : more = [] := by
  rcases h with none | ⟨line, same⟩
  · exact none
  · cases line <;> cases same

theorem takeWhile (h : Cut more rest) {p : Char → Bool} (stops : p '\n' = false) :
    (rest ++ more).takeWhile p = rest.takeWhile p := by
  rcases h with rfl | ⟨line, rfl⟩
  · rw [List.append_nil]
  · induction line with
    | nil => simp [stops]
    | cons c line ih =>
      simp only [List.cons_append, List.takeWhile_cons] at ih ⊢
      rw [ih]

theorem dropWhile (h : Cut more rest) {p : Char → Bool} (stops : p '\n' = false) :
    Cut more (rest.drop (rest.takeWhile p).length) := by
  rcases h with rfl | ⟨line, rfl⟩
  · exact .nil _
  · induction line with
    | nil => exact .inr ⟨[], by simp [stops]⟩
    | cons c line ih =>
      rw [List.cons_append, List.takeWhile_cons]
      split
      · exact ih
      · exact .inr ⟨c :: line, rfl⟩

theorem head? (h : Cut more rest) : (rest ++ more).head? = rest.head? := by
  cases rest with
  | nil =>
    cases h.eq_nil
    rfl
  | cons c rest => rfl

end Cut

namespace Scanner

theorem skip_moved {k : Nat} (within : k ≤ s.rest.length) :
    (s.moved n more).skip k = (s.skip k).moved n more := by
  simp only [skip, moved, List.drop_append_of_le_length within, List.take_append_of_le_length within,
    Location.afterAll_shift]

theorem skipWhile_moved {p : Char → Bool} (cut : Cut more s.rest) (stops : p '\n' = false) :
    (s.moved n more).skipWhile p = (s.skipWhile p).moved n more := by
  rw [skipWhile, skipWhile, ← skip_moved (List.takeWhile_prefix p).length_le]
  exact congrArg (fun run : List Char => (s.moved n more).skip run.length) (cut.takeWhile stops)

end Scanner

-- One character cannot end a string in triple quotes.
theorem stringBody_short {quote : Char} {raw : Bool} {acc : List Char} {body : String}
    (short : ∀ a b rest', rest = a :: b :: rest' → False) :
    stringBody quote true raw acc rest loc ≠ some (body, left) := by
  match rest, short with
  | [], _ => simp [stringBody]
  | [a], _ =>
    simp only [stringBody, if_true, Bool.not_true, Bool.false_eq_true, and_false, if_false]
    repeat' split
    all_goals simp
  | a :: b :: rest', short => exact (short a b rest' rfl).elim

theorem stringBody_onward {quote : Char} {triple raw : Bool} {acc : List Char} {body : String}
    (h : stringBody quote triple raw acc rest loc = some (body, left)) :
    Scanner.Onward ⟨rest, loc⟩ left := by
  fun_induction stringBody quote triple raw acc rest loc with
  | case1 | case6 | case7 => cases h
  | case2 =>
    cases h
    exact (Scanner.Onward.refl _).next.next.next
  | case3 _ _ _ _ _ _ _ ih | case4 _ _ _ _ _ ih | case9 _ _ _ _ _ _ _ ih => exact (ih h).next
  | case5 =>
    cases h
    exact (Scanner.Onward.refl _).next
  | case8 _ _ _ _ _ _ _ ih => exact (ih h).next.next

theorem numberBody_onward {fraction fraction' : Bool} {acc text : List Char}
    (h : numberBody fraction acc rest loc = (text, fraction', left)) :
    Scanner.Onward ⟨rest, loc⟩ left := by
  fun_induction numberBody fraction acc rest loc with
  | case1 | case8 =>
    cases h
    exact .refl _
  | case2 _ _ _ _ _ _ ih | case3 _ _ _ _ _ ih | case4 _ _ _ _ _ _ _ _ ih => exact (ih h).next
  | case5 _ _ _ _ _ _ _ _ _ _ _ ih => exact (ih h).next.next
  | case6 _ _ _ _ _ _ _ _ _ _ _ ih | case7 _ _ _ _ _ _ _ _ ih => exact (ih h).next

theorem stringBody_moved {quote : Char} {triple raw : Bool} {acc : List Char} {body : String}
    (h : stringBody quote triple raw acc rest loc = some (body, left)) :
    stringBody quote triple raw acc (rest ++ more) (loc.shift n) =
      some (body, left.moved n more) := by
  fun_induction stringBody quote triple raw acc rest loc with
  | case1 | case6 | case7 => cases h
  | case2 acc loc triple a b rest both =>
    cases h
    rw [stringBody.eq_def]
    dsimp only [List.cons_append]
    rw [if_pos rfl, if_pos triple, if_pos both, Location.after_shift, Location.after_shift,
      Location.after_shift]
    rfl
  | case3 acc loc triple a b rest others ih =>
    rw [stringBody.eq_def]
    dsimp only [List.cons_append]
    rw [if_pos rfl, if_pos triple, if_neg others, Location.after_shift]
    exact ih h
  | case4 acc loc triple rest short =>
    rw [triple] at h
    exact (stringBody_short short h).elim
  | case5 acc rest loc single =>
    cases h
    rw [stringBody.eq_def]
    dsimp only [List.cons_append]
    rw [if_pos rfl, if_neg single, Location.after_shift]
    rfl
  | case8 acc loc e rest shown other line ih =>
    rw [stringBody.eq_def]
    dsimp only [List.cons_append]
    rw [if_neg other, if_neg line, if_pos rfl, Location.after_shift, Location.after_shift]
    exact ih h
  | case9 acc c rest loc other line plain ih =>
    rw [stringBody.eq_def]
    dsimp only [List.cons_append]
    rw [if_neg other, if_neg line, if_neg plain, Location.after_shift]
    exact ih h

theorem numberBody_moved {fraction : Bool} {acc text : List Char} {fraction' : Bool}
    (cut : Cut more rest) (h : numberBody fraction acc rest loc = (text, fraction', left)) :
    numberBody fraction acc (rest ++ more) (loc.shift n) =
      (text, fraction', left.moved n more) := by
  fun_induction numberBody fraction acc rest loc with
  | case1 fraction acc loc =>
    cases h
    cases cut.eq_nil
    rw [List.append_nil, numberBody]
    rfl
  | case2 fraction acc c rest loc digit ih =>
    rw [numberBody.eq_def]
    dsimp only [List.cons_append]
    rw [if_pos digit, Location.after_shift]
    exact ih (cut.tail (by rintro rfl; exact absurd digit (by decide))) h
  | case3 fraction acc rest loc digit ih =>
    rw [numberBody.eq_def]
    dsimp only [List.cons_append]
    rw [if_neg digit, if_pos rfl, Location.after_shift]
    exact ih (cut.tail (by decide)) h
  | case4 fraction acc c rest loc digit score point ih =>
    rw [numberBody.eq_def]
    dsimp only [List.cons_append]
    rw [if_neg digit, if_neg score, if_pos point, Location.after_shift]
    exact ih (cut.tail (by rw [point.1]; decide)) h
  | case5 fraction acc c loc digit score point exponent sign rest signed ih =>
    rw [numberBody.eq_def]
    dsimp only [List.cons_append]
    rw [if_neg digit, if_neg score, if_neg point, if_pos exponent, if_pos signed,
      Location.after_shift, Location.after_shift]
    have cut' : Cut more (sign :: rest) := cut.tail (by rcases exponent with rfl | rfl <;> decide)
    exact ih (cut'.tail (by rcases signed with rfl | rfl <;> decide)) h
  | case6 fraction acc c loc digit score point exponent sign rest signed ih =>
    rw [numberBody.eq_def]
    dsimp only [List.cons_append]
    rw [if_neg digit, if_neg score, if_neg point, if_pos exponent, if_neg signed,
      Location.after_shift]
    exact ih (cut.tail (by rcases exponent with rfl | rfl <;> decide)) h
  | case7 fraction acc c loc digit score point exponent ih =>
    have cut' : Cut more [] := cut.tail (by rcases exponent with rfl | rfl <;> decide)
    cases cut'.eq_nil
    rw [List.append_nil, numberBody.eq_def]
    dsimp only
    rw [if_neg digit, if_neg score, if_neg point, if_pos exponent, Location.after_shift]
    exact ih (.nil _) h
  | case8 fraction acc c rest loc digit score point exponent =>
    cases h
    rw [numberBody.eq_def]
    dsimp only [List.cons_append]
    rw [if_neg digit, if_neg score, if_neg point, if_neg exponent]
    rfl

-- The reader gets somewhere in the text, and what comes after the text does not matter.
def Skips (n : Nat) (more : List Char) (read : List Char → Location → Except SyntaxError Scanner)
    (rest : List Char) (loc : Location) : Prop :=
  ∀ left, read rest loc = .ok left → Scanner.Onward ⟨rest, loc⟩ left ∧
    (more = [] ∨ left.rest ≠ [] → read (rest ++ more) (loc.shift n) = .ok (left.moved n more))

theorem Skips.empty {read : List Char → Location → Except SyntaxError Scanner}
    (here : ∀ loc, read [] loc = .ok ⟨[], loc⟩) : Skips n more read [] loc := by
  intro left h
  cases (here loc).symm.trans h
  refine ⟨.refl _, fun stops => ?_⟩
  rcases stops with rfl | none
  · exact here _
  · exact absurd rfl none

theorem Skips.next {read read' : List Char → Location → Except SyntaxError Scanner}
    (skipped : List Char) (h : Skips n more read' rest (loc.afterAll skipped))
    (same : ∀ tail loc, read (skipped ++ tail) loc = read' tail (loc.afterAll skipped)) :
    Skips n more read (skipped ++ rest) loc := by
  intro left read
  rw [same] at read
  obtain ⟨onward, moved⟩ := h left read
  refine ⟨.trans ⟨skipped, rfl, rfl⟩ onward, fun stops => ?_⟩
  rw [List.append_assoc, same, Location.afterAll_shift]
  exact moved stops

theorem skips_skipInline (n : Nat) (more : List Char) (inBrackets : Bool) (rest : List Char)
    (loc : Location) : Skips n more (skipInline inBrackets) rest loc := by
  refine skipInline.induct inBrackets (Skips n more (skipInline.skipComment inBrackets))
    (Skips n more (skipInline inBrackets)) ?_ ?_ ?_ ?_ ?_ ?_ ?_ ?_ ?_ ?_ ?_ rest loc
  · exact fun loc => .empty fun loc => by rw [skipInline.skipComment]
  · intro rest loc ih
    refine ih.next ['\n'] fun tail loc => ?_
    rw [List.singleton_append, skipInline.skipComment, if_pos rfl]
    rfl
  · intro c rest loc other ih
    refine ih.next [c] fun tail loc => ?_
    rw [List.singleton_append, skipInline.skipComment, if_neg other]
    rfl
  · exact fun loc => .empty fun loc => by rw [skipInline]
  · intro c rest loc blank ih
    refine ih.next [c] fun tail loc => ?_
    rw [List.singleton_append, skipInline.eq_def]
    exact if_pos blank
  · intro loc rest blank ih
    exact ih.next ['\\', '\n'] fun tail loc => by rw [skipInline.eq_def]; rfl
  · intro loc rest blank ih
    exact ih.next ['\\', '\r', '\n'] fun tail loc => by rw [skipInline.eq_def]; rfl
  · intro rest loc line line' blank left h
    rw [skipInline.eq_def] at h
    dsimp only at h
    rw [if_neg blank, if_pos rfl] at h
    split at h
    · exact (line _ rfl).elim
    · exact (line' _ rfl).elim
    · cases h
  · intro c rest loc blank slash line ih
    refine ih.next [c] fun tail loc => ?_
    rw [List.singleton_append, skipInline.eq_def]
    dsimp only
    rw [if_neg blank, if_neg slash, if_pos line]
    rfl
  · intro c rest loc blank slash line comment ih
    refine ih.next [c] fun tail loc => ?_
    rw [List.singleton_append, skipInline.eq_def]
    dsimp only
    rw [if_neg blank, if_neg slash, if_neg line, if_pos comment]
    rfl
  · intro c rest loc blank slash line comment left h
    have stays : ∀ tail loc, skipInline inBrackets (c :: tail) loc = .ok ⟨c :: tail, loc⟩ := by
      intro tail loc
      rw [skipInline.eq_def]
      dsimp only
      rw [if_neg blank, if_neg slash, if_neg line, if_neg comment]
    cases (stays rest loc).symm.trans h
    exact ⟨.refl _, fun _ => stays _ _⟩

/-! ### Tokens -/

-- The string whose opening quote has been read, if it has an end.
def stringAt? (quote : Char) (raw : Bool) (s : Scanner) : Option (String × Scanner) :=
  match s.rest with
  | a :: b :: _ =>
    if a = quote ∧ b = quote then stringBody quote true raw [] (s.skip 2).rest (s.skip 2).loc
    else stringBody quote false raw [] s.rest s.loc
  | _ => stringBody quote false raw [] s.rest s.loc

theorem scanString_eq_ok {quote : Char} {raw : Bool} {start : Location} {r : String × Scanner} :
    scanString quote raw start s = .ok r ↔ stringAt? quote raw s = some r := by
  rw [scanString]
  split
  · next read =>
    have found : stringAt? quote raw s = some _ := read
    simp [found]
  · next read =>
    have missing : stringAt? quote raw s = none := read
    simp [missing]

theorem stringAt?_moved {quote : Char} {raw : Bool} {r : String × Scanner} (other : '\n' ≠ quote)
    (cut : Cut more s.rest) (h : stringAt? quote raw s = some r) :
    stringAt? quote raw (s.moved n more) = some (r.1, r.2.moved n more) := by
  obtain ⟨rest, loc⟩ := s
  match rest, cut with
  | [], _ => simp [stringAt?, stringBody] at h
  | [a], cut =>
    rcases cut with rfl | ⟨line, same⟩
    · exact stringBody_moved h
    · cases line with
      | nil =>
        cases same
        simp [stringAt?, stringBody, other] at h
      | cons c line => simp at same
  | a :: b :: rest, cut =>
    unfold stringAt? at h ⊢
    dsimp only [Scanner.moved, List.cons_append] at h ⊢
    split at h
    · next both =>
      rw [if_pos both]
      have skip : (Scanner.moved n more ⟨a :: b :: rest, loc⟩).skip 2 =
          (Scanner.skip ⟨a :: b :: rest, loc⟩ 2).moved n more :=
        Scanner.skip_moved (Nat.le_add_left 2 _)
      dsimp only [Scanner.moved, List.cons_append] at skip
      rw [skip]
      exact stringBody_moved h
    · next others =>
      rw [if_neg others]
      exact stringBody_moved h

theorem scanString_moved {quote : Char} {raw : Bool} {start : Location} {body : String}
    (other : '\n' ≠ quote) (cut : Cut more s.rest)
    (h : scanString quote raw start s = .ok (body, left)) :
    scanString quote raw (start.shift n) (s.moved n more) = .ok (body, left.moved n more) :=
  scanString_eq_ok.2 (stringAt?_moved other cut (scanString_eq_ok.1 h))

theorem scanBased_moved {base : Nat} {start : Location} {kind : TokenKind}
    (cut : Cut more s.rest) (h : scanBased base start s = .ok (kind, left)) :
    scanBased base (start.shift n) (s.moved n more) = .ok (kind, left.moved n more) := by
  have run : ((s.moved n more).rest.takeWhile fun c => c.isAlphanum || c == '_') =
      s.rest.takeWhile fun c => c.isAlphanum || c == '_' := cut.takeWhile (by decide)
  unfold scanBased at h ⊢
  dsimp only at h ⊢
  rw [run]
  split at h
  · cases h
    rw [Scanner.skip_moved (List.takeWhile_prefix _).length_le]
  · cases h

theorem baseOf?_newline : baseOf? '\n' = none := rfl

theorem scanNumber_moved {first : Char} {start : Location} {kind : TokenKind}
    (cut : Cut more s.rest) (h : scanNumber first start s = .ok (kind, left)) :
    scanNumber first (start.shift n) (s.moved n more) = .ok (kind, left.moved n more) := by
  have head : (s.moved n more).rest.head? = s.rest.head? := cut.head?
  unfold scanNumber at h ⊢
  dsimp only at h ⊢
  rw [head]
  split at h
  · next base announced =>
    split at announced
    · obtain ⟨c, first, isBase⟩ := Option.bind_eq_some_iff.1 announced
      obtain ⟨rest, same⟩ : ∃ rest, s.rest = c :: rest := List.head?_eq_some_iff.1 first
      have cut' : Cut more (s.skip 1).rest := by
        rw [same] at cut
        rw [Scanner.skip, same]
        exact cut.tail fun line => by rw [line, baseOf?_newline] at isBase; cases isBase
      rw [Scanner.skip_moved (by rw [same]; exact Nat.le_add_left ..)]
      exact scanBased_moved cut' h
    · cases announced
  · generalize body : numberBody (first == '.') [first] s.rest s.loc = r at h
    obtain ⟨text, fraction, s'⟩ := r
    have body' := numberBody_moved (n := n) cut body
    change numberBody _ _ (s.moved n more).rest (s.moved n more).loc = _ at body'
    generalize numberBody (first == '.') [first] (s.moved n more).rest (s.moved n more).loc = r'
      at body' ⊢
    subst body'
    dsimp only at h ⊢
    repeat' split at h
    all_goals cases h
    all_goals simp [*]

theorem scanWord_moved {kind : TokenKind} (cut : Cut more s.rest)
    (h : scanWord s = .ok (kind, left)) :
    scanWord (s.moved n more) = .ok (kind, left.moved n more) := by
  have run : ((s.moved n more).rest.takeWhile fun c => Text.isLetterOrDigit c || c == '_') =
      s.rest.takeWhile fun c => Text.isLetterOrDigit c || c == '_' := cut.takeWhile (by decide)
  have cutAfter := cut.dropWhile (p := fun c => Text.isLetterOrDigit c || c == '_') (by decide)
  unfold scanWord at h ⊢
  dsimp only at h ⊢
  rw [run, Scanner.skip_moved (List.takeWhile_prefix _).length_le]
  generalize after_eq : s.skip _ = after at h ⊢
  have cut' : Cut more after.rest := after_eq ▸ cutAfter
  obtain ⟨rest, loc⟩ := after
  cases rest with
  | nil =>
    cases cut'.eq_nil
    cases h
    rfl
  | cons quote rest =>
    dsimp only [Scanner.moved, List.cons_append] at h ⊢
    split at h
    · next flagged =>
      rw [if_pos flagged]
      obtain ⟨⟨body, left'⟩, read, h⟩ := Except.of_bind_ok h
      cases h
      have other : '\n' ≠ quote := by rcases flagged.1 with rfl | rfl <;> decide
      have cut'' : Cut more (Scanner.skip ⟨quote :: rest, loc⟩ 1).rest := cut'.tail other.symm
      have skip : Scanner.skip ⟨quote :: (rest ++ more), loc.shift n⟩ 1 =
          (Scanner.skip ⟨quote :: rest, loc⟩ 1).moved n more :=
        Scanner.skip_moved (s := ⟨quote :: rest, loc⟩) (Nat.le_add_left ..)
      rw [skip, scanString_moved other cut'' read]
      rfl
    · next plain =>
      cases h
      rw [if_neg plain]
      rfl

theorem Symbol.text_plain (sym : Symbol) : '\n' ∉ sym.text.toList := by
  cases sym <;> decide

theorem Cut.isPrefixOf {word : List Char} (plain : '\n' ∉ word) (cut : Cut more rest) :
    word.isPrefixOf (rest ++ more) = word.isPrefixOf rest := by
  induction word generalizing rest with
  | nil => rfl
  | cons c word ih =>
    obtain ⟨line, plain⟩ := not_or.1 (mt List.mem_cons.2 plain)
    cases rest with
    | nil =>
      cases cut.eq_nil
      rfl
    | cons d rest =>
      rw [List.cons_append, List.isPrefixOf_cons_cons, List.isPrefixOf_cons_cons]
      by_cases same : d = '\n'
      · have differ : (c == d) = false :=
          beq_eq_false_iff_ne.2 fun same' => line (same'.trans same).symm
        rw [differ, Bool.false_and, Bool.false_and]
      · rw [ih plain (cut.tail same)]

theorem symbolAt?_moved (cut : Cut more rest) : symbolAt? (rest ++ more) = symbolAt? rest :=
  congrArg (fun starts => Symbol.all.find? starts)
    (funext fun sym : Symbol => cut.isPrefixOf sym.text_plain)

theorem symbolAt?_length {sym : Symbol} (h : symbolAt? rest = some sym) :
    sym.text.length ≤ rest.length := by
  have starts := List.find?_some h
  rw [← String.length_toList]
  exact (List.isPrefixOf_iff_prefix.1 starts).length_le

theorem scanToken_moved {kind : TokenKind} (cut : Cut more s.rest) (unread : s.rest ≠ [])
    (h : scanToken s = .ok (kind, left)) :
    scanToken (s.moved n more) = .ok (kind, left.moved n more) := by
  obtain ⟨rest, loc⟩ := s
  cases rest with
  | nil => exact absurd rfl unread
  | cons c rest =>
    have skip : Scanner.skip ⟨c :: (rest ++ more), loc.shift n⟩ 1 =
        (Scanner.skip ⟨c :: rest, loc⟩ 1).moved n more :=
      Scanner.skip_moved (s := ⟨c :: rest, loc⟩) (Nat.le_add_left ..)
    unfold scanToken at h ⊢
    dsimp only [Scanner.moved, List.cons_append] at h ⊢
    split at h
    · next quote =>
      rw [if_pos quote]
      obtain ⟨⟨body, left'⟩, read, h⟩ := Except.of_bind_ok h
      cases h
      have other : '\n' ≠ c := by rcases quote with rfl | rfl <;> decide
      have cut' : Cut more (Scanner.skip ⟨c :: rest, loc⟩ 1).rest := cut.tail other.symm
      rw [skip, scanString_moved other cut' read]
      rfl
    · next quote =>
      rw [if_neg quote]
      have cut' : c ≠ '\n' → Cut more rest := cut.tail
      have next : (c == '.' && (rest ++ more).head?.any Char.isDigit) =
          (c == '.' && rest.head?.any Char.isDigit) := by
        by_cases point : c = '.'
        · rw [(cut' (by rw [point]; decide)).head?]
        · rw [beq_eq_false_iff_ne.2 point, Bool.false_and, Bool.false_and]
      rw [next]
      split at h
      · next number =>
        rw [if_pos number, skip]
        refine scanNumber_moved (cut' ?_) h
        rintro rfl
        exact absurd number (by simp)
      · next number =>
        rw [if_neg number]
        split at h
        · next word =>
          rw [if_pos word]
          exact scanWord_moved cut h
        · next word =>
          rw [if_neg word, ← List.cons_append, symbolAt?_moved cut]
          split at h
          · next sym found =>
            cases h
            dsimp only at found ⊢
            rw [found]
            have skip := @Scanner.skip_moved n more ⟨c :: rest, loc⟩ _ (symbolAt?_length found)
            exact congrArg (fun left => Except.ok (TokenKind.symbol sym, left)) skip
          · cases h

/-! ### What a token is, and where it ends -/

def TokenKind.isLayout : TokenKind → Bool
  | .newline | .indent | .dedent | .eof => true
  | _ => false

theorem wordToken_plain (word : String) : (wordToken word).isLayout = false := by
  unfold wordToken
  split
  · rfl
  · split <;> rfl

theorem scanString_onward {quote : Char} {raw : Bool} {start : Location} {body : String}
    (h : scanString quote raw start s = .ok (body, left)) : s.Onward left := by
  have found := scanString_eq_ok.1 h
  unfold stringAt? at found
  split at found
  · split at found
    · exact .trans (.skip s 2) (stringBody_onward found)
    · exact stringBody_onward found
  · exact stringBody_onward found

theorem scanNumber_read {first : Char} {start : Location} {kind : TokenKind}
    (h : scanNumber first start s = .ok (kind, left)) :
    s.Onward left ∧ kind.isLayout = false := by
  unfold scanNumber at h
  split at h
  · unfold scanBased at h
    dsimp only at h
    split at h
    · cases h
      exact ⟨.trans (.skip s 1) (.skip _ _), rfl⟩
    · cases h
  · generalize body : numberBody (first == '.') [first] s.rest s.loc = r at h
    obtain ⟨text, fraction, s'⟩ := r
    have onward := numberBody_onward body
    dsimp only at h
    repeat' split at h
    all_goals cases h
    all_goals exact ⟨onward, rfl⟩

theorem scanWord_read {kind : TokenKind} (h : scanWord s = .ok (kind, left)) :
    s.Onward left ∧ kind.isLayout = false := by
  unfold scanWord at h
  dsimp only at h
  split at h
  · split at h
    · obtain ⟨⟨body, left'⟩, read, h⟩ := Except.of_bind_ok h
      cases h
      refine ⟨.trans (.skip s _) (.trans (.skip _ 1) (scanString_onward read)), ?_⟩
      dsimp only
      split <;> rfl
    · cases h
      exact ⟨.skip s _, wordToken_plain _⟩
  · cases h
    exact ⟨.skip s _, wordToken_plain _⟩

theorem scanToken_read {kind : TokenKind} (unread : s.rest ≠ [])
    (h : scanToken s = .ok (kind, left)) : s.Onward left ∧ kind.isLayout = false := by
  unfold scanToken at h
  split at h
  · next none => exact absurd none unread
  · split at h
    · obtain ⟨⟨body, left'⟩, read, h⟩ := Except.of_bind_ok h
      cases h
      exact ⟨.trans (.skip s 1) (scanString_onward read), rfl⟩
    · split at h
      · obtain ⟨onward, plain⟩ := scanNumber_read h
        exact ⟨.trans (.skip s 1) onward, plain⟩
      · split at h
        · exact scanWord_read h
        · split at h
          · cases h
            exact ⟨.skip s _, rfl⟩
          · cases h

end StepTrace
