import StepTrace.Proofs.Tokens.Places

/-!
Reading the tokens of a text that stands further down, whether it can be read or not. Places are
only noted: nothing depends on them.
-/

set_option autoImplicit false

namespace StepTrace

variable {n : Nat} {rest : List Char} {loc : Location} {before : List Token} {l : Layout}

def SyntaxError.shift (n : Nat) (e : SyntaxError) : SyntaxError := { e with loc := e.loc.shift n }

-- What comes of a text, when it stands `n` lines further down.
def relocate {α β : Type} (n : Nat) (f : α → β) : Except SyntaxError α → Except SyntaxError β
  | .ok a => .ok (f a)
  | .error e => .error (e.shift n)

theorem relocate_bind {α β γ δ : Type} {f : α → γ} {g : β → δ} {x : Except SyntaxError α}
    {x' : Except SyntaxError γ} {k : α → Except SyntaxError β} {k' : γ → Except SyntaxError δ}
    (hx : x' = relocate n f x) (hk : ∀ a, k' (f a) = relocate n g (k a)) :
    (x' >>= k') = relocate n g (x >>= k) := by
  rw [hx]
  cases x with
  | error e => rfl
  | ok a => exact hk a

instance : Moves Scanner := ⟨fun n s => ⟨s.rest, s.loc.shift n⟩⟩

instance {α : Type} [Moves α] : Moves (Except SyntaxError α) := ⟨fun n => relocate n (move n)⟩

theorem move_scanner (n : Nat) (rest : List Char) (loc : Location) :
    move n (Scanner.mk rest loc) = ⟨rest, loc.shift n⟩ :=
  rfl

/-! ### Scanning -/

theorem Scanner.skip_shift (n : Nat) (s : Scanner) (k : Nat) :
    (move n s).skip k = move n (s.skip k) :=
  congrArg (Scanner.mk _) (Location.afterAll_shift ..)

theorem skipInline_shift (n : Nat) (inBrackets : Bool) (rest : List Char) (loc : Location) :
    skipInline inBrackets rest (loc.shift n) = move n (skipInline inBrackets rest loc) := by
  refine skipInline.induct inBrackets
    (fun rest loc => skipInline.skipComment inBrackets rest (loc.shift n) =
      move n (skipInline.skipComment inBrackets rest loc))
    (fun rest loc => skipInline inBrackets rest (loc.shift n) =
      move n (skipInline inBrackets rest loc))
    ?_ ?_ ?_ ?_ ?_ ?_ ?_ ?_ ?_ ?_ ?_ rest loc
  case refine_1 | refine_2 | refine_3 =>
    intros
    simp_all [skipInline.skipComment, Location.after_shift, move, relocate]
  case refine_4 =>
    intro loc
    rw [skipInline, skipInline]
    rfl
  case refine_11 =>
    intro c rest loc blank slash line comment
    rw [skipInline.eq_def, skipInline.eq_def _ (_ :: _) (_ : Location)]
    dsimp only
    simp only [if_neg blank, if_neg slash, if_neg line, if_neg comment]
    rfl
  all_goals
    intros
    rw [skipInline.eq_def, skipInline.eq_def _ (_ :: _) (_ : Location)]
    simp_all [Location.after_shift]
  all_goals rfl

theorem stringBody_shift {quote : Char} {triple raw : Bool} {acc : List Char} :
    stringBody quote triple raw acc rest (loc.shift n) =
      move n (stringBody quote triple raw acc rest loc) := by
  fun_induction stringBody quote triple raw acc rest loc with
  | case8 acc loc e rest shown other line ih =>
    rw [stringBody.eq_def]
    dsimp only
    rw [if_neg other, if_neg line, if_pos rfl, Location.after_shift, Location.after_shift]
    exact ih
  | _ =>
    rw [stringBody.eq_def]
    simp_all [Location.after_shift, move]

theorem numberBody_shift {fraction : Bool} {acc : List Char} :
    numberBody fraction acc rest (loc.shift n) =
      ((numberBody fraction acc rest loc).1, move n (numberBody fraction acc rest loc).2) := by
  fun_induction numberBody fraction acc rest loc with
  | _ =>
    rw [numberBody.eq_def]
    simp_all [Location.after_shift, move]

theorem stringAt?_shift (n : Nat) (quote : Char) (raw : Bool) (s : Scanner) :
    stringAt? quote raw (move n s) = move n (stringAt? quote raw s) := by
  obtain ⟨rest, loc⟩ := s
  match rest with
  | [] | [a] => exact stringBody_shift
  | a :: b :: rest =>
    unfold stringAt?
    rw [Scanner.skip_shift, move_scanner]
    dsimp only
    split
    · exact stringBody_shift
    · exact stringBody_shift

theorem scanString_eq (quote : Char) (raw : Bool) (start : Location) (s : Scanner) :
    scanString quote raw start s =
      (stringAt? quote raw s).elim (.error ⟨.openString, start⟩) .ok := by
  rw [scanString]
  split
  · next read =>
    have found : stringAt? quote raw s = some _ := read
    rw [found]
    rfl
  · next read =>
    have missing : stringAt? quote raw s = none := read
    rw [missing]
    rfl

theorem scanString_shift (n : Nat) (quote : Char) (raw : Bool) (start : Location) (s : Scanner) :
    scanString quote raw (start.shift n) (move n s) = move n (scanString quote raw start s) := by
  rw [scanString_eq, scanString_eq, stringAt?_shift]
  cases stringAt? quote raw s <;> rfl

theorem scanBased_shift (n base : Nat) (start : Location) (s : Scanner) :
    scanBased base (start.shift n) (move n s) = move n (scanBased base start s) := by
  obtain ⟨rest, loc⟩ := s
  unfold scanBased
  dsimp only
  rw [Scanner.skip_shift, move_scanner]
  dsimp only
  cases (Number.digits? base ((rest.takeWhile fun c => c.isAlphanum || c == '_').filter
    (· != '_'))).bind fun n => Number.ofInt? n <;> rfl

theorem scanNumber_shift (n : Nat) (first : Char) (start : Location) (s : Scanner) :
    scanNumber first (start.shift n) (move n s) = move n (scanNumber first start s) := by
  obtain ⟨rest, loc⟩ := s
  unfold scanNumber
  rw [Scanner.skip_shift, move_scanner]
  dsimp only
  cases (if first = '0' then rest.head?.bind baseOf? else none) with
  | some base => exact scanBased_shift ..
  | none =>
    rw [numberBody_shift]
    obtain ⟨text, fraction, left⟩ := numberBody (first == '.') [first] rest loc
    cases fraction with
    | true => cases Number.float? text <;> rfl
    | false => cases Number.readWord? 10 text <;> rfl

theorem scanWord_shift (n : Nat) (s : Scanner) : scanWord (move n s) = move n (scanWord s) := by
  obtain ⟨rest, loc⟩ := s
  unfold scanWord
  dsimp only
  rw [Scanner.skip_shift, move_scanner]
  dsimp only
  generalize Scanner.skip ⟨rest, loc⟩ _ = after
  obtain ⟨left, loc'⟩ := after
  rw [move_scanner]
  cases left with
  | nil => rfl
  | cons quote left =>
    dsimp only
    split
    · have skip := Scanner.skip_shift n ⟨quote :: left, loc'⟩ 1
      rw [move_scanner] at skip
      rw [skip]
      exact relocate_bind (f := move n) (scanString_shift ..) fun _ => rfl
    · rfl

theorem scanToken_shift (n : Nat) (s : Scanner) : scanToken (move n s) = move n (scanToken s) := by
  obtain ⟨rest, loc⟩ := s
  cases rest with
  | nil => rfl
  | cons c rest =>
    unfold scanToken
    rw [Scanner.skip_shift, move_scanner]
    dsimp only
    split
    · exact relocate_bind (scanString_shift ..) fun _ => rfl
    split
    · exact scanNumber_shift ..
    split
    · exact scanWord_shift n ⟨c :: rest, loc⟩
    cases symbolAt? (c :: rest) with
    | none => rfl
    | some sym =>
      exact congrArg (fun left => Except.ok (TokenKind.symbol sym, left))
        (Scanner.skip_shift n ⟨_, loc⟩ _)

/-! ### Steps and runs -/

namespace Layout

-- The text stands `n` lines further down, and there have been other tokens before.
def below (n : Nat) (before : List Token) (l : Layout) : Layout :=
  ⟨move n l.text, l.widths, l.depth, l.fresh, l.tokens.map (Token.shift n) ++ before⟩

theorem below_eq_moved (n : Nat) (before : List Token) (l : Layout) :
    l.below n before = l.moved n [] before := by
  unfold Layout.moved Scanner.moved
  rw [List.append_nil]
  rfl

theorem within_below (n : Nat) (before : List Token) (l : Layout) :
    (l.below n before).within = relocate n (below n before) l.within := by
  refine relocate_bind (f := move n) (skipInline_shift ..) fun s => ?_
  obtain ⟨rest, loc⟩ := s
  have skip := Scanner.skip_shift n ⟨rest, loc⟩
  rw [move_scanner] at skip ⊢
  dsimp only
  split
  · rfl
  · exact congrArg (fun text => Except.ok { l.below n before with text }) (skip _)
  · exact congrArg (fun text => Except.ok { l.below n before with text }) (skip _)
  · exact congrArg (fun text => Except.ok { l.below n before with
      text, fresh := true,
      tokens := ⟨.newline, loc.shift n⟩ :: (l.below n before).tokens }) (skip _)
  · exact relocate_bind (f := move n) (scanToken_shift n ⟨_, loc⟩) fun _ => rfl

theorem applyIndent_below (n width : Nat) (loc : Location) (widths : List Nat) :
    applyIndent width (loc.shift n) widths =
      relocate n (Prod.map (List.map (Token.shift n)) id) (applyIndent width loc widths) := by
  cases h : applyIndent width loc widths with
  | ok r => exact applyIndent_shift h
  | error e =>
    unfold applyIndent at h ⊢
    split at h
    · cases h
    · next further =>
      rw [if_neg further]
      dsimp only at h ⊢
      split at h
      · cases h
      · next other =>
        cases h
        exact if_neg other

theorem blank?_shift (n : Nat) (s : Scanner) : blank? (move n s) = move n (blank? s) := by
  obtain ⟨rest, loc⟩ := s
  have skip := Scanner.skip_shift n ⟨rest, loc⟩
  rw [move_scanner] at skip ⊢
  unfold blank?
  dsimp only
  split
  · rfl
  · exact congrArg some (skip _)
  · exact congrArg some (skip _)
  · exact congrArg some (skip _)
  · rfl

theorem step_below (n : Nat) (before : List Token) (l : Layout) :
    (l.below n before).step = relocate n (below n before) l.step := by
  cases fresh : l.fresh with
  | false =>
    rw [step_of_settled fresh, step_of_settled (l := l.below n before) fresh, within_below]
  | true =>
    have skip : (l.below n before).text.skipWhile isIndentChar =
        move n (l.text.skipWhile isIndentChar) := Scanner.skip_shift ..
    rw [step_of_fresh fresh, step_of_fresh (l := l.below n before) fresh, skip, blank?_shift]
    cases blank? (l.text.skipWhile isIndentChar) with
    | some text => rfl
    | none =>
      refine relocate_bind (applyIndent_below ..) fun r => ?_
      rw [← within_below]
      refine congrArg within ?_
      unfold startLine
      rw [skip]
      simp only [below, List.map_append, List.map_reverse, List.append_assoc]
      rfl

theorem close_below (lines : Lines before.reverse) (n : Nat) (l : Layout) :
    (l.below n before).close = before.reverse ++ l.close.map (Token.shift n) := by
  rw [below_eq_moved, close_moved, lineEnd_of_lines lines, ite_self, List.append_nil]

-- Behind whole lines, a text is read as it is alone.
theorem run_below (lines : Lines before.reverse) (n : Nat) (l : Layout) :
    (l.below n before).run =
      relocate n (fun ts => before.reverse ++ ts.map (Token.shift n)) l.run := by
  have closed : ∀ l : Layout, Except.ok (l.below n before).close =
      relocate n (fun ts => before.reverse ++ ts.map (Token.shift n)) (.ok l.close) :=
    fun l => congrArg Except.ok (close_below lines n l)
  fun_induction run l with
  | case1 l done =>
    rw [run.eq_def, if_pos (show (l.below n before).text.rest.isEmpty from done)]
    exact closed l
  | case2 l unread e failed =>
    rw [run.eq_def, if_neg (show ¬(l.below n before).text.rest.isEmpty from unread), step_below,
      failed]
    rfl
  | case3 l unread next step shorter ih =>
    rw [run.eq_def, if_neg (show ¬(l.below n before).text.rest.isEmpty from unread), step_below,
      step]
    exact (if_pos shorter).trans ih
  | case4 l unread next step longer =>
    rw [run.eq_def, if_neg (show ¬(l.below n before).text.rest.isEmpty from unread), step_below,
      step]
    exact (if_neg longer).trans (closed next)

end Layout

end StepTrace
