import StepTrace.Proofs.Concatenation.Joining

/-!
The places of tokens. Every step of reading a text gets further in it, and what it adds to the
tokens stands where it has got to.
-/

set_option autoImplicit false

namespace StepTrace

variable {s s' left : Scanner} {l l' : Layout} {kind : TokenKind}

/-! ### Places -/

-- The place after a text: its line breaks count, and what comes after the last one.
def Location.reached (origin : Location) (cs : List Char) : Location where
  line := origin.line + cs.count '\n'
  column :=
    if '\n' ∈ cs then (cs.reverse.takeWhile (· != '\n')).length + 1 else origin.column + cs.length

theorem Location.afterAll_eq_reached (origin : Location) (cs : List Char) :
    origin.afterAll cs = origin.reached cs := by
  induction cs using List.reverseRecOn with
  | nil => rfl
  | append_singleton cs c ih =>
    have last : origin.afterAll (cs ++ [c]) = (origin.reached cs).after c := by
      rw [← ih, afterAll, List.foldl_append]
      rfl
    rw [last, after]
    by_cases line : c = '\n'
    · simp [reached, line, Nat.add_assoc]
    · by_cases lines : '\n' ∈ cs <;> simp [reached, line, lines, Ne.symm line, Nat.add_assoc]

-- At the same place as another one, or before it in reading order.
def Location.NotAfter (p q : Location) : Prop :=
  p.line < q.line ∨ p.line = q.line ∧ p.column ≤ q.column

namespace Location.NotAfter

variable {p q r : Location}

theorem refl (p : Location) : p.NotAfter p := .inr ⟨rfl, Nat.le_refl _⟩

theorem trans (h : p.NotAfter q) (h' : q.NotAfter r) : p.NotAfter r := by
  unfold NotAfter at *
  omega

theorem after (p : Location) (c : Char) : p.NotAfter (p.after c) := by
  unfold Location.after
  split
  · exact .inl (Nat.lt_succ_self _)
  · exact .inr ⟨rfl, Nat.le_succ _⟩

theorem afterAll (p : Location) (cs : List Char) : p.NotAfter (p.afterAll cs) := by
  induction cs generalizing p with
  | nil => exact refl p
  | cons c cs ih => exact (after p c).trans (ih (p.after c))

end Location.NotAfter

theorem Scanner.Onward.notAfter (h : s.Onward s') : s.loc.NotAfter s'.loc := by
  obtain ⟨read, -, loc⟩ := h
  rw [loc]
  exact .afterAll _ _

/-! ### Reading on -/

theorem Scanner.skip_shorter {k : Nat} (unread : s.rest ≠ []) (some : 0 < k) :
    (s.skip k).rest.length < s.rest.length := by
  rw [skip, List.length_drop]
  exact Nat.sub_lt (List.length_pos_iff.2 unread) some

theorem Scanner.Onward.shorter {k : Nat} (h : (s.skip k).Onward left) (unread : s.rest ≠ [])
    (some : 0 < k) : left.rest.length < s.rest.length :=
  Nat.lt_of_le_of_lt h.suffix.length_le (Scanner.skip_shorter unread some)

-- Blanks before what is read make no difference.
theorem Scanner.Onward.shorter_of (blanks : s.Onward s') (onward : s'.Onward left)
    (further : s'.rest ≠ [] → left.rest.length < s'.rest.length) (unread : s.rest ≠ []) :
    left.rest.length < s.rest.length := by
  by_cases none : s'.rest = []
  · have empty : left.rest = [] := List.suffix_nil.1 (none ▸ onward.suffix)
    rw [empty]
    exact List.length_pos_iff.2 unread
  · exact Nat.lt_of_lt_of_le (further none) blanks.suffix.length_le

theorem scanWord_shorter {c : Char} {rest : List Char} (letter : Text.isLetter c || c == '_')
    (here : s.rest = c :: rest) (h : scanWord s = .ok (kind, left)) :
    left.rest.length < s.rest.length := by
  have unread : s.rest ≠ [] := by simp [here]
  have starts : (Text.isLetterOrDigit c || c == '_') = true := by
    rcases Bool.or_eq_true_iff.1 letter with letter | underscore
    · rw [Text.isLetterOrDigit_of_isLetter letter, Bool.true_or]
    · rw [underscore, Bool.or_true]
  have some : 0 < (s.rest.takeWhile fun c => Text.isLetterOrDigit c || c == '_').length := by
    rw [here, List.takeWhile_cons, if_pos starts]
    exact Nat.succ_pos _
  unfold scanWord at h
  dsimp only at h
  split at h
  · split at h
    · obtain ⟨⟨body, left'⟩, read, h⟩ := Except.of_bind_ok h
      cases h
      exact Scanner.Onward.shorter (.trans (.skip _ 1) (scanString_onward read)) unread some
    · cases h
      exact Scanner.skip_shorter unread some
  · cases h
    exact Scanner.skip_shorter unread some

theorem Symbol.text_length_pos (sym : Symbol) : 0 < sym.text.length := by
  cases sym <;> decide

theorem scanToken_shorter (unread : s.rest ≠ []) (h : scanToken s = .ok (kind, left)) :
    left.rest.length < s.rest.length := by
  unfold scanToken at h
  split at h
  · next none => exact absurd none unread
  · next c rest here =>
    split at h
    · obtain ⟨⟨body, left'⟩, read, h⟩ := Except.of_bind_ok h
      cases h
      exact (scanString_onward read).shorter unread Nat.one_pos
    · split at h
      · exact (scanNumber_read h).1.shorter unread Nat.one_pos
      · split at h
        · next letter => exact scanWord_shorter letter here h
        · split at h
          · next sym found =>
            cases h
            exact Scanner.skip_shorter unread sym.text_length_pos
          · cases h

/-! ### What a step adds -/

-- The start of a line.
def TokenKind.isMark : TokenKind → Bool
  | .indent | .dedent => true
  | _ => false

theorem TokenKind.isMark_of_plain (plain : kind.isLayout = false) : kind.isMark = false := by
  cases kind <;> first | rfl | cases plain

-- The text begins with a token of this kind.
inductive Begins (s : Scanner) : TokenKind → Prop
  | token {kind : TokenKind} {left : Scanner} (unread : s.rest ≠ [])
    (read : scanToken s = .ok (kind, left)) : Begins s kind
  | newline {rest : List Char} (here : s.rest = '\n' :: rest) : Begins s .newline

theorem Begins.not_mark (h : Begins s kind) : kind.isMark = false := by
  cases h with
  | token unread read => exact TokenKind.isMark_of_plain (scanToken_read unread read).2
  | newline => rfl

-- Marks at the start of a line: one that it starts further in, or some that it starts further out.
inductive Marks (loc : Location) : List Token → Prop
  | indent : Marks loc [⟨.indent, loc⟩]
  | dedents (k : Nat) : Marks loc (List.replicate k ⟨.dedent, loc⟩)

theorem Marks.mem {loc : Location} {marks : List Token} (h : Marks loc marks) :
    ∀ t ∈ marks, t.loc = loc ∧ t.kind.isMark = true := by
  cases h with
  | indent => exact List.forall_mem_singleton.2 ⟨rfl, rfl⟩
  | dedents k =>
    intro t ht
    rw [List.eq_of_mem_replicate ht]
    exact ⟨rfl, rfl⟩

theorem applyIndent_marks {width : Nat} {loc : Location} {widths widths' : List Nat}
    {marks : List Token} (h : applyIndent width loc widths = .ok (marks, widths')) :
    Marks loc marks := by
  unfold applyIndent at h
  split at h
  · cases h
    exact .indent
  · dsimp only at h
    split at h
    · cases h
      exact .dedents _
    · cases h

namespace Layout

-- What a step does inside a line. It passes over blanks to `s`, and may add the token there.
structure Inside (l l' : Layout) (s : Scanner) (added : List Token) : Prop where
  blanks : l.text.Onward s
  onward : s.Onward l'.text
  shorter : s.rest ≠ [] → l'.text.rest.length < s.rest.length
  tokens : l'.tokens = added ++ l.tokens
  places : ∀ t ∈ added, t.loc = s.loc ∧ Begins s t.kind

theorem within_inside (h : l.within = .ok l') : ∃ s added, l.Inside l' s added := by
  obtain ⟨s, skipped, h⟩ := Except.of_bind_ok h
  have blanks := (skips_skipInline 0 [] (0 < l.depth) l.text.rest l.text.loc s skipped).1
  split at h
  · next none =>
    cases h
    exact ⟨s, [], blanks, .refl s, fun unread => absurd none unread, rfl, List.forall_mem_nil _⟩
  · next rest here =>
    cases h
    refine ⟨s, [], blanks, .skip _ _, fun unread => ?_, rfl, List.forall_mem_nil _⟩
    exact Scanner.skip_shorter unread (by simp [here])
  · cases h
    exact ⟨s, [], blanks, .skip _ _, fun unread => Scanner.skip_shorter unread Nat.one_pos, rfl,
      List.forall_mem_nil _⟩
  · next rest here =>
    cases h
    exact ⟨s, [_], blanks, .skip _ _, fun unread => Scanner.skip_shorter unread Nat.one_pos, rfl,
      List.forall_mem_singleton.2 ⟨rfl, .newline here⟩⟩
  · next unread _ _ _ =>
    obtain ⟨⟨kind, left⟩, read, h⟩ := Except.of_bind_ok h
    cases h
    exact ⟨s, [_], blanks, (scanToken_read unread read).1, fun _ => scanToken_shorter unread read,
      rfl, List.forall_mem_singleton.2 ⟨rfl, .token unread read⟩⟩

theorem blank?_onward {text : Scanner} (h : blank? s = some text) :
    s.Onward text ∧ (s.rest ≠ [] → text.rest.length < s.rest.length) := by
  unfold blank? at h
  split at h
  · next none =>
    cases h
    exact ⟨.refl _, fun unread => absurd none unread⟩
  · cases h
    exact ⟨.skip _ _, fun unread => Scanner.skip_shorter unread Nat.one_pos⟩
  · cases h
    exact ⟨.skip _ _, fun unread => Scanner.skip_shorter unread Nat.one_pos⟩
  · next rest here =>
    cases h
    exact ⟨.skip _ _, fun unread => Scanner.skip_shorter unread (by simp [here])⟩
  · cases h

-- What a step does. At the start of a line it passes over the indentation to `s`, where it may add
-- marks.
structure Advance (l l' : Layout) (s s' : Scanner) (marks added : List Token) : Prop where
  indentation : l.text.Onward s
  blanks : s.Onward s'
  onward : s'.Onward l'.text
  shorter : s'.rest ≠ [] → l'.text.rest.length < s'.rest.length
  tokens : l'.tokens = added ++ marks.reverse ++ l.tokens
  marks : marks = [] ∨ l.fresh = true ∧ Marks s.loc marks
  places : ∀ t ∈ added, t.loc = s'.loc ∧ Begins s' t.kind

theorem step_advance (h : l.step = .ok l') : ∃ s s' marks added, l.Advance l' s s' marks added := by
  cases fresh : l.fresh with
  | true =>
    have indentation : l.text.Onward (l.text.skipWhile isIndentChar) := .skip _ _
    rcases step_fresh_cases fresh h with ⟨text, blank, rfl⟩ | ⟨-, marks, widths, indented, h⟩
    · obtain ⟨onward, shorter⟩ := blank?_onward blank
      exact ⟨_, _, [], [], indentation, .refl _, onward, shorter, rfl, .inl rfl,
        List.forall_mem_nil _⟩
    · obtain ⟨s', added, inside⟩ := within_inside h
      refine ⟨_, s', marks, added, indentation, inside.blanks, inside.onward, inside.shorter, ?_,
        .inr ⟨fresh, applyIndent_marks indented⟩, inside.places⟩
      rw [inside.tokens, List.append_assoc]
      rfl
  | false =>
    rw [step_of_settled fresh] at h
    obtain ⟨s', added, inside⟩ := within_inside h
    exact ⟨_, s', [], added, .refl _, inside.blanks, inside.onward, inside.shorter,
      by rw [inside.tokens]; simp, .inl rfl, inside.places⟩

theorem Advance.marked {marks added : List Token} (h : l.Advance l' s s' marks added) :
    ∀ t ∈ marks, t.loc = s.loc ∧ t.kind.isMark = true := by
  rcases h.marks with rfl | ⟨-, marked⟩
  · exact List.forall_mem_nil _
  · exact marked.mem

theorem Advance.next {marks added : List Token} (h : l.Advance l' s s' marks added)
    (step : l.step = .ok l') (unread : l.text.rest ≠ []) : l.Next l' :=
  ⟨step, (h.indentation.trans h.blanks).shorter_of h.onward h.shorter unread⟩

-- Every run reads the whole text.
theorem reads_of_run {ts : List Token} (h : l.run = .ok ts) :
    ∃ e, Relation.ReflTransGen Next l e ∧ e.text.rest = [] ∧ ts = e.close := by
  fun_induction run l with
  | case1 l done =>
    cases h
    exact ⟨l, .refl, List.isEmpty_iff.1 done, rfl⟩
  | case2 => cases h
  | case3 l unread next step shorter ih =>
    obtain ⟨e, reads, done, same⟩ := ih h
    exact ⟨e, .head ⟨step, shorter⟩ reads, done, same⟩
  | case4 l unread next step longer =>
    obtain ⟨s, s', marks, added, advance⟩ := step_advance step
    have unread : l.text.rest ≠ [] := fun none => unread (List.isEmpty_iff.2 none)
    exact absurd (advance.next step unread).2 longer

end Layout

end StepTrace
