import StepTrace.Proofs.Concatenation.Scanning
import StepTrace.Proofs.Literals.Parsing

/-!
Readers of tokens at two texts: where the first one succeeds, the second one does too, and what it
gives is the same further down.
-/

set_option autoImplicit false

namespace StepTrace

open Parse

variable {n : Nat} {α β : Type} [Moves α] [Moves β]

-- From related cursors, the second reader follows the first; `S` relates the cursors behind them.
def Follows (n : Nat) (R : Cursor → Cursor → Prop) (x y : Parse α)
    (S : α → Cursor → Cursor → Prop) : Prop :=
  ∀ (c c' : Cursor) (a : α) (d : Cursor), R c c' → x c = .ok (a, d) →
    ∃ d', y c' = .ok (move n a, d') ∧ S a d d'

abbrev Keeps (n : Nat) (R : Cursor → Cursor → Prop) (x y : Parse α) : Prop :=
  Follows n R x y fun _ => R

theorem Parse.of_bind_ok {α β : Type} {p : Parse α} {f : α → Parse β} {c e : Cursor} {b : β}
    (h : (p >>= f) c = .ok (b, e)) : ∃ a d, p c = .ok (a, d) ∧ f a d = .ok (b, e) := by
  obtain ⟨⟨a, d⟩, read, h⟩ := Except.of_bind_ok (x := p c) h
  exact ⟨a, d, read, h⟩

namespace Follows

variable {R R' : Cursor → Cursor → Prop} {S S' : α → Cursor → Cursor → Prop}
  {T : β → Cursor → Cursor → Prop} {x x' y y' z z' : Parse α}

-- The first reader fails.
theorem never (h : ∀ c, ∃ e, x c = .error e) : Follows n R x y S := by
  intro c c' a d related read
  obtain ⟨e, failed⟩ := h c
  cases failed.symm.trans read

theorem fail {cause : SyntaxCause} : Follows n R (fail cause) y S :=
  never fun _ => ⟨_, rfl⟩

theorem failAt {loc : Location} {cause : SyntaxCause} : Follows n R (failAt loc cause) y S :=
  never fun _ => ⟨_, rfl⟩

theorem ret {a b : α} (same : move n a = b) (h : ∀ {c c'}, R c c' → S a c c') :
    Follows n R (pure a) (pure b) S := by
  rintro c c' _ _ related ⟨⟩
  exact ⟨c', by rw [same]; rfl, h related⟩

theorem keep {a b : α} (same : move n a = b) : Keeps n R (pure a) (pure b) := ret same id

theorem bind {f g : α → Parse β} (hx : Follows n R x y S)
    (hf : ∀ a, Follows n (S a) (f a) (g (move n a)) T) :
    Follows n R (x >>= f) (y >>= g) T := by
  intro c c' b e related h
  obtain ⟨a, d, read, h⟩ := of_bind_ok h
  obtain ⟨d', read', related'⟩ := hx c c' a d related read
  obtain ⟨e', read'', related''⟩ := hf a d d' b e related' h
  exact ⟨e', (bind_ok read').trans read'', related''⟩

theorem weaken (h : Follows n R x y S) (before : ∀ {c c'}, R' c c' → R c c')
    (after : ∀ {a c c'}, S a c c' → S' a c c') : Follows n R' x y S' := by
  intro c c' a d related read
  obtain ⟨d', read', related'⟩ := h c c' a d (before related) read
  exact ⟨d', read', after related'⟩

theorem pre (h : Follows n R x y S) (before : ∀ {c c'}, R' c c' → R c c') :
    Follows n R' x y S := h.weaken before id

theorem post (h : Follows n R x y S) (after : ∀ {a c c'}, S a c c' → S' a c c') :
    Follows n R x y S' := h.weaken id after

theorem ite {b : Bool} (yes : Follows n R x x' S) (no : Follows n R y y' S) :
    Follows n R (if b then x else y) (if b then x' else y') S := by
  cases b
  · exact no
  · exact yes

theorem bindIf {t t' : Parse Bool} {W : Bool → Cursor → Cursor → Prop} (test : Follows n R t t' W)
    (yes : Follows n (W true) x x' S) (no : Follows n (W false) y y' S) :
    Follows n R (t >>= fun b => if b then x else y) (t' >>= fun b => if b then x' else y') S := by
  refine test.bind fun b => ?_
  cases b
  · exact no
  · exact yes

theorem bindIfNot {t t' : Parse Bool} {W : Bool → Cursor → Cursor → Prop}
    (test : Follows n R t t' W) (no : Follows n (W false) x x' S)
    (yes : Follows n (W true) y y' S) :
    Follows n R (t >>= fun b => if !b then x else y) (t' >>= fun b => if !b then x' else y') S := by
  refine test.bind fun b => ?_
  cases b
  · exact no
  · exact yes

-- A failure unless all is well.
theorem guard {b b' : Bool} {f g : Unit → Parse α} {p q : Parse Unit} (same : b' = b)
    (h : ∀ c, ∃ e, p c = .error e) (rest : Follows n R (f ()) (g ()) S) :
    Follows n R (if b then p >>= f else f ()) (if b' then q >>= g else g ()) S := by
  rw [same]
  refine ite (never fun c => ?_) rest
  obtain ⟨e, failed⟩ := h c
  exact ⟨e, by change (p c).bind _ = _; rw [failed]; rfl⟩

theorem guardNot {b b' : Bool} {f g : Unit → Parse α} {p q : Parse Unit} (same : b' = b)
    (h : ∀ c, ∃ e, p c = .error e) (rest : Follows n R (f ()) (g ()) S) :
    Follows n R (if b then f () else p >>= f) (if b' then g () else q >>= g) S := by
  rw [same]
  refine ite rest (never fun c => ?_)
  obtain ⟨e, failed⟩ := h c
  exact ⟨e, by change (p c).bind _ = _; rw [failed]; rfl⟩

-- Something that is read and dropped, or not there.
theorem skip {b : Bool} {f g : Unit → Parse α} {p q : Parse Unit} (h : Keeps n R p q)
    (rest : Follows n R (f ()) (g ()) S) :
    Follows n R (if b then p >>= f else f ()) (if b then q >>= g else g ()) S :=
  ite (h.bind fun _ => rest) rest

theorem skipIf {b : Bool} {t t' : Parse Bool} {f g : Unit → Parse α} {p q : Parse Unit}
    (test : Keeps n R t t') (h : Keeps n R p q) (rest : Follows n R (f ()) (g ()) S) :
    Follows n R (if b then t >>= fun r => if r then p >>= f else f () else f ())
      (if b then t' >>= fun r => if r then q >>= g else g () else g ()) S :=
  ite (test.bind fun _ => skip h rest) rest

-- Something that is there or not.
theorem ifSome {b : Bool} {f g : Option α → Parse β} (h : Keeps n R x x')
    (rest : ∀ a, Follows n R (f a) (g (move n a)) T) :
    Follows n R (if b then x >>= fun a => pure (some a) >>= f else pure none >>= f)
      (if b then x' >>= fun a => pure (some a) >>= g else pure none >>= g) T :=
  ite (h.bind fun a => rest (some a)) (rest none)

theorem ifNone {b : Bool} {f g : Option α → Parse β} (h : Keeps n R x x')
    (rest : ∀ a, Follows n R (f a) (g (move n a)) T) :
    Follows n R (if b then pure none >>= f else x >>= fun a => pure (some a) >>= f)
      (if b then pure none >>= g else x' >>= fun a => pure (some a) >>= g) T :=
  ite (rest none) (h.bind fun a => rest (some a))

theorem discard (h : Follows n R x y fun _ => R') :
    Follows n R (discard x) (discard y) fun _ => R' :=
  h.bind (f := fun _ => pure ()) (g := fun _ => pure ()) fun _ => .keep rfl

end Follows

/-! ### Lines -/

-- The mark that ends a line, and what follows it in either text.
structure Break where
  mark : Token
  layout : mark.kind.isLayout = true
  rest : List Token
  rest' : List Token

-- What is left of a line, here and further down.
inductive Stretch (n : Nat) (b : Break) : List Token → List Token → Prop
  | ends : Stretch n b (b.mark :: b.rest) (b.mark.shift n :: b.rest')
  | token {t : Token} {ts ts' : List Token} (plain : t.kind.isLayout = false)
      (line : Stretch n b ts ts') : Stretch n b (t :: ts) (t.shift n :: ts')

def OnLine (n : Nat) (b : Break) (c c' : Cursor) : Prop := Stretch n b c.rest c'.rest

-- A token of this kind comes next.
def Ahead (n : Nat) (b : Break) (k : TokenKind) (c c' : Cursor) : Prop :=
  OnLine n b c c' ∧ c.peek.kind = k

-- The last token has been passed on the same line.
def Passed (n : Nat) (b : Break) (c c' : Cursor) : Prop :=
  OnLine n b c c' ∧ c'.previous = c.previous.shift n

-- After looking whether a token of this kind comes next.
def Seen (n : Nat) (b : Break) (k : TokenKind) : Bool → Cursor → Cursor → Prop
  | true => Ahead n b k
  | false => OnLine n b

-- After passing a token, if it was the right one.
def Tried (n : Nat) (b : Break) : Bool → Cursor → Cursor → Prop
  | true => Passed n b
  | false => OnLine n b

section

variable {b : Break} {c c' : Cursor} {k : TokenKind} {r : Bool}

theorem OnLine.peek (h : OnLine n b c c') : c'.peek = c.peek.shift n := by
  obtain ⟨ts, loc⟩ := c
  obtain ⟨ts', loc'⟩ := c'
  cases h <;> rfl

theorem OnLine.length (h : OnLine n b c c') :
    c.rest.length + b.rest'.length = c'.rest.length + b.rest.length := by
  obtain ⟨ts, loc⟩ := c
  obtain ⟨ts', loc'⟩ := c'
  change Stretch n b ts ts' at h
  change ts.length + _ = ts'.length + _
  induction h with
  | ends => simp only [List.length_cons]; omega
  | token plain line ih => simp only [List.length_cons]; omega

theorem Seen.onLine (h : Seen n b k r c c') : OnLine n b c c' := by
  cases r
  · exact h
  · exact h.1

theorem Tried.onLine (h : Tried n b r c c') : OnLine n b c c' := by
  cases r
  · exact h
  · exact h.1

theorem Cursor.advance_cons {t : Token} {ts : List Token} {loc : Location} (more : t.kind ≠ .eof) :
    Cursor.advance ⟨t :: ts, loc⟩ = ⟨ts, t.loc⟩ := by
  unfold Cursor.advance
  dsimp only
  split
  · next last => exact (more last).elim
  · rfl

theorem Ahead.advance (h : Ahead n b k c c') (plain : k.isLayout = false) :
    Passed n b c.advance c'.advance := by
  obtain ⟨line, next⟩ := h
  obtain ⟨ts, loc⟩ := c
  obtain ⟨ts', loc'⟩ := c'
  cases line with
  | ends =>
    rw [← show b.mark.kind = k from next, b.layout] at plain
    cases plain
  | @token t ts ts' plain' line =>
    have more : t.kind ≠ .eof := by
      intro last
      rw [last] at plain'
      cases plain'
    rw [Cursor.advance_cons more, Cursor.advance_cons (t := t.shift n) more]
    exact ⟨line, rfl⟩

end

namespace Follows

variable {b : Break} {k : TokenKind} {x y : Parse α} {S : α → Cursor → Cursor → Prop}

theorem peek : Follows n (OnLine n b) peek peek fun t c c' => Ahead n b t.kind c c' := by
  rintro c c' _ _ line ⟨⟩
  exact ⟨c', congrArg (fun t => Except.ok (t, c')) line.peek, line, rfl⟩

theorem kind : Follows n (OnLine n b) kind kind (Ahead n b) := by
  rintro c c' _ _ line ⟨⟩
  have same : c'.peek.kind = c.peek.kind := by rw [line.peek]; rfl
  exact ⟨c', by rw [← same]; rfl, line, rfl⟩

theorem here_of {R : Cursor → Cursor → Prop} (h : ∀ {c c'}, R c c' → OnLine n b c c') :
    Keeps n R here here := by
  rintro c c' _ _ related ⟨⟩
  have same : c'.peek.loc = c.peek.loc.shift n := by rw [(h related).peek]; rfl
  exact ⟨c', by rw [here_eq, same]; rfl, related⟩

theorem here : Keeps n (OnLine n b) here here := here_of id

theorem previous : Follows n (Passed n b) previous previous fun _ => OnLine n b := by
  rintro c c' _ _ passed ⟨⟩
  exact ⟨c', congrArg (fun l => Except.ok (l, c')) passed.2, passed.1⟩

theorem advance (plain : k.isLayout = false) :
    Follows n (Ahead n b k) advance advance fun _ => Passed n b := by
  rintro c c' _ _ ahead ⟨⟩
  exact ⟨c'.advance, rfl, ahead.advance plain⟩

theorem pass (plain : k.isLayout = false) (rest : Follows n (OnLine n b) x y S) :
    Follows n (Ahead n b k) (Parse.advance >>= fun _ => x) (Parse.advance >>= fun _ => y) S :=
  (advance plain).bind fun _ => rest.pre And.left

-- A question about the next token.
theorem look {g : TokenKind → Parse Bool} (h : ∀ k, ∃ r, g k = pure r) :
    Keeps n (OnLine n b) (Parse.kind >>= g) (Parse.kind >>= g) := by
  refine kind.bind fun k => ?_
  obtain ⟨r, answer⟩ := h k
  change Follows n _ (g k) (g k) _
  rw [answer]
  exact .ret rfl And.left

theorem isNewline : Keeps n (OnLine n b) isNewline isNewline :=
  look fun k => by cases k <;> exact ⟨_, rfl⟩

theorem isEnd : Keeps n (OnLine n b) isEnd isEnd :=
  look fun k => by cases k <;> exact ⟨_, rfl⟩

theorem seesSymbol (s : Symbol) :
    Follows n (OnLine n b) (isSymbol s) (isSymbol s) (Seen n b (.symbol s)) := by
  intro c c' a d line read
  rw [isSymbol_eq] at read
  cases read
  have same : c'.peek.kind = c.peek.kind := by rw [line.peek]; rfl
  refine ⟨c', by rw [isSymbol_eq, same]; rfl, ?_⟩
  cases sees : c.peek.kind.isSymbol s with
  | false => exact line
  | true =>
    refine ⟨line, ?_⟩
    unfold TokenKind.isSymbol at sees
    split at sees
    · next t found => rw [found, eq_of_beq sees]
    · cases sees

theorem seesKeyword (w : Keyword) :
    Follows n (OnLine n b) (isKeyword w) (isKeyword w) (Seen n b (.keyword w)) := by
  intro c c' a d line read
  rw [isKeyword_eq] at read
  cases read
  have same : c'.peek.kind = c.peek.kind := by rw [line.peek]; rfl
  refine ⟨c', by rw [isKeyword_eq, same]; rfl, ?_⟩
  cases sees : c.peek.kind.isKeyword w with
  | false => exact line
  | true =>
    refine ⟨line, ?_⟩
    unfold TokenKind.isKeyword at sees
    split at sees
    · next t found => rw [found, eq_of_beq sees]
    · cases sees

theorem isSymbol (s : Symbol) : Keeps n (OnLine n b) (isSymbol s) (isSymbol s) :=
  (seesSymbol s).post Seen.onLine

theorem isKeyword (w : Keyword) : Keeps n (OnLine n b) (isKeyword w) (isKeyword w) :=
  (seesKeyword w).post Seen.onLine

theorem passIf {test : Parse Bool} (plain : k.isLayout = false)
    (h : Follows n (OnLine n b) test test (Seen n b k)) :
    Follows n (OnLine n b) (passIf test) (passIf test) (Tried n b) :=
  h.bindIf ((advance plain).bind fun _ => .ret rfl id) (.ret rfl id)

theorem tries (s : Symbol) : Follows n (OnLine n b) (accept s) (accept s) (Tried n b) :=
  passIf rfl (seesSymbol s)

theorem triesWord (w : Keyword) :
    Follows n (OnLine n b) (acceptWord w) (acceptWord w) (Tried n b) :=
  passIf rfl (seesKeyword w)

theorem accept (s : Symbol) : Keeps n (OnLine n b) (accept s) (accept s) :=
  (tries s).post Tried.onLine

theorem acceptWord (w : Keyword) : Keeps n (OnLine n b) (acceptWord w) (acceptWord w) :=
  (triesWord w).post Tried.onLine

theorem demand {R : Cursor → Cursor → Prop} {what : String} {p q : Parse Bool}
    (h : Keeps n R p q) : Keeps n R (demand what p) (demand what q) :=
  h.bindIf (.keep rfl) (never fun _ => ⟨_, rfl⟩)

theorem expect (s : Symbol) : Keeps n (OnLine n b) (expect s) (expect s) :=
  demand (accept s)

theorem identifier : Keeps n (OnLine n b) identifier identifier :=
  kind.bind fun k => by
    cases k with
    | ident name => exact pass rfl (.keep rfl)
    | _ => exact .fail

/-! ### Repetition -/

-- After one of the steps: the last one, or a step from where so much was left.
def Repeated (R Stop : Cursor → Cursor → Prop) (m : Nat) :
    Option α → Cursor → Cursor → Prop
  | none => Stop
  | some _ => fun d d' => R d d' ∧ (d.rest.length < m ∨ Stop d d')

-- A repetition goes on alike in both texts as long as their lengths differ by the same amount.
theorem collect {R Stop : Cursor → Cursor → Prop} {step step' : List α → Parse (Option α)}
    {i j : Nat} (even : ∀ {c c'}, R c c' → c.rest.length + i = c'.rest.length + j)
    (h : ∀ done m, Follows n (fun c c' => R c c' ∧ c.rest.length = m)
      (step done) (step' (move n done)) (Repeated R Stop m))
    (done : List α) :
    Follows n R (collect step done) (collect step' (move n done)) fun _ => Stop := by
  intro c c' a d related read
  have reverse : ∀ done : List α, (move n done).reverse = move n done.reverse :=
    fun done => List.map_reverse.symm
  fun_induction Parse.collect step done c generalizing c' with
  | case1 => cases read
  | case2 done c next declined =>
    cases read
    obtain ⟨d', declined', stop⟩ := h done _ c c' _ _ ⟨related, rfl⟩ declined
    refine ⟨d', ?_, stop⟩
    rw [← reverse]
    exact collect_of_none declined'
  | case3 done c a' next went shorter ih =>
    obtain ⟨d', went', related', -⟩ := h done _ c c' _ _ ⟨related, rfl⟩ went
    have shorter' : d'.rest.length < c'.rest.length := by
      have before := even related
      have after := even related'
      omega
    obtain ⟨e', read', stop⟩ := ih d' related' read
    exact ⟨e', (collect_of_some went' shorter').trans read', stop⟩
  | case4 done c a' next went longer =>
    cases read
    obtain ⟨d', went', related', progress⟩ := h done _ c c' _ _ ⟨related, rfl⟩ went
    have longer' : ¬ d'.rest.length < c'.rest.length := by
      have before := even related
      have after := even related'
      omega
    refine ⟨d', ?_, progress.resolve_left longer⟩
    rw [← reverse, Parse.collect, went']
    exact if_neg longer'

theorem manyUntil {R Stop : Cursor → Cursor → Prop} {step step' : List α → Parse (Option α)}
    {i j : Nat} (even : ∀ {c c'}, R c c' → c.rest.length + i = c'.rest.length + j)
    (h : ∀ done m, Follows n (fun c c' => R c c' ∧ c.rest.length = m)
      (step done) (step' (move n done)) (Repeated R Stop m))
    (first : List α) :
    Follows n R (many step first) (many step' (move n first)) fun _ => Stop := by
  have repeats := collect even h first.reverse
  unfold Parse.many
  rw [show (move n first).reverse = move n first.reverse from List.map_reverse.symm]
  exact repeats

theorem many {step step' : List α → Parse (Option α)}
    (h : ∀ done, Keeps n (OnLine n b) (step done) (step' (move n done))) (first : List α) :
    Keeps n (OnLine n b) (many step first) (many step' (move n first)) := by
  refine manyUntil OnLine.length (fun done m => (h done).weaken And.left ?_) first
  intro r _ _ line
  cases r with
  | none => exact line
  | some a => exact ⟨line, .inr line⟩

theorem commaSeparated {stop stop' : Parse Bool} {item item' : List α → Parse α}
    (hstop : Keeps n (OnLine n b) stop stop')
    (hitem : ∀ done, Keeps n (OnLine n b) (item done) (item' (move n done))) (first : List α) :
    Keeps n (OnLine n b) (commaSeparated stop item first)
      (commaSeparated stop' item' (move n first)) := by
  refine many (fun done => ?_) first
  exact (accept .comma).bindIf
    (hstop.bindIf (.keep rfl) ((hitem done).bind fun _ => .keep rfl)) (.keep rfl)

end Follows

end StepTrace
