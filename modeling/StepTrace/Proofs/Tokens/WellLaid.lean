import StepTrace.Proofs.Tokens.Places

/-!
The layout of all tokens of a text: blocks that open and close, whole lines, and places in reading
order.
-/

set_option autoImplicit false

namespace StepTrace

variable {s : Scanner} {l l' : Layout} {ts new : List Token} {loc loc' : Location} {k : Nat}

/-! ### Blocks -/

def indents (ts : List Token) : Nat := ts.countP fun t => t.kind matches .indent

def dedents (ts : List Token) : Nat := ts.countP fun t => t.kind matches .dedent

-- No block is closed before it is opened, and a number of them are open in the end.
structure Balanced (k : Nat) (ts : List Token) : Prop where
  open_ : indents ts = dedents ts + k
  ahead : ∀ front, front <+: ts → dedents front ≤ indents front

namespace Balanced

theorem nil : Balanced 0 [] where
  open_ := rfl
  ahead front h := by rw [List.prefix_nil.1 h]; exact Nat.le_refl 0

theorem concat {k' : Nat} {t : Token} (h : Balanced k ts)
    (level : k + indents [t] = k' + dedents [t]) : Balanced k' (ts ++ [t]) := by
  have open_ := h.open_
  have open_' : indents (ts ++ [t]) = dedents (ts ++ [t]) + k' := by
    unfold indents dedents at *
    rw [List.countP_append, List.countP_append]
    omega
  refine ⟨open_', fun front start => ?_⟩
  rcases List.prefix_concat_iff.1 start with rfl | start
  · omega
  · exact h.ahead front start

theorem append (h : Balanced k ts) (plain : ∀ t ∈ new, t.kind.isMark = false) :
    Balanced k (ts ++ new) := by
  induction new generalizing ts with
  | nil => rwa [List.append_nil]
  | cons t new ih =>
    obtain ⟨first, others⟩ := List.forall_mem_cons.1 plain
    rw [List.append_cons]
    refine ih (h.concat ?_) others
    obtain ⟨kind, loc⟩ := t
    cases kind <;> first | rfl | cases first

theorem of_rows (h : Rows k ts) : Balanced k ts := by
  induction h with
  | nil => exact nil
  | indent loc _ ih => exact ih.concat rfl
  | dedent loc _ ih => exact ih.concat rfl
  | line plain loc _ ih =>
    exact ih.append (List.forall_mem_append.2
      ⟨fun v hv => TokenKind.isMark_of_plain (plain v hv), List.forall_mem_singleton.2 rfl⟩)

end Balanced

theorem Rows.ne_eof (h : Rows k ts) : ∀ t ∈ ts, t.kind ≠ .eof := by
  induction h with
  | nil => exact List.forall_mem_nil _
  | indent loc _ ih | dedent loc _ ih =>
    exact List.forall_mem_append.2 ⟨ih, List.forall_mem_singleton.2 nofun⟩
  | line plain loc _ ih =>
    refine List.forall_mem_append.2 ⟨ih, List.forall_mem_append.2
      ⟨fun v hv eof => ?_, List.forall_mem_singleton.2 nofun⟩⟩
    have plain := plain v hv
    rw [eof] at plain
    cases plain

/-! ### Marks -/

-- A mark comes after the end of a line, or after another mark that closes a block.
def Token.Follows (a b : Token) : Prop :=
  b.kind.isMark = true → a.kind = .newline ∨ a.kind = .dedent

-- A mark may come next.
def Markable (ts : List Token) : Prop :=
  ∀ t ∈ ts.getLast?, t.kind = .newline ∨ t.kind = .dedent

theorem Lines.markable (h : Lines ts) : Markable ts := by
  rcases h with rfl | ⟨us, loc, rfl⟩
  · nofun
  · intro t last
    rw [List.getLast?_concat] at last
    cases last
    exact .inl rfl

theorem isChain_concat {t : Token} (h : ts.IsChain Token.Follows)
    (follows : ∀ a ∈ ts.getLast?, a.Follows t) : (ts ++ [t]).IsChain Token.Follows := by
  refine List.isChain_append.2 ⟨h, List.isChain_singleton t, fun a last b first => ?_⟩
  cases first
  exact follows a last

theorem isChain_append (h : ts.IsChain Token.Follows)
    (plain : ∀ t ∈ new, t.kind.isMark = false) : (ts ++ new).IsChain Token.Follows := by
  induction new generalizing ts with
  | nil => rwa [List.append_nil]
  | cons t new ih =>
    obtain ⟨first, others⟩ := List.forall_mem_cons.1 plain
    rw [List.append_cons]
    exact ih (isChain_concat h fun a _ mark => absurd (first.symm.trans mark) nofun) others

theorem isChain_dedents (h : ts.IsChain Token.Follows) (markable : Markable ts) (k : Nat)
    (loc : Location) : (ts ++ List.replicate k (Token.mk .dedent loc)).IsChain Token.Follows := by
  induction k generalizing ts with
  | zero => rwa [List.replicate_zero, List.append_nil]
  | succ k ih =>
    rw [List.replicate_succ, List.append_cons]
    refine ih (isChain_concat h fun a last _ => markable a last) fun t last => ?_
    rw [List.getLast?_concat] at last
    cases last
    exact .inr rfl

theorem isChain_marks {marks : List Token} (h : ts.IsChain Token.Follows)
    (markable : Markable ts) (marked : Marks loc marks) :
    (ts ++ marks).IsChain Token.Follows := by
  cases marked with
  | indent => exact isChain_concat h fun a last _ => markable a last
  | dedents k => exact isChain_dedents h markable k loc

/-! ### Places -/

-- The tokens are in reading order, up to a place.
structure Trail (ts : List Token) (loc : Location) : Prop where
  ordered : ts.Pairwise fun a b => a.loc.NotAfter b.loc
  reached : ∀ t ∈ ts, t.loc.NotAfter loc

theorem Trail.append (h : Trail ts loc) (later : loc.NotAfter loc')
    (here : ∀ t ∈ new, t.loc = loc') : Trail (ts ++ new) loc' := by
  have reached : ∀ t ∈ ts, t.loc.NotAfter loc' := fun t ht => (h.reached t ht).trans later
  have same : ∀ a ∈ new, ∀ b ∈ new, a.loc.NotAfter b.loc := by
    intro a ha b hb
    rw [here a ha, here b hb]
    exact .refl _
  refine ⟨List.pairwise_append.2 ⟨h.ordered, List.pairwise_of_forall_mem_list same, ?_⟩,
    List.forall_mem_append.2 ⟨reached, fun t ht => ?_⟩⟩
  · intro a ha b hb
    rw [here b hb]
    exact reached a ha
  · rw [here t ht]
    exact .refl _

theorem Trail.later (h : Trail ts loc) (later : loc.NotAfter loc') : Trail ts loc' :=
  ⟨h.ordered, fun t ht => (h.reached t ht).trans later⟩

-- What a token stands for starts at its place in the text. The end of the last line may be missing
-- there, and that of the text is no character.
def Token.StandsIn (origin : Location) (cs : List Char) (t : Token) : Prop :=
  ∃ before rest, cs = before ++ rest ∧ t.loc = origin.reached before ∧
    (Begins ⟨rest, t.loc⟩ t.kind ∨ rest = [] ∧ (t.kind = .newline ∨ t.kind = .eof))

theorem Scanner.Onward.standsIn {text : Scanner} {t : Token} (h : text.Onward s)
    (place : t.loc = s.loc)
    (here : Begins s t.kind ∨ s.rest = [] ∧ (t.kind = .newline ∨ t.kind = .eof)) :
    t.StandsIn text.loc text.rest := by
  obtain ⟨before, all, loc⟩ := h
  refine ⟨before, s.rest, all, ?_, by rwa [place]⟩
  rw [place, loc, Location.afterAll_eq_reached]

/-! ### Runs -/

namespace Layout

-- What has been read of a text is laid out as its tokens are to be.
structure Laid (text : Scanner) (l : Layout) : Prop where
  lined : l.Lined
  onward : text.Onward l.text
  follows : l.tokens.reverse.IsChain Token.Follows
  trail : Trail l.tokens.reverse l.text.loc
  places : ∀ t ∈ l.tokens, t.kind.isMark = false → t.StandsIn text.loc text.rest

theorem Lined.markable (h : l.Lined) (fresh : l.fresh = true) : Markable l.tokens.reverse := by
  obtain ⟨ts, vs, read, -, -, whole⟩ := h.rows
  obtain ⟨rfl, lines⟩ := whole fresh
  rw [read, List.append_nil]
  exact lines.markable

theorem Laid.next {text : Scanner} (h : l.Laid text) (next : l.Next l') : l'.Laid text := by
  obtain ⟨s, s', marks, added, advance⟩ := step_advance next.1
  have onward := h.onward.trans advance.indentation
  have onward' := onward.trans advance.blanks
  have read : l'.tokens.reverse = l.tokens.reverse ++ marks ++ added.reverse := by
    rw [advance.tokens]
    simp
  have places : ∀ t ∈ added.reverse, t.loc = s'.loc ∧ Begins s' t.kind := fun t ht =>
    advance.places t (List.mem_reverse.1 ht)
  have marked := advance.marked
  refine ⟨h.lined.step next.1, onward'.trans advance.onward, ?_, ?_, ?_⟩
  · rw [read]
    refine isChain_append ?_ fun t ht => (places t ht).2.not_mark
    rcases advance.marks with rfl | ⟨fresh, marks⟩
    · rw [List.append_nil]
      exact h.follows
    · exact isChain_marks h.follows (h.lined.markable fresh) marks
  · rw [read]
    refine Trail.later ?_ advance.onward.notAfter
    refine (h.trail.append advance.indentation.notAfter fun t ht => (marked t ht).1).append ?_ ?_
    · exact advance.blanks.notAfter
    · exact fun t ht => (places t ht).1
  · intro t ht plain
    rw [← List.mem_reverse, read, List.mem_append, List.mem_append] at ht
    rcases ht with (old | mark) | new
    · exact h.places t (List.mem_reverse.1 old) plain
    · exact absurd ((marked t mark).2.symm.trans plain) nofun
    · exact onward'.standsIn (places t new).1 (.inl (places t new).2)

theorem laid_of_reads {text : Scanner} {e : Layout} (reads : Relation.ReflTransGen Next l e)
    (h : l.Laid text) : e.Laid text := by
  induction reads with
  | refl => exact h
  | tail _ next ih => exact ih.next next

theorem lines_lineEnd (tokens : List Token) (loc : Location) :
    Lines (tokens.reverse ++ lineEnd tokens loc) := by
  cases tokens with
  | nil => exact .inl rfl
  | cons t rest =>
    obtain ⟨kind, place⟩ := t
    right
    cases kind with
    | newline => exact ⟨rest.reverse, place, by simp [lineEnd]⟩
    | _ => exact ⟨_, loc, rfl⟩

theorem lineEnd_mem (tokens : List Token) (loc : Location) :
    ∀ t ∈ lineEnd tokens loc, t = ⟨.newline, loc⟩ := by
  rcases lineEnd_cases tokens loc with none | line
  · rw [none]
    exact List.forall_mem_nil _
  · rw [line]
    exact List.forall_mem_singleton.2 rfl

end Layout

-- How the tokens of a text are laid out.
structure WellLaid (origin : Location) (cs : List Char) (ts : List Token) : Prop where
  ended : ∃ lines k loc, ts = lines ++ List.replicate k ⟨.dedent, loc⟩ ++ [⟨.eof, loc⟩] ∧
    Lines lines ∧ ∀ t ∈ lines, t.kind ≠ .eof
  balanced : Balanced 0 ts
  follows : ts.IsChain Token.Follows
  ordered : ts.Pairwise fun a b => a.loc.NotAfter b.loc
  places : ∀ t ∈ ts, t.kind.isMark = false → t.StandsIn origin cs

theorem Layout.Laid.close {text : Scanner} (h : l.Laid text) (done : l.text.rest = []) :
    WellLaid text.loc text.rest l.close := by
  have rows := h.lined.rows_lineEnd
  have lines := Layout.lines_lineEnd l.tokens l.text.loc
  have last := Layout.lineEnd_mem l.tokens l.text.loc
  have closing : Marks l.text.loc (List.replicate (l.widths.length - 1) ⟨.dedent, l.text.loc⟩) :=
    .dedents _
  have eof : ∀ t ∈ [Token.mk .eof l.text.loc], t.kind.isMark = false :=
    List.forall_mem_singleton.2 rfl
  rw [Layout.close_eq]
  refine ⟨⟨_, _, _, rfl, lines, rows.ne_eof⟩, ?_, ?_, ?_, ?_⟩
  · exact (Balanced.of_rows (Rows.dedents ((Nat.zero_add _).symm ▸ rows) _)).append eof
  · have ended := isChain_append h.follows fun t ht => congrArg (·.kind.isMark) (last t ht)
    exact isChain_append (isChain_marks ended lines.markable closing) eof
  · have ended := h.trail.append (.refl _) fun t ht => congrArg Token.loc (last t ht)
    have closed := ended.append (.refl _) fun t ht => (closing.mem t ht).1
    refine (closed.append (.refl l.text.loc) ?_).ordered
    exact List.forall_mem_singleton.2 rfl
  · intro t ht plain
    rw [List.mem_append, List.mem_append, List.mem_append, List.mem_reverse] at ht
    rcases ht with ((read | line) | mark) | eof
    · exact h.places t read plain
    · rw [last t line]
      exact h.onward.standsIn rfl (.inr ⟨done, .inl rfl⟩)
    · exact absurd ((closing.mem t mark).2.symm.trans plain) nofun
    · rw [List.mem_singleton.1 eof]
      exact h.onward.standsIn rfl (.inr ⟨done, .inr rfl⟩)

/--
The tokens of a text are well laid out. They end with the one end of the text, before it the blocks
that are still open are closed, and before these the last line ends. No block is closed that is not
open, and none stays open. Blocks open and close only at the start of a line. The places of the
tokens are in reading order, and those of all but the marks of blocks are where in the text they
start.
-/
theorem tokens_well_laid {source : String} {origin : Location} {ts : List Token}
    (h : tokensAt source origin = .ok ts) : WellLaid origin source.toList ts := by
  obtain ⟨e, reads, done, rfl⟩ := Layout.reads_of_run h
  have start : Layout.Laid ⟨source.toList, origin⟩ ⟨⟨source.toList, origin⟩, [0], 0, true, []⟩ := by
    have lined := Layout.start_lined source
    exact ⟨⟨lined.bottom, lined.rows⟩, .refl _, .nil, ⟨.nil, List.forall_mem_nil _⟩,
      List.forall_mem_nil _⟩
  exact (Layout.laid_of_reads reads start).close done

-- A block that ends with its text.
theorem tokens_well_laid_block :
    ∃ ts, tokensAt "if x:\n  y" ⟨1, 1⟩ = .ok ts ∧ (ts.length = 9 ∧ indents ts = 1) ∧
      WellLaid ⟨1, 1⟩ "if x:\n  y".toList ts := by
  have read : (tokensAt "if x:\n  y" ⟨1, 1⟩).toOption.any
      (fun ts => ts.length = 9 ∧ indents ts = 1) = true := by decide +kernel
  cases h : tokensAt "if x:\n  y" ⟨1, 1⟩ with
  | error e =>
    rw [h] at read
    cases read
  | ok ts =>
    rw [h] at read
    exact ⟨ts, rfl, of_decide_eq_true read, tokens_well_laid h⟩

end StepTrace
