import StepTrace.Proofs.Concatenation.Layout

/-!
Reading the tokens of a text after another one. What has been read of the first text when its end
is reached is a number of open blocks; the second text closes them and goes on as it does alone.
-/

set_option autoImplicit false

namespace StepTrace

variable {n : Nat} {more : List Char} {before : List Token} {l l' : Layout}

namespace Layout

/-! ### Up to the end of a text -/

theorem Next.onward (h : l.Next l') : l.text.Onward l'.text := (step_cases h.1).1

theorem onward_of_reads {e : Layout} (reads : Relation.ReflTransGen Next l e) :
    l.text.Onward e.text := by
  induction reads with
  | refl => exact .refl _
  | tail _ next ih => exact ih.trans next.onward

theorem lined_of_reads {e : Layout} (reads : Relation.ReflTransGen Next l e) (lined : l.Lined) :
    e.Lined := by
  induction reads with
  | refl => exact lined
  | tail _ next ih => exact ih.step next.1

theorem run_of_reads {e : Layout} (reads : Relation.ReflTransGen Next l e) : l.run = e.run := by
  induction reads with
  | refl => rfl
  | tail _ next ih => exact ih.trans (run_of_next next)

theorem eq_of_reads {e : Layout} (reads : Relation.ReflTransGen Next l e)
    (none : l.text.rest = []) : e = l := by
  rcases Relation.ReflTransGen.cases_head reads with same | ⟨next, step, -⟩
  · exact same.symm
  · have shorter := step.2
    rw [none] at shorter
    exact (Nat.not_lt_zero _ shorter).elim

-- What comes after the text does not matter before its end.
theorem reads_moved {e : Layout} (reads : Relation.ReflTransGen Next l e)
    (cut : Cut more l.text.rest) (fresh : e.fresh = true) :
    Relation.ReflTransGen Next (l.moved n more before) (e.moved n more before) := by
  induction reads using Relation.ReflTransGen.head_induction_on with
  | refl => exact .refl
  | head step reads ih =>
    rename_i l next
    have stops : next.Stops more := by
      by_cases none : next.text.rest = []
      · rw [eq_of_reads reads none] at fresh
        exact .inr (.inr fresh)
      · exact .inr (.inl none)
    have step' : (l.moved n more before).Next (next.moved n more before) := by
      refine ⟨step_moved cut step.1 stops, ?_⟩
      simpa [Layout.moved, Scanner.moved] using step.2
    by_cases none : next.text.rest = []
    · rw [eq_of_reads reads none]
      exact .single step'
    · exact .head step' (ih (cut.suffix step.onward.suffix none))

-- Where the reading of a text ends.
def final (l : Layout) : Except SyntaxError Layout :=
  if l.text.rest.isEmpty then .ok l
  else
    match l.step with
    | .error e => .error e
    | .ok next => if next.text.rest.length < l.text.rest.length then next.final else .ok next
termination_by l.text.rest.length

theorem run_eq_final (l : Layout) : l.run = l.final.map close := by
  fun_induction run l with
  | case1 l done => rw [final, if_pos done]; rfl
  | case2 l unread e failed => rw [final, if_neg unread, failed]; rfl
  | case3 l unread next step shorter ih =>
    rw [ih, final.eq_def l, if_neg unread, step]
    dsimp only
    rw [if_pos shorter]
  | case4 l unread next step longer =>
    rw [final, if_neg unread, step]
    dsimp only
    rw [if_neg longer]
    rfl

theorem reads_of_final {e : Layout} (h : l.final = .ok e) (done : e.text.rest = []) :
    Relation.ReflTransGen Next l e := by
  fun_induction final l with
  | case1 => cases h; exact .refl
  | case2 => cases h
  | case3 l unread next step shorter ih => exact .head ⟨step, shorter⟩ (ih h)
  | case4 l unread next step longer =>
    cases h
    rw [done] at longer
    exact absurd (List.isEmpty_iff.2 (List.eq_nil_of_length_eq_zero (by simpa using longer))) unread

/-! ### A second text -/

-- Nothing of the text has been read yet, blank lines apart.
structure Clean (l : Layout) : Prop where
  widths : l.widths = [0]
  depth : l.depth = 0
  fresh : l.fresh = true
  tokens : l.tokens = []

-- The text stands further down, after lines with these tokens and open blocks.
def after (n : Nat) (widths : List Nat) (before : List Token) (l : Layout) : Layout :=
  { l with text := l.text.moved n [], widths, tokens := before }

-- The indentation of a line at the margin closes all blocks.
theorem applyIndent_margin {widths : List Nat} (bottom : Bottomed widths) (loc : Location) :
    applyIndent 0 loc widths = .ok (List.replicate (widths.length - 1) ⟨.dedent, loc⟩, [0]) := by
  have kept : widths.dropWhile (0 < ·) = [0] := by
    obtain ⟨open_, rfl, positive⟩ := bottom
    rw [List.dropWhile_append_of_pos (by simpa using positive)]
    rfl
  rw [applyIndent, if_neg (Nat.not_lt_zero _)]
  dsimp only
  rw [kept]
  rfl

-- A blank line is blank there too. The first other line closes the blocks, unless it is indented.
theorem step_after {widths : List Nat} (bottom : Bottomed widths) (clean : l.Clean)
    (h : l.step = .ok l') :
    (l'.Clean ∧ (l.after n widths before).step = .ok (l'.after n widths before)) ∨
    (∃ loc, (l.after n widths before).step = .ok
      (l'.moved n [] (List.replicate (widths.length - 1) ⟨.dedent, loc⟩ ++ before))) ∨
    ∃ new loc, l'.tokens = new ++ [⟨.indent, loc⟩] := by
  have skip : (l.after n widths before).text.skipWhile isIndentChar =
      (l.text.skipWhile isIndentChar).moved n [] := Scanner.skipWhile_moved (.nil _) (by decide)
  have blank' := blank?_moved (n := n) (Cut.nil (l.text.skipWhile isIndentChar).rest)
  have fresh' : (l.after n widths before).fresh = true := clean.fresh
  have indent : (l.after n widths before).indentation = l.indentation :=
    congrArg indentWidth (Cut.takeWhile (.nil _) (by decide))
  rcases step_fresh_cases clean.fresh h with ⟨text, blank, rfl⟩ | ⟨line, marks, ws, indented, h⟩
  · refine .inl ⟨⟨clean.widths, clean.depth, clean.fresh, clean.tokens⟩, ?_⟩
    rw [step_of_blank fresh' (by rw [skip, blank', blank]; rfl)]
    rfl
  · right
    rw [clean.widths] at indented
    obtain margin | further := Nat.eq_zero_or_pos l.indentation
    · have alone : Bottomed [0] := ⟨[], rfl, List.forall_mem_nil _⟩
      rw [margin, applyIndent_margin alone] at indented
      obtain ⟨rfl, rfl⟩ := Prod.mk.inj (Except.ok.inj indented)
      have moved := @within_moved n [] (List.replicate (widths.length - 1)
        ⟨.dedent, ((l.text.skipWhile isIndentChar).moved n []).loc⟩ ++ before) _ _
        rfl (.nil _) h (.inl rfl)
      refine .inl ⟨((l.text.skipWhile isIndentChar).moved n []).loc, ?_⟩
      rw [step_of_line fresh' (by rw [skip, blank', line]; rfl)
        (by rw [skip, indent, margin]; exact applyIndent_margin bottom _), ← moved]
      refine congrArg within ?_
      unfold startLine
      rw [skip]
      simp [Layout.moved, Layout.after, clean.tokens]
    · rw [applyIndent, if_pos (by simpa using further)] at indented
      obtain ⟨rfl, rfl⟩ := Prod.mk.inj (Except.ok.inj indented)
      obtain ⟨-, -, added, -, tokens⟩ := within_cases rfl h
      refine .inr ⟨added, (l.text.skipWhile isIndentChar).loc, ?_⟩
      rw [tokens, startLine, clean.tokens]
      rfl

theorem close_indent {e : Layout} {new : List Token} {loc : Location}
    (h : e.tokens = new ++ [⟨.indent, loc⟩]) : ∃ rest, e.close = ⟨.indent, loc⟩ :: rest := by
  rw [close_eq, h, List.reverse_append]
  exact ⟨_, rfl⟩

-- The text starts with no indented line.
def Flush (ts : List Token) : Prop := ∀ loc rest, ts ≠ ⟨.indent, loc⟩ :: rest

-- The tokens of a text after others: what closes their blocks, and all lines further down.
def Joined (n : Nat) (before : List Token) (widths : List Nat) (ts joined : List Token) : Prop :=
  ∃ loc extra, (extra = [] ∨ ∃ loc, extra = [⟨.newline, loc⟩]) ∧
    joined = before.reverse ++ List.replicate (widths.length - 1) ⟨.dedent, loc⟩ ++ extra ++
      ts.map (Token.shift n)

theorem joined_moved (n : Nat) (before : List Token) (widths : List Nat) (loc : Location)
    (e : Layout) : Joined n before widths e.close
      (e.moved n [] (List.replicate (widths.length - 1) ⟨.dedent, loc⟩ ++ before)).close := by
  refine ⟨loc, if e.tokens.isEmpty then lineEnd (List.replicate (widths.length - 1) ⟨.dedent, loc⟩ ++
    before) (e.text.loc.shift n) else [], ?_, ?_⟩
  · split
    · exact (lineEnd_cases _ _).imp id fun line => ⟨_, line⟩
    · exact .inl rfl
  · rw [close_moved, List.reverse_append, List.reverse_replicate]

theorem joined_after {widths : List Nat} (lines : Lines before.reverse) (clean : l.Clean) :
    Joined n before widths l.close (l.after n widths before).close := by
  refine ⟨l.text.loc.shift n, [], .inl rfl, ?_⟩
  rw [close_eq, close_eq]
  simp only [after, clean.widths, clean.tokens, lineEnd_of_lines lines]
  simp [lineEnd, Scanner.moved, Token.shift]

theorem run_after {widths : List Nat} {ts : List Token} (bottom : Bottomed widths)
    (lines : Lines before.reverse) (clean : l.Clean) (h : l.run = .ok ts) (flush : Flush ts) :
    ∃ joined, (l.after n widths before).run = .ok joined ∧ Joined n before widths ts joined := by
  fun_induction run l with
  | case1 l done =>
    cases h
    exact ⟨_, run_of_end (by simpa [after, Scanner.moved] using done), joined_after lines clean⟩
  | case2 => cases h
  | case3 l unread next step shorter ih =>
    rcases step_after bottom clean step with ⟨clean', step'⟩ | ⟨loc, step'⟩ | ⟨new, loc, tokens⟩
    · rw [run_of_next ⟨step', by simpa [after, Scanner.moved] using shorter⟩]
      exact ih clean' h
    · obtain ⟨e, ends⟩ := run_ends h
      refine ⟨_, (run_of_next ⟨step', ?_⟩).trans (ends.moved n _), ?_⟩
      · simpa [after, Layout.moved, Scanner.moved] using shorter
      · rw [ends.closed]
        exact joined_moved n before widths loc e
    · obtain ⟨e, ends⟩ := run_ends h
      obtain ⟨new', tokens'⟩ := ends.tokens
      obtain ⟨rest, closed⟩ := @close_indent e (new' ++ new) loc (by rw [tokens', tokens,
        List.append_assoc])
      exact (flush loc rest (ends.closed.trans closed)).elim
  | case4 l unread next step longer =>
    cases h
    have unread' : (l.after n widths before).text.rest ≠ [] := by
      simpa [after, Scanner.moved] using unread
    rcases step_after bottom clean step with ⟨clean', step'⟩ | ⟨loc, step'⟩ | ⟨new, loc, tokens⟩
    · refine ⟨_, ?_, joined_after lines clean'⟩
      rw [run_of_step step' unread', if_neg (by simpa [after, Scanner.moved] using longer)]
    · refine ⟨_, ?_, joined_moved n before widths loc next⟩
      rw [run_of_step step' unread',
        if_neg (by simpa [after, Layout.moved, Scanner.moved] using longer)]
    · obtain ⟨rest, closed⟩ := close_indent tokens
      exact (flush loc rest closed).elim

end Layout

/-! ### Two texts -/

def Layout.start (source : String) : Layout := ⟨⟨source.toList, ⟨1, 1⟩⟩, [0], 0, true, []⟩

theorem Layout.start_lined (source : String) : (Layout.start source).Lined :=
  ⟨⟨[], rfl, List.forall_mem_nil _⟩, [], [], rfl, .nil, List.forall_mem_nil _,
    fun _ => ⟨rfl, .inl rfl⟩⟩

-- Nothing, or whole lines: the text ends with a line break, and reading it ends at the start of a
-- line and outside brackets.
def Complete (source : String) : Prop :=
  (source.toList = [] ∨ ∃ line, source.toList = line ++ ['\n']) ∧
    ∃ e, (Layout.start source).final = .ok e ∧ e.text.rest = [] ∧ e.fresh = true ∧ e.depth = 0

theorem Complete.of_ends {source : String}
    (lines : source.toList = [] ∨ ∃ line, source.toList = line ++ ['\n'])
    (ends : (Layout.start source).final.toOption.any (fun e =>
      e.text.rest = [] ∧ e.fresh = true ∧ e.depth = 0) = true) : Complete source := by
  obtain ⟨e, final, last⟩ := Except.of_any ends
  exact ⟨lines, e, final, of_decide_eq_true last⟩

def newlines (source : String) : Nat := source.toList.count '\n'

theorem Location.line_afterAll (loc : Location) (cs : List Char) :
    (loc.afterAll cs).line = loc.line + cs.count '\n' := by
  induction cs generalizing loc with
  | nil => rfl
  | cons c cs ih =>
    change ((loc.after c).afterAll cs).line = _
    rw [ih, List.count_cons, Location.after]
    by_cases line : c = '\n'
    · simp [line]
      omega
    · simp [line]

-- The text after whole lines starts below them.
theorem Location.afterAll_lines {cs : List Char} (h : cs = [] ∨ ∃ line, cs = line ++ ['\n']) :
    (Location.mk 1 1).afterAll cs = (Location.mk 1 1).shift (cs.count '\n') := by
  have column : ((Location.mk 1 1).afterAll cs).column = 1 := by
    rcases h with rfl | ⟨line, rfl⟩
    · rfl
    · rw [Location.afterAll, List.foldl_append]
      rfl
  have line := Location.line_afterAll ⟨1, 1⟩ cs
  generalize (Location.mk 1 1).afterAll cs = loc at column line
  obtain ⟨line', column'⟩ := loc
  cases column
  cases line
  rfl

theorem tokens_whole {source : String} {ts : List Token} (h : tokens source = .ok ts) :
    Layout.Whole ts := by
  obtain ⟨e, ends⟩ := Layout.run_ends h
  rw [ends.closed]
  exact (ends.lined (Layout.start_lined source)).close

-- Whole lines, when they have been read; behind them another text is read on.
structure Layout.ReadTo (first : String) (e : Layout) : Prop where
  reads : Relation.ReflTransGen Next (start first) e
  text : e.text = ⟨[], (Location.mk 1 1).shift (newlines first)⟩
  fresh : e.fresh = true
  depth : e.depth = 0
  whole : Lines e.tokens.reverse
  rows : Rows (e.widths.length - 1) e.tokens.reverse
  onward : ∀ second, StepTrace.tokens (first ++ second) =
    { e with text := ⟨second.toList, (Location.mk 1 1).shift (newlines first)⟩ : Layout }.run

theorem Complete.readTo {first : String} (complete : Complete first) :
    ∃ e : Layout, e.ReadTo first := by
  obtain ⟨lines, e, ends, none, fresh, depth⟩ := complete
  have reads := Layout.reads_of_final ends none
  obtain ⟨ts, vs, read, rows, -, ended⟩ :=
    (Layout.lined_of_reads reads (Layout.start_lined first)).rows
  obtain ⟨rfl, whole⟩ := ended fresh
  rw [List.append_nil] at read
  rw [← read] at rows whole
  have place : e.text.loc = (Location.mk 1 1).shift (newlines first) := by
    obtain ⟨read, all, loc⟩ := Layout.onward_of_reads reads
    rw [none, List.append_nil] at all
    rw [loc, ← all]
    exact Location.afterAll_lines lines
  refine ⟨e, reads, ?_, fresh, depth, whole, rows, fun second => ?_⟩
  · rw [← none, ← place]
  · have ahead : Layout.start (first ++ second) = (Layout.start first).moved 0 second.toList [] := by
      simp [Layout.start, Layout.moved, Scanner.moved, Location.shift]
    have behind : e.moved 0 second.toList [] =
        { e with text := ⟨second.toList, (Location.mk 1 1).shift (newlines first)⟩ } := by
      unfold Layout.moved Scanner.moved
      rw [none, place, map_shift_zero, List.append_nil]
      rfl
    rw [← behind]
    change (Layout.start (first ++ second)).run = _
    rw [ahead]
    rcases lines with nothing | line
    · rw [Layout.eq_of_reads reads nothing]
    · exact Layout.run_of_reads (Layout.reads_moved reads (.inr line) fresh)

-- The tokens of both texts: the second one closes the blocks that the first one leaves open.
theorem tokens_append {first second : String} {ts : List Token} (complete : Complete first)
    (h : tokens second = .ok ts) (flush : Layout.Flush ts) :
    ∃ (us : List Token) (k : Nat) (loc loc' : Location) (extra : List Token), Rows k us ∧
      (extra = [] ∨ ∃ loc, extra = [⟨.newline, loc⟩]) ∧
      tokens first = .ok (us ++ List.replicate k ⟨.dedent, loc⟩ ++ [⟨.eof, loc⟩]) ∧
      tokens (first ++ second) = .ok (us ++ List.replicate k ⟨.dedent, loc'⟩ ++ extra ++
        ts.map (Token.shift (newlines first))) := by
  obtain ⟨e, read⟩ := complete.readTo
  have lined := Layout.lined_of_reads read.reads (Layout.start_lined first)
  -- Behind the first text, the second one stands as it does behind a blank one.
  have meet : { e with text := ⟨second.toList, (Location.mk 1 1).shift (newlines first)⟩ } =
      (Layout.start second).after (newlines first) e.widths e.tokens := by
    unfold Layout.after Layout.start Scanner.moved
    rw [read.depth, read.fresh, List.append_nil]
  obtain ⟨joint, run, loc', extra, few, rfl⟩ := Layout.run_after (n := newlines first)
    lined.bottom read.whole ⟨rfl, rfl, rfl, rfl⟩ h flush
  refine ⟨e.tokens.reverse, e.widths.length - 1, e.text.loc, loc', extra, read.rows, few, ?_,
    (read.onward second).trans (meet ▸ run)⟩
  have ended : e.text.rest = [] := congrArg Scanner.rest read.text
  refine (Layout.run_of_reads read.reads).trans ((Layout.run_of_end ended).trans ?_)
  rw [Layout.close_eq, Layout.lineEnd_of_lines read.whole, List.append_nil]

end StepTrace
