import StepTrace.Proofs.Tokens.Relocation
import StepTrace.Proofs.Tokens.WellLaid

/-!
Blank lines and comments between the lines of a program. Such a line leaves no token, opens and
closes no block, and moves what comes after it one line down.
-/

set_option autoImplicit false

namespace StepTrace

variable {s : Scanner} {l l' e : Layout} {rest : List Char} {loc : Location}

-- Blanks, and possibly a comment after them.
def BlankLine (line : List Char) : Prop :=
  ∃ blanks comment, line = blanks ++ comment ∧ (∀ c ∈ blanks, c = ' ' ∨ c = '\t') ∧
    (comment = [] ∨ ∃ text, comment = '#' :: text ∧ '\n' ∉ text)

theorem Scanner.skipWhile_append {p : Char → Bool} {run : List Char} {c : Char}
    (inside : ∀ d ∈ run, p d = true) (stop : p c = false) :
    Scanner.skipWhile ⟨run ++ c :: rest, loc⟩ p = ⟨c :: rest, loc.afterAll run⟩ := by
  have all : (run ++ c :: rest).takeWhile p = run := by
    rw [List.takeWhile_append_of_pos inside, List.takeWhile_cons, stop]
    exact List.append_nil run
  unfold skipWhile skip
  dsimp only
  rw [all, List.drop_left, List.take_left]

theorem Begins.unread {kind : TokenKind} (h : Begins s kind) : s.rest ≠ [] := by
  cases h with
  | token unread _ => exact unread
  | newline here => exact here ▸ List.cons_ne_nil _ _

theorem BlankLine.one {line : List Char} (blank : BlankLine line) : '\n' ∉ line := by
  obtain ⟨blanks, comment, rfl, inside, rest⟩ := blank
  rw [List.mem_append, not_or]
  constructor
  · intro break_
    rcases inside _ break_ with same | same <;> cases same
  · rcases rest with rfl | ⟨text, rfl, one⟩
    · exact List.not_mem_nil
    · exact List.not_mem_cons_of_ne_of_not_mem (by decide) one

-- The place below a line.
theorem Location.afterAll_line {line : List Char} (one : '\n' ∉ line) (loc : Location) :
    loc.afterAll (line ++ ['\n']) = ⟨loc.line + 1, 1⟩ := by
  have same := Location.line_afterAll loc line
  rw [List.count_eq_zero.2 one] at same
  rw [Location.afterAll_append]
  exact congrArg (fun line => Location.mk (line + 1) 1) same

namespace Layout

-- The end of a line of blanks leaves everything as it is.
theorem run_line_break {run : List Char} (inside : ∀ c ∈ run, isIndentChar c = true)
    (fresh : l.fresh = true) :
    { l with text := ⟨run ++ '\n' :: rest, loc⟩ : Layout }.run =
      { l with text := ⟨rest, loc.afterAll (run ++ ['\n'])⟩ : Layout }.run := by
  have passed : Scanner.skipWhile ⟨run ++ '\n' :: rest, loc⟩ isIndentChar =
      ⟨'\n' :: rest, loc.afterAll run⟩ := Scanner.skipWhile_append inside rfl
  refine run_of_next ⟨step_of_blank fresh ?_, ?_⟩
  · rw [passed, Location.afterAll_append]
    rfl
  · dsimp only
    rw [List.length_append, List.length_cons]
    omega

-- A blank line leaves everything as it is.
theorem run_blank_line {line : List Char} (blank : BlankLine line) (fresh : l.fresh = true) :
    { l with text := ⟨line ++ '\n' :: rest, loc⟩ : Layout }.run =
      { l with text := ⟨rest, loc.afterAll (line ++ ['\n'])⟩ : Layout }.run := by
  obtain ⟨blanks, comment, rfl, inside, comment_⟩ := blank
  have inside : ∀ c ∈ blanks, isIndentChar c = true := by
    intro c hc
    rcases inside c hc with rfl | rfl <;> rfl
  rcases comment_ with rfl | ⟨text, rfl, one⟩
  · rw [List.append_nil]
    exact run_line_break inside fresh
  · rw [List.append_assoc, List.cons_append]
    have blanks_ : Scanner.skipWhile ⟨blanks ++ '#' :: (text ++ '\n' :: rest), loc⟩ isIndentChar =
        ⟨'#' :: (text ++ '\n' :: rest), loc.afterAll blanks⟩ := Scanner.skipWhile_append inside rfl
    have comment : Scanner.skipWhile ⟨'#' :: (text ++ '\n' :: rest), loc.afterAll blanks⟩
        (· != '\n') = ⟨'\n' :: rest, loc.afterAll (blanks ++ '#' :: text)⟩ := by
      rw [Location.afterAll_append]
      rw [← List.cons_append]
      refine Scanner.skipWhile_append ?_ rfl
      refine List.forall_mem_cons.2 ⟨rfl, fun c hc => bne_iff_ne.2 ?_⟩
      rintro rfl
      exact one hc
    have passed : Next { l with text := ⟨blanks ++ '#' :: (text ++ '\n' :: rest), loc⟩ }
        { l with text := ⟨'\n' :: rest, loc.afterAll (blanks ++ '#' :: text)⟩ } := by
      refine ⟨step_of_blank fresh ?_, ?_⟩
      · rw [blanks_]
        exact congrArg some comment
      · simp only [List.length_append, List.length_cons]
        omega
    rw [run_of_next passed, Location.afterAll_append _ (blanks ++ _)]
    exact run_line_break (List.forall_mem_nil _) fresh

/-! ### Where tokens stand -/

-- The token stands between two places of the text, where something is left to read.
def Between (s s' : Scanner) (t : Token) : Prop :=
  ∃ here : Scanner, s.Onward here ∧ here.Onward s' ∧ here.rest ≠ [] ∧ t.loc = here.loc

theorem within_between (h : l.within = .ok l') :
    ∀ t ∈ l'.tokens, t ∈ l.tokens ∨ Between l.text l'.text t := by
  obtain ⟨s, added, inside⟩ := within_inside h
  intro t ht
  rw [inside.tokens, List.mem_append] at ht
  refine ht.symm.imp id fun new => ?_
  obtain ⟨place, begins⟩ := inside.places t new
  exact ⟨s, inside.blanks, inside.onward, begins.unread, place⟩

theorem Between.of_onward {s₁ s₂ s₃ s₄ : Scanner} {t : Token} (h : Between s₂ s₃ t)
    (front : s₁.Onward s₂) (back : s₃.Onward s₄) : Between s₁ s₄ t := by
  obtain ⟨here, before, after, unread, place⟩ := h
  exact ⟨here, front.trans before, after.trans back, unread, place⟩

theorem step_between (h : l.step = .ok l') :
    ∀ t ∈ l'.tokens, t ∈ l.tokens ∨ Between l.text l'.text t := by
  have onward := (step_cases h).1
  cases fresh : l.fresh with
  | false =>
    rw [step_of_settled fresh] at h
    exact within_between h
  | true =>
    rcases step_fresh_cases fresh h with ⟨text, -, rfl⟩ | ⟨line, marks, widths, indented, h⟩
    · exact fun t ht => .inl ht
    · have indentation : l.text.Onward (l.text.skipWhile isIndentChar) := .skip _ _
      have unread : (l.text.skipWhile isIndentChar).rest ≠ [] := by
        intro none
        unfold blank? at line
        rw [none] at line
        cases line
      intro t ht
      rcases within_between h t ht with old | new
      · rw [startLine, List.mem_append, List.mem_reverse] at old
        refine old.symm.imp id fun mark => ?_
        have place := ((applyIndent_marks indented).mem t mark).1
        exact ⟨_, indentation, (within_cases rfl h).1, unread, place⟩
      · exact .inr (new.of_onward indentation (.refl _))

theorem reads_between (reads : Relation.ReflTransGen Next l e) :
    ∀ t ∈ e.tokens, t ∈ l.tokens ∨ Between l.text e.text t := by
  induction reads with
  | refl => exact fun t ht => .inl ht
  | tail reads next ih =>
    intro t ht
    rcases step_between next.1 t ht with old | new
    · exact (ih t old).imp id fun new => new.of_onward (.refl _) next.onward
    · exact .inr (new.of_onward (onward_of_reads reads) (.refl _))

-- Tokens of whole lines stand in these lines.
theorem ReadTo.line_le {first : String} (read : e.ReadTo first)
    (lines : first.toList = [] ∨ ∃ line, first.toList = line ++ ['\n']) :
    ∀ t ∈ e.tokens, t.loc.line ≤ newlines first := by
  intro t ht
  obtain old | ⟨here, before, after, unread, place⟩ := reads_between read.reads t ht
  · cases old
  · have left : first.toList.getLast? = here.rest.getLast? := by
      obtain ⟨front, all⟩ := before.suffix
      exact (congrArg List.getLast? all).symm.trans (List.getLast?_append_of_ne_nil _ unread)
    have break_ : '\n' ∈ here.rest := by
      refine List.mem_of_getLast? ?_
      rcases lines with none | ⟨line, all⟩
      · rw [none, List.getLast?_nil, eq_comm, List.getLast?_eq_none_iff] at left
        exact absurd left unread
      · rw [← left, all, List.getLast?_concat]
    have line := Location.line_afterAll here.loc here.rest
    have end_ : here.loc.afterAll here.rest = (Location.mk 1 1).shift (newlines first) := by
      obtain ⟨behind, all, loc⟩ := after
      rw [read.text, List.append_nil] at all
      rw [all, ← loc, read.text]
    have some := List.count_pos_iff.2 break_
    have last : ((Location.mk 1 1).shift (newlines first)).line = 1 + newlines first := rfl
    rw [end_, last] at line
    rw [place]
    omega

-- The tokens of a text stand behind its start.
theorem run_notAfter {ts : List Token} (h : l.run = .ok ts) (none : l.tokens = []) :
    ∀ t ∈ ts, l.text.loc.NotAfter t.loc := by
  obtain ⟨e, reads, -, rfl⟩ := reads_of_run h
  have ended : l.text.loc.NotAfter e.text.loc := (onward_of_reads reads).notAfter
  have last : ∀ t ∈ lineEnd e.tokens e.text.loc, t.loc = e.text.loc := fun t ht =>
    congrArg Token.loc (lineEnd_mem _ _ t ht)
  intro t ht
  rw [close_eq, List.mem_append, List.mem_append, List.mem_append, List.mem_reverse] at ht
  rcases ht with ((new | line) | mark) | eof
  · obtain old | ⟨here, before, -, -, place⟩ := reads_between reads t new
    · rw [none] at old
      cases old
    · exact place ▸ before.notAfter
  · exact last t line ▸ ended
  · rw [List.eq_of_mem_replicate mark]
    exact ended
  · rw [List.mem_singleton.1 eof]
    exact ended

end Layout

-- The place of what stood at a place before a line was put in after the first `k` ones.
def Location.pushed (k : Nat) (loc : Location) : Location :=
  if loc.line ≤ k then loc else loc.shift 1

def Token.pushed (k : Nat) (t : Token) : Token := { t with loc := t.loc.pushed k }

-- What is read with and without a line between whole lines and the rest of a text.
theorem tokens_blank_line {first blank second : String} (complete : Complete first)
    (line : BlankLine blank.toList) :
    tokens (first ++ blank ++ "\n" ++ second) =
      relocate 1 (List.map (Token.pushed (newlines first))) (tokens (first ++ second)) := by
  obtain ⟨e, read⟩ := complete.readTo
  let loc := (Location.mk 1 1).shift (newlines first)
  let rest : Layout := ⟨⟨second.toList, loc⟩, e.widths, 0, true, []⟩
  have plain : tokens (first ++ second) = (rest.below 0 e.tokens).run := by
    rw [read.onward, read.fresh, read.depth]
    rfl
  have spaced : tokens (first ++ blank ++ "\n" ++ second) = (rest.below 1 e.tokens).run := by
    have all : (blank ++ ("\n" ++ second)).toList = blank.toList ++ '\n' :: second.toList := by
      simp
    rw [String.append_assoc, String.append_assoc, read.onward, all,
      Layout.run_blank_line line read.fresh, Location.afterAll_line line.one, read.fresh, read.depth]
    rfl
  rw [plain, spaced, Layout.run_below read.whole, Layout.run_below read.whole]
  cases found : rest.run with
  | error e => rfl
  | ok ts =>
    refine congrArg Except.ok ?_
    dsimp only
    rw [map_shift_zero, List.map_append]
    have above : e.tokens.reverse.map (Token.pushed (newlines first)) = e.tokens.reverse := by
      refine (List.map_congr_left fun t ht => ?_).trans (List.map_id _)
      have at_ := read.line_le complete.1 t (List.mem_reverse.1 ht)
      exact congrArg (Token.mk t.kind) (if_pos at_)
    have below : ts.map (Token.pushed (newlines first)) = ts.map (Token.shift 1) := by
      refine List.map_congr_left fun t ht => ?_
      have place := Layout.run_notAfter found rfl t ht
      have further : ¬t.loc.line ≤ newlines first := by
        unfold Location.NotAfter at place
        have start : rest.text.loc.line = 1 + newlines first := rfl
        omega
      exact congrArg (Token.mk t.kind) (if_neg further)
    rw [above, below]

/--
A line of blanks, with or without a comment, between whole lines and the rest of a text means
nothing. With it the text has tokens if and only if it has tokens without it. These are the same
ones, and only what stands below the line has moved one line down. A defect moves down likewise.
-/
theorem blank_lines_mean_nothing {first blank second : String} (complete : Complete first)
    (line : BlankLine blank.toList) :
    (∀ ts', tokens (first ++ blank ++ "\n" ++ second) = .ok ts' ↔
      ∃ ts, tokens (first ++ second) = .ok ts ∧ ts' = ts.map (Token.pushed (newlines first))) ∧
    ∀ e, tokens (first ++ second) = .error e →
      tokens (first ++ blank ++ "\n" ++ second) = .error (e.shift 1) := by
  rw [tokens_blank_line complete line]
  cases tokens (first ++ second) with
  | error e =>
    exact ⟨fun ts' => ⟨nofun, fun ⟨ts, h, _⟩ => nomatch h⟩, fun e' same => by cases same; rfl⟩
  | ok ts =>
    refine ⟨fun ts' => ⟨fun h => ⟨ts, rfl, (Except.ok.inj h).symm⟩, ?_⟩, nofun⟩
    rintro ⟨ts, same, rfl⟩
    cases same
    rfl

-- A comment between the header of a block and its first line, further in than both.
theorem blank_lines_mean_nothing_in_block :
    (Complete "if x:\n" ∧ BlankLine " \t # y".toList) ∧
      tokens ("if x:\n" ++ " \t # y" ++ "\n" ++ "  z") =
        .ok [⟨.keyword .if, ⟨1, 1⟩⟩, ⟨.ident "x", ⟨1, 4⟩⟩, ⟨.symbol .colon, ⟨1, 5⟩⟩,
          ⟨.newline, ⟨1, 6⟩⟩, ⟨.indent, ⟨3, 3⟩⟩, ⟨.ident "z", ⟨3, 3⟩⟩, ⟨.newline, ⟨3, 4⟩⟩,
          ⟨.dedent, ⟨3, 4⟩⟩, ⟨.eof, ⟨3, 4⟩⟩] := by
  have complete : Complete "if x:\n" :=
    .of_ends (.inr ⟨"if x:".toList, by decide⟩) (by decide +kernel)
  have line : BlankLine " \t # y".toList :=
    ⟨[' ', '\t', ' '], ['#', ' ', 'y'], by decide, by simp, .inr ⟨[' ', 'y'], rfl, by decide⟩⟩
  have without : tokens ("if x:\n" ++ "  z") =
      .ok [⟨.keyword .if, ⟨1, 1⟩⟩, ⟨.ident "x", ⟨1, 4⟩⟩, ⟨.symbol .colon, ⟨1, 5⟩⟩,
        ⟨.newline, ⟨1, 6⟩⟩, ⟨.indent, ⟨2, 3⟩⟩, ⟨.ident "z", ⟨2, 3⟩⟩, ⟨.newline, ⟨2, 4⟩⟩,
        ⟨.dedent, ⟨2, 4⟩⟩, ⟨.eof, ⟨2, 4⟩⟩] := by
    cbv
  exact ⟨⟨complete, line⟩, ((blank_lines_mean_nothing complete line).1 _).2 ⟨_, without, rfl⟩⟩

end StepTrace
