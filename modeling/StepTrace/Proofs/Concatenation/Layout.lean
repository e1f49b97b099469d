import Mathlib.Logic.Relation
import StepTrace.Proofs.Concatenation.Scanning

/-!
Reading the tokens of a text that goes on and stands further down. What has been read when a text
ends is whole lines, and the blocks that they leave open.
-/

set_option autoImplicit false

namespace StepTrace

variable {n : Nat} {more : List Char} {before : List Token} {l l' : Layout}

-- The text goes on, it stands further down, and there have been other tokens.
def Layout.moved (n : Nat) (more : List Char) (before : List Token) (l : Layout) : Layout where
  text := l.text.moved n more
  widths := l.widths
  depth := l.depth
  fresh := l.fresh
  tokens := l.tokens.map (Token.shift n) ++ before

theorem applyIndent_shift {width : Nat} {loc : Location} {widths widths' : List Nat}
    {marks : List Token} (h : applyIndent width loc widths = .ok (marks, widths')) :
    applyIndent width (loc.shift n) widths = .ok (marks.map (Token.shift n), widths') := by
  unfold applyIndent at h ⊢
  split at h
  · next further =>
    cases h
    exact if_pos further
  · next further =>
    rw [if_neg further]
    dsimp only at h ⊢
    split at h
    · next same =>
      cases h
      rw [if_pos same, List.map_replicate]
      rfl
    · cases h

namespace Layout

-- The second text does not come into what has been read.
def Stops (more : List Char) (l : Layout) : Prop :=
  more = [] ∨ l.text.rest ≠ [] ∨ l.fresh = true

theorem within_moved (settled : l.fresh = false) (cut : Cut more l.text.rest)
    (h : l.within = .ok l') (stops : l'.Stops more) :
    (l.moved n more before).within = .ok (l'.moved n more before) := by
  obtain ⟨s, skipped, h⟩ := Except.of_bind_ok h
  obtain ⟨onward, moved⟩ := skips_skipInline n more (0 < l.depth) l.text.rest l.text.loc s skipped
  obtain ⟨rest, loc⟩ := s
  cases rest with
  | nil =>
    cases h
    have none : more = [] := stops.resolve_right (by simp [settled])
    refine (Except.bind_of_ok (moved (.inl none))).trans ?_
    rw [none]
    rfl
  | cons c rest =>
    have cut' : Cut more (c :: rest) := cut.suffix onward.suffix (List.cons_ne_nil _ _)
    refine (Except.bind_of_ok (moved (.inr (List.cons_ne_nil _ _)))).trans ?_
    have skip : Scanner.skip ⟨c :: (rest ++ more), loc.shift n⟩ 1 =
        (Scanner.skip ⟨c :: rest, loc⟩ 1).moved n more :=
      Scanner.skip_moved (s := ⟨c :: rest, loc⟩) (Nat.le_add_left ..)
    dsimp only [Scanner.moved, List.cons_append] at h ⊢
    split at h
    · next none => cases none
    · next rest' comment =>
      cases comment
      cases h
      have run := Scanner.skipWhile_moved (n := n) (s := ⟨'#' :: rest, loc⟩) (p := (· != '\n'))
        cut' (by decide)
      exact congrArg (fun text => Except.ok { l.moved n more before with text }) run
    · next rest' back =>
      cases back
      cases h
      exact congrArg (fun text => Except.ok { l.moved n more before with text }) skip
    · next rest' line =>
      cases line
      cases h
      exact congrArg (fun text => Except.ok { l.moved n more before with
        text, fresh := true, tokens := ⟨.newline, loc.shift n⟩ :: (l.moved n more before).tokens })
        skip
    · next none comment back line =>
      obtain ⟨⟨kind, left⟩, read, h⟩ := Except.of_bind_ok h
      cases h
      have read' := scanToken_moved (n := n) cut' (List.cons_ne_nil _ _) read
      split
      · next none' => cases none'
      · next rest' comment' => exact (comment rest (by rw [(List.cons.inj comment').1])).elim
      · next rest' back' => exact (back rest (by rw [(List.cons.inj back').1])).elim
      · next rest' line' => exact (line rest (by rw [(List.cons.inj line').1])).elim
      · exact (Except.bind_of_ok read').trans rfl

-- What is left after a blank line, past its indentation.
def blank? (s : Scanner) : Option Scanner :=
  match s.rest with
  | [] => some s
  | '\n' :: _ | '\r' :: _ => some (s.skip 1)
  | '#' :: _ => some (s.skipWhile (· != '\n'))
  | _ => none

-- A line that is not blank, past its indentation.
def startLine (l : Layout) (marks : List Token) (widths : List Nat) : Layout :=
  ⟨l.text.skipWhile isIndentChar, widths, l.depth, false, marks.reverse ++ l.tokens⟩

def indentation (l : Layout) : Nat := indentWidth (l.text.rest.takeWhile isIndentChar)

theorem step_of_fresh (fresh : l.fresh = true) : l.step =
    match blank? (l.text.skipWhile isIndentChar) with
    | some text => .ok { l with text }
    | none => applyIndent l.indentation (l.text.skipWhile isIndentChar).loc l.widths >>= fun r =>
      (l.startLine r.1 r.2).within := by
  unfold step blank?
  rw [if_pos fresh]
  change (match (l.text.skipWhile isIndentChar).rest with
    | [] => _
    | '\n' :: _ | '\r' :: _ => _
    | '#' :: _ => _
    | _ => _) = _
  split <;> simp only [*] <;> rfl

theorem step_of_blank {text : Scanner} (fresh : l.fresh = true)
    (blank : blank? (l.text.skipWhile isIndentChar) = some text) : l.step = .ok { l with text } := by
  rw [step_of_fresh fresh, blank]

theorem step_of_line {marks : List Token} {widths : List Nat} (fresh : l.fresh = true)
    (line : blank? (l.text.skipWhile isIndentChar) = none)
    (indented : applyIndent l.indentation (l.text.skipWhile isIndentChar).loc l.widths =
      .ok (marks, widths)) : l.step = (l.startLine marks widths).within := by
  rw [step_of_fresh fresh, line]
  exact Except.bind_of_ok indented

-- A step at the start of a line.
theorem step_fresh_cases (fresh : l.fresh = true) (h : l.step = .ok l') :
    (∃ text, blank? (l.text.skipWhile isIndentChar) = some text ∧ l' = { l with text }) ∨
    (blank? (l.text.skipWhile isIndentChar) = none ∧ ∃ marks widths,
      applyIndent l.indentation (l.text.skipWhile isIndentChar).loc l.widths = .ok (marks, widths) ∧
      (l.startLine marks widths).within = .ok l') := by
  rw [step_of_fresh fresh] at h
  cases blank : blank? (l.text.skipWhile isIndentChar) with
  | some text =>
    rw [blank] at h
    exact .inl ⟨text, rfl, (Except.ok.inj h).symm⟩
  | none =>
    rw [blank] at h
    obtain ⟨⟨marks, widths⟩, indented, h⟩ := Except.of_bind_ok h
    exact .inr ⟨rfl, marks, widths, indented, h⟩

theorem step_of_settled (settled : l.fresh = false) : l.step = l.within := by
  unfold step
  rw [if_neg (by simp [settled])]

theorem blank?_moved {s : Scanner} (cut : Cut more s.rest) :
    blank? (s.moved n more) = (blank? s).map (Scanner.moved n more) := by
  obtain ⟨rest, loc⟩ := s
  cases rest with
  | nil =>
    cases cut.eq_nil
    rfl
  | cons c rest =>
    have skip : (Scanner.moved n more ⟨c :: rest, loc⟩).skip 1 =
        (Scanner.skip ⟨c :: rest, loc⟩ 1).moved n more :=
      Scanner.skip_moved (Nat.le_add_left ..)
    have run := Scanner.skipWhile_moved (n := n) (p := (· != '\n')) cut (by decide)
    have others : ∀ {s : Scanner} {c : Char} {rest : List Char}, s.rest = c :: rest →
        c ≠ '\n' → c ≠ '\r' → c ≠ '#' → blank? s = none := by
      intro s c rest here line back comment
      unfold blank?
      rw [here]
      split <;> simp_all
    by_cases line : c = '\n'
    · cases line
      exact congrArg some skip
    · by_cases back : c = '\r'
      · cases back
        exact congrArg some skip
      · by_cases comment : c = '#'
        · cases comment
          exact congrArg some run
        · rw [others rfl line back comment, @others _ _ rest rfl line back comment]
          rfl

theorem step_moved (cut : Cut more l.text.rest) (h : l.step = .ok l') (stops : l'.Stops more) :
    (l.moved n more before).step = .ok (l'.moved n more before) := by
  cases fresh : l.fresh with
  | true =>
    have fresh' : (l.moved n more before).fresh = true := fresh
    have skip : (l.moved n more before).text.skipWhile isIndentChar =
        (l.text.skipWhile isIndentChar).moved n more := Scanner.skipWhile_moved cut (by decide)
    have indent : (l.moved n more before).indentation = l.indentation :=
      congrArg indentWidth (cut.takeWhile (by decide))
    have cut' : Cut more (l.text.skipWhile isIndentChar).rest := cut.dropWhile (by decide)
    have blank' := blank?_moved (n := n) cut'
    rcases step_fresh_cases fresh h with ⟨text, blank, rfl⟩ | ⟨line, marks, widths, indented, h⟩
    · rw [step_of_blank fresh' (by rw [skip, blank', blank]; rfl)]
      rfl
    · have moved := @within_moved n more before _ _ rfl cut' h stops
      rw [step_of_line fresh' (by rw [skip, blank', line]; rfl)
        (by rw [skip, indent]; exact applyIndent_shift indented), ← moved]
      refine congrArg within ?_
      unfold startLine
      rw [skip]
      simp only [Layout.moved, List.map_append, List.map_reverse, List.append_assoc]
  | false =>
    have settled' : (l.moved n more before).fresh = false := fresh
    rw [step_of_settled fresh] at h
    rw [step_of_settled settled']
    exact within_moved fresh cut h stops

/-! ### What a step does -/

-- What a step adds to the tokens of a line, and whether it ends the line.
inductive Adds : List Token → Bool → Prop
  | nothing : Adds [] false
  | token {t : Token} (plain : t.kind.isLayout = false) : Adds [t] false
  | line (loc : Location) : Adds [⟨.newline, loc⟩] true

theorem within_cases (settled : l.fresh = false) (h : l.within = .ok l') :
    l.text.Onward l'.text ∧ l'.widths = l.widths ∧
      ∃ added, Adds added l'.fresh ∧ l'.tokens = added ++ l.tokens := by
  obtain ⟨s, skipped, h⟩ := Except.of_bind_ok h
  have onward := (skips_skipInline 0 [] (0 < l.depth) l.text.rest l.text.loc s skipped).1
  split at h
  · cases h
    exact ⟨onward, rfl, [], settled ▸ .nothing, rfl⟩
  · cases h
    exact ⟨onward.trans (.skip _ _), rfl, [], settled ▸ .nothing, rfl⟩
  · cases h
    exact ⟨onward.trans (.skip _ _), rfl, [], settled ▸ .nothing, rfl⟩
  · cases h
    exact ⟨onward.trans (.skip _ _), rfl, _, .line _, rfl⟩
  · next unread _ _ _ =>
    obtain ⟨⟨kind, left⟩, read, h⟩ := Except.of_bind_ok h
    cases h
    obtain ⟨onward', plain⟩ := scanToken_read unread read
    have adds : Adds [⟨kind, s.loc⟩] l.fresh := settled ▸ .token plain
    exact ⟨onward.trans onward', rfl, _, adds, rfl⟩

-- Blank lines change nothing; a line starts with the marks of its indentation.
theorem step_cases (h : l.step = .ok l') :
    l.text.Onward l'.text ∧
      ((l'.widths = l.widths ∧ l'.fresh = l.fresh ∧ l'.tokens = l.tokens) ∨
      ∃ marks added, Adds added l'.fresh ∧ l'.tokens = added ++ marks.reverse ++ l.tokens ∧
        ((marks = [] ∧ l'.widths = l.widths) ∨
          l.fresh = true ∧ ∃ width loc, applyIndent width loc l.widths = .ok (marks, l'.widths))) := by
  unfold step at h
  split at h
  · next fresh =>
    dsimp only at h
    split at h
    · cases h
      exact ⟨.skip _ _, .inl ⟨rfl, rfl, rfl⟩⟩
    · cases h
      exact ⟨.trans (.skip _ _) (.skip _ _), .inl ⟨rfl, rfl, rfl⟩⟩
    · cases h
      exact ⟨.trans (.skip _ _) (.skip _ _), .inl ⟨rfl, rfl, rfl⟩⟩
    · cases h
      exact ⟨.trans (.skip _ _) (.skip _ _), .inl ⟨rfl, rfl, rfl⟩⟩
    · obtain ⟨⟨marks, widths⟩, indented, h⟩ := Except.of_bind_ok h
      obtain ⟨onward, same, added, adds, tokens⟩ := within_cases rfl h
      rw [← show l'.widths = widths from same] at indented
      refine ⟨.trans (.skip _ _) onward, .inr ⟨marks, added, adds, ?_, .inr ⟨fresh, _, _, indented⟩⟩⟩
      rw [tokens, List.append_assoc]
  · next settled =>
    obtain ⟨onward, same, added, adds, tokens⟩ := within_cases (Bool.eq_false_iff.2 settled) h
    exact ⟨onward, .inr ⟨[], added, adds, by simpa using tokens, .inl ⟨rfl, same⟩⟩⟩

end Layout

/-! ### Open blocks -/

-- Whole lines and marks of blocks, of which a number are left open.
inductive Rows : Nat → List Token → Prop
  | nil : Rows 0 []
  | indent {k : Nat} {ts : List Token} (loc : Location) :
    Rows k ts → Rows (k + 1) (ts ++ [⟨.indent, loc⟩])
  | dedent {k : Nat} {ts : List Token} (loc : Location) :
    Rows (k + 1) ts → Rows k (ts ++ [⟨.dedent, loc⟩])
  | line {k : Nat} {ts vs : List Token} (plain : ∀ v ∈ vs, v.kind.isLayout = false)
      (loc : Location) :
    Rows k ts → Rows k (ts ++ (vs ++ [⟨.newline, loc⟩]))

theorem Rows.dedents {k m : Nat} {ts : List Token} (h : Rows (k + m) ts) (loc : Location) :
    Rows k (ts ++ List.replicate m ⟨.dedent, loc⟩) := by
  induction m generalizing ts with
  | zero => simpa using h
  | succ m ih =>
    rw [List.replicate_succ, List.append_cons]
    exact ih (.dedent loc h)

-- Nothing, or the last line is whole.
def Lines (ts : List Token) : Prop := ts = [] ∨ ∃ us loc, ts = us ++ [⟨.newline, loc⟩]

-- The widths of open blocks, and below them that of the program itself.
def Bottomed (widths : List Nat) : Prop := ∃ inner, widths = inner ++ [0] ∧ ∀ w ∈ inner, 0 < w

namespace Bottomed

variable {widths : List Nat}

theorem dropWhile (h : Bottomed widths) (width : Nat) :
    Bottomed (widths.dropWhile (width < ·)) := by
  obtain ⟨inner, rfl, positive⟩ := h
  induction inner with
  | nil => exact ⟨[], by simp, List.forall_mem_nil _⟩
  | cons w inner ih =>
    rw [List.cons_append, List.dropWhile_cons]
    split
    · exact ih (List.forall_mem_cons.1 positive).2
    · exact ⟨w :: inner, rfl, positive⟩

theorem length_pos (h : Bottomed widths) : 0 < widths.length := by
  obtain ⟨inner, rfl, -⟩ := h
  simp

end Bottomed

-- The marks of an indentation open and close as many blocks as the widths say.
theorem applyIndent_rows {width : Nat} {loc : Location} {widths widths' : List Nat}
    {marks ts : List Token} (h : applyIndent width loc widths = .ok (marks, widths'))
    (bottom : Bottomed widths) (rows : Rows (widths.length - 1) ts) :
    Bottomed widths' ∧ Rows (widths'.length - 1) (ts ++ marks) := by
  have some := bottom.length_pos
  unfold applyIndent at h
  split at h
  · next further =>
    cases h
    refine ⟨?_, ?_⟩
    · obtain ⟨inner, rfl, positive⟩ := bottom
      exact ⟨width :: inner, rfl,
        List.forall_mem_cons.2 ⟨Nat.zero_lt_of_lt further, positive⟩⟩
    · rw [List.length_cons, Nat.add_sub_cancel, ← Nat.sub_add_cancel some]
      exact .indent loc rows
  · dsimp only at h
    split at h
    · cases h
      have bottom' := bottom.dropWhile width
      have some' := bottom'.length_pos
      have shorter := (List.dropWhile_suffix (l := widths) (width < ·)).length_le
      refine ⟨bottom', .dedents ?_ loc⟩
      have same : (widths.dropWhile (width < ·)).length - 1 +
          (widths.length - (widths.dropWhile (width < ·)).length) = widths.length - 1 := by
        omega
      rw [same]
      exact rows
    · cases h

namespace Layout

-- What has been read is whole lines, and a line that has not ended.
structure Lined (l : Layout) : Prop where
  bottom : Bottomed l.widths
  rows : ∃ ts vs, l.tokens.reverse = ts ++ vs ∧ Rows (l.widths.length - 1) ts ∧
    (∀ v ∈ vs, v.kind.isLayout = false) ∧ (l.fresh = true → vs = [] ∧ Lines ts)

theorem Adds.rows {added ts vs : List Token} {fresh : Bool} (adds : Adds added fresh) {k : Nat}
    (rows : Rows k ts) (plain : ∀ v ∈ vs, v.kind.isLayout = false) :
    ∃ ts' vs', ts ++ vs ++ added = ts' ++ vs' ∧ Rows k ts' ∧
      (∀ v ∈ vs', v.kind.isLayout = false) ∧ (fresh = true → vs' = [] ∧ Lines ts') := by
  cases adds with
  | nothing => exact ⟨ts, vs, List.append_nil _, rows, plain, nofun⟩
  | @token t plain' =>
    refine ⟨ts, vs ++ [t], List.append_assoc .., rows, ?_, nofun⟩
    exact List.forall_mem_append.2 ⟨plain, List.forall_mem_singleton.2 plain'⟩
  | line loc =>
    exact ⟨ts ++ (vs ++ [⟨.newline, loc⟩]), [], by simp, .line plain loc rows,
      List.forall_mem_nil _, fun _ => ⟨rfl, .inr ⟨ts ++ vs, loc, by simp⟩⟩⟩

theorem Adds.reverse {added : List Token} {fresh : Bool} (adds : Adds added fresh) :
    added.reverse = added := by
  cases adds <;> rfl

theorem Lined.step (h : l.Lined) (step : l.step = .ok l') : l'.Lined := by
  obtain ⟨ts, vs, read, rows, plain, whole⟩ := h.rows
  obtain ⟨-, ⟨widths, fresh, tokens⟩ | ⟨marks, added, adds, tokens, indented⟩⟩ := step_cases step
  · refine ⟨widths ▸ h.bottom, ts, vs, ?_⟩
    rw [tokens, widths, fresh]
    exact ⟨read, rows, plain, whole⟩
  · have read' : l'.tokens.reverse = ts ++ vs ++ marks ++ added := by
      rw [tokens]
      simp [adds.reverse, read]
    rcases indented with ⟨rfl, same⟩ | ⟨fresh, width, loc, indented⟩
    · obtain ⟨ts', vs', all, grown⟩ := adds.rows rows plain
      rw [List.append_nil] at read'
      exact ⟨same ▸ h.bottom, ts', vs', read'.trans all, same ▸ grown⟩
    · obtain ⟨rfl, -⟩ := whole fresh
      obtain ⟨bottom, rows'⟩ := applyIndent_rows indented h.bottom rows
      obtain ⟨ts', vs', all, grown⟩ := adds.rows rows' (List.forall_mem_nil _)
      rw [List.append_nil] at read' all
      exact ⟨bottom, ts', vs', read'.trans all, grown⟩

/-! ### Runs -/

-- One step that reads something.
def Next (l l' : Layout) : Prop :=
  l.step = .ok l' ∧ l'.text.rest.length < l.text.rest.length

theorem run_of_end (h : l.text.rest = []) : l.run = .ok l.close := by
  rw [run, h]
  rfl

theorem run_of_step (h : l.step = .ok l') (unread : l.text.rest ≠ []) :
    l.run = if l'.text.rest.length < l.text.rest.length then l'.run else .ok l'.close := by
  rw [run, if_neg (by simpa using unread), h]

theorem run_of_next (h : l.Next l') : l.run = l'.run := by
  rw [run_of_step h.1 (List.ne_nil_of_length_pos (Nat.zero_lt_of_lt h.2)), if_pos h.2]

theorem step_tokens (h : l.step = .ok l') : ∃ new, l'.tokens = new ++ l.tokens := by
  obtain ⟨-, ⟨-, -, tokens⟩ | ⟨marks, added, -, tokens, -⟩⟩ := step_cases h
  · exact ⟨[], tokens⟩
  · exact ⟨added ++ marks.reverse, tokens⟩

-- The state in which the text has been read.
structure Ends (l e : Layout) (ts : List Token) : Prop where
  closed : ts = e.close
  lined : l.Lined → e.Lined
  tokens : ∃ new, e.tokens = new ++ l.tokens
  moved : ∀ n before, (l.moved n [] before).run = .ok (e.moved n [] before).close

theorem run_ends {ts : List Token} (h : l.run = .ok ts) : ∃ e, l.Ends e ts := by
  fun_induction run l with
  | case1 l done =>
    cases h
    exact ⟨l, rfl, id, ⟨[], rfl⟩, fun n before => run_of_end (by simpa [Layout.moved, Scanner.moved] using done)⟩
  | case2 => cases h
  | case3 l unread next step shorter ih =>
    obtain ⟨e, ends⟩ := ih h
    obtain ⟨new, tokens⟩ := ends.tokens
    obtain ⟨new', tokens'⟩ := step_tokens step
    refine ⟨e, ends.closed, fun lined => ends.lined (lined.step step), ?_, fun n before => ?_⟩
    · exact ⟨new ++ new', by rw [tokens, tokens', List.append_assoc]⟩
    · have step' := @step_moved n _ before _ _ (.nil _) step (.inl rfl)
      refine (run_of_next ⟨step', ?_⟩).trans (ends.moved n before)
      simpa [Layout.moved, Scanner.moved] using shorter
  | case4 l unread next step longer =>
    cases h
    refine ⟨next, rfl, fun lined => lined.step step, step_tokens step, fun n before => ?_⟩
    have step' := @step_moved n _ before _ _ (.nil _) step (.inl rfl)
    rw [run_of_step step' (by simpa [Layout.moved, Scanner.moved] using unread), if_neg]
    simpa [Layout.moved, Scanner.moved] using longer

-- The end of the last line, if it is still missing.
def lineEnd (tokens : List Token) (loc : Location) : List Token :=
  match tokens with
  | [] => []
  | t :: _ => match t.kind with
    | .newline => []
    | _ => [⟨.newline, loc⟩]

theorem close_eq (l : Layout) : l.close = l.tokens.reverse ++ lineEnd l.tokens l.text.loc ++
    List.replicate (l.widths.length - 1) ⟨.dedent, l.text.loc⟩ ++ [⟨.eof, l.text.loc⟩] := rfl

theorem lineEnd_cases (tokens : List Token) (loc : Location) :
    lineEnd tokens loc = [] ∨ lineEnd tokens loc = [⟨.newline, loc⟩] := by
  unfold lineEnd
  split
  · exact .inl rfl
  · split
    · exact .inl rfl
    · exact .inr rfl

theorem lineEnd_of_lines {tokens : List Token} (h : Lines tokens.reverse) (loc : Location) :
    lineEnd tokens loc = [] := by
  rcases h with none | ⟨us, loc', same⟩
  · rw [List.reverse_eq_nil_iff.1 none]
    rfl
  · rw [List.reverse_eq_iff.1 same, List.reverse_append]
    rfl

-- The marks and lines of a text, once its last line has ended.
def Whole (ts : List Token) : Prop :=
  ∃ (us : List Token) (k : Nat) (loc : Location),
    ts = us ++ List.replicate k ⟨.dedent, loc⟩ ++ [⟨.eof, loc⟩] ∧ Rows k us

theorem Lined.rows_lineEnd (h : l.Lined) :
    Rows (l.widths.length - 1) (l.tokens.reverse ++ lineEnd l.tokens l.text.loc) := by
  obtain ⟨ts, vs, read, rows, plain, -⟩ := h.rows
  rw [read]
  rcases lineEnd_cases l.tokens l.text.loc with none | line
  · have nothing : vs = [] := by
      rcases List.eq_nil_or_concat vs with rfl | ⟨vs', v, rfl⟩
      · rfl
      · have last : l.tokens = v :: (ts ++ vs').reverse := by
          rw [← List.reverse_reverse l.tokens, read]
          simp
        obtain ⟨kind, loc⟩ := v
        have plain' : kind.isLayout = false := plain ⟨kind, loc⟩ (by simp)
        rw [last] at none
        cases kind with
        | newline => cases plain'
        | _ => cases none
    rw [none, nothing, List.append_nil, List.append_nil]
    exact rows
  · rw [line, List.append_assoc]
    exact .line plain _ rows

theorem Lined.close (h : l.Lined) : Whole l.close :=
  ⟨_, l.widths.length - 1, _, l.close_eq, h.rows_lineEnd⟩

-- Without a line of its own, a text ends the line before it.
theorem close_moved (n : Nat) (before : List Token) (e : Layout) :
    (e.moved n [] before).close = before.reverse ++
      (if e.tokens.isEmpty then lineEnd before (e.text.loc.shift n) else []) ++
      e.close.map (Token.shift n) := by
  rw [close_eq, close_eq]
  cases tokens : e.tokens with
  | nil => simp [Layout.moved, Scanner.moved, tokens, lineEnd, Token.shift]
  | cons t rest =>
    obtain ⟨kind, loc⟩ := t
    cases kind <;> simp [Layout.moved, Scanner.moved, tokens, lineEnd, Token.shift]

end Layout

theorem tokensAt_shift {source : String} {origin : Location} {ts : List Token}
    (h : tokensAt source origin = .ok ts) (n : Nat) :
    tokensAt source (origin.shift n) = .ok (ts.map (Token.shift n)) := by
  obtain ⟨e, ends⟩ := Layout.run_ends h
  have moved := ends.moved n []
  rw [Layout.close_moved, ← ends.closed] at moved
  simpa [tokensAt, Layout.moved, Scanner.moved, Layout.lineEnd] using moved

theorem tokensAt_layout {source : String} {origin : Location} {ts : List Token}
    (h : tokensAt source origin = .ok ts) : ∃ t ∈ ts, t.kind.isLayout = true := by
  obtain ⟨e, ends⟩ := Layout.run_ends h
  rw [ends.closed, Layout.close_eq]
  exact ⟨⟨.eof, e.text.loc⟩, by simp, rfl⟩

end StepTrace
