import StepTrace.Proofs.Concatenation.Compound
import StepTrace.Proofs.Concatenation.Joining

/-!
Programs after one another: if the first text ends with whole lines, the program in both texts is the
one in the first and the one in the second.
-/

set_option autoImplicit false

namespace StepTrace

open Parse

variable {n : Nat} {next : List Token} {L : Nat}

/-! ### The lines of a program -/

-- A step through the lines of a program.
def programLine (p : Parts) : Parse (Option (List Stmt)) := do
  if ← isEnd then return none
  if ← passIf isNewline then return some []
  if ← isIndent then fail .indent
  return some (← statement p (blockAt p (maxNesting + 1)) maxNesting)

theorem programLine_end {p : Parts} {c : Cursor} (last : c.peek.kind = .eof) :
    programLine p c = .ok (none, c) := by
  refine (bind_ok (asks_isEnd c)).trans ?_
  rw [last]
  rfl

theorem programLine_more {p : Parts} {c d : Cursor} {stmts : List Stmt}
    (h : programLine p c = .ok (some stmts, d)) : c.peek.kind ≠ .eof := by
  intro last
  rw [programLine_end last] at h
  cases h

theorem Follows.isIndent {b : Break} : Keeps n (OnLine n b) isIndent isIndent :=
  .look fun k => by cases k <;> exact ⟨_, rfl⟩

namespace Parts.Agrees

variable {p p' : Parts} (P : p.Agrees n p') (free : NoBranch next)
include P free

theorem programLine (m : Nat) :
    Follows n (fun c c' => (InBlock n next 0 L c c' ∧ c.rest.length = m) ∧ c.peek.kind ≠ .eof)
      (programLine p) (StepTrace.programLine p')
      fun r d d' => r ≠ none ∧ InBlock n next 0 L d d' ∧ d.rest.length < m := by
  refine .bind (.ask asks_isEnd fun h => congrArg _ (h.1.1.kind h.2)) fun ended => ?_
  cases ended with
  | true => exact .given (fun h => h.1.2 (TokenKind.isEnd_iff.1 h.2)) False.elim
  | false =>
    refine .pre (.ofRow (fun m => ?_) m) fun h => ⟨h.1.1, h.1.1.1.top, h.1.2⟩
    refine .bindIf newline_follows (.ret rfl fun block => ⟨nofun, block⟩) ?_
    refine .bind (.row fun _ => .isIndent) fun _ => .guard rfl (fun _ => ⟨_, rfl⟩) ?_
    exact .bind (P.statement (P.blocks free _) free maxNesting) fun _ =>
      .ret rfl fun block => ⟨nofun, block⟩

-- Where the first text has been read, the second one is read up to what follows it.
theorem programLines {c d : Cursor} {done blocks : List (List Stmt)}
    (h : collect (fun _ => StepTrace.programLine p) done c = .ok (blocks, d)) :
    ∃ new, blocks = done.reverse ++ new ∧ ∀ (c' : Cursor) (done' : List (List Stmt)),
      Remaining n next 0 c.rest c'.rest → ∃ d' : Cursor, d'.rest = next ∧
        collect (fun _ => StepTrace.programLine p') done' c' =
          collect (fun _ => StepTrace.programLine p') ((move n new).reverse ++ done') d' := by
  have step (c c' : Cursor) (rest : Remaining n next 0 c.rest c'.rest)
      (more : c.peek.kind ≠ .eof) {r : Option (List Stmt)} {d : Cursor}
      (h : StepTrace.programLine p c = .ok (r, d)) :
      ∃ d', StepTrace.programLine p' c' = .ok (move n r, d') ∧ r ≠ none ∧
        Remaining n next 0 d.rest d'.rest ∧ d.rest.length < c.rest.length := by
    obtain ⟨d', read, some, block, shorter⟩ := P.programLine free (L := c.rest.length)
      c.rest.length c c' r d ⟨⟨⟨rest, Nat.le_refl _⟩, rfl⟩, more⟩ h
    exact ⟨d', read, some, block.1, shorter⟩
  fun_induction collect (fun _ => StepTrace.programLine p) done c with
  | case1 => cases h
  | case2 done c last ended =>
    cases h
    refine ⟨[], (List.append_nil _).symm, fun c' done' rest => ⟨c', ?_, rfl⟩⟩
    by_cases more : c.peek.kind = .eof
    · have block : InBlock n next 0 c.rest.length c c' := ⟨rest, Nat.le_refl _⟩
      exact block.done more
    · obtain ⟨d', -, some, -⟩ := step c c' rest more ended
      exact (some rfl).elim
  | case3 done c a after went shorter ih =>
    obtain ⟨new, rfl, follows⟩ := ih h
    refine ⟨a :: new, by simp, fun c' done' rest => ?_⟩
    have more := programLine_more went
    obtain ⟨d', went', -, rest', -⟩ := step c c' rest more went
    obtain ⟨e', ends, same⟩ := follows d' (move n a :: done') rest'
    refine ⟨e', ends, (collect_of_some went' ?_).trans (same.trans ?_)⟩
    · have before := rest.length
      have after := rest'.length
      omega
    · rw [show move n (a :: new) = move n a :: move n new from rfl, List.reverse_cons,
        List.append_cons]
  | case4 done c a after went longer =>
    cases h
    refine ⟨[a], by simp, fun c' done' rest => ?_⟩
    have more := programLine_more went
    obtain ⟨d', -, -, -, shorter⟩ := step c c' rest more went
    exact (longer shorter).elim

end Parts.Agrees

/-! ### Whole programs -/

def partsOf (source : String) (ts : List Token) : Parts :=
  .of (readers (fieldAt source.length) (ts.length + 1))

theorem parseProgram_iff {source : String} {p : Program} : parseProgram source = .ok p ↔
    ∃ ts blocks d, tokens source = .ok ts ∧
      collect (fun _ => programLine (partsOf source ts)) [] ⟨ts, ⟨1, 1⟩⟩ = .ok (blocks, d) ∧
      p = blocks.flatten := by
  constructor
  · intro h
    obtain ⟨ts, scanned, h⟩ := Except.of_bind_ok h
    obtain ⟨⟨stmts, d⟩, read, h⟩ := Except.of_bind_ok h
    obtain ⟨blocks, d', read, same⟩ := of_bind_ok (p := many _ []) read
    cases same
    cases h
    exact ⟨ts, blocks, d, scanned, read, rfl⟩
  · rintro ⟨ts, blocks, d, scanned, read, rfl⟩
    refine (Except.bind_of_ok scanned).trans (Except.bind_of_ok (a := (blocks.flatten, d)) ?_)
    exact bind_ok (p := many _ []) read

theorem partsOf_agree {source source' : String} {ts ts' : List Token}
    (longer : source.length ≤ source'.length) (more : ts.length ≤ ts'.length) :
    (partsOf source ts).Agrees n (partsOf source' ts') :=
  (readers_agree (fieldAt_agree longer) (Nat.succ_le_succ more)).parts

-- An accepted text starts neither with an indented line nor with another branch of a statement.
theorem first_of_program {p : Parts} {ts : List Token} {loc : Location} {d : Cursor}
    {blocks : List (List Stmt)}
    (h : collect (fun _ => programLine p) [] ⟨ts, loc⟩ = .ok (blocks, d)) :
    Layout.Flush ts ∧ NoBranch ts := by
  have fails (t : Token) (rest : List Token) (same : ts = t :: rest)
      (error : ∃ e, programLine p ⟨t :: rest, loc⟩ = .error e) : False := by
    obtain ⟨e, error⟩ := error
    rw [collect, same, error] at h
    cases h
  constructor
  · exact fun place rest same => fails _ rest same ⟨_, rfl⟩
  · intro t first
    obtain ⟨rest, same⟩ := List.head?_eq_some_iff.1 first
    obtain ⟨kind, place⟩ := t
    constructor
    · rintro rfl
      exact fails _ rest same ⟨_, rfl⟩
    · rintro rfl
      exact fails _ rest same ⟨_, rfl⟩

theorem Remaining.whole {ts : List Token} (whole : Layout.Whole ts) (n : Nat) :
    ∃ loc, Remaining n [⟨.eof, loc⟩] 0 ts (ts.map (Token.shift n)) := by
  obtain ⟨us, k, loc, rfl, rows⟩ := whole
  refine ⟨loc.shift n, ?_⟩
  have rest := Remaining.rows rows (@Remaining.dedents n [⟨.eof, loc.shift n⟩] k loc (loc.shift n))
  simpa [Token.shift] using rest

-- A blank line between the texts changes nothing.
theorem collect_blank {p : Parts} {extra ts : List Token} {c : Cursor}
    (few : extra = [] ∨ ∃ loc, extra = [⟨.newline, loc⟩]) (rest : c.rest = extra ++ ts) :
    ∃ (gap : List (List Stmt)) (d : Cursor), gap.flatten = [] ∧ d.rest = ts ∧ ∀ done,
      collect (fun _ => programLine p) done c =
        collect (fun _ => programLine p) (gap ++ done) d := by
  rcases few with rfl | ⟨loc, rfl⟩
  · exact ⟨[], c, rfl, rest, fun _ => rfl⟩
  · obtain ⟨all, place⟩ := c
    cases rest
    exact ⟨[[]], ⟨ts, loc⟩, rfl, rfl, fun done => collect_of_some rfl (Nat.lt_succ_self _)⟩

theorem NoBranch.behind {extra us : List Token} (few : extra = [] ∨ ∃ loc, extra = [⟨.newline, loc⟩])
    (free : NoBranch us) (n : Nat) : NoBranch (extra ++ us.map (Token.shift n)) := by
  rcases few with rfl | ⟨loc, rfl⟩
  · intro t first
    cases us with
    | nil => cases first
    | cons u us =>
      cases first
      exact free u rfl
  · rintro t ⟨⟩
    exact ⟨nofun, nofun⟩

-- The lines of the first program, perhaps a blank one, and the lines of the second program.
theorem programLines_append {p₁ p₂ p : Parts} (P₁ : p₁.Agrees 0 p) (P₂ : p₂.Agrees n p)
    {ts us extra all : List Token} {last loc : Location} {d₁ d₂ : Cursor}
    {blocks₁ blocks₂ : List (List Stmt)}
    (read₁ : collect (fun _ => programLine p₁) [] ⟨ts, loc⟩ = .ok (blocks₁, d₁))
    (read₂ : collect (fun _ => programLine p₂) [] ⟨us, loc⟩ = .ok (blocks₂, d₂))
    (few : extra = [] ∨ ∃ loc, extra = [⟨.newline, loc⟩])
    (rest₁ : Remaining 0 (extra ++ us.map (Token.shift n)) 0 ts all)
    (rest₂ : Remaining n [⟨.eof, last⟩] 0 us (us.map (Token.shift n))) :
    ∃ blocks d, collect (fun _ => programLine p) [] ⟨all, loc⟩ = .ok (blocks, d) ∧
      blocks.flatten = blocks₁.flatten ++ shiftBlock n blocks₂.flatten := by
  have free := (first_of_program read₂).2.behind few n
  obtain ⟨_, rfl, follows₁⟩ := P₁.programLines free read₁
  obtain ⟨c₁, behind₁, same₁⟩ := follows₁ ⟨all, loc⟩ [] rest₁
  obtain ⟨gap, c₂, blank, second, same⟩ := collect_blank few behind₁
  have ends : NoBranch [⟨.eof, last⟩] := by
    rintro t ⟨⟩
    exact ⟨nofun, nofun⟩
  obtain ⟨_, rfl, follows₂⟩ := P₂.programLines ends read₂
  obtain ⟨c₃, behind₂, same₂⟩ := follows₂ c₂ (gap ++ ((move 0 blocks₁).reverse ++ [])) (second ▸ rest₂)
  have done : programLine p c₃ = .ok (none, c₃) := programLine_end (by rw [Cursor.peek, behind₂]; rfl)
  refine ⟨_, c₃, same₁.trans ((same _).trans (same₂.trans (collect_of_none done))), ?_⟩
  have still : move 0 blocks₁ = blocks₁ :=
    move_id 0 (fun block => (shiftBlock_eq 0 block).symm.trans (shiftBlock_zero block)) blocks₁
  have none : gap.reverse.flatten = [] := by
    rw [List.flatten_eq_nil_iff] at blank ⊢
    exact fun block member => blank block (List.mem_reverse.1 member)
  have moved : (move n blocks₂).flatten = shiftBlock n blocks₂.flatten := by
    rw [shiftBlock_eq]
    exact List.map_flatten.symm
  rw [still]
  simp [none, moved]

-- The tokens of both texts go on where those of the first one end.
theorem remaining_append {first second : String} {us : List Token} (complete : Complete first)
    (h : tokens second = .ok us) (flush : Layout.Flush us) :
    ∃ ts all extra, tokens first = .ok ts ∧ tokens (first ++ second) = .ok all ∧
      (extra = [] ∨ ∃ loc, extra = [⟨.newline, loc⟩]) ∧
      Remaining 0 (extra ++ us.map (Token.shift (newlines first))) 0 ts all ∧
      ts.length ≤ all.length ∧ us.length ≤ all.length := by
  obtain ⟨rows, k, loc, loc', extra, hrows, few, scanned, joined⟩ := tokens_append complete h flush
  have some : 0 < us.length := by
    obtain ⟨_, _, _, whole, -⟩ := tokens_whole h
    rw [whole, List.length_append]
    exact Nat.succ_pos _
  have rest := Remaining.rows hrows (@Remaining.dedents 0
    (extra ++ us.map (Token.shift (newlines first))) k loc loc')
  rw [map_shift_zero, ← List.append_assoc, ← List.append_assoc, ← List.append_assoc] at rest
  refine ⟨_, _, extra, scanned, joined, few, rest, ?_, ?_⟩
  · simp only [List.length_append, List.length_map, List.length_replicate, List.length_singleton]
    omega
  · simp only [List.length_append, List.length_map]
    omega

/--
A text that ends with whole lines, and another text: the program in both is the one in the first and
the one in the second, as many lines further down as the first text has.
-/
theorem parseProgram_append {first second : String} {p q : Program} (complete : Complete first)
    (hp : parseProgram first = .ok p) (hq : parseProgram second = .ok q) :
    parseProgram (first ++ second) = .ok (p ++ shiftBlock (newlines first) q) := by
  obtain ⟨ts, blocks₁, d₁, scanned₁, read₁, rfl⟩ := parseProgram_iff.1 hp
  obtain ⟨us, blocks₂, d₂, scanned₂, read₂, rfl⟩ := parseProgram_iff.1 hq
  obtain ⟨_, all, extra, scanned, joined, few, rest₁, more₁, more₂⟩ :=
    remaining_append complete scanned₂ (first_of_program read₂).1
  cases scanned₁.symm.trans scanned
  obtain ⟨last, rest₂⟩ := Remaining.whole (tokens_whole scanned₂) (newlines first)
  have length := String.length_append first second
  have P₁ : (partsOf first ts).Agrees 0 (partsOf (first ++ second) all) :=
    partsOf_agree (by omega) more₁
  have P₂ : (partsOf second us).Agrees (newlines first) (partsOf (first ++ second) all) :=
    partsOf_agree (by omega) more₂
  obtain ⟨blocks, d, read, flat⟩ := programLines_append P₁ P₂ read₁ read₂ few rest₁ rest₂
  exact parseProgram_iff.2 ⟨all, blocks, d, joined, read, flat.symm⟩

-- A call under a condition: its places and names.
def Program.callUnderName? : Program → Option (List Location × List String)
  | [.ifElse l (.name l₁ x) [.expr l₂ (.call l₃ (.name l₄ f) [.name l₅ y] [])] []] =>
    some ([l, l₁, l₂, l₃, l₄, l₅], [x, f, y])
  | _ => none

theorem Program.eq_of_callUnderName? {p : Program} {l l₁ l₂ l₃ l₄ l₅ : Location}
    {x f y : String} (h : p.callUnderName? = some ([l, l₁, l₂, l₃, l₄, l₅], [x, f, y])) :
    p = [.ifElse l (.name l₁ x) [.expr l₂ (.call l₃ (.name l₄ f) [.name l₅ y] [])] []] := by
  unfold callUnderName? at h
  split at h
  · cases h
    rfl
  · cases h

-- A name on its own, and its places.
def Program.loneName? : Program → Option (Location × Location × String)
  | [.expr l (.name l' x)] => some (l, l', x)
  | _ => none

theorem Program.eq_of_loneName? {p : Program} {l l' : Location} {x : String}
    (h : p.loneName? = some (l, l', x)) : p = [.expr l (.name l' x)] := by
  unfold loneName? at h
  split at h
  · cases h
    rfl
  · cases h

theorem parseProgram_append_after_block :
    Complete "if x:\n  f(y)\n" ∧
      parseProgram ("if x:\n  f(y)\n" ++ "\nz\n") =
        .ok [.ifElse ⟨1, 1⟩ (.name ⟨1, 4⟩ "x")
            [.expr ⟨2, 3⟩ (.call ⟨2, 4⟩ (.name ⟨2, 3⟩ "f") [.name ⟨2, 5⟩ "y"] [])] [],
          .expr ⟨4, 1⟩ (.name ⟨4, 1⟩ "z")] := by
  have complete : Complete "if x:\n  f(y)\n" :=
    .of_ends (.inr ⟨"if x:\n  f(y)".toList, by decide⟩) (by decide +kernel)
  have first : (parseProgram "if x:\n  f(y)\n").toOption.any (fun p => p.callUnderName? =
      some ([⟨1, 1⟩, ⟨1, 4⟩, ⟨2, 3⟩, ⟨2, 4⟩, ⟨2, 3⟩, ⟨2, 5⟩], ["x", "f", "y"])) = true := by
    rw [parseProgram_ofList]
    decide +kernel
  have second : (parseProgram "\nz\n").toOption.any (fun q => q.loneName? =
      some (⟨2, 1⟩, ⟨2, 1⟩, "z")) = true := by
    rw [parseProgram_ofList]
    decide +kernel
  obtain ⟨p, hp, same⟩ := Except.of_any first
  obtain ⟨q, hq, lone⟩ := Except.of_any second
  obtain rfl := Program.eq_of_callUnderName? (of_decide_eq_true same)
  obtain rfl := Program.eq_of_loneName? (of_decide_eq_true lone)
  exact ⟨complete, parseProgram_append complete hp hq⟩

end StepTrace
