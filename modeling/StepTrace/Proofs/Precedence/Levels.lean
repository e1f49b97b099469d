import StepTrace.Proofs.Literals.Assignment
import StepTrace.Proofs.Precedence.Formula

/-!
The readers of the levels of the grammar. Each of them reads what the next tighter one reads, if the
token after it does not go on with an operator of its own.
-/

set_option autoImplicit false

namespace StepTrace

open Parse

/-! ### Readers that may run out of room -/

-- Where there is room for the text it is read; elsewhere it is refused as nested too deeply.
def Parse.Decides {α : Type} (p : Parse α) (c : Cursor) (fits : Prop) (Q : α → Cursor → Prop) :
    Prop :=
  (fits → ∃ a c', p c = .ok (a, c') ∧ Q a c') ∧ (¬ fits → ∃ loc, p c = .error ⟨.tooDeep, loc⟩)

namespace Parse.Decides

variable {α β : Type} {p : Parse α} {g : α → Parse β} {c : Cursor} {F G : Prop}
  {P Q : α → Cursor → Prop} {R : β → Cursor → Prop}

theorem ok {a : α} {d : Cursor} (h : p c = .ok (a, d)) (q : Q a d) : p.Decides c True Q :=
  ⟨fun _ => ⟨a, d, h, q⟩, fun never => absurd trivial never⟩

theorem tooDeep : (fail .tooDeep : Parse α).Decides c False Q :=
  ⟨False.elim, fun _ => ⟨_, rfl⟩⟩

theorem congr (h : p.Decides c F Q) (same : F ↔ G) : p.Decides c G Q := by
  rwa [Decides, ← same]

theorem mono (h : p.Decides c F P) (le : ∀ a d, P a d → Q a d) : p.Decides c F Q := by
  refine ⟨fun fits => ?_, h.2⟩
  obtain ⟨a, d, read, q⟩ := h.1 fits
  exact ⟨a, d, read, le a d q⟩

theorem of_eq {q : Parse α} {d : Cursor} (same : p c = q d) (h : q.Decides d F Q) :
    p.Decides c F Q := by
  rwa [Decides, same]

theorem bind_ok {a : α} {d : Cursor} (h : p c = .ok (a, d)) (hg : (g a).Decides d G R) :
    (p >>= g).Decides c G R :=
  hg.of_eq (Parse.bind_ok h)

theorem bind (hp : p.Decides c F P) (hg : ∀ a d, P a d → (g a).Decides d G R) :
    (p >>= g).Decides c (F ∧ G) R := by
  by_cases fits : F
  · obtain ⟨a, d, read, q⟩ := hp.1 fits
    exact (bind_ok read (hg a d q)).congr (by simp [fits])
  · obtain ⟨loc, refused⟩ := hp.2 fits
    refine ⟨fun both => absurd both.1 fits, fun _ => ⟨loc, ?_⟩⟩
    change (p c).bind _ = _
    rw [refused]
    rfl

-- What follows the reader cannot fail.
theorem finish (hp : p.Decides c F P) (hg : ∀ a d, P a d → ∃ b e, g a d = .ok (b, e) ∧ R b e) :
    (p >>= g).Decides c F R := by
  refine (hp.bind (G := True) fun a d q => ?_).congr (and_iff_left trivial)
  obtain ⟨b, e, read, r⟩ := hg a d q
  exact .ok read r

theorem deeper {inner : Nat → Parse α} {n room : Nat}
    (h : ∀ r, (inner r).Decides c (n ≤ r) Q) :
    (StepTrace.deeper inner room).Decides c (n + 1 ≤ room) Q := by
  cases room with
  | zero => exact tooDeep.congr (by simp)
  | succ r => exact (h r).congr (by simp)

end Parse.Decides

/-! ### Levels -/

-- The level at which a token goes on with an expression; 15 where it does not.
def TokenKind.continues : TokenKind → Nat
  | .symbol .lparen | .symbol .lbracket | .symbol .dot => 1
  | .symbol .doubleStar => 2
  | .symbol .star | .symbol .slash | .symbol .doubleSlash | .symbol .percent => 4
  | .symbol .plus | .symbol .minus => 5
  | .symbol .ltLt | .symbol .gtGt => 6
  | .symbol .amp => 7
  | .symbol .caret => 8
  | .symbol .pipe => 9
  | .symbol .eqEq | .symbol .notEq | .symbol .lt | .symbol .le | .symbol .gt | .symbol .ge
  | .keyword .in | .keyword .is | .keyword .not => 10
  | .keyword .and => 12
  | .keyword .or => 13
  | .keyword .if => 14
  | _ => 15

namespace Inner

-- The reader of a level, from the one of the level below.
def above (inner : Inner) (below : Nat → Parse Expr) : Nat → Nat → Parse Expr
  | 1 => postfixExpr inner
  | 2 => unary below
  | 4 => chained factorOp? .binary below
  | 5 => chained termOp? .binary below
  | 6 => chained shiftOp? .binary below
  | 7 => chained ampOp? .binary below
  | 8 => chained caretOp? .binary below
  | 9 => chained pipeOp? .binary below
  | 10 => fun room => comparison (below room)
  | 11 => notTest below
  | 12 => chained andOp? .boolOp below
  | 13 => chained orOp? .boolOp below
  | 14 => test inner (unary (postfixExpr inner))
  | _ => below

-- The reader of operators up to a level.
def readerAt (inner : Inner) : Nat → Nat → Parse Expr
  | 0 => primary inner
  | level + 1 => inner.above (inner.readerAt level) (level + 1)

-- What comes after the first operand at a level whose operators make chains.
def restAt (inner : Inner) (level : Nat) : Nat → Expr → Parse Expr :=
  match level with
  | 1 => suffixes inner
  | 4 => chain factorOp? .binary (inner.readerAt 3)
  | 5 => chain termOp? .binary (inner.readerAt 4)
  | 6 => chain shiftOp? .binary (inner.readerAt 5)
  | 7 => chain ampOp? .binary (inner.readerAt 6)
  | 8 => chain caretOp? .binary (inner.readerAt 7)
  | 9 => chain pipeOp? .binary (inner.readerAt 8)
  | 12 => chain andOp? .boolOp (inner.readerAt 11)
  | 13 => chain orOp? .boolOp (inner.readerAt 12)
  | _ => fun _ => pure

end Inner

-- The levels whose operators make chains.
def chainLevels : List Nat := [1, 4, 5, 6, 7, 8, 9, 12, 13]

section

variable {inner : Inner} {room level : Nat} {c : Cursor} {f : TokenKind} {more : List TokenKind}

theorem readerAt_of_chain (known : level + 1 ∈ chainLevels) :
    inner.readerAt (level + 1) room =
      inner.readerAt level room >>= inner.restAt (level + 1) room := by
  simp only [chainLevels, List.mem_cons, List.not_mem_nil, or_false] at known
  rcases known with h | h | h | h | h | h | h | h | h <;> obtain rfl := Nat.succ.inj h <;> rfl

theorem chainLink_stops {α : Type} {ops : TokenKind → Option α} {left : Expr}
    {next : Location → α → Parse Expr} (none : ops f = none) (holds : c.Holds (f :: more)) :
    chainLink ops left next c = .ok (left, c) := by
  refine (Parse.bind_ok (p := kind) (c := c) rfl).trans ?_
  rw [holds.peek, none]
  rfl

theorem chain_stops {α : Type} {ops : TokenKind → Option α}
    {node : Location → α → Expr → Expr → Expr} {operand : Nat → Parse Expr} {left : Expr}
    (none : ops f = none) (holds : c.Holds (f :: more)) :
    chain ops node operand room left c = .ok (left, c) := by
  cases room <;> exact chainLink_stops none holds

theorem suffixes_stops {left : Expr} (stops : 1 < f.continues) (holds : c.Holds (f :: more)) :
    suffixes inner room left c = .ok (left, c) := by
  have ends : ∀ next, suffixLink left next c = .ok (left, c) := by
    intro next
    refine (Parse.bind_ok (peek_of holds)).trans ?_
    cases f with
    | symbol s => cases s <;> first | rfl | exact absurd stops (by decide)
    | _ => rfl
  cases room <;> exact ends _

theorem restAt_stops (known : level ∈ chainLevels) (stops : level < f.continues) (left : Expr)
    (holds : c.Holds (f :: more)) : inner.restAt level room left c = .ok (left, c) := by
  simp only [chainLevels, List.mem_cons, List.not_mem_nil, or_false] at known
  rcases known with rfl | rfl | rfl | rfl | rfl | rfl | rfl | rfl | rfl
  · exact suffixes_stops stops holds
  all_goals
    refine chain_stops ?_ holds
    cases f with
    | symbol s => cases s <;> first | rfl | exact absurd stops (by decide)
    | keyword w => cases w <;> first | rfl | exact absurd stops (by decide)
    | _ => rfl

theorem comparison?_stops (stops : 10 < f.continues) (holds : c.Holds (f :: more)) :
    comparison? c = .ok (none, c) := by
  have kinds : (c.rest.take 2).map Token.kind = f :: more.take 1 := by
    rw [List.map_take, holds]
    rfl
  refine (Parse.bind_ok (p := get) (c := c) rfl).trans ?_
  rw [kinds]
  cases f with
  | symbol s => cases s <;> first | rfl | exact absurd stops (by decide)
  | keyword w => cases w <;> first | rfl | exact absurd stops (by decide)
  | _ => rfl

end

/-! ### From a level to the next -/

-- The reader of the level reads these tokens, for which it needs some room.
def Takes (level : Nat) (ks : List TokenKind) (need : Nat) (P : Expr → Prop) : Prop :=
  ∀ (field : String → Location → Except SyntaxError Expr) (levels room : Nat) (c : Cursor)
    (f : TokenKind) (more : List TokenKind), ks.length ≤ levels → level < f.continues →
    c.Holds (ks ++ f :: more) → ((readers field levels).readerAt level room).Decides c (need ≤ room)
      fun e d => P e ∧ d.Holds (f :: more)

-- The first token starts something of this level.
def Opens (ks : List TokenKind) (level : Nat) : Prop := ∃ k rest, ks = k :: rest ∧ k.opens ≤ level

namespace Takes

variable {level need : Nat} {ks : List TokenKind} {P : Expr → Prop}

theorem climb_chain (h : Takes level ks need P) (known : level + 1 ∈ chainLevels) :
    Takes (level + 1) ks need P := by
  intro field levels room c f more enough stops holds
  rw [readerAt_of_chain known]
  refine (h field levels room c f more enough (Nat.lt_of_succ_lt stops) holds).finish ?_
  rintro e d ⟨he, hd⟩
  exact ⟨e, d, restAt_stops known stops e hd, he, hd⟩

theorem unaryOp?_of_opens {k : TokenKind} (opens : k.opens ≤ 1) : unaryOp? k = none := by
  cases k with
  | symbol s => cases s <;> first | rfl | exact absurd opens (by decide)
  | _ => rfl

theorem climb_unary (h : Takes 1 ks need P) (opens : Opens ks 1) : Takes 2 ks need P := by
  obtain ⟨k, rest, rfl, first⟩ := opens
  intro field levels room c f more enough stops holds
  have base := h field levels room c f more enough (Nat.lt_of_succ_lt stops) holds
  have other : f.isSymbol .doubleStar = false := by
    cases f with
    | symbol s => cases s <;> first | rfl | exact absurd stops (by decide)
    | _ => rfl
  have within : ∀ operand, (unaryWith ((readers field levels).readerAt 1 room) operand).Decides c
      (need ≤ room) fun e d => P e ∧ d.Holds (f :: more) := by
    intro operand
    refine .bind_ok (peek_of holds) ?_
    dsimp only
    rw [unaryOp?_of_opens first]
    refine base.finish ?_
    rintro e d ⟨he, hd⟩
    exact ⟨e, d, (Parse.bind_ok (accept_of_other hd other)).trans rfl, he, hd⟩
  cases room <;> exact within _

theorem climb_comparison (h : Takes 9 ks need P) : Takes 10 ks need P := by
  intro field levels room c f more enough stops holds
  refine .bind_ok (here_eq c) ?_
  refine (h field levels room c f more enough (Nat.lt_of_succ_lt stops) holds).finish ?_
  rintro e d ⟨he, hd⟩
  have ends := comparison?_stops stops hd
  exact ⟨e, d, (Parse.bind_ok (many_of_none ((Parse.bind_ok ends).trans rfl))).trans rfl, he, hd⟩

theorem climb_not (h : Takes 10 ks need P) (opens : Opens ks 10) : Takes 11 ks need P := by
  obtain ⟨k, rest, rfl, first⟩ := opens
  intro field levels room c f more enough stops holds
  have base := h field levels room c f more enough (Nat.lt_of_succ_lt stops) holds
  have other : k.isKeyword .not = false := by
    cases k with
    | keyword w => cases w <;> first | rfl | exact absurd first (by decide)
    | _ => rfl
  have positive := acceptWord_of_other holds other
  cases room <;> exact .bind_ok positive base

theorem climb_test (h : Takes 13 ks need P) (opens : Opens ks 13) : Takes 14 ks need P := by
  obtain ⟨k, rest, rfl, first⟩ := opens
  intro field levels room c f more enough stops holds
  have base := h field levels room c f more enough (Nat.lt_of_succ_lt stops) holds
  have plain : Parse.isKeyword .lambda c = .ok (false, c) := by
    rw [isKeyword_eq, holds.peek]
    cases k with
    | keyword w => cases w <;> first | rfl | exact absurd first (by decide)
    | _ => rfl
  have other : f.isKeyword .if = false := by
    cases f with
    | keyword w => cases w <;> first | rfl | exact absurd stops (by decide)
    | _ => rfl
  refine .bind_ok plain (.bind_ok (here_eq c) (base.finish ?_))
  rintro e d ⟨he, hd⟩
  exact ⟨e, d, (Parse.bind_ok (acceptWord_of_other hd other)).trans rfl, he, hd⟩

theorem climb (h : Takes level ks need P) (opens : Opens ks level) (below : level < 14) :
    Takes (level + 1) ks need P := by
  by_cases known : level + 1 ∈ chainLevels
  · exact h.climb_chain known
  · simp only [chainLevels, List.mem_cons, List.not_mem_nil, or_false] at known
    obtain rfl | rfl | rfl | rfl | rfl :
        level = 1 ∨ level = 2 ∨ level = 9 ∨ level = 10 ∨ level = 13 := by omega
    · exact h.climb_unary opens
    · exact fun field levels room c f more enough stops holds =>
        h field levels room c f more enough (Nat.lt_of_succ_lt stops) holds
    · exact h.climb_comparison
    · exact h.climb_not opens
    · exact h.climb_test opens

theorem climb_to {place : Nat} (h : Takes level ks need P) (opens : Opens ks level)
    (le : level ≤ place) (most : place ≤ 14) : Takes place ks need P := by
  induction place, le using Nat.le_induction with
  | base => exact h
  | succ place le ih =>
    obtain ⟨k, rest, same, first⟩ := opens
    exact (ih (by omega)).climb ⟨k, rest, same, by omega⟩ (by omega)

end Takes

end StepTrace
