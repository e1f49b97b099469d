import StepTrace.Grammar.Statement
import StepTrace.Proofs.Literals.Parsing
import StepTrace.Proofs.Tracking.Places

/-!
How deep trees are nested. A path from the root of a tree meets displays, comprehensions, unary
operators and compound statements; a reader that has less room than another one gives the same
trees, unless they are too deep for it.
-/

set_option autoImplicit false

namespace StepTrace

open Parse

variable {α β : Type}

/-! ### Paths -/

-- Whether a node counts for how deep a path is.
def Expr.weight : Expr → Nat
  | .list .. | .tuple .. | .dict .. | .set .. | .listComp .. | .dictComp .. | .unary .. => 1
  | _ => 0

def Stmt.weight : Stmt → Nat
  | .ifElse .. | .while .. | .for .. | .function .. | .class .. => 1
  | _ => 0

-- The parts of a clause, with how much deeper they may be than what stands beside the clause: a
-- comprehension takes no room for its clauses, nor do the commas of a target.
def Clause.ways : Clause → List (Nat × Expr)
  | .mk target iter conditions => (2, target) :: (1, iter) :: conditions.map (1, ·)

-- The parts of an expression, with how much deeper they may be than room is taken for. The room
-- for a replacement field is a new one.
def Expr.ways : Expr → List (Nat × Expr)
  | .fstring _ pieces => (pieces.flatMap FPart.parts).map fun part => (maxNesting + 1, part.2)
  | .listComp _ e clauses => (0, e) :: clauses.flatMap Clause.ways
  | .dictComp _ k v clauses => (0, k) :: (0, v) :: clauses.flatMap Clause.ways
  | e => (e.parts .value).map fun part => (0, part.2)

-- A list of expressions without brackets takes no room.
def Expr.listed : Expr → Nat
  | .tuple .. => 1
  | _ => 0

theorem Expr.listed_le (e : Expr) : e.listed ≤ 1 := by
  unfold listed
  split
  · exact Nat.le_refl 1
  · exact Nat.zero_le 1

-- The expressions of a statement. A statement with a block takes room for the block alone.
def Stmt.ways : Stmt → List (Nat × Expr)
  | .expr _ e | .return _ (some e) => [(e.listed, e)]
  | .assign _ targets e => (e.listed, e) :: targets.map fun e => (e.listed, e)
  | .augAssign _ _ target e => [(target.listed, target), (e.listed, e)]
  | .raise _ e => e.toList.map (0, ·)
  | .assert _ c message => (c :: message.toList).map (0, ·)
  | .delete _ targets => targets.map (1, ·)
  | .ifElse _ c _ _ | .while _ c _ => [(1, c)]
  | .for _ target iter _ => [(3, target), (1 + iter.listed, iter)]
  | .function _ _ params _ => (params.flatMap Param.parts).map fun part => (1, part.2)
  | .class _ _ base _ => base.toList.map (1, ·)
  | .return _ none | .break .. | .continue .. | .pass .. | .global .. | .importModule ..
  | .importFrom .. => []

-- A path down from a node that meets `k` nodes which count, itself included, where it may be
-- `allowed` deeper than room is taken for.
inductive Expr.Path : Expr → (k allowed : Nat) → Prop
  | here (e : Expr) : Path e e.weight 0
  | part {root e : Expr} {a k allowed : Nat} (way : (a, e) ∈ root.ways) (rest : Path e k allowed) :
    Path root (root.weight + k) (a + allowed)

inductive Program.Path : Program → (k allowed : Nat) → Prop
  | here {p : Program} {s : Stmt} (mem : s ∈ p) : Path p s.weight 0
  | part {p : Program} {s : Stmt} {e : Expr} {a k allowed : Nat} (mem : s ∈ p)
    (way : (a, e) ∈ s.ways) (rest : e.Path k allowed) : Path p (s.weight + k) (a + allowed)
  | block {p : Program} {s : Stmt} {k allowed : Nat} (mem : s ∈ p)
    (rest : Path s.inner k allowed) : Path p (s.weight + k) allowed

def Expr.Nested (n : Nat) (e : Expr) : Prop := ∀ k allowed, e.Path k allowed → k ≤ n + allowed

def Program.Nested (n : Nat) (p : Program) : Prop :=
  ∀ k allowed, p.Path k allowed → k ≤ n + allowed

def PartsNested (n : Nat) (parts : List (Role × Expr)) : Prop := ∀ part ∈ parts, part.2.Nested n

def WaysNested (n : Nat) (ways : List (Nat × Expr)) : Prop :=
  ∀ way ∈ ways, way.2.Nested (n + way.1)

namespace PartsNested

variable {n : Nat} {role : Role} {parts rest : List (Role × Expr)}

theorem nil : PartsNested n [] := nofun

theorem cons {e : Expr} (h : e.Nested n) (hrest : PartsNested n rest) :
    PartsNested n ((role, e) :: rest) :=
  List.forall_mem_cons.2 ⟨h, hrest⟩

theorem append (h : PartsNested n parts) (hrest : PartsNested n rest) :
    PartsNested n (parts ++ rest) :=
  List.forall_mem_append.2 ⟨h, hrest⟩

theorem map {exprOf : α → Expr} {as : List α} (h : ∀ a ∈ as, (exprOf a).Nested n) :
    PartsNested n (as.map fun a => (role, exprOf a)) := by
  intro part here
  obtain ⟨a, inside, rfl⟩ := List.mem_map.1 here
  exact h a inside

theorem flatMap {partsOf : α → List (Role × Expr)} {as : List α}
    (h : ∀ a ∈ as, PartsNested n (partsOf a)) : PartsNested n (as.flatMap partsOf) := by
  intro part here
  obtain ⟨a, inside, here⟩ := List.mem_flatMap.1 here
  exact h a inside part here

theorem ways {a k : Nat} (h : PartsNested (k + a) parts) :
    WaysNested k (parts.map fun part => (a, part.2)) := by
  intro way here
  obtain ⟨part, inside, rfl⟩ := List.mem_map.1 here
  exact h part inside

end PartsNested

namespace Expr.Nested

variable {n k : Nat} {e : Expr}

theorem mono (h : e.Nested n) (le : n ≤ k) : e.Nested k :=
  fun depth allowed path => Nat.le_trans (h depth allowed path) (Nat.add_le_add_right le _)

-- What a node adds to the depth of its parts is its weight.
theorem of_ways (h : WaysNested n e.ways) : e.Nested (n + e.weight) := by
  intro depth allowed path
  cases path with
  | here => exact Nat.le_add_left ..
  | @part _ e' a k allowed way rest =>
    have inside : k ≤ n + a + allowed := h (a, e') way k allowed rest
    omega

-- A node that takes room for all of its parts.
theorem node (plain : e.ways = (e.parts .value).map fun part => (0, part.2))
    (h : PartsNested n (e.parts .value)) : e.Nested (n + e.weight) := by
  refine of_ways ?_
  rw [plain]
  exact PartsNested.ways h

theorem fstring {l : Location} {pieces : List FPart}
    (h : ∀ piece ∈ pieces, PartsNested (n + (maxNesting + 1)) piece.parts) :
    (Expr.fstring l pieces).Nested n :=
  of_ways (n := n) (PartsNested.ways (.flatMap h))

theorem listComp {l : Location} {clauses : List Clause} (he : e.Nested n)
    (hclauses : ∀ c ∈ clauses, WaysNested n c.ways) :
    (Expr.listComp l e clauses).Nested (n + 1) := by
  refine of_ways (n := n) (List.forall_mem_cons.2 ⟨he, ?_⟩)
  intro way here
  obtain ⟨c, inside, here⟩ := List.mem_flatMap.1 here
  exact hclauses c inside way here

theorem dictComp {l : Location} {value : Expr} {clauses : List Clause} (he : e.Nested n)
    (hvalue : value.Nested n) (hclauses : ∀ c ∈ clauses, WaysNested n c.ways) :
    (Expr.dictComp l e value clauses).Nested (n + 1) := by
  refine of_ways (n := n) (List.forall_mem_cons.2 ⟨he, List.forall_mem_cons.2 ⟨hvalue, ?_⟩⟩)
  intro way here
  obtain ⟨c, inside, here⟩ := List.mem_flatMap.1 here
  exact hclauses c inside way here

end Expr.Nested

namespace Program.Nested

variable {n k : Nat} {p q : Program} {s : Stmt}

theorem nil : Program.Nested n [] := by
  intro k allowed path
  cases path with
  | here mem | part mem | block mem => cases mem

theorem mono (h : p.Nested n) (le : n ≤ k) : p.Nested k :=
  fun depth allowed path => Nat.le_trans (h depth allowed path) (Nat.add_le_add_right le _)

theorem of_mem (h : ∀ s ∈ p, Program.Nested n [s]) : p.Nested n := by
  intro k allowed path
  cases path with
  | @here _ s mem => exact h s mem _ _ (.here List.mem_cons_self)
  | @part _ s e a k allowed mem way rest => exact h s mem _ _ (.part List.mem_cons_self way rest)
  | @block _ s k allowed mem rest => exact h s mem _ _ (.block List.mem_cons_self rest)

theorem append (hp : p.Nested n) (hq : q.Nested n) : Program.Nested n (p ++ q) := by
  have one {r : Program} (h : r.Nested n) : ∀ s ∈ r, Program.Nested n [s] := by
    intro s mem k allowed path
    cases path with
    | here only =>
      cases List.mem_singleton.1 only
      exact h _ _ (.here mem)
    | part only way rest =>
      cases List.mem_singleton.1 only
      exact h _ _ (.part mem way rest)
    | block only rest =>
      cases List.mem_singleton.1 only
      exact h _ _ (.block mem rest)
  exact of_mem (List.forall_mem_append.2 ⟨one hp, one hq⟩)

theorem flatten {ps : List Program} (h : ∀ p ∈ ps, Program.Nested n p) :
    Program.Nested n ps.flatten := by
  induction ps with
  | nil => exact nil
  | cons p ps ih =>
    obtain ⟨hp, hps⟩ := List.forall_mem_cons.1 h
    exact hp.append (ih hps)

-- A statement without blocks.
theorem simple (light : s.weight = 0) (none : s.inner = []) (h : WaysNested n s.ways) :
    Program.Nested n [s] := by
  intro depth allowed path
  cases path with
  | here only =>
    cases List.mem_singleton.1 only
    omega
  | @part _ _ e a k allowed only way rest =>
    cases List.mem_singleton.1 only
    have inside : k ≤ n + a + allowed := h (a, e) way k allowed rest
    omega
  | block only rest =>
    cases List.mem_singleton.1 only
    rw [none] at rest
    have inside := (nil : Program.Nested n []) _ _ rest
    omega

-- A statement with blocks, for which room is taken.
theorem compound (light : s.weight ≤ 1) (blocks : Program.Nested n s.inner)
    (h : ∀ way ∈ s.ways, way.2.Nested (n + way.1)) : Program.Nested (n + 1) [s] := by
  intro depth allowed path
  cases path with
  | here only =>
    cases List.mem_singleton.1 only
    omega
  | @part _ _ e a k allowed only way rest =>
    cases List.mem_singleton.1 only
    have inside : k ≤ n + a + allowed := h (a, e) way k allowed rest
    omega
  | @block _ _ k allowed only rest =>
    cases List.mem_singleton.1 only
    have inside := blocks k allowed rest
    omega

end Program.Nested

/-! ### Readers with less room and with more -/

-- What the first reader gives is in `P` and given by the second one as well; it fails as that does,
-- or because the tree is too deep.
inductive Capped (P : α → Prop) : Except SyntaxError α → Except SyntaxError α → Prop
  | given {a : α} (h : P a) : Capped P (.ok a) (.ok a)
  | failed (e : SyntaxError) : Capped P (.error e) (.error e)
  | tooDeep (loc : Location) (result : Except SyntaxError α) :
    Capped P (.error ⟨.tooDeep, loc⟩) result

def Caps (P : α → Prop) (x y : Parse α) : Prop := ∀ c, Capped (fun r => P r.1) (x c) (y c)

theorem Capped.same {P : α → Prop} {x : Except SyntaxError α} (h : ∀ a, x = .ok a → P a) :
    Capped P x x := by
  cases x with
  | ok a => exact .given (h a rfl)
  | error e => exact .failed e

theorem Capped.mono {P P' : α → Prop} {x y : Except SyntaxError α} (h : Capped P x y)
    (le : ∀ a, P a → P' a) : Capped P' x y := by
  cases h with
  | given h => exact .given (le _ h)
  | failed e => exact .failed e
  | tooDeep loc => exact .tooDeep loc _

theorem Capped.bind {P : α → Prop} {Q : β → Prop} {x y : Except SyntaxError α}
    {f g : α → Except SyntaxError β} (hx : Capped P x y) (hf : ∀ a, P a → Capped Q (f a) (g a)) :
    Capped Q (x >>= f) (y >>= g) := by
  cases hx with
  | given h => exact hf _ h
  | failed e => exact .failed e
  | tooDeep loc result => exact .tooDeep loc _

namespace Caps

variable {x y x' y' : Parse α} {P : α → Prop} {Q : β → Prop} {f g : α → Parse β}

theorem any : Caps (fun _ => True) x x := fun _ => .same fun _ _ => trivial

theorem ret {a : α} (h : P a) : Caps P (pure a) (pure a) := fun _ => .given h

theorem fail {cause : SyntaxCause} : Caps P (Parse.fail cause) (Parse.fail cause) :=
  fun _ => .failed _

theorem failAt {loc : Location} {cause : SyntaxCause} :
    Caps P (Parse.failAt loc cause) (Parse.failAt loc cause) :=
  fun _ => .failed _

theorem tooDeep (y : Parse α) : Caps P (Parse.fail .tooDeep) y := fun c => .tooDeep c.peek.loc _

theorem bind (hx : Caps P x y) (hf : ∀ a, P a → Caps Q (f a) (g a)) : Caps Q (x >>= f) (y >>= g) :=
  fun c => (hx c).bind fun r h => hf r.1 h r.2

-- Whatever the first reader gives.
theorem after {x : Parse α} (hf : ∀ a, Caps Q (f a) (g a)) : Caps Q (x >>= f) (x >>= g) :=
  any.bind fun a _ => hf a

theorem mono {P' : α → Prop} (hx : Caps P x y) (le : ∀ a, P a → P' a) : Caps P' x y :=
  fun c => (hx c).mono fun _ h => le _ h

theorem ite {p : Prop} [Decidable p] (yes : Caps P x y) (no : Caps P x' y') :
    Caps P (if p then x else x') (if p then y else y') := by
  split
  · exact yes
  · exact no

theorem yes (hx : Caps P x y) : Caps (fun a => ∀ b ∈ a, P b) (x >>= fun a => pure (some a))
    (y >>= fun a => pure (some a)) := by
  refine hx.bind fun a ha => ret ?_
  rintro _ ⟨⟩
  exact ha

theorem no : Caps (fun a => ∀ b ∈ a, P b) (pure none) (pure none) := ret nofun

-- A check or something that is read and dropped.
theorem guard {p : Prop} [Decidable p] {check : Parse Unit} {f g : Unit → Parse β}
    (rest : Caps Q (f ()) (g ())) :
    Caps Q (if p then check >>= f else f ()) (if p then check >>= g else g ()) :=
  ite (after fun _ => rest) rest

-- Something that is read in both rooms and dropped.
theorem dropped {f g : Unit → Parse β} (hx : Caps P x y) (rest : Caps Q (f ()) (g ())) :
    Caps Q (discard x >>= f) (discard y >>= g) := by
  have read : Caps (fun _ => True) (discard x) (discard y) :=
    fun c => (hx c).bind fun _ _ => .given trivial
  exact read.bind fun _ _ => rest

-- Something that is there or not.
theorem ifSome {p : Prop} [Decidable p] {f g : Option α → Parse β} (hx : Caps P x y)
    (rest : ∀ a, (∀ b ∈ a, P b) → Caps Q (f a) (g a)) :
    Caps Q (if p then x >>= fun a => pure (some a) >>= f else pure none >>= f)
      (if p then y >>= fun a => pure (some a) >>= g else pure none >>= g) := by
  refine ite (hx.bind fun a ha => rest (some a) ?_) (rest none nofun)
  rintro _ ⟨⟩
  exact ha

theorem ifNone {p : Prop} [Decidable p] {f g : Option α → Parse β} (hx : Caps P x y)
    (rest : ∀ a, (∀ b ∈ a, P b) → Caps Q (f a) (g a)) :
    Caps Q (if p then pure none >>= f else x >>= fun a => pure (some a) >>= f)
      (if p then pure none >>= g else y >>= fun a => pure (some a) >>= g) := by
  refine ite (rest none nofun) (hx.bind fun a ha => rest (some a) ?_)
  rintro _ ⟨⟩
  exact ha

theorem many {step step' : List α → Parse (Option α)} {first : List α}
    (hstep : ∀ done, Caps (fun a => ∀ b ∈ a, P b) (step done) (step' done))
    (hfirst : ∀ a ∈ first, P a) :
    Caps (fun as => ∀ a ∈ as, P a) (Parse.many step first) (Parse.many step' first) := by
  have collected (done : List α) (c : Cursor) (hdone : ∀ a ∈ done, P a) :
      Capped (fun r => ∀ a ∈ r.1, P a) (collect step done c) (collect step' done c) := by
    fun_induction collect step done c with
    | case1 done c e failed =>
      have one := hstep done c
      rw [failed] at one
      rw [collect.eq_def step' done c]
      generalize step' done c = result at one
      cases one with
      | failed => exact .failed e
      | tooDeep loc => exact .tooDeep loc _
    | case2 done c next declined =>
      have one := hstep done c
      rw [declined] at one
      rw [collect.eq_def step' done c]
      generalize step' done c = result at one
      cases one with
      | given => exact .given fun a here => hdone a (List.mem_reverse.1 here)
    | case3 done c a next went shorter ih =>
      have one := hstep done c
      rw [went] at one
      rw [collect.eq_def step' done c]
      generalize step' done c = result at one
      cases one with
      | given h =>
        simp only [if_pos shorter]
        exact ih (List.forall_mem_cons.2 ⟨h a rfl, hdone⟩)
    | case4 done c a next went longer =>
      have one := hstep done c
      rw [went] at one
      rw [collect.eq_def step' done c]
      generalize step' done c = result at one
      cases one with
      | given h =>
        simp only [if_neg longer]
        refine .given fun b here => ?_
        rcases List.mem_cons.1 (List.mem_reverse.1 here) with rfl | before
        · exact h b rfl
        · exact hdone b before
  exact fun c => collected first.reverse c fun a here => hfirst a (List.mem_reverse.1 here)

theorem commaSeparated {stop : Parse Bool} {item item' : List α → Parse α} {first : List α}
    (hitem : ∀ done, Caps P (item done) (item' done)) (hfirst : ∀ a ∈ first, P a) :
    Caps (fun as => ∀ a ∈ as, P a) (Parse.commaSeparated stop item first)
      (Parse.commaSeparated stop item' first) := by
  refine many (fun done => after fun comma => ite (after fun ends => ?_) no) hfirst
  exact ite no (hitem done).yes

end Caps

end StepTrace
