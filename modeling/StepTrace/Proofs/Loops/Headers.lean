import StepTrace.Proofs.Loops.Rounds
import StepTrace.Proofs.Slices.Ranges

/-!
What loops do at their headers: each evaluation of the condition, and each look for an item, has one
boundary. Jumps end passes of the loop they stand in, and lists are gone through as they are.
-/

set_option autoImplicit false

namespace StepTrace

/-! ### Jumps -/

inductive Jump
  | break
  | continue

namespace Jump

def stmt (l : Location) : Jump → Stmt
  | .break => .break l
  | .continue => .continue l

def flow : Jump → Flow
  | .break => .broken
  | .continue => .continued

end Jump

-- A computation that ends with no jump.
def Run.NoJump (x : Run Flow) : Prop := ∀ (m m' : Machine) (j : Jump), x m ≠ .ok j.flow m'

namespace Run.NoJump

theorem normal : Run.NoJump (pure .normal) := by
  rintro m m' (_ | _) ⟨⟩

theorem returned (v : Value) : Run.NoJump (pure (.returned v)) := by
  rintro m m' (_ | _) ⟨⟩

theorem fault (e : Fault) : Run.NoJump (Run.fault e) := by
  rintro m m' j ⟨⟩

theorem outOfFuel : Run.NoJump Run.outOfFuel := by
  rintro m m' j ⟨⟩

theorem after {α : Type} {x : Run α} {f : α → Run Flow} (h : ∀ a, (f a).NoJump) :
    Run.NoJump (x >>= f) := by
  intro m m' j done
  obtain ⟨a, m₁, -, done⟩ := Run.of_bind_ok done
  exact h a m₁ m' j done

end Run.NoJump

-- Whether a condition holds, with the boundary before its statement.
def Interp.decides (r : Interp) (l : Location) (condition : Expr) : Run Bool := do
  Run.boundary l.line
  r.truth (← r.eval condition)

-- A block comes to one of its own statements: not to one in a loop, a function or a class.
inductive Reaches : Nat → List Stmt → Machine → Stmt → Machine → Prop
  | here {n : Nat} {s : Stmt} {rest : List Stmt} {m : Machine} : Reaches n (s :: rest) m s m
  | later {n : Nat} {s t : Stmt} {rest : List Stmt} {m m₁ m' : Machine}
    (ran : (interp n).runStmt s m = .ok .normal m₁) (later : Reaches n rest m₁ t m') :
    Reaches n (s :: rest) m t m'
  | branch {n : Nat} {l : Location} {condition : Expr} {yes no rest : List Stmt} {b : Bool}
    {t : Stmt} {m m₁ m' : Machine} (decided : (interp (n + 1)).decides l condition m = .ok b m₁)
    (inside : Reaches n (if b then yes else no) m₁ t m') :
    Reaches (n + 1) (.ifElse l condition yes no :: rest) m t m'

section

variable {n : Nat} {r : Interp} {m m' : Machine} {j : Jump}

theorem Interp.runStmt_ifElse (r : Interp) (l : Location) (condition : Expr)
    (yes no : List Stmt) : r.runStmt (.ifElse l condition yes no) =
      r.decides l condition >>= fun b => r.block (if b then yes else no) := by
  rw [runStmt, decides, execStmt]
  simp only [bind_assoc]
  refine bind_congr fun _ => bind_congr fun _ => bind_congr fun b => ?_
  cases b <;> rfl

theorem Loop.noJump_go (loop : Loop) (fuel : Nat) (place : loop.Place) :
    (loop.go r fuel place).NoJump := by
  induction fuel generalizing place with
  | zero => exact .outOfFuel
  | succ fuel ih =>
    refine .after fun
      | none => .normal
      | some next => .after fun flow => ?_
    cases flow with
    | broken => exact .normal
    | returned v => exact .returned v
    | normal | continued => exact .after fun _ => ih next

-- A statement that ends with a jump is the jump, or it branches to it.
theorem Interp.execStmt_jump {s : Stmt} (ran : r.execStmt s m = .ok j.flow m') :
    (∃ l, s = j.stmt l ∧ m' = m) ∨ ∃ l condition yes no, s = .ifElse l condition yes no := by
  have never (h : (r.execStmt s).NoJump) : False := h m m' j ran
  have loop (loop : Loop) (same : s = loop.stmt) : False := by
    refine never ?_
    rw [same, execStmt_loop]
    exact .after fun _ => loop.noJump_go _ _
  cases s with
  | ifElse l condition yes no => exact .inr ⟨l, condition, yes, no, rfl⟩
  | «break» l | «continue» l =>
    cases j <;> cases ran
    exact .inl ⟨l, rfl, rfl⟩
  | «while» l condition body => exact (loop (.while l condition body) rfl).elim
  | «for» l target iter body => exact (loop (.for l target iter body) rfl).elim
  | «return» l e => cases e with
    | none => exact (never (.returned _)).elim
    | some e => exact (never (.after fun _ => .returned _)).elim
  | raise l e => cases e with
    | none => exact (never (.fault _)).elim
    | some e => exact (never (.after fun _ => .after fun _ => .fault _)).elim
  | assert l condition message =>
    refine (never (.after fun _ => .after fun
      | true => .normal
      | false => ?_)).elim
    cases message with
    | none => exact .fault _
    | some e => exact .after fun _ => .after fun _ => .fault _
  | pass => exact (never .normal).elim
  | assign | augAssign | expr | «function» | «class» | «global» | delete | importModule =>
    first
    | exact (never (.after fun _ => .normal)).elim
    | exact (never (.after fun _ => .after fun _ => .normal)).elim
  | importFrom => exact (never (.after fun _ => .after fun _ => .normal)).elim

theorem Interp.execBlock_of_runStmt {s : Stmt} {rest : List Stmt}
    (ran : r.runStmt s m = .ok j.flow m') : r.execBlock (s :: rest) m = .ok j.flow m' := by
  rw [execBlock_cons, Run.bind_ok ran]
  cases j <;> rfl

theorem Reaches.execBlock {body : List Stmt} {l : Location} {t : Stmt} {m₁ : Machine}
    (reaches : Reaches n body m t m₁) (jump : t = j.stmt l)
    (fired : Run.boundary l.line m₁ = .ok () m') :
    (interp n).execBlock body m = .ok j.flow m' := by
  induction reaches with
  | here =>
    subst jump
    refine Interp.execBlock_of_runStmt ?_
    rw [Interp.runStmt]
    cases j <;> exact (Run.bind_ok fired).trans rfl
  | later ran _ ih =>
    rw [Interp.execBlock_cons, Run.bind_ok ran]
    exact ih jump fired
  | branch decided _ ih =>
    refine Interp.execBlock_of_runStmt ?_
    rw [Interp.runStmt_ifElse, Run.bind_ok decided]
    exact ih jump fired

-- A block comes to a jump in one of its statements, if the branches in it do.
theorem reaches_of_branches
    (branches : ∀ l condition yes no rest m₁,
      (interp n).runStmt (.ifElse l condition yes no) m₁ = .ok j.flow m' →
        ∃ l' m₂, Reaches n (.ifElse l condition yes no :: rest) m₁ (j.stmt l') m₂ ∧
          Run.boundary l'.line m₂ = .ok () m')
    (body : List Stmt) (ran : (interp n).execBlock body m = .ok j.flow m') :
    ∃ l m₁, Reaches n body m (j.stmt l) m₁ ∧ Run.boundary l.line m₁ = .ok () m' := by
  induction body generalizing m with
  | nil => exact (Run.NoJump.normal m m' j ran).elim
  | cons s rest ih =>
    rw [Interp.execBlock_cons] at ran
    obtain ⟨flow, m₁, first, ran⟩ := Run.of_bind_ok ran
    have here (same : flow = j.flow ∧ m₁ = m') : ∃ l m₁, Reaches n (s :: rest) m (j.stmt l) m₁ ∧
        Run.boundary l.line m₁ = .ok () m' := by
      obtain ⟨rfl, rfl⟩ := same
      obtain ⟨_, m₂, fired, ended⟩ := Run.of_bind_ok first
      rcases Interp.execStmt_jump ended with ⟨l, rfl, rfl⟩ | ⟨l, condition, yes, no, rfl⟩
      · refine ⟨l, m, .here, ?_⟩
        cases j <;> exact fired
      · exact branches l condition yes no rest m first
    cases flow with
    | normal =>
      obtain ⟨l, m₂, reaches, fired⟩ := ih ran
      exact ⟨l, m₂, .later first reaches, fired⟩
    | returned v => exact (Run.NoJump.returned v _ _ j ran).elim
    | broken | continued => exact here (by cases j <;> cases ran; exact ⟨rfl, rfl⟩)

-- The induction is on the fuel, of which a branch takes some.
theorem execBlock_jump_iff (n : Nat) (body : List Stmt) (m m' : Machine) (j : Jump) :
    (interp n).execBlock body m = .ok j.flow m' ↔
      ∃ l m₁, Reaches n body m (j.stmt l) m₁ ∧ Run.boundary l.line m₁ = .ok () m' := by
  refine ⟨fun ran => ?_, fun ⟨l, m₁, reaches, fired⟩ => reaches.execBlock rfl fired⟩
  induction n generalizing body m with
  | zero =>
    refine reaches_of_branches (fun l condition yes no rest m₁ ran => ?_) body ran
    rw [Interp.runStmt_ifElse] at ran
    obtain ⟨b, m₂, -, spent⟩ := Run.of_bind_ok ran
    cases spent
  | succ n ih =>
    refine reaches_of_branches (fun l condition yes no rest m₁ ran => ?_) body ran
    rw [Interp.runStmt_ifElse] at ran
    obtain ⟨b, m₂, decided, inside⟩ := Run.of_bind_ok ran
    obtain ⟨l', m₃, reaches, fired⟩ := ih _ m₂ inside
    exact ⟨l', m₃, .branch decided reaches, fired⟩

end

/-! ### Places -/

namespace Loop

section

variable {r : Interp} {loop : Loop} {x : Run loop.Place} {m m' : Machine}
  {ps : List (Pass loop.Place)} {ending : Finish loop.Place}

theorem Rounds.first (rounds : loop.Rounds r x m ps ending m') :
    ∃ m₁ place m₂, Run.boundary loop.line m = .ok () m₁ ∧ x m₁ = .ok place m₂ := by
  cases rounds with
  | exhausted fired found => exact ⟨_, _, _, fired, found⟩
  | last passes => exact ⟨_, _, _, passes.fired, passes.found⟩
  | again passes => exact ⟨_, _, _, passes.fired, passes.found⟩

-- What holds of the place and the state where the header decides, pass after pass: it holds at the
-- first header, and after each pass at the next one.
theorem Rounds.places (rounds : loop.Rounds r x m ps ending m')
    {P : Nat → loop.Place → Machine → Prop} {i : Nat}
    (first : ∀ m₁ place m₂, Run.boundary loop.line m = .ok () m₁ → x m₁ = .ok place m₂ →
      P i place m₂)
    (step : ∀ i y p m₁, loop.Passes r y p → P i p.place p.looked →
      Run.boundary loop.line p.left = .ok () m₁ → P (i + 1) p.next m₁) :
    (∀ k p, ps[k]? = some p → P (i + k) p.place p.looked ∧ ∃ y, loop.Passes r y p) ∧
      ∀ header opened looked place, ending = .exhausted header opened looked place →
        P (i + ps.length) place looked ∧ loop.enter r place looked = .ok none m' := by
  induction rounds generalizing i with
  | exhausted fired found nothing =>
    refine ⟨fun k p never => absurd never (by rw [List.getElem?_nil]; exact nofun), ?_⟩
    rintro _ _ _ _ ⟨⟩
    exact ⟨first _ _ _ fired found, nothing⟩
  | @last x p ending passes leaves =>
    refine ⟨fun k q here => ?_, ?_⟩
    · cases k with
      | zero =>
        cases here
        exact ⟨first _ _ _ passes.fired passes.found, x, passes⟩
      | succ k => cases here
    · rintro _ _ _ _ rfl
      cases leaves
  | @again x p ps ending m' passes goesOn rest ih =>
    have here := first _ _ _ passes.fired passes.found
    have others := ih (i := i + 1) fun m₁ place m₂ fired found => by
      cases found
      exact step i x p m₁ passes here fired
    have shift (k : Nat) : i + (k + 1) = i + 1 + k := by omega
    refine ⟨fun k q at_ => ?_, fun header opened looked place same => ?_⟩
    · cases k with
      | zero =>
        cases at_
        exact ⟨here, x, passes⟩
      | succ k =>
        rw [shift]
        exact others.1 k q at_
    · rw [List.length_cons, shift]
      exact others.2 header opened looked place same

end

end Loop

/-! ### Items -/

-- The items of a value of which those count that are present at the start.
inductive Heap.Present (h : Heap) : Value → List Value → Prop
  | str (s : String) : Present h (.str s) (s.toList.map fun c => .str (String.singleton c))
  | tuple {id : ObjId} {items : Array Value} (found : h.get? id = some (.tuple items)) :
    Present h (.ref id) items.toList
  | deque {id : ObjId} {items : Array Value} (found : h.get? id = some (.deque items)) :
    Present h (.ref id) items.toList
  | dict {id : ObjId} {d : DictObject} (found : h.get? id = some (.dict d)) :
    Present h (.ref id) d.keys
  | set {id : ObjId} {s : SetObject} (found : h.get? id = some (.set s)) :
    Present h (.ref id) s.values
  | range {id : ObjId} {p : Progression} {ws : List Int64} (found : h.get? id = some (.range p))
    (nonzero : p.step ≠ 0) (near : p.distance < 2 ^ 63)
    (visits : Visits p.step.toInt p.stop.toInt p.start.toInt (ws.map Int64.toInt)) :
    Present h (.ref id) (ws.map .int)

theorem Visits.unique {step stop i : Int} {is js : List Int} (his : Visits step stop i is)
    (hjs : Visits step stop i js) : is = js := by
  induction his generalizing js with
  | reached past =>
    cases hjs with
    | reached => rfl
    | next before =>
      split at past <;> rename_i up <;> simp only [up, if_true, if_false] at before <;> omega
  | next before _ ih =>
    cases hjs with
    | reached past =>
      split at past <;> rename_i up <;> simp only [up, if_true, if_false] at before <;> omega
    | next _ rest => exact congrArg _ (ih rest)

theorem Iteration.yields_items (vs : List Value) : (Iteration.items vs).Yields vs := by
  induction vs with
  | nil => exact .done fun _ => rfl
  | cons v vs ih => exact .next (fun _ => rfl) ih

section

variable {h : Heap} {it rest : Iteration} {v : Value} {vs : List Value}

theorem Iteration.Yields.of_next? (yields : it.Yields vs) (item : it.next? h = some (v, rest)) :
    ∃ others, vs = v :: others ∧ rest.Yields others := by
  cases yields with
  | done last => cases (last h).symm.trans item
  | next step later =>
    cases (step h).symm.trans item
    exact ⟨_, rfl, later⟩

theorem Iteration.Yields.of_last (yields : it.Yields vs) (last : it.next? h = none) : vs = [] := by
  cases yields with
  | done => rfl
  | next step => cases (step h).symm.trans last

end

theorem Heap.Present.yields {h : Heap} {w : Value} {vs : List Value} (present : h.Present w vs) :
    ∃ it, h.iteration? w = some it ∧ it.Yields vs := by
  cases present with
  | str s => exact ⟨_, rfl, Iteration.yields_items _⟩
  | tuple found | deque found | dict found | set found =>
    refine ⟨_, ?_, Iteration.yields_items _⟩
    rw [Heap.iteration?, found]
  | @range id p ws found nonzero near visits =>
    have same : ws = p.words := List.map_injective_iff.2 (fun _ _ => Int64.toInt_inj.1)
      (visits.unique (p.visits_words nonzero near))
    refine ⟨.progression p.start p.step p.size, ?_, ?_⟩
    · rw [Heap.iteration?, found]
    · rw [same]
      exact Progression.yields_words ..

-- A state in which there is a list; it stays one as the run goes on.
structure Machine.HasList (id : ObjId) (m : Machine) : Prop where
  intact : m.Intact
  found : ∃ l, m.heap.get? id = some (.list l)

theorem Sound.hasList {α : Type} {A : Machine → α → Prop} {x : Run α} {m m' : Machine} {a : α}
    {id : ObjId} (hx : Sound m A x) (has : m.HasList id) (done : x m = .ok a m') :
    m'.HasList id := by
  obtain ⟨intact, later, -⟩ := hx.leaves has.intact done
  obtain ⟨l, found⟩ := has.found
  obtain ⟨o, found', same⟩ := later.object found
  refine ⟨intact, ?_⟩
  cases o with
  | list l' => exact ⟨l', found'⟩
  | _ => cases same

-- The pass is about the value, which is bound to the target.
def Pass.Binds (r : Interp) (line : Nat) (target : Expr) (p : Pass Iteration) (v : Value) : Prop :=
  r.assign line target v p.looked = .ok () p.entered

namespace Loop

variable {r : Interp} {l : Location} {target iter : Expr} {body : List Stmt} {m m' : Machine}

theorem enter_for (it : Iteration) (m : Machine) :
    (Loop.for l target iter body).enter r it m =
      match it.next? m.heap with
      | none => .ok none m
      | some (v, rest) => (r.assign l.line target v >>= fun _ => pure (some rest)) m := by
  change (Run.heap >>= fun h => _) m = _
  rw [Run.heap_bind]
  cases it.next? m.heap <;> rfl

theorem enter_some {it next : Iteration}
    (entered : (Loop.for l target iter body).enter r it m = .ok (some next) m') :
    ∃ v, it.next? m.heap = some (v, next) ∧ r.assign l.line target v m = .ok () m' := by
  rw [enter_for] at entered
  split at entered
  · cases entered
  · next v rest item =>
    obtain ⟨_, m₁, bound, done⟩ := Run.of_bind_ok entered
    cases done
    exact ⟨v, item, bound⟩

theorem enter_none {it : Iteration}
    (entered : (Loop.for l target iter body).enter r it m = .ok none m') :
    it.next? m.heap = none := by
  rw [enter_for] at entered
  split at entered
  · next last => exact last
  · obtain ⟨_, m₁, -, done⟩ := Run.of_bind_ok entered
    cases done

theorem next?_live {h : Heap} {id : ObjId} {i : Nat} {v : Value} {next : Iteration}
    (item : (Iteration.live id i).next? h = some (v, next)) :
    next = .live id (i + 1) ∧ ∃ l, h.get? id = some (.list l) ∧ l.items[i]? = some v := by
  rw [Iteration.next?] at item
  split at item
  · next l found =>
    obtain ⟨u, at_, same⟩ := Option.map_eq_some_iff.1 item
    cases same
    exact ⟨rfl, l, found, at_⟩
  · cases item

variable {n : Nat} {x : Run Iteration} {ps : List (Pass Iteration)} {ending : Finish Iteration}

-- A list is gone through as it is each time, from the first element on.
theorem Rounds.live {id : ObjId}
    (rounds : (Loop.for l target iter body).Rounds (interp n) x m ps ending m')
    (first : ∀ m₁ (place : Iteration) m₂, Run.boundary l.line m = .ok () m₁ → x m₁ = .ok place m₂ →
      place = .live id 0 ∧ (m.Intact → m₂.HasList id)) :
    (∀ (i : Nat) (p : Pass Iteration), ps[i]? = some p → ∃ l' v,
        p.looked.heap.get? id = some (.list l') ∧ l'.items[i]? = some v ∧
          p.Binds (interp n) l.line target v) ∧
      ∀ header opened looked (place : Iteration), ending = .exhausted header opened looked place →
        (m.Intact → ∃ l', looked.heap.get? id = some (.list l')) ∧
          ∀ l', looked.heap.get? id = some (.list l') → l'.items.size ≤ ps.length := by
  have R := interp_sound n
  let P (i : Nat) (place : Iteration) (m₂ : Machine) : Prop :=
    place = .live id i ∧ (m.Intact → m₂.HasList id)
  have step (i : Nat) (y : Run Iteration) (p : Pass Iteration) (m₁ : Machine)
      (passed : (Loop.for l target iter body).Passes (interp n) y p) (here : P i p.place p.looked)
      (fired : Run.boundary l.line p.left = .ok () m₁) : P (i + 1) p.next m₁ := by
    obtain ⟨at_, has⟩ := here
    obtain ⟨v, item, bound⟩ := enter_some passed.entered
    rw [at_] at item
    refine ⟨(next?_live item).1, fun intact => ?_⟩
    have has := has intact
    have hosts : p.looked.heap.Hosts (Iteration.live id i) := trivial
    have hv := (has.intact.heap.next? hosts item).1
    have entered := (R.assign l.line target hv).hasList has bound
    exact (Sound.boundary l.line).hasList ((R.block _ body).hasList entered passed.ran) fired
  obtain ⟨passes, exhausted⟩ := rounds.places (P := P) (i := 0) first step
  refine ⟨fun i p here => ?_, fun header opened looked place ends => ?_⟩
  · obtain ⟨⟨at_, -⟩, y, passed⟩ := passes i p here
    obtain ⟨v, item, bound⟩ := enter_some passed.entered
    rw [at_, Nat.zero_add] at item
    obtain ⟨-, l', found, inside⟩ := next?_live item
    exact ⟨l', v, found, inside, bound⟩
  · obtain ⟨⟨at_, has⟩, nothing⟩ := exhausted header opened looked place ends
    refine ⟨fun intact => (has intact).found, fun l' found => ?_⟩
    have last := enter_none nothing
    rw [at_, Nat.zero_add] at last
    rw [Iteration.next?, found] at last
    exact Array.getElem?_eq_none_iff.1 (Option.map_eq_none_iff.1 last)

-- Of other values the items count that are present at the start.
theorem Rounds.present {vs : List Value}
    (rounds : (Loop.for l target iter body).Rounds (interp n) x m ps ending m')
    (first : ∀ m₁ (place : Iteration) m₂, Run.boundary l.line m = .ok () m₁ →
      x m₁ = .ok place m₂ → place.Yields vs) :
    (∀ (i : Nat) (p : Pass Iteration), ps[i]? = some p →
        ∃ v, vs[i]? = some v ∧ p.Binds (interp n) l.line target v) ∧
      ∀ header opened looked (place : Iteration),
        ending = .exhausted header opened looked place → ps.length = vs.length := by
  let P (i : Nat) (place : Iteration) (_ : Machine) : Prop :=
    place.Yields (vs.drop i) ∧ i ≤ vs.length
  have start (m₁ : Machine) (place : Iteration) (m₂ : Machine)
      (fired : Run.boundary l.line m = .ok () m₁) (found : x m₁ = .ok place m₂) : P 0 place m₂ :=
    ⟨first m₁ place m₂ fired found, Nat.zero_le _⟩
  have step (i : Nat) (y : Run Iteration) (p : Pass Iteration) (m₁ : Machine)
      (passed : (Loop.for l target iter body).Passes (interp n) y p) (here : P i p.place p.looked)
      (_ : Run.boundary l.line p.left = .ok () m₁) : P (i + 1) p.next m₁ := by
    obtain ⟨v, item, bound⟩ := enter_some passed.entered
    obtain ⟨rest, split, yields⟩ := here.1.of_next? item
    have more : i < vs.length := by
      refine Nat.lt_of_not_le fun past => ?_
      rw [List.drop_eq_nil_of_le past] at split
      cases split
    refine ⟨?_, more⟩
    rwa [← List.tail_drop, split]
  obtain ⟨passes, exhausted⟩ := rounds.places (P := P) (i := 0) start step
  refine ⟨fun i p here => ?_, fun header opened looked place ends => ?_⟩
  · obtain ⟨⟨yields, -⟩, y, passed⟩ := passes i p here
    obtain ⟨v, item, bound⟩ := enter_some passed.entered
    obtain ⟨rest, split, -⟩ := yields.of_next? item
    rw [Nat.zero_add] at split
    refine ⟨v, ?_, bound⟩
    rw [← List.head?_drop, split]
    rfl
  · obtain ⟨⟨yields, few⟩, nothing⟩ := exhausted header opened looked place ends
    have done := List.drop_eq_nil_iff.1 (yields.of_last (enter_none nothing))
    omega

-- What the passes of a loop are about that goes through `w`: the elements of a list as it is each
-- time, or the items that are present at the start.
structure GoesThrough (r : Interp) (line : Nat) (target : Expr) (intact : Prop) (h : Heap)
    (w : Value) (ps : List (Pass Iteration)) (ending : Finish Iteration) : Prop where
  element : ∀ id l, w = .ref id → h.get? id = some (.list l) →
    ∀ (i : Nat) (p : Pass Iteration), ps[i]? = some p → ∃ l' v,
      p.looked.heap.get? id = some (.list l') ∧ l'.items[i]? = some v ∧ p.Binds r line target v
  lastElement : ∀ id l, w = .ref id → h.get? id = some (.list l) →
    ∀ header opened looked place, ending = .exhausted header opened looked place →
      (intact → ∃ l', looked.heap.get? id = some (.list l')) ∧
        ∀ l', looked.heap.get? id = some (.list l') → l'.items.size ≤ ps.length
  item : ∀ vs, h.Present w vs → ∀ (i : Nat) (p : Pass Iteration), ps[i]? = some p →
    ∃ v, vs[i]? = some v ∧ p.Binds r line target v
  lastItem : ∀ vs, h.Present w vs → ∀ header opened looked place,
    ending = .exhausted header opened looked place → ps.length = vs.length

theorem Rounds.goesThrough
    (rounds : (Loop.for l target iter body).Rounds (interp n)
      ((Loop.for l target iter body).start (interp n)) m ps ending m') :
    ∃ m₁ v m₂ j k w m₃, Run.boundary l.line m = .ok () m₁ ∧
      (interp n).eval iter m₁ = .ok v m₂ ∧ n = j + k ∧ HandedOver j k m₂ v m₃ w ∧
      GoesThrough (interp n) l.line target m.Intact m₃.heap w ps ending := by
  have R := interp_sound n
  obtain ⟨m₁, place, m₃, fired, found⟩ := rounds.first
  obtain ⟨v, m₂, evaluated, asked⟩ := Run.of_bind_ok (f := (interp n).iteration) found
  obtain ⟨j, k, rfl, m₄, w, way, ends⟩ := exists_handedOver n m₂ v
  rw [asked] at ends
  obtain @⟨_, own⟩ := ends
  -- The iteration starts once.
  have start {P : Iteration → Machine → Prop} (here : P place m₃) (m₁' : Machine)
      (place' : Iteration) (m₃' : Machine) (fired' : Run.boundary l.line m = .ok () m₁')
      (found' : (Loop.for l target iter body).start (interp (j + k)) m₁' = .ok place' m₃') :
      P place' m₃' := by
    cases fired.symm.trans fired'
    cases found.symm.trans found'
    exact here
  have listed {id : ObjId} {l' : ListObject} (same : w = .ref id)
      (there : m₃.heap.get? id = some (.list l')) :
      place = .live id 0 ∧ (m.Intact → m₃.HasList id) := by
    refine ⟨?_, fun intact => ⟨?_, l', there⟩⟩
    · rw [same, Heap.iteration?, there] at own
      exact (Option.some.inj own).symm
    · have intact₁ := ((Sound.boundary l.line).leaves intact fired).1
      have safe : Safe m₁ ((interp (j + k)).eval iter >>= (interp (j + k)).iteration) :=
        .bind (R.eval m₁ iter) fun _ _ _ hv => R.iteration hv
      exact (safe.leaves intact₁ found).1
  have live {id : ObjId} {l' : ListObject} (same : w = .ref id)
      (there : m₃.heap.get? id = some (.list l')) :=
    rounds.live (start (P := fun place m₃ => place = .live id 0 ∧ (m.Intact → m₃.HasList id))
      (listed same there))
  have present {vs : List Value} (present : m₃.heap.Present w vs) :=
    rounds.present <| start (P := fun place _ => place.Yields vs) <| by
      obtain ⟨it, other, yields⟩ := present.yields
      cases own.symm.trans other
      exact yields
  exact ⟨m₁, v, m₂, j, k, w, m₃, fired, evaluated, rfl, way, {
    element := fun _ _ same there => (live same there).1
    lastElement := fun _ _ same there => (live same there).2
    item := fun _ there => (present there).1
    lastItem := fun _ there => (present there).2 }⟩

theorem Passes.jump_iff {loop : Loop} {y : Run loop.Place} {p : Pass loop.Place}
    (passed : loop.Passes (interp n) y p) (j : Jump) :
    p.flow = j.flow ↔ ∃ l m₁, Reaches (n - 1) loop.body p.entered (j.stmt l) m₁ ∧
      Run.boundary l.line m₁ = .ok () p.left := by
  have ran := passed.ran
  cases n with
  | zero => cases ran
  | succ n =>
    rw [Nat.add_sub_cancel, ← execBlock_jump_iff]
    change (interp n).execBlock loop.body p.entered = _ at ran
    rw [ran]
    exact ⟨fun same => by rw [same], fun same => (EStateM.Result.ok.inj same).1⟩

theorem Rounds.passed {r : Interp} {loop : Loop} {y : Run loop.Place}
    {qs : List (Pass loop.Place)} {end_ : Finish loop.Place}
    (rounds : loop.Rounds r y m qs end_ m') : ∀ p ∈ qs, ∃ y, loop.Passes r y p := by
  induction rounds with
  | exhausted => exact List.forall_mem_nil _
  | last passes => exact List.forall_mem_singleton.2 ⟨_, passes⟩
  | again passes _ _ ih => exact List.forall_mem_cons.2 ⟨⟨_, passes⟩, ih⟩

end Loop

/--
A loop fires the boundary of its header before every pass, and once more if it ends there. The
steps of a pass come between its header and the next one. A jump ends a pass of the loop whose own
statement it is and leaves no loop, and the passes of a `for` loop are about the elements of a list
as it is each time, or about the items that are present at the start.
-/
theorem loops_fire_one_boundary_per_header (n : Nat) (m m' : Machine) :
    (∀ (loop : Loop) (flow : Flow), (interp n).runStmt loop.stmt m = .ok flow m' →
      ∃ ps ending, loop.Rounds (interp n) (loop.start (interp n)) m ps ending m' ∧
        flow = ending.flow ∧
        (Loop.headers ps ending).length = ending.headerCount ps.length ∧
        (∀ h ∈ Loop.headers ps ending, Run.boundary loop.line h.1 = .ok () h.2 ∧
          ∃ step, step.line = loop.line ∧ h.1.since h.2 = [step]) ∧
        m'.steps.toList = m.steps.toList ++ (ps.flatMap Pass.steps ++ ending.steps m') ∧
        ∀ p ∈ ps, ∀ j : Jump, p.flow = j.flow ↔
          ∃ l m₁, Reaches (n - 1) loop.body p.entered (j.stmt l) m₁ ∧
            Run.boundary l.line m₁ = .ok () p.left) ∧
    ∀ l target iter body ps ending,
      (Loop.for l target iter body).Rounds (interp n)
        ((Loop.for l target iter body).start (interp n)) m ps ending m' →
      ∃ m₁ v m₂ j k w m₃, Run.boundary l.line m = .ok () m₁ ∧
        (interp n).eval iter m₁ = .ok v m₂ ∧ n = j + k ∧ HandedOver j k m₂ v m₃ w ∧
        Loop.GoesThrough (interp n) l.line target m.Intact m₃.heap w ps ending := by
  refine ⟨fun loop flow ran => ?_, fun l target iter body ps ending => Loop.Rounds.goesThrough⟩
  obtain ⟨ps, ending, rounds, same⟩ := Loop.rounds_of_runStmt ran
  obtain ⟨precedes, steps⟩ := rounds.steps (Loop.adds n loop) (Loop.adds n loop).start
  refine ⟨ps, ending, rounds, same, Loop.length_headers, fun h here => ?_, ?_, fun p here j => ?_⟩
  · have fired := rounds.fired h here
    exact ⟨fired, (Machine.since_boundary fired).2⟩
  · rw [← steps, Machine.append_since precedes]
  · obtain ⟨y, passed⟩ := rounds.passed p here
    exact passed.jump_iff j

def Flow.isNormal : Flow → Bool
  | normal => true
  | _ => false

theorem Flow.eq_of_isNormal {flow : Flow} (h : flow.isNormal = true) : flow = .normal := by
  cases flow with
  | normal => rfl
  | _ => cases h

-- `for x in "ab": pass`
def Loop.overText : Loop := .for ⟨1, 1⟩ (.name ⟨1, 5⟩ "x") (.str ⟨1, 10⟩ "ab") [.pass ⟨1, 16⟩]

theorem loops_fire_one_boundary_per_header_text :
    ∃ m' ps ending, (interp 4).runStmt Loop.overText.stmt (.start {} []) = .ok .normal m' ∧
      Loop.overText.Rounds (interp 4) (Loop.overText.start (interp 4)) (.start {} []) ps ending m' ∧
      (Loop.headers ps ending).length = ending.headerCount ps.length ∧
      ∃ h w, Loop.GoesThrough (interp 4) 1 (.name ⟨1, 5⟩ "x") (Machine.start {} []).Intact h w ps
        ending := by
  have ends : ((interp 4).runStmt Loop.overText.stmt).ends (.start {} [])
      (fun flow _ => flow.isNormal) = true := by decide +kernel
  obtain ⟨flow, m', ran, normal⟩ := Run.of_ends ends
  obtain rfl := Flow.eq_of_isNormal normal
  obtain ⟨ps, ending, rounds, -, count, -⟩ :=
    (loops_fire_one_boundary_per_header 4 (.start {} []) m').1 Loop.overText .normal ran
  obtain ⟨_, _, _, _, _, w, m₃, -, -, -, -, through⟩ :=
    (loops_fire_one_boundary_per_header 4 (.start {} []) m').2 _ _ _ _ ps ending rounds
  exact ⟨m', ps, ending, ran, rounds, count, m₃.heap, w, through⟩

-- A range with three items, of which a loop visits one.
theorem far_ranges_are_left_early :
    Visits 9223372036854775807 9223372036854775807 (-9223372036854775808)
      [-9223372036854775808, -1, 9223372036854775806] ∧
    ∃ s m', parseProgram ("for x in range(-9223372036854775807 - 1, 9223372036854775807, " ++
        "9223372036854775807):\n    print(x)\n") = .ok [s] ∧
      (interp 20).runStmt s (.start {} []) = .ok .normal m' ∧
      m'.steps.toList.map Step.line = [1, 2, 1] ∧ m'.output = "-9223372036854775808\n" := by
  constructor
  · exact .next (by decide) (.next (by decide) (.next (by decide) (.reached (by decide))))
  · have shape : (parseProgram ("for x in range(-9223372036854775807 - 1, 9223372036854775807, " ++
        "9223372036854775807):\n    print(x)\n")).toOption.any (fun p => p.length = 1 ∧
      ∀ s ∈ p, ((interp 20).runStmt s).ends (.start {} []) fun flow m =>
        flow.isNormal ∧ m.steps.toList.map Step.line = [1, 2, 1] ∧
          m.output = "-9223372036854775808\n") = true := by
      rw [← String.ofList_append, parseProgram_ofList]
      decide +kernel
    obtain ⟨p, parsed, shape⟩ := Except.of_any shape
    obtain ⟨one, all⟩ := of_decide_eq_true shape
    obtain ⟨s, rfl⟩ := List.length_eq_one_iff.1 one
    obtain ⟨flow, m', ran, passed⟩ := Run.of_ends (all s List.mem_cons_self)
    obtain ⟨normal, steps, output⟩ := of_decide_eq_true passed
    obtain rfl := Flow.eq_of_isNormal normal
    exact ⟨s, m', parsed, ran, steps, output⟩

end StepTrace
