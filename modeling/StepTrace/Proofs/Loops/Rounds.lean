import StepTrace.Proofs.Dispatch.HandOvers

/-!
Loops, pass after pass: the boundary of the header, what the header decides, and the body. Both
kinds of loop are one, which goes on from place to place.
-/

set_option autoImplicit false

namespace StepTrace

/-! ### Loops -/

inductive Loop
  | while (l : Location) (condition : Expr) (body : List Stmt)
  | for (l : Location) (target iter : Expr) (body : List Stmt)

namespace Loop

def stmt : Loop → Stmt
  | .while l condition body => .while l condition body
  | .for l target iter body => .for l target iter body

def line : Loop → Nat
  | .while l .. | .for l .. => l.line

def body : Loop → List Stmt
  | .while _ _ body | .for _ _ _ body => body

-- What is left to go through.
@[reducible]
def Place : Loop → Type
  | .while .. => Unit
  | .for .. => Iteration

-- What is evaluated once, before the first pass.
def start (r : Interp) : (loop : Loop) → Run loop.Place
  | .while .. => pure ()
  | .for _ _ iter _ => do r.iteration (← r.eval iter)

-- What the header decides: whether there is one more pass, and from where to go on after it.
def enter (r : Interp) : (loop : Loop) → loop.Place → Run (Option loop.Place)
  | .while _ condition _, _ => do
    if ← r.truth (← r.eval condition) then return some () else return none
  | .for l target _ _, it => do
    match it.next? (← Run.heap) with
    | none => return none
    | some (v, it) =>
      r.assign l.line target v
      return some it

-- A loop after the boundary of its header.
def go (r : Interp) (loop : Loop) : (fuel : Nat) → loop.Place → Run Flow
  | 0, _ => Run.outOfFuel
  | fuel + 1, place => do
    match ← loop.enter r place with
    | none => return .normal
    | some next =>
      match ← r.block loop.body with
      | .broken => return .normal
      | .returned v => return .returned v
      | .normal | .continued =>
        Run.boundary loop.line
        loop.go r fuel next

end Loop

namespace Interp

-- A statement with the boundary before it.
def runStmt (r : Interp) (s : Stmt) : Run Flow := do
  Run.boundary s.location.line
  r.execStmt s

theorem execBlock_cons (r : Interp) (s : Stmt) (rest : List Stmt) :
    r.execBlock (s :: rest) = r.runStmt s >>= fun
      | .normal => r.execBlock rest
      | flow => return flow := by
  rw [runStmt, bind_assoc]
  rfl

theorem whileLoop_eq_go (r : Interp) (l : Location) (condition : Expr) (body : List Stmt)
    (fuel : Nat) :
    r.whileLoop l.line condition body fuel = (Loop.while l condition body).go r fuel () := by
  induction fuel with
  | zero => rfl
  | succ fuel ih =>
    rw [whileLoop, Loop.go, Loop.enter]
    simp only [bind_assoc]
    refine bind_congr fun v => bind_congr fun t => ?_
    cases t with
    | true =>
      refine bind_congr fun flow => ?_
      cases flow <;> first | rfl | exact bind_congr fun _ => ih
    | false => rfl

theorem forLoop_eq_go (r : Interp) (l : Location) (target iter : Expr) (body : List Stmt)
    (fuel : Nat) (it : Iteration) :
    r.forLoop l.line target body fuel it = (Loop.for l target iter body).go r fuel it := by
  induction fuel generalizing it with
  | zero => rfl
  | succ fuel ih =>
    rw [forLoop, Loop.go, Loop.enter]
    simp only [bind_assoc]
    refine bind_congr fun h => ?_
    cases it.next? h with
    | none => rfl
    | some next =>
      obtain ⟨v, rest⟩ := next
      dsimp only
      rw [bind_assoc]
      refine bind_congr fun _ => bind_congr fun flow => ?_
      cases flow <;> first | rfl | exact bind_congr fun _ => ih rest

theorem execStmt_loop (r : Interp) (loop : Loop) :
    r.execStmt loop.stmt = loop.start r >>= loop.go r r.fuel := by
  cases loop with
  | «while» l condition body => exact r.whileLoop_eq_go l condition body r.fuel
  | «for» l target iter body =>
    change (r.eval iter >>= fun v => r.iteration v >>= r.forLoop l.line target body r.fuel) = _
    rw [funext (r.forLoop_eq_go l target iter body r.fuel)]
    exact (bind_assoc ..).symm

theorem runStmt_loop (r : Interp) (loop : Loop) :
    r.runStmt loop.stmt =
      Run.boundary loop.line >>= fun _ => loop.start r >>= loop.go r r.fuel := by
  rw [runStmt, execStmt_loop]
  cases loop <;> rfl

end Interp

/-! ### Passes -/

-- A pass of a loop, by the states it goes through: before and after the boundary of the header,
-- where the header decides, and where the body is entered and left.
structure Pass (Place : Type) where
  header : Machine
  opened : Machine
  looked : Machine
  entered : Machine
  left : Machine
  place : Place
  next : Place
  flow : Flow

-- How a loop ends: at its header, or in its body.
inductive Finish (Place : Type)
  | exhausted (header opened looked : Machine) (place : Place)
  | broken
  | returned (v : Value)

namespace Finish

variable {Place : Type}

def flow : Finish Place → Flow
  | exhausted .. | broken => .normal
  | returned v => .returned v

-- The boundaries that are left when the passes are over, with the states before and after.
def headers : Finish Place → List (Machine × Machine)
  | exhausted header opened _ _ => [(header, opened)]
  | broken | returned _ => []

-- The number of boundaries of the header, if `k` passes come before the end.
def headerCount (k : Nat) : Finish Place → Nat
  | exhausted .. => k + 1
  | broken | returned _ => k

-- The body ends the loop.
inductive Leaves : Finish Place → Flow → Prop
  | broken : Leaves .broken .broken
  | returned (v : Value) : Leaves (.returned v) (.returned v)

theorem Leaves.headers {ending : Finish Place} {flow : Flow} (leaves : ending.Leaves flow) :
    ending.headers = [] := by
  cases leaves <;> rfl

end Finish

namespace Loop

section

variable (r : Interp) (loop : Loop)

-- A pass, where `x` finds the place to go on from.
structure Passes (x : Run loop.Place) (p : Pass loop.Place) : Prop where
  fired : Run.boundary loop.line p.header = .ok () p.opened
  found : x p.opened = .ok p.place p.looked
  entered : loop.enter r p.place p.looked = .ok (some p.next) p.entered
  ran : r.block loop.body p.entered = .ok p.flow p.left

-- A run of a loop from before the boundary of its header. Every pass starts where the one before is
-- left, and goes on from the place that the one before gives.
inductive Rounds : Run loop.Place → Machine → List (Pass loop.Place) → Finish loop.Place →
    Machine → Prop
  | exhausted {x : Run loop.Place} {m m₁ m₂ m' : Machine} {place : loop.Place}
    (fired : Run.boundary loop.line m = .ok () m₁) (found : x m₁ = .ok place m₂)
    (nothing : loop.enter r place m₂ = .ok none m') :
    Rounds x m [] (.exhausted m m₁ m₂ place) m'
  | last {x : Run loop.Place} {p : Pass loop.Place} {ending : Finish loop.Place}
    (passes : loop.Passes r x p) (leaves : ending.Leaves p.flow) :
    Rounds x p.header [p] ending p.left
  | again {x : Run loop.Place} {p : Pass loop.Place} {ps : List (Pass loop.Place)}
    {ending : Finish loop.Place} {m' : Machine} (passes : loop.Passes r x p)
    (goesOn : p.flow = .normal ∨ p.flow = .continued)
    (rest : Rounds (pure p.next) p.left ps ending m') : Rounds x p.header (p :: ps) ending m'

end

variable {r : Interp} {loop : Loop} {x : Run loop.Place} {m m₁ m₂ m' : Machine}
  {place : loop.Place} {ps : List (Pass loop.Place)} {ending : Finish loop.Place} {flow : Flow}

-- The induction is on the fuel of the loop; one step is one pass.
theorem rounds_of_go {fuel : Nat} (fired : Run.boundary loop.line m = .ok () m₁)
    (found : x m₁ = .ok place m₂) (ran : loop.go r fuel place m₂ = .ok flow m') :
    ∃ ps ending, loop.Rounds r x m ps ending m' ∧ flow = ending.flow := by
  induction fuel generalizing x m m₁ m₂ place with
  | zero => cases ran
  | succ fuel ih =>
    obtain ⟨choice, m₃, entered, ran⟩ := Run.of_bind_ok ran
    cases choice with
    | none =>
      cases ran
      exact ⟨[], _, .exhausted fired found entered, rfl⟩
    | some next =>
      obtain ⟨end_, m₄, body, ran⟩ := Run.of_bind_ok ran
      let p : Pass loop.Place := ⟨m, m₁, m₂, m₃, m₄, place, next, end_⟩
      have passes : loop.Passes r x p := ⟨fired, found, entered, body⟩
      have again (goesOn : end_ = .normal ∨ end_ = .continued)
          (ran : (Run.boundary loop.line >>= fun _ => loop.go r fuel next) m₄ = .ok flow m') :
          ∃ ps ending, loop.Rounds r x m ps ending m' ∧ flow = ending.flow := by
        obtain ⟨_, m₅, fired', ran⟩ := Run.of_bind_ok ran
        obtain ⟨ps, ending, rest, same⟩ := ih (x := pure next) fired' rfl ran
        exact ⟨p :: ps, ending, .again passes goesOn rest, same⟩
      cases end_ with
      | normal => exact again (.inl rfl) ran
      | continued => exact again (.inr rfl) ran
      | broken =>
        cases ran
        exact ⟨[p], .broken, .last passes .broken, rfl⟩
      | returned v =>
        cases ran
        exact ⟨[p], .returned v, .last passes (.returned v), rfl⟩

theorem rounds_of_runStmt (ran : r.runStmt loop.stmt m = .ok flow m') :
    ∃ ps ending, loop.Rounds r (loop.start r) m ps ending m' ∧ flow = ending.flow := by
  rw [Interp.runStmt_loop] at ran
  obtain ⟨_, m₁, fired, ran⟩ := Run.of_bind_ok ran
  obtain ⟨place, m₂, found, ran⟩ := Run.of_bind_ok ran
  exact rounds_of_go fired found ran

-- The boundaries of the header, with the states before and after.
def headers (ps : List (Pass loop.Place)) (ending : Finish loop.Place) : List (Machine × Machine) :=
  ps.map (fun p => (p.header, p.opened)) ++ ending.headers

theorem Rounds.fired (rounds : loop.Rounds r x m ps ending m') :
    ∀ h ∈ headers ps ending, Run.boundary loop.line h.1 = .ok () h.2 := by
  induction rounds with
  | exhausted fired => exact List.forall_mem_singleton.2 fired
  | last passes leaves =>
    rw [headers, leaves.headers]
    exact List.forall_mem_singleton.2 passes.fired
  | again passes _ _ ih => exact List.forall_mem_cons.2 ⟨passes.fired, ih⟩

theorem length_headers : (headers ps ending).length = ending.headerCount ps.length := by
  rw [headers, List.length_append, List.length_map]
  cases ending <;> rfl

end Loop

/-! ### Steps -/

namespace Machine

-- The steps that are recorded between two states.
def since (m m' : Machine) : List Step := m'.steps.toList.drop m.steps.size

def RecordedIn (m m' : Machine) : Prop := m.steps.toList <+: m'.steps.toList

variable {m m₁ m₂ : Machine}

theorem append_since (h : m.RecordedIn m₁) : m.steps.toList ++ m.since m₁ = m₁.steps.toList := by
  obtain ⟨added, same⟩ := h
  rw [since, ← same, ← Array.length_toList, List.drop_left]

theorem since_append (first : m.RecordedIn m₁) (rest : m₁.RecordedIn m₂) :
    m.since m₁ ++ m₁.since m₂ = m.since m₂ := by
  have both := (append_since (first.trans rest)).trans (append_since rest).symm
  rw [← append_since first, List.append_assoc] at both
  exact (List.append_cancel_left both).symm

theorem since_boundary {line : Nat} (fired : Run.boundary line m = .ok () m₁) :
    m.RecordedIn m₁ ∧ ∃ step, step.line = line ∧ m.since m₁ = [step] := by
  obtain ⟨-, rfl⟩ := Run.of_boundary_ok fired
  have steps := steps_record { m with lastLine := line } (Step.atLine line)
  let step := { m with lastLine := line }.toStep (Step.atLine line)
  refine ⟨⟨[step], steps.symm⟩, step, rfl, ?_⟩
  rw [since, steps, ← Array.length_toList]
  exact List.drop_left

end Machine

-- The steps of a pass: of its header and of its body.
def Pass.steps {Place : Type} (p : Pass Place) : List Step :=
  p.header.since p.opened ++ p.opened.since p.entered ++ p.entered.since p.left

-- The steps of the header after the passes, if the loop ends there.
def Finish.steps {Place : Type} (m' : Machine) : Finish Place → List Step
  | exhausted header opened _ _ => header.since opened ++ opened.since m'
  | broken | returned _ => []

theorem Finish.Leaves.steps {Place : Type} {ending : Finish Place} {flow : Flow}
    (leaves : ending.Leaves flow) (m' : Machine) : ending.steps m' = [] := by
  cases leaves <;> rfl

-- A computation that takes no step back.
def Run.Adds {α : Type} (x : Run α) : Prop :=
  ∀ {m m' : Machine} {a : α}, x m = .ok a m' → m.RecordedIn m'

namespace Loop

variable {r : Interp} {loop : Loop} {x : Run loop.Place} {m m' : Machine} {p : Pass loop.Place}
  {ps : List (Pass loop.Place)} {ending : Finish loop.Place}

structure Adds (r : Interp) (loop : Loop) : Prop where
  start : (loop.start r).Adds
  enter : ∀ place, (loop.enter r place).Adds
  body : (r.block loop.body).Adds

theorem Passes.steps (passes : loop.Passes r x p) (adds : loop.Adds r) (first : x.Adds) :
    p.header.RecordedIn p.left ∧ p.steps = p.header.since p.left := by
  have opened := (Machine.since_boundary passes.fired).1
  have entered := (first passes.found).trans (adds.enter _ passes.entered)
  have left := adds.body passes.ran
  refine ⟨(opened.trans entered).trans left, ?_⟩
  rw [Pass.steps, Machine.since_append opened entered,
    Machine.since_append (opened.trans entered) left]

-- The induction is on the passes, whose steps follow each other.
theorem Rounds.steps (rounds : loop.Rounds r x m ps ending m') (adds : loop.Adds r)
    (first : x.Adds) :
    m.RecordedIn m' ∧ m.since m' = ps.flatMap Pass.steps ++ ending.steps m' := by
  induction rounds with
  | exhausted fired found nothing =>
    have opened := (Machine.since_boundary fired).1
    have decided := (first found).trans (adds.enter _ nothing)
    exact ⟨opened.trans decided, (Machine.since_append opened decided).symm⟩
  | @last x p ending passes leaves =>
    obtain ⟨precedes, steps⟩ := passes.steps adds first
    refine ⟨precedes, ?_⟩
    rw [leaves.steps, List.flatMap_singleton, List.append_nil, steps]
  | @again x p ps ending m' passes _ _ ih =>
    obtain ⟨precedes, steps⟩ := passes.steps adds first
    have still : (pure p.next : Run loop.Place).Adds := by
      rintro m _ _ ⟨⟩
      exact List.prefix_rfl
    obtain ⟨later, others⟩ := ih still
    refine ⟨precedes.trans later, ?_⟩
    rw [List.flatMap_cons, List.append_assoc, ← others, steps,
      Machine.since_append precedes later]

end Loop

section

variable {n : Nat}

theorem Run.adds_of_lockstep {α : Type} {x : Run α}
    (h : Lockstep ⟨false, false, true, true⟩ .all Eq x x) : x.Adds := by
  intro m m' a done
  have grown := (h.grows (growth_steps _) rfl rfl m).state
  rwa [done] at grown

theorem Loop.adds (n : Nat) (loop : Loop) : loop.Adds (interp n) := by
  have R := Interp.selfStep n
  have eval (e : Expr) := R.eval (p := .all) false (Bool.le_refl false) e trivial
  have block (body : List Stmt) : ((interp n).block body).Adds :=
    Run.adds_of_lockstep (R.block rfl false (Bool.le_refl false) body (Bool.le_true _))
  cases loop with
  | «while» l condition body =>
    refine ⟨Run.adds_of_lockstep (.ret ()), fun _ => Run.adds_of_lockstep ?_, block body⟩
    refine .seq (eval condition) fun v => .seq (R.truth v) fun
      | true => .ret _
      | false => .ret _
  | «for» l target iter body =>
    refine ⟨Run.adds_of_lockstep (.seq (eval iter) fun v => R.iteration v), fun it => ?_,
      block body⟩
    refine Run.adds_of_lockstep (.onHeap fun h h' H => ?_)
    rw [H.next?]
    split
    · exact .ret _
    · exact .seq (R.assign (t := false) (Bool.le_refl false) _ _ _ fun _ _ => trivial)
        fun _ => .ret _

end

end StepTrace
