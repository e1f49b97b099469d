import StepTrace.Proofs.Fuel
import StepTrace.Proofs.Literals.RoundTrip
import StepTrace.Proofs.Mappings
import StepTrace.Proofs.Methods
import StepTrace.Proofs.Runs
import StepTrace.Proofs.Soundness.World

/-!
Runs that only fuel stops. A list is gone through as it is at each step, so an iteration that
lengthens its list at each step has no end; in a comprehension it meets no boundary on its way, and
needs no room for objects or frames either.
-/

set_option autoImplicit false

namespace StepTrace

/-! ### Runs that end well, unless their fuel is spent first -/

def Run.Reaches {α : Type} (x : Run α) (m : Machine) (Q : α → Machine → Prop) : Prop :=
  (∃ m', x m = .error .outOfFuel m') ∨ ∃ a m', x m = .ok a m' ∧ Q a m'

-- Whatever the fuel is, it is spent.
def Run.Endless {α : Type} (x : Run α) (m : Machine) : Prop := x.Reaches m fun _ _ => False

namespace Run.Reaches

variable {α β : Type} {x : Run α} {f : α → Run β} {m : Machine} {P Q : α → Machine → Prop}
  {R : β → Machine → Prop}

theorem ok {a : α} {t : Machine} (h : x m = .ok a t) (q : Q a t) : x.Reaches m Q :=
  .inr ⟨a, t, h, q⟩

theorem outOfFuel : (Run.outOfFuel : Run α).Reaches m Q := .inl ⟨m, rfl⟩

theorem mono (h : x.Reaches m P) (le : ∀ a m', P a m' → Q a m') : x.Reaches m Q := by
  rcases h with spent | ⟨a, m', done, p⟩
  · exact .inl spent
  · exact .inr ⟨a, m', done, le a m' p⟩

theorem bind (hx : x.Reaches m P) (hf : ∀ a m', P a m' → (f a).Reaches m' R) :
    (x >>= f).Reaches m R := by
  rcases hx with ⟨m', spent⟩ | ⟨a, m', done, p⟩
  · exact .inl ⟨m', bind_error spent⟩
  · have rest := hf a m' p
    unfold Run.Reaches at rest ⊢
    rwa [bind_ok done]

theorem bind_ok {a : α} {t : Machine} (h : x m = .ok a t) (hf : (f a).Reaches t R) :
    (x >>= f).Reaches m R := by
  unfold Run.Reaches at hf ⊢
  rwa [Run.bind_ok h]

theorem putBack {g : α → β} {leave : α → Machine → Machine} {fail : Machine → Machine} {y : Run β}
    {m₁ : Machine} (same : y m = Run.putBack g leave fail (x m₁))
    (h : x.Reaches m₁ fun a m₂ => R (g a) (leave a m₂)) : y.Reaches m R := by
  rcases h with ⟨m₂, spent⟩ | ⟨a, m₂, done, r⟩
  · exact .inl ⟨fail m₂, by rw [same, spent]; rfl⟩
  · exact .inr ⟨g a, leave a m₂, by rw [same, done]; rfl, r⟩

theorem inFrame {f : Frame} (room : m.depth < m.config.maxCallDepth)
    (h : x.Reaches { m with frame := f, callers := m.frame :: m.callers } fun a m₁ =>
      Q a { m₁ with frame := m.frame, callers := m.callers }) : (Run.inFrame f x).Reaches m Q :=
  putBack ((Run.inFrame_eq f x m).trans (if_pos room)) h

theorem deeper (room : m.evaluating < evaluationLimit)
    (h : x.Reaches m.deepen fun a m₁ =>
      Q a { m₁ with evaluating := m.evaluating }) : (Run.deeper x).Reaches m Q :=
  putBack ((Run.deeper_eq x m).trans (if_pos room)) h

theorem eval {n : Nat} {e : Expr} {Q : Value → Machine → Prop}
    (room : m.evaluating < evaluationLimit)
    (h : ∀ k, ((interp k).evalExpr e).Reaches m.deepen fun v m₁ =>
      Q v { m₁ with evaluating := m.evaluating }) : ((interp n).eval e).Reaches m Q := by
  cases n with
  | zero => exact outOfFuel
  | succ n =>
    change (atLevel n (Run.deeper ((interp n).evalExpr e))).Reaches m Q
    rw [atLevel_eq]
    exact deeper room (h n)

end Run.Reaches

theorem Run.Endless.bind {α β : Type} {x : Run α} {f : α → Run β} {m : Machine}
    (h : x.Endless m) : (x >>= f).Endless m :=
  Reaches.bind h fun _ _ never => False.elim never

namespace Interp

-- What a block does that ends well with some fuel, it does with any that suffices.
theorem reaches_of_ok {n : Nat} {body : List Stmt} {m m' : Machine} {flow : Flow}
    (done : (interp n).execBlock body m = .ok flow m') (k : Nat) :
    ((interp k).execBlock body).Reaches m fun flow' m₁ => flow' = flow ∧ m₁ = m' := by
  have lockstep {n k : Nat} (le : n ≤ k) : Answer (fun m m' => m' = m) (fun _ _ => True)
      (fun e _ _ => e = .outOfFuel) Eq ((interp n).execBlock body m)
      ((interp k).execBlock body m) :=
    fuelSimulation.run ((interp_inStep rfl (.ofLe rfl le)).execBlock (Bool.le_refl false) rfl body
      (Bool.le_true _)) rfl
  rcases Nat.le_total n k with le | le
  · have answer := lockstep le
    rw [done] at answer
    generalize reached : (interp k).execBlock body m = result at answer
    cases answer with
    | ok values states => exact .ok reached ⟨values.symm, states⟩
  · have answer := lockstep le
    rw [done] at answer
    generalize reached : (interp k).execBlock body m = result at answer
    cases answer with
    | ok values states => exact .ok reached ⟨values, states.symm⟩
    | short spent => exact .inl ⟨_, spent ▸ reached⟩

theorem execBlock_append (r : Interp) (body rest : List Stmt) :
    r.execBlock (body ++ rest) = (do
      match ← r.execBlock body with
      | .normal => r.execBlock rest
      | flow => return flow) := by
  induction body with
  | nil => rfl
  | cons s body ih =>
    simp only [List.cons_append, execBlock, ih, bind_assoc]
    refine congrArg _ (funext fun _ => congrArg _ (funext fun flow => ?_))
    cases flow <;> simp

end Interp

/-! ### Lists that grow while they are gone through -/

-- There is a list with at least `n` items.
def Heap.HasItems (h : Heap) (id : ObjId) (n : Nat) : Prop :=
  ∃ l, h.get? id = some (.list l) ∧ n ≤ l.items.size

theorem Heap.HasItems.modify {h : Heap} {id : ObjId} {n k : Nat} (has : h.HasItems id n)
    {f : Array Value → Array Value} (size : ∀ items, (f items).size = items.size + k) :
    (h.modify id (Object.mapList fun l => { l with items := f l.items })).HasItems id (n + k) := by
  obtain ⟨l, found, least⟩ := has
  refine ⟨{ l with items := f l.items }, ?_, ?_⟩
  · rw [get?_modify, if_pos rfl, found]
    rfl
  · dsimp only
    rw [size]
    omega

-- An iteration over a list has no end if each step leaves the list longer.
theorem Interp.forEach_endless {σ : Type} {body : Value → σ → Run σ} {J : Machine → Prop}
    {id : ObjId} (grows : ∀ v s m n, J m → m.heap.HasItems id n →
      (body v s).Reaches m fun _ m' => J m' ∧ m'.heap.HasItems id (n + 1)) (fuel i : Nat) (s : σ)
    {m : Machine} (hm : J m) (has : m.heap.HasItems id (i + 1)) :
    (forEach body fuel (.live id i) s).Endless m := by
  induction fuel generalizing i s m with
  | zero => exact .outOfFuel
  | succ fuel ih =>
    obtain ⟨l, found, more⟩ := has
    have next : (Iteration.live id i).next? m.heap = some (l.items[i], .live id (i + 1)) := by
      simp only [Iteration.next?, found, Array.getElem?_eq_getElem (Nat.lt_of_succ_le more),
        Option.map_some]
    refine .bind_ok (t := m) (a := m.heap) rfl ?_
    rw [next]
    exact .bind (grows _ s m (i + 1) hm ⟨l, found, more⟩) fun s' m' h => ih (i + 1) s' h.1 h.2

/-! ### The meaning of a name -/

namespace Machine

variable {m m' : Machine} {name other : String} {w : Value}

-- What a scope says about a name, and the scope around it.
def entry (m : Machine) (name : String) (id : ScopeId) : Option (Option Value × Option ScopeId) :=
  m.scopes[id]?.map fun s => (s.vars.get? name, s.parent)

theorem lookupFrom_succ (m : Machine) (name : String) (bound : Nat) (id : ScopeId) :
    m.lookupFrom name (bound + 1) (some id) =
      (m.entry name id).bind fun s => s.1.or (m.lookupFrom name bound s.2) := by
  rw [lookupFrom, entry]
  cases m.scopes[id]? with
  | none => rfl
  | some s =>
    rw [Option.map_some, Option.bind_some]
    dsimp only
    cases s.vars.get? name <;> rfl

theorem vars_get? (m : Machine) (name : String) (id : ScopeId) :
    (m.vars id).get? name = (m.entry name id).bind Prod.fst := by
  rw [vars, entry]
  cases m.scopes[id]? <;> rfl

theorem lookup?_congr (entry : ∀ id, m'.entry name id = m.entry name id)
    (size : m'.scopes.size = m.scopes.size) (frame : m'.frame = m.frame) :
    m'.lookup? name = m.lookup? name := by
  have lookupFrom : ∀ bound scope,
      m'.lookupFrom name bound scope = m.lookupFrom name bound scope := by
    intro bound
    induction bound with
    | zero => intro _; rfl
    | succ bound ih =>
      intro scope
      cases scope with
      | none => rfl
      | some id => simp only [lookupFrom_succ, entry, ih]
  simp only [lookup?, vars_get?, frame, size, entry, lookupFrom]

theorem lookup?_deepen (m : Machine) : m.deepen.lookup? name = m.lookup? name :=
  lookup?_congr (fun _ => rfl) rfl rfl

theorem lookup?_withHeap (m : Machine) (h : Heap) :
    Machine.lookup? { m with heap := h } name = m.lookup? name :=
  lookup?_congr (fun _ => rfl) rfl rfl

theorem lookup?_insert (differ : name ≠ other) (id : ScopeId) :
    (m.modifyVars id fun vars => vars.insert other w).lookup? name = m.lookup? name := by
  refine lookup?_congr (fun j => ?_) (Array.size_modify ..) rfl
  simp only [entry, modifyVars, Array.getElem?_modify]
  split
  · cases m.scopes[j]? with
    | none => rfl
    | some s => simp only [Option.map_some, Ordered.get?_insert_of_ne _ _ differ]
  · rfl

end Machine

/-! ### A comprehension that appends to the list it goes through -/

section

variable {m : Machine} {id : ObjId} {n : Nat} {name : String} {v w : Value}

theorem Run.Reaches.evalName {k : Nat} {l : Location} (named : m.lookup? name = some v)
    (room : m.evaluating < evaluationLimit) :
    ((interp k).eval (.name l name)).Reaches m fun w m' => w = v ∧ m' = m := by
  refine .eval room fun k => .ok (a := v) (t := m.deepen) ?_
    ⟨rfl, rfl⟩
  change Run.lookup name _ = _
  unfold Run.lookup
  rw [Machine.lookup?_deepen, named]

-- Only the heap changes, and the list is left with at least `n` items.
def Run.Leaves (x : Run Value) (m : Machine) (id : ObjId) (n : Nat) : Prop :=
  x.Reaches m fun _ m' => ∃ h, m' = { m with heap := h } ∧ h.HasItems id n

namespace Run.Leaves

variable {r : Interp} {l l' l'' : Location}

theorem eval {e : Expr} {k : Nat} (room : m.evaluating < evaluationLimit)
    (h : ∀ k, ((interp k).evalExpr e).Leaves m.deepen id n) :
    ((interp k).eval e).Leaves m id n := by
  refine Run.Reaches.eval room fun k => (h k).mono fun v m' left => ?_
  obtain ⟨h, rfl, has⟩ := left
  exact ⟨h, rfl, has⟩

theorem append (has : m.heap.HasItems id n) :
    (r.callMethod (.ref id) "append" [v] []).Leaves m id (n + 1) := by
  have longer := has.modify (f := (Array.push · v)) (k := 1) fun items => Array.size_push v
  obtain ⟨l, found, -⟩ := has
  have appended : r.callMethod (.ref id) "append" [v] [] m = r.listMethod id "append" [v] [] m :=
    Interp.callMethod_list found (by decide)
  exact .ok appended ⟨_, rfl, longer⟩

theorem reverse (has : m.heap.HasItems id n) :
    (r.callMethod (.ref id) "reverse" [] []).Leaves m id n := by
  have same := has.modify (f := Array.reverse) (k := 0) fun items => Array.size_reverse
  obtain ⟨l, found, -⟩ := has
  have reversed : r.callMethod (.ref id) "reverse" [] [] m = r.listMethod id "reverse" [] [] m :=
    Interp.callMethod_list found (by decide)
  exact .ok reversed ⟨_, rfl, same⟩

theorem evalReverse (named : m.lookup? name = some (.ref id)) (has : m.heap.HasItems id n)
    (room : m.evaluating + 1 < evaluationLimit) (k : Nat) :
    ((interp k).eval (.call l (.attr l' (.name l'' name) "reverse") [] [])).Leaves m id n := by
  refine eval (Nat.lt_of_succ_lt room) fun k => ?_
  refine .bind (.evalName (m.lookup?_deepen.trans named) room) fun v m' same => ?_
  obtain ⟨rfl, rfl⟩ := same
  exact reverse has

theorem evalAppend {e : Expr} (named : m.lookup? name = some (.ref id))
    (room : m.evaluating + 1 < evaluationLimit)
    (argument : ∀ k, ((interp k).eval e).Leaves m.deepen id n)
    (k : Nat) :
    ((interp k).eval (.call l (.attr l' (.name l'' name) "append") [e] [])).Leaves m id
      (n + 1) := by
  refine eval (Nat.lt_of_succ_lt room) fun k => ?_
  refine .bind (.evalName (m.lookup?_deepen.trans named) room) fun w m' same => ?_
  obtain ⟨rfl, rfl⟩ := same
  refine .bind (P := fun args m' => ∃ v h, args = [v] ∧
    m' = { m.deepen with heap := h } ∧ h.HasItems id n) ?_ ?_
  · refine .bind (argument k) fun v m' left => ?_
    obtain ⟨h, rfl, has⟩ := left
    exact .ok rfl ⟨v, h, rfl, rfl, has⟩
  · rintro args m' ⟨v, h, rfl, rfl, has⟩
    exact append has

end Run.Leaves

end

/-! ### The comprehension -/

-- It appends, to the list of this name, what reversing the list gives.
inductive Expr.Lengthens (name : String) : Expr → Prop
  | intro (l₁ l₂ l₃ l₄ l₅ l₆ : Location) :
    Lengthens name (.call l₁ (.attr l₂ (.name l₃ name) "append")
      [.call l₄ (.attr l₅ (.name l₆ name) "reverse") [] []] [])

section

variable {m : Machine} {id : ObjId} {name other : String} {e : Expr} {l l' l'' : Location}

theorem Expr.Lengthens.evaluates {n : Nat} (lengthens : e.Lengthens name)
    (named : m.lookup? name = some (.ref id)) (has : m.heap.HasItems id n)
    (room : m.evaluating + 2 < evaluationLimit) (k : Nat) :
    ((interp k).eval e).Leaves m id (n + 1) := by
  cases lengthens
  exact .evalAppend named (by omega) (.evalReverse (m.lookup?_deepen.trans named) has room) k

theorem Interp.forClauses_endless (lengthens : e.Lengthens name) (differ : name ≠ other)
    (named : m.lookup? name = some (.ref id)) (has : m.heap.HasItems id 1)
    (room : m.evaluating + 2 < evaluationLimit) (k : Nat) (acc : Array Value) :
    ((interp k).forClauses (fun out => return out.push (← (interp k).eval e))
      [.mk (.name l other) (.name l' name) []] acc).Endless m := by
  rw [Interp.forClauses]
  refine Run.Reaches.bind (.evalName named (by omega)) fun v m' same => ?_
  obtain ⟨rfl, rfl⟩ := same
  have live : (interp k).iteration (.ref id) m' = .ok (.live id 0) m' := by
    obtain ⟨l, found, -⟩ := has
    unfold Interp.iteration
    rw [Run.heap_bind, Heap.iteration?, found]
    rfl
  refine .bind_ok live ?_
  refine forEach_endless (J := fun m => m.lookup? name = some (.ref id) ∧
    m.evaluating + 2 < evaluationLimit) (fun v acc m n hm has => ?_) _ 0 acc ⟨named, room⟩ has
  obtain ⟨named, room⟩ := hm
  refine .bind_ok (assign_name ..) (.bind_ok (a := true) rfl ?_)
  have named' := (Machine.lookup?_insert (w := v) differ (m.bindingScope other)).trans named
  refine .bind (lengthens.evaluates named' has room k) fun w m' left => ?_
  obtain ⟨h, rfl, longer⟩ := left
  exact .ok rfl ⟨⟨(Machine.lookup?_withHeap _ h).trans named', room⟩, longer⟩

-- A state of the module in which the name means a list that is not empty.
structure Machine.Ready (m : Machine) (name : String) (id : ObjId) : Prop where
  scopes : ∃ vars : Namespace, m.scopes = #[⟨vars, none⟩] ∧ vars.get? name = some (.ref id)
  has : m.heap.HasItems id 1
  frame : m.frame = default
  depth : m.depth < m.config.maxCallDepth
  evaluating : m.evaluating + 3 < evaluationLimit

-- A comprehension sees what is around it.
theorem Machine.Ready.inside (ready : m.Ready name id) :
    Machine.lookup? { m with
      scopes := m.scopes.push ⟨.empty, some 0⟩
      frame := { kind := .function, scope := m.scopes.size }
      callers := m.frame :: m.callers } name = some (.ref id) := by
  obtain ⟨vars, scopes, meant⟩ := ready.scopes
  have unbound : (Ordered.empty : Namespace).get? name = none := rfl
  simp [lookup?, lookupFrom, scopes, meant, unbound]

theorem Machine.Ready.endless (ready : m.Ready name id) (k : Nat)
    (lengthens : e.Lengthens name) (differ : name ≠ other) :
    ((interp k).eval (.listComp l e [.mk (.name l' other) (.name l'' name) []])).Endless m := by
  refine .eval (by have := ready.evaluating; omega) fun k => Run.Endless.bind ?_
  have frame : Run.frame m.deepen = .ok default m.deepen := by
    rw [← ready.frame]
    rfl
  refine .bind_ok frame (.bind_ok (a := some 0) (t := m.deepen) rfl ?_)
  refine .bind_ok (a := ()) (t := m.deepen) (if_pos ready.depth) ?_
  refine .bind_ok (a := m.scopes.size) rfl (.inFrame ready.depth ?_)
  have inside := (Machine.lookup?_deepen _).trans ready.inside
  exact Interp.forClauses_endless lengthens differ inside ready.has ready.evaluating k #[]

end

/-! ### The program -/

theorem Run.Reaches.evalSingleton {m : Machine} {l l' l'' : Location} {i : Int64}
    (room : m.heap.size < m.heap.limit) (shallow : m.evaluating + 1 < evaluationLimit) (k : Nat) :
    ((interp k).eval (.tracked l (.list l' [.int l'' i]))).Reaches m fun v m' =>
      v = .ref m.heap.size ∧ ∃ h, m' = { m with heap := h } ∧ h.HasItems m.heap.size 1 := by
  refine .eval (Nat.lt_of_succ_lt shallow) fun k => ?_
  have item : ((interp k).eval (.int l'' i)).Reaches m.deepen fun v m' =>
      v = .int i ∧ m' = m.deepen := .eval shallow fun k => .ok rfl ⟨rfl, rfl⟩
  refine .bind (P := fun vs m' => vs = #[.int i] ∧ m' = m.deepen)
    (.bind item fun v m' same => ?_) fun vs m' same => ?_
  · obtain ⟨rfl, rfl⟩ := same
    exact .ok rfl ⟨rfl, rfl⟩
  · obtain ⟨rfl, rfl⟩ := same
    let o : Object := .list ⟨#[.int i], some m.heap.size⟩
    have made : (m.heap.push o).HasItems m.heap.size 1 :=
      ⟨_, Heap.get?_push_size m.heap o, Nat.le_refl 1⟩
    exact .ok (if_pos room) ⟨rfl, _, rfl, made⟩

theorem Machine.Ready.bind {m : Machine} {id : ObjId} (name : String)
    (empty : m.scopes = #[default]) (has : m.heap.HasItems id 1) (frame : m.frame = default)
    (depth : m.depth < m.config.maxCallDepth) (evaluating : m.evaluating + 3 < evaluationLimit) :
    (m.modifyVars (m.bindingScope name) fun vars => vars.insert name (.ref id)).Ready name id where
  scopes := by
    refine ⟨Ordered.empty.insert name (.ref id), ?_, Ordered.get?_insert_self _ _ _⟩
    have home : m.bindingScope name = 0 := by
      rw [bindingScope, frame]
      rfl
    rw [home, modifyVars, empty]
    rfl
  has := has
  frame := frame
  depth := depth
  evaluating := evaluating

-- A name gets a list of one item, and a comprehension goes through the list and lengthens it.
inductive Program.Lengthening : Program → Prop
  | intro {name other : String} {e : Expr} (differ : name ≠ other) (lengthens : e.Lengthens name)
    (i : Int64) (l₁ l₂ l₃ l₄ l₅ l₆ l₇ l₈ : Location) :
    Lengthening [.assign l₁ [.name l₂ name] (.list l₃ [.int l₄ i]),
      .expr l₅ (.listComp l₆ e [.mk (.name l₇ other) (.name l₈ name) []])]

theorem Program.Lengthening.endless {p : Program} (lengthening : p.Lengthening) {config : Config}
    (objects : 0 < config.maxObjects) (frames : 1 < config.maxCallDepth) (inputs : List String)
    (fuel : Nat) : (runProgram fuel (trackBlock p)).Endless (.start config inputs) := by
  obtain @⟨name, other, e, differ, ⟨⟩, i, l₁, l₂, l₃, l₄, l₅, l₆, l₇, l₈⟩ := lengthening
  have least := config.budget.least_le
  have shallow : 3 < evaluationLimit := by
    rw [evaluationLimit]
    omega
  have first : (Machine.start config inputs).hasRoom = true :=
    decide_eq_true (Nat.lt_of_lt_of_le (Nat.zero_lt_succ 9) least)
  let before := Machine.record { Machine.start config inputs with lastLine := l₁.line }
    (Step.atLine l₁.line)
  refine Run.Endless.bind (.bind_ok (Run.boundary_of_room l₁.line rfl first) ?_)
  refine .bind (P := fun flow m => flow = .normal ∧ m.Ready name 0 ∧ m.halted = false ∧
    m.hasRoom = true) ?_ fun flow m h => ?_
  · have shallow' : before.evaluating + 1 < evaluationLimit := by
      change 0 + 1 < _
      omega
    refine .bind (.evalSingleton (m := before) objects shallow' fuel) fun v m made => ?_
    obtain ⟨rfl, h, rfl, has⟩ := made
    refine .bind_ok (assignEach_name ..) (.ok rfl ⟨rfl, ?_, rfl, ?_⟩)
    · exact .bind name rfl has rfl frames shallow
    · exact decide_eq_true (Nat.lt_of_lt_of_le (Nat.lt_add_left 8 Nat.one_lt_two) least)
  · obtain ⟨rfl, ready, going, room⟩ := h
    refine .bind_ok (Run.boundary_of_room l₅.line going room) ?_
    let before := Machine.record { m with lastLine := l₅.line } (Step.atLine l₅.line)
    have again : before.Ready name 0 :=
      ⟨ready.scopes, ready.has, ready.frame, ready.depth, ready.evaluating⟩
    exact Run.Endless.bind (Run.Endless.bind (again.endless fuel (.intro ..) differ))

theorem Program.Lengthening.untraced {p : Program} (lengthening : p.Lengthening) {config : Config}
    (objects : 0 < config.maxObjects) (frames : 1 < config.maxCallDepth) (inputs : List String)
    (fuel : Nat) : traceProgram? fuel config (trackBlock p) inputs = none := by
  obtain ⟨m, spent⟩ | ⟨_, _, _, never⟩ := lengthening.endless objects frames inputs fuel
  · rw [traceProgram?, spent]
    rfl
  · exact never.elim

/-! ### Its text -/

-- Whether a program is lengthening, with an element that is written out.
def Program.isLengthening : Program → Bool
  | [.assign _ [.name _ a] (.list _ [.int _ _]),
      .expr _ (.listComp _
        (.call _ (.attr _ (.name _ b) f) [.call _ (.attr _ (.name _ c) g) [] []] [])
        [.mk (.name _ x) (.name _ d) []])] =>
    b = a && c = a && d = a && x ≠ a && f = "append" && g = "reverse"
  | _ => false

theorem Program.lengthening_of {p : Program} (h : p.isLengthening = true) : p.Lengthening := by
  unfold isLengthening at h
  split at h
  · simp only [Bool.and_eq_true, decide_eq_true_iff] at h
    obtain ⟨⟨⟨⟨⟨rfl, rfl⟩, rfl⟩, differ⟩, rfl⟩, rfl⟩ := h
    exact .intro (Ne.symm differ) (.intro ..) ..
  · cases h

theorem lengthening_parses : ∃ p,
    parseProgram "xs = [0]\n[xs.append(xs.reverse()) for x in xs]\n" = .ok p ∧ p.Lengthening := by
  have shape : (parseProgram "xs = [0]\n[xs.append(xs.reverse()) for x in xs]\n").toOption.any
      Program.isLengthening = true := by
    rw [parseProgram_ofList]
    decide +kernel
  obtain ⟨p, parsed, shape⟩ := Except.of_any shape
  exact ⟨p, parsed, Program.lengthening_of shape⟩

/--
No bound on steps, frames or objects ends the run of a program that goes through a list and
lengthens it in a comprehension.
-/
theorem lengthening_never_ends {config : Config} {source : String} {p : Program}
    (parsed : parseProgram source = .ok p) (lengthening : p.Lengthening)
    (objects : 0 < config.maxObjects) (frames : 1 < config.maxCallDepth) (inputs : List String)
    (t : RawTrace) : ¬ Traces config source inputs t := by
  rintro ⟨fuel, traced⟩
  rw [trace?, parsed] at traced
  cases (lengthening.untraced objects frames inputs fuel).symm.trans traced

theorem lengthening_never_ends_append :
    (∃ p, parseProgram "xs = [0]\n[xs.append(xs.reverse()) for x in xs]\n" = .ok p ∧
      p.Lengthening) ∧ 0 < ({} : Config).maxObjects ∧ 1 < ({} : Config).maxCallDepth ∧
      ∀ t, ¬ Traces {} "xs = [0]\n[xs.append(xs.reverse()) for x in xs]\n" [] t := by
  obtain ⟨p, parsed, lengthening⟩ := lengthening_parses
  have objects : 0 < ({} : Config).maxObjects := by decide
  have frames : 1 < ({} : Config).maxCallDepth := by decide
  exact ⟨⟨p, parsed, lengthening⟩, objects, frames,
    lengthening_never_ends parsed lengthening objects frames []⟩

theorem runs_without_end : ¬ ∀ (config : Config) (source : String) (inputs : List String),
    ∃ t, Traces config source inputs t := by
  intro ends
  obtain ⟨t, fuel, traced⟩ := ends {} "xs = [0]\n[xs.append(xs.reverse()) for x in xs]\n" []
  obtain ⟨p, parsed, lengthening⟩ := lengthening_parses
  rw [trace?, parsed] at traced
  have objects : 0 < ({} : Config).maxObjects := by decide
  cases (lengthening.untraced objects (by decide) [] fuel).symm.trans traced

end StepTrace
