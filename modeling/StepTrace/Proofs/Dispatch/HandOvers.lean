import StepTrace.Proofs.Dispatch.Calls
import StepTrace.Proofs.TracedRun

/-!
How iterations are handed over: one over an instance goes on with what its `__iter__` gives. Where
that costs a step or an object each time, the budgets of a run bound how often it can happen.
-/

set_option autoImplicit false

namespace StepTrace

/-! ### Iterations that are handed over -/

-- A value of no type that is gone through itself, whose `__iter__` gives another value.
structure HandsOver (r : Interp) (m : Machine) (v : Value) (m' : Machine) (w : Value) : Prop where
  foreign : m.heap.iteration? v = none
  given : r.special v "__iter__" [] m = .ok (some w) m'
  other : w.same v = false

-- How an iteration ends that is not handed over: with an iterator, with what stops the call of
-- `__iter__`, or with the error for a value that nothing goes through.
inductive Concludes (r : Interp) (m : Machine) (v : Value) :
    EStateM.Result Stop Machine Iteration → Prop
  | iterator {it : Iteration} (own : m.heap.iteration? v = some it) : Concludes r m v (.ok it m)
  | stopped {e : Stop} {m' : Machine} (foreign : m.heap.iteration? v = none)
    (failed : r.special v "__iter__" [] m = .error e m') : Concludes r m v (.error e m')
  | refused {answer : Option Value} {m' : Machine} (foreign : m.heap.iteration? v = none)
    (asked : r.special v "__iter__" [] m = .ok answer m')
    (nothing : ∀ w, answer = some w → w.same v = true) :
    Concludes r m v (.error (.fault (.notIterable (m'.heap.typeName v))) m')

-- `k` hand-overs in a row, which leave the fuel `l`.
inductive HandedOver (l : Nat) : Nat → Machine → Value → Machine → Value → Prop
  | here (m : Machine) (v : Value) : HandedOver l 0 m v m v
  | on {k : Nat} {m m₁ m' : Machine} {v w u : Value}
    (given : HandsOver (interp (l + k + 1)) m v m₁ w) (rest : HandedOver l k m₁ w m' u) :
    HandedOver l (k + 1) m v m' u

section

variable {r : Interp} {m m' m₁ : Machine} {v w u : Value} {k l n : Nat}

theorem HandsOver.iteration (given : HandsOver r m v m' w) :
    r.iteration v m = r.iterate w m' := by
  unfold Interp.iteration
  rw [Run.heap_bind, given.foreign]
  dsimp only
  rw [Run.bind_ok given.given]
  dsimp only
  rw [given.other]
  rfl

theorem iteration_ends (r : Interp) (m : Machine) (v : Value) :
    Concludes r m v (r.iteration v m) ∨ ∃ m' w, HandsOver r m v m' w := by
  unfold Interp.iteration
  rw [Run.heap_bind]
  cases own : m.heap.iteration? v with
  | some it => exact .inl (.iterator own)
  | none =>
    dsimp only
    cases asked : r.special v "__iter__" [] m with
    | error e m' =>
      rw [Run.bind_error asked]
      exact .inl (.stopped own asked)
    | ok answer m' =>
      rw [Run.bind_ok asked]
      cases answer with
      | none => exact .inl (.refused own asked fun _ never => nomatch never)
      | some w =>
        dsimp only
        cases same : w.same v with
        | true => exact .inl (.refused own asked fun _ this => Option.some.inj this ▸ same)
        | false => exact .inr ⟨m', w, own, asked, same⟩

theorem HandsOver.fueled (given : HandsOver (interp l) m v m' w) : l ≠ 0 := by
  rintro rfl
  have asked := given.given
  cases own : m.heap.method? v "__iter__" with
  | none =>
    rw [Interp.special_of_none own] at asked
    cases asked
  | some method =>
    rw [Interp.special_of_some own] at asked
    cases asked

theorem HandedOver.iteration (way : HandedOver l k m v m' u) :
    (interp (l + k)).iteration v m = (interp l).iteration u m' := by
  induction way with
  | here => rfl
  | on given _ ih => exact given.iteration.trans ih

-- The induction is on the fuel, of which each hand-over takes some.
theorem exists_handedOver (n : Nat) (m : Machine) (v : Value) :
    ∃ l k, n = l + k ∧ ∃ m' u, HandedOver l k m v m' u ∧
      Concludes (interp l) m' u ((interp n).iteration v m) := by
  induction n generalizing m v with
  | zero =>
    refine ⟨0, 0, rfl, m, v, .here m v, ?_⟩
    exact (iteration_ends (interp 0) m v).resolve_right fun ⟨_, _, given⟩ => given.fueled rfl
  | succ n ih =>
    rcases iteration_ends (interp (n + 1)) m v with ends | ⟨m₁, w, given⟩
    · exact ⟨n + 1, 0, rfl, m, v, .here m v, ends⟩
    · obtain ⟨l, k, rfl, m', u, way, ends⟩ := ih m₁ w
      have same : (interp (l + k + 1)).iteration v m = (interp (l + k)).iteration w m₁ :=
        given.iteration
      exact ⟨l, k + 1, rfl, m', u, .on given way, same ▸ ends⟩

end

/-! ### What an iteration spends that is handed over -/

namespace Machine

-- The settings stay, and steps are only added.
structure Onward (m m' : Machine) : Prop where
  config : m'.config = m.config
  steps : m.steps.size ≤ m'.steps.size

theorem growth_onward (d : Leeway) : Growth d Onward fun _ => True where
  aside := by
    rintro m _ ⟨_, _, _, _, rfl⟩
    exact ⟨rfl, Nat.le_refl _⟩
  trans h h' := ⟨h'.config.trans h.config, Nat.le_trans h.steps h'.steps⟩
  step h m := ⟨⟨(h.quiet m).config, by rw [(h.quiet m).steps]⟩, fun _ _ _ => trivial⟩
  boundary _ line m := by
    refine ⟨?_, fun _ _ _ => trivial⟩
    unfold Run.boundary
    split
    · exact ⟨rfl, Nat.le_refl _⟩
    · dsimp only
      split
      · refine ⟨rfl, ?_⟩
        change m.steps.size ≤ (m.steps.push _).size
        rw [Array.size_push]
        exact Nat.le_succ _
      · exact ⟨rfl, Nat.le_refl _⟩
  recursion := trivial

-- A step is recorded, for which the budget has room.
structure Steps (m m' : Machine) : Prop extends m.Onward m' where
  room : m.steps.size < m.config.budget.count
  more : m.steps.size < m'.steps.size

theorem Steps.trans {m m₁ m' : Machine} (first : m.Steps m₁) (rest : m₁.Onward m') :
    m.Steps m' where
  config := rest.config.trans first.config
  steps := Nat.le_trans first.steps rest.steps
  room := first.room
  more := Nat.lt_of_lt_of_le first.more rest.steps

theorem steps_boundary {line : Nat} {m m' : Machine} (passed : Run.boundary line m = .ok () m') :
    m.Steps m' := by
  obtain ⟨room, rfl⟩ := Run.of_boundary_ok passed
  have more (step : Step) : m.steps.size < (m.steps.push step).size := by
    rw [Array.size_push]
    exact Nat.lt_succ_self _
  exact ⟨⟨rfl, Nat.le_of_lt (more _)⟩, of_decide_eq_true room, more _⟩

end Machine

theorem Run.of_inFrame_ok {α : Type} {f : Frame} {x : Run α} {a : α} {m m' : Machine}
    (done : inFrame f x m = .ok a m') : ∃ m₁, x (m.enter f) = .ok a m₁ ∧
      m' = { m₁ with frame := m.frame, callers := m.callers } := by
  rw [inFrame_eq] at done
  split at done
  · change putBack _ _ _ (x (m.enter f)) = _ at done
    cases ran : x (m.enter f) with
    | error e m₁ =>
      rw [ran] at done
      cases done
    | ok b m₁ =>
      rw [ran] at done
      cases done
      exact ⟨m₁, rfl, rfl⟩
  · cases done

namespace Interp

variable {n : Nat} {m m' : Machine}

theorem selfStep (n : Nat) : (interp n).InStep ⟨false, false, true, true⟩ (interp n) :=
  interp_inStep rfl (.refl n)

theorem onward {α : Type} {x : Run α} (h : Lockstep ⟨false, false, true, true⟩ .all Eq x x) {a : α}
    (done : x m = .ok a m') : m.Onward m' := by
  have grown := (h.grows (Machine.growth_onward _) rfl rfl m).state
  rwa [done] at grown

theorem steps_block {s : Stmt} {rest : List Stmt} {flow : Flow}
    (done : (interp n).execBlock (s :: rest) m = .ok flow m') : m.Steps m' := by
  obtain ⟨_, m₁, passed, done⟩ := Run.of_bind_ok done
  have R := selfStep n
  refine (Machine.steps_boundary passed).trans (onward (.seq
    (R.execStmt (Bool.le_refl false) rfl s (Bool.le_true _)) fun flow => ?_) done)
  split
  · exact R.execBlock (Bool.le_refl false) rfl rest (Bool.le_true _)
  · exact .ret _

-- A function whose body has no statement gives `None`.
theorem steps_runBody {f : FunctionObject} {v : Value}
    (done : (interp n).runBody f m = .ok v m') : v = .none ∨ m.Steps m' := by
  unfold runBody at done
  cases body : f.body with
  | lambda e =>
    rw [body] at done
    obtain ⟨_, m₁, passed, done⟩ := Run.of_bind_ok done
    have inner := (selfStep n).eval (p := .all) false (Bool.le_refl false) e trivial
    exact .inr ((Machine.steps_boundary passed).trans (onward inner done))
  | block stmts =>
    rw [body] at done
    obtain ⟨flow, m₁, ran, done⟩ := Run.of_bind_ok done
    have same : m' = m₁ := by
      cases flow <;> cases done <;> rfl
    subst same
    cases n with
    | zero => cases ran
    | succ n =>
      cases stmts with
      | nil =>
        cases ran
        cases done
        exact .inl rfl
      | cons s rest => exact .inr (steps_block ran)

theorem steps_callFunction {f : FunctionObject} {args : List Value} {keywords : Keywords}
    {v : Value} (done : (interp n).callFunction f args keywords m = .ok v m') :
    v = .none ∨ m.Steps m' := by
  cases bound : f.bind args keywords with
  | error e =>
    rw [callFunction_of_unbound _ bound] at done
    cases done
  | ok vars =>
    by_cases room : m.depth < m.config.maxCallDepth
    · obtain ⟨frame, -, -, framed⟩ := (interp n).callFunction_of_bound bound room
      rw [framed] at done
      obtain ⟨m₁, ran, rfl⟩ := Run.of_inFrame_ok done
      exact (steps_runBody ran).imp_right fun steps =>
        ⟨⟨steps.config, steps.steps⟩, steps.room, steps.more⟩
    · have full : Run.checkDepth m = .error (.fault .recursion) m := if_neg room
      have refused : (interp n).callFunction f args keywords m =
          .error (.fault .recursion) m := Run.bind_error full
      rw [refused] at done
      cases done

end Interp

-- What is left of the budgets for steps and objects.
def Machine.supply (m : Machine) : Nat :=
  (m.config.budget.count - m.steps.size) + (m.heap.limit - m.heap.size)

-- A call that enters a function of the program, or for which a class has made an object.
def Pays (m : Machine) (c : Invocation) : Prop :=
  ∃ n objects m' c' a, Resolves n m c objects m' c' a ∧
    ((∃ f, a = .frame f) ∨ m.heap.size < m'.heap.size)

section

variable {n k : Nat} {m m' m₁ : Machine} {c : Invocation} {v w : Value} {objects : List Value}

theorem Run.of_initialized_ok {object : Value} {x : Run Value}
    (done : initialized object x m = .ok v m') : v = object ∧ x m = .ok .none m' := by
  obtain ⟨w, m₁, asked, done⟩ := of_bind_ok done
  cases w with
  | none =>
    cases done
    exact ⟨rfl, asked⟩
  | _ => cases done

theorem Interp.call_mono (le : n ≤ k) (done : (interp n).invoke c m = .ok v m') :
    (interp k).invoke c m = .ok v m' := by
  have answer := fuelSimulation.run (m := m) ((interp_inStep rfl (.ofLe rfl le)).call
    (p := .all) c.callee c.args c.keywords) rfl
  change Answer _ _ _ _ ((interp n).invoke c m) ((interp k).invoke c m) at answer
  rw [done] at answer
  generalize (interp k).invoke c m = result at answer ⊢
  cases answer with
  | ok values states =>
    subst values states
    rfl

-- The first object that is made for a call is its answer.
theorem PassedOn.first {object : Value} {m₁ : Machine} {c₁ : Invocation}
    (passed : PassedOn n m c (object :: objects) m₁ c₁) : object = .ref m.heap.size := by
  generalize made : object :: objects = all at passed
  induction passed with
  | here => cases made
  | on turned _ ih =>
    rcases Machine.turn_on turned with ⟨rfl, rfl, -⟩ | ⟨cls, rfl, -, -⟩
    · exact ih made
    · cases made
      rfl

theorem PassedOn.eq_of_nil {c₁ : Invocation} (passed : PassedOn n m c [] m₁ c₁) : m₁ = m := by
  generalize none : [] = objects at passed
  induction passed with
  | here => rfl
  | on turned _ ih =>
    rcases Machine.turn_on turned with ⟨rfl, rfl, -⟩ | ⟨cls, rfl, -, -⟩
    · exact ih none
    · cases none

-- What a call gives that pays: nothing, after a step, or the object that was made.
theorem Pays.answer (pays : Pays m c) (done : (interp n).invoke c m = .ok v m') :
    v = .none ∨ m.Steps m' ∨ v = .ref m.heap.size := by
  obtain ⟨j, objects, m₁, c', a, resolves, paid⟩ := pays
  have run := resolves.run n
  rw [Interp.call_mono (Nat.le_trans (Nat.le_add_right n j) (Nat.le_succ _)) done] at run
  obtain ⟨m₀, passed, turned⟩ := resolves.arrived
  cases objects with
  | cons object objects => exact .inr (.inr ((Run.of_initialized_ok run.symm).1.trans passed.first))
  | nil =>
    cases passed.eq_of_nil
    replace run : a.run (interp n) c' m₁ = .ok v m' := run.symm
    rcases Machine.turn_arrived turned with rfl | ⟨cls, rfl, made⟩
    · obtain ⟨f, rfl⟩ := paid.resolve_right (Nat.lt_irrefl _)
      exact (Interp.steps_callFunction run).imp_right .inl
    · rcases made with rfl | rfl | ⟨f, rfl⟩
      · cases run
        exact .inr (.inr rfl)
      · obtain ⟨_, _, -, run⟩ := Run.of_bind_ok run
        cases run
        exact .inr (.inr rfl)
      · cases run

-- A call that pays gives nothing, or leaves less behind to pay from.
theorem Pays.spends (pays : Pays m c) (intact : m.Intact) (hc : m.heap.Hosts c.callee)
    (hargs : m.heap.Hosts c.args) (hkeywords : m.heap.Hosts c.keywords)
    (done : (interp n).invoke c m = .ok v m') : v = .none ∨ m'.supply < m.supply := by
  have onward : m.Onward m' := Interp.onward ((Interp.selfStep n).call (p := .all) ..) done
  obtain ⟨intact', later, home⟩ := ((interp_sound n).call hc hargs hkeywords).leaves intact done
  have room : m'.heap.size ≤ m'.heap.limit := intact'.heap.room
  have limit : m'.heap.limit = m.heap.limit := later.limit
  have size : m.heap.size ≤ m'.heap.size := later.size
  have count := congrArg (fun config => config.budget.count) onward.config
  have steps := onward.steps
  unfold Machine.supply
  rcases pays.answer done with rfl | stepped | rfl
  · exact .inl rfl
  · have more := stepped.more
    have space := stepped.room
    omega
  · have made : m.heap.size < m'.heap.size := home
    omega

end

section

variable {l k n : Nat} {m m' m₁ : Machine} {u v w : Value}

theorem HandsOver.method (given : HandsOver (interp l) m v m' w) :
    ∃ method, m.heap.method? v "__iter__" = some method ∧
      (interp l).invoke ⟨method, [v], []⟩ m = .ok w m' := by
  have asked := given.given
  cases own : m.heap.method? v "__iter__" with
  | none =>
    rw [Interp.special_of_none own] at asked
    cases asked
  | some method =>
    rw [Interp.special_of_some own] at asked
    obtain ⟨w', m₁, called, same⟩ := Run.of_bind_ok asked
    cases same
    exact ⟨method, rfl, called⟩

theorem HandsOver.isInstance (given : HandsOver (interp l) m v m' w) :
    m.heap.isInstance v = true := by
  obtain ⟨method, own, -⟩ := given.method
  exact Heap.isInstance_of_method? own

-- Every `__iter__` that is asked on the way costs a step or an object, or what it gives is no
-- instance, so that the iteration ends there.
def Paid (n : Nat) (m : Machine) (v : Value) : Prop :=
  ∀ l k m' u m'' w method, n = l + k → HandedOver l k m v m' u →
    HandsOver (interp l) m' u m'' w → m'.heap.method? u "__iter__" = some method →
    Pays m' ⟨method, [u], []⟩ ∨ m''.heap.isInstance w = false

theorem Paid.on (paid : Paid (n + 1) m v) (given : HandsOver (interp (n + 1)) m v m₁ w) :
    Paid n m₁ w := by
  intro l k m' u m'' w' method same way
  subst same
  exact paid l (k + 1) m' u m'' w' method rfl (.on given way)

theorem HandsOver.spends (given : HandsOver (interp n) m v m' w) (intact : m.Intact)
    (hv : m.heap.Hosts v) (paid : Paid n m v) :
    m'.Intact ∧ m'.heap.Hosts w ∧ (m'.heap.isInstance w = false ∨ m'.supply < m.supply) := by
  obtain ⟨method, own, called⟩ := given.method
  have hmethod : m.heap.Hosts method := by
    unfold Heap.method? at own
    split at own
    · exact intact.heap.classAttr? own
    · cases own
  have hargs : m.heap.Hosts [v] := List.forall_mem_singleton.2 hv
  have hkeywords : m.heap.Hosts ([] : Keywords) := Heap.hosts_nil
  obtain ⟨intact', -, home⟩ :=
    ((interp_sound n).call hmethod hargs hkeywords).leaves intact called
  refine ⟨intact', home, ?_⟩
  rcases paid n 0 m v m' w method rfl (.here m v) given own with pays | other
  · rcases pays.spends intact hmethod hargs hkeywords called with rfl | less
    · exact .inl rfl
    · exact .inr less
  · exact .inl other

-- The induction is on the hand-overs; each of them but the last leaves less to pay from.
theorem HandedOver.bounded (way : HandedOver l k m v m' u) (intact : m.Intact)
    (hv : m.heap.Hosts v) (paid : Paid (l + k) m v) : k ≤ m.supply + 1 := by
  induction way with
  | here => exact Nat.zero_le _
  | on given rest ih =>
    obtain ⟨intact₁, hw, ends | less⟩ := given.spends intact hv paid
    · cases rest with
      | here => exact Nat.le_add_left 1 _
      | on given' => exact absurd (ends.symm.trans given'.isInstance) nofun
    · have few := ih intact₁ hw (paid.on given)
      omega

end

/--
A call arrives at a native routine, a frame or an error after finitely many steps of the dispatch
if no value on the way comes back to itself, and an iteration at an iterator or an error after
finitely many hand-overs if each `__iter__` on the way costs a step or an object.
-/
theorem calls_and_iterations_resolve (m : Machine) :
    (∀ c, Straight m c →
      ∃ n < (m.heap.limit - m.heap.size + 1) * (max m.heap.size m.heap.limit + 1),
        ∃ objects m' c' a, Resolves n m c objects m' c' a) ∧
    (m.Intact → ∀ n v, m.heap.Hosts v → Paid n m v →
      ∃ l k, n = l + k ∧ k ≤ m.supply + 1 ∧ ∃ m' u, HandedOver l k m v m' u ∧
        Concludes (interp l) m' u ((interp n).iteration v m)) := by
  refine ⟨fun c straight => ?_, fun intact n v hv paid => ?_⟩
  · exact straight.resolves_within (Nat.le_refl _) (Nat.le_max_left _ _) (Nat.le_max_right _ _)
  · obtain ⟨l, k, rfl, m', u, way, ends⟩ := exists_handedOver n m v
    exact ⟨l, k, rfl, way.bounded intact hv paid, m', u, way, ends⟩

-- `def name(self): return True`, as the only method of a class, beside an instance of the class.
def Machine.answering (name : String) : Machine :=
  { Machine.start {} [] with heap := .withMethod (.answering name ["self"] true) [] }

theorem Machine.intact_answering (name : String) : (Machine.answering name).Intact := by
  have objects : ∀ id o, (Machine.answering name).heap.get? id = some o → o.Placed id ∧
      (Machine.answering name).heap.Hosts o := by
    have cls : (Machine.answering name).heap.IsClass 1 := ⟨_, rfl⟩
    intro id o found
    match id with
    | 0 =>
      cases found
      exact ⟨trivial, fun c owned => Option.some.inj owned ▸ cls, Heap.hosts_nil⟩
    | 1 =>
      cases found
      refine ⟨nofun, nofun, Heap.hosts_insert Heap.hosts_nil ?_ _⟩
      exact Nat.zero_lt_succ 2
    | 2 =>
      cases found
      exact ⟨trivial, cls, Heap.hosts_nil⟩
    | id + 3 => cases found
  have room : (Machine.answering name).heap.size ≤ (Machine.answering name).heap.limit :=
    (by decide : 3 ≤ 10)
  refine ⟨⟨room, fun id o found => (objects id o found).1,
    fun id o found => (objects id o found).2⟩, fun s hs => ?_, (fun _ _ never => nomatch never),
    Heap.hosts_nil, Heap.hosts_nil⟩
  obtain rfl := Array.mem_singleton.1 hs
  exact List.forall_mem_nil _

-- A call of an instance arrives at the method of its class, and an iteration over one ends with
-- what its method gives.
theorem calls_and_iterations_resolve_method :
    (∃ n objects m' c' a,
      Resolves n (.answering "__call__") ⟨.ref 2, [], []⟩ objects m' c' a) ∧
    ∃ l k, 3 = l + k ∧ ∃ m' u, HandedOver l k (.answering "__iter__") (.ref 2) m' u ∧
      Concludes (interp l) m' u ((interp 3).iteration (.ref 2) (.answering "__iter__")) := by
  constructor
  · let m := Machine.answering "__call__"
    have method : m.heap.passesTo? (.ref 2) = some (.ref 0) :=
      Heap.method?_withMethod (.answering "__call__" ["self"] true) []
    obtain ⟨args, turned⟩ := Machine.turn_of_passesTo? (c := ⟨.ref 2, [], []⟩) method
    have arrives : m.turn ⟨.ref 0, args, []⟩ =
        .arrived m (.frame (.answering "__call__" ["self"] true)) := rfl
    have straight := Straight.of_on turned (.of_arrived arrives)
    obtain ⟨n, -, resolved⟩ := (calls_and_iterations_resolve m).1 _ straight
    exact ⟨n, resolved⟩
  · let m := Machine.answering "__iter__"
    let f := FunctionObject.answering "__iter__" ["self"] true
    have own : m.heap.method? (.ref 2) "__iter__" = some (.ref 0) :=
      Heap.method?_withMethod f []
    have arrives : m.turn ⟨.ref 0, [.ref 2], []⟩ = .arrived m (.frame f) := rfl
    have may : m.MayCall 1 := ⟨rfl, by decide, by decide, by decide⟩
    obtain ⟨m₁, asked, -⟩ : ∃ m₁, (interp 3).special (.ref 2) "__iter__" [] m =
        .ok (some (.bool true)) m₁ ∧ m.Answered m₁ := Interp.special_answer own rfl rfl rfl may 0
    have home : m.heap.Hosts (Value.ref 2) := Nat.lt_succ_self 2
    have paid : Paid 3 m (.ref 2) := by
      intro l k m' u m'' w method same way given own'
      cases way with
      | here =>
        cases own.symm.trans own'
        exact .inl ⟨0, [], m, _, _, PassedOn.resolves (.here ..) arrives, .inl ⟨f, rfl⟩⟩
      | on first rest =>
        rw [← Nat.add_assoc] at same
        rw [← same] at first
        cases asked.symm.trans first.given
        cases rest with
        | here => exact absurd given.isInstance nofun
        | on next => exact absurd next.isInstance nofun
    obtain ⟨l, k, same, -, ends⟩ :=
      (calls_and_iterations_resolve m).2 (Machine.intact_answering _) 3 (.ref 2) home paid
    exact ⟨l, k, same, ends⟩

-- Whether a program calls what has itself as `__call__`, after three other statements.
def Program.callsRound (n : Nat) : Program → Bool
  | [first, second, third, .expr _ (.call _ (.name _ name) [] [])] =>
    Program.roundsWithin n [first, second, third] name
  | _ => false

theorem Program.goesRound_of {n : Nat} {p : Program} (h : p.callsRound n = true) :
    p.GoesRound := by
  unfold callsRound at h
  split at h
  · next first second third l l' l'' name =>
    obtain ⟨m, v, ran, rounding⟩ := Program.rounding_of h
    exact .intro ran rounding l l' l''
  · cases h

-- What is written and never arrives: `a()`, where the class of `a` has `a` itself as `__call__`.
theorem roundabout_parses : ∃ p,
    parseProgram "class A:\n    pass\na = A()\nA.__call__ = a\na()\n" = .ok p ∧
      Program.GoesRound (trackBlock p) := by
  have shape : (parseProgram "class A:\n    pass\na = A()\nA.__call__ = a\na()\n").toOption.any
      (fun p => Program.callsRound 20 (trackBlock p)) = true := by
    rw [parseProgram_ofList]
    decide +kernel
  obtain ⟨p, parsed, round⟩ := Except.of_any shape
  exact ⟨p, parsed, Program.goesRound_of round⟩

-- Some call never arrives, in a state that a program reaches, and its run does not end.
theorem calls_go_round :
    (∃ n body m v, (interp n).execBlock body (.start {} []) = .ok .normal m ∧
      (∀ n objects m' c' a, ¬ Resolves n m ⟨v, [], []⟩ objects m' c' a) ∧
      ∀ k, ((interp k).invoke ⟨v, [], []⟩).Endless m) ∧
    ∀ t, ¬ Traces {} "class A:\n    pass\na = A()\nA.__call__ = a\na()\n" [] t := by
  obtain ⟨p, parsed, round⟩ := roundabout_parses
  constructor
  · generalize trackBlock p = q at round
    obtain @⟨body, name, v, n, m, ran, rounding, -, -, -⟩ := round
    refine ⟨n, body, m, v, ran, fun n objects m' c' a resolves => ?_, fun k => ?_⟩
    · obtain ⟨m₁, passed, turned⟩ := resolves.arrived
      obtain ⟨made, m₂, c₂, goes⟩ := (PassedOn.here ..).never_arrives rounding.circular passed
      cases turned.symm.trans goes
    · exact Heap.Circular.endless (c := ⟨v, [], []⟩) rounding.circular k
  · rintro t ⟨fuel, traced⟩
    rw [trace?, parsed] at traced
    change traceProgram? fuel {} (trackBlock p) [] = some t at traced
    unfold traceProgram? at traced
    have endless := round.endless fuel
    obtain ⟨m, spent⟩ | ⟨_, _, _, never⟩ := endless
    · rw [spent] at traced
      cases traced
    · exact never

end StepTrace
