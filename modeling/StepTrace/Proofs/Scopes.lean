import Mathlib.Data.List.Induction
import StepTrace.Proofs.Frames

/-!
Whose variables a run changes. Without `global` a scope changes only while the one frame that owns
it is the current one. The variables of comprehensions stay in the frames of the comprehensions.
-/

set_option autoImplicit false

namespace StepTrace

/-! ### Moments -/

-- The scopes that were there before are as they were, apart from that of the current frame.
structure Moment.Confined (u : Moment) : Prop where
  grows : u.before.scopes.size ≤ u.after.scopes.size
  others : ∀ id < u.before.scopes.size, id ≠ u.before.frame.scope →
    u.after.scopes[id]? = u.before.scopes[id]?

theorem Moment.Confined.still {u : Moment} (same : u.after.scopes = u.before.scopes) :
    u.Confined := by
  constructor
  · exact Nat.le_of_eq (congrArg Array.size same.symm)
  · intro id _ _
    rw [same]

theorem Primitive.confined {α : Type} (a : Primitive α) {m : Machine}
    (bare : m.frame.globals = []) : (a.moment m).Confined := by
  have own : ∀ name, m.bindingScope name = m.frame.scope := fun name => by
    rw [Machine.bindingScope, bare]
    rfl
  obtain ⟨grows, others⟩ := a.scopes m
  refine ⟨grows, fun id old other => others id old ?_⟩
  rintro ⟨name, -, rfl⟩
  exact other (own name)

-- To enter and to leave does not touch the scopes.
theorem History.confined {α : Type} {x : Run α} {m : Machine} {s : List Moment}
    (h : History x m s) :
    Course (fun u => u.before.frame.globals = [] → u.Confined) m s (Run.state (x m)) := by
  have aside : ∀ {m m' : Machine} {e : Event}, m.Aside m' →
      m.frame.globals = [] → Moment.Confined ⟨m, e, m'⟩ := by
    rintro m m' e ⟨_, _, _, _, rfl⟩ -
    exact .still rfl
  exact h.course (fun a m => a.confined) (fun m _ => .still rfl) aside aside

/-! ### Who owns which scope -/

namespace Machine

-- The scopes of the frames, the current one first.
def owners (m : Machine) : List ScopeId := (m.frame :: m.callers).map Frame.scope

-- Each frame has a scope of its own, newer than those of the frames below.
structure Ranked (m : Machine) : Prop where
  ordered : m.owners.Pairwise (· > ·)
  made : ∀ id ∈ m.owners, id < m.scopes.size

theorem ranked_start (config : Config) (inputs : List String) :
    (Machine.start config inputs).Ranked :=
  ⟨List.pairwise_singleton .., List.forall_mem_singleton.2 Nat.one_pos⟩

theorem Ranked.le_scope {m : Machine} (ranked : m.Ranked) {id : ScopeId} (h : id ∈ m.owners) :
    id ≤ m.frame.scope := by
  rcases List.mem_cons.1 h with rfl | h
  · exact Nat.le_refl _
  · exact Nat.le_of_lt ((List.pairwise_cons.1 ranked.ordered).1 id h)

end Machine

-- Frames are entered, left, or stay.
theorem Moment.Framed.owners {u : Moment} (framed : u.Framed) :
    u.after.owners = u.before.owners ∨
      (u.Enters ∧ u.after.owners = u.after.frame.scope :: u.before.owners) ∨
      u.before.owners = u.before.frame.scope :: u.after.owners := by
  have still : ∀ {m m' : Machine}, (∃ globals, m'.frame = { m.frame with globals := globals }) →
      m'.callers = m.callers → m'.owners = m.owners := by
    rintro m m' ⟨globals, frame⟩ callers
    rw [Machine.owners, Machine.owners, frame, callers]
    rfl
  cases framed with
  | within e b => exact .inl (still b.frame b.callers)
  | enters f => exact .inr (.inl ⟨rfl, rfl⟩)
  | leaves _ frames =>
    refine .inr (.inr ?_)
    rw [Machine.owners, frames]
    rfl
  | deepens => exact .inl rfl
  | rises _ frame callers => exact .inl (still frame callers)

theorem Moment.Framed.scopes_of_enters {u : Moment} (framed : u.Framed) (enters : u.Enters) :
    u.after.scopes = u.before.scopes := by
  have longer := congrArg List.length enters
  cases framed with
  | within e b => exact absurd (longer.symm.trans (congrArg List.length b.callers)) (by simp)
  | enters => rfl
  | leaves _ frames =>
    rw [frames] at longer
    exact absurd longer (by simp; omega)
  | deepens => rfl
  | rises _ _ callers => exact absurd (longer.symm.trans (congrArg List.length callers)) (by simp)

theorem Moment.Framed.ranked {u : Moment} (framed : u.Framed) (confined : u.Confined)
    (opened : u.Enters → ∃ v : Moment, v.Opens u ∧ v.before.Ranked) (h : u.before.Ranked) :
    u.after.Ranked := by
  have made : ∀ id ∈ u.before.owners, id < u.after.scopes.size := fun id here =>
    Nat.lt_of_lt_of_le (h.made id here) confined.grows
  rcases framed.owners with same | ⟨enters, more⟩ | less
  · exact ⟨same ▸ h.ordered, same ▸ made⟩
  · obtain ⟨v, opens, ranked⟩ := opened enters
    have old : u.before.owners = v.before.owners := by
      rw [opens.next, Machine.owners, Machine.owners, opens.frame, opens.callers]
    have size : v.before.scopes.size < u.before.scopes.size := by
      rw [opens.next, opens.made]
      exact Nat.lt_succ_self _
    rw [← opens.scope] at size
    constructor
    · rw [more]
      refine List.pairwise_cons.2 ⟨fun id here => ?_, h.ordered⟩
      rw [old] at here
      exact opens.scope ▸ ranked.made id here
    · rw [more]
      exact List.forall_mem_cons.2 ⟨Nat.lt_of_lt_of_le size confined.grows, made⟩
  · have ordered := h.ordered
    rw [less] at ordered made
    exact ⟨(List.pairwise_cons.1 ordered).2, (List.forall_mem_cons.1 made).2⟩

/-! ### Parts of a run in a frame -/

-- The state `k` is one between the entry from `m` into a frame with the scope `f` and the return
-- from it, or the one right after that: all older scopes are as they were.
structure Machine.Inside (m : Machine) (f : ScopeId) (k : Machine) : Prop where
  grows : m.scopes.size ≤ k.scopes.size
  kept : ∀ id < m.scopes.size, id ≠ f → k.scopes[id]? = m.scopes[id]?
  above : m.depth < k.depth → (f :: m.owners) <:+ k.owners

theorem Machine.length_owners (m : Machine) : m.owners.length = m.depth := by
  rw [owners, List.length_map, List.length_cons]
  rfl

section

variable {m : Machine} {f : ScopeId}

theorem Moment.Framed.inside {u : Moment} (framed : u.Framed) (confined : u.Confined)
    (ranked : u.before.Ranked) (newest : f + 1 = m.scopes.size) (deep : m.depth < u.before.depth)
    (h : m.Inside f u.before) : m.Inside f u.after := by
  have above := h.above deep
  have least : f ≤ u.before.frame.scope := ranked.le_scope (above.subset List.mem_cons_self)
  refine ⟨Nat.le_trans h.grows confined.grows, fun id old other => ?_, fun deep' => ?_⟩
  · have here : id < f + 1 := newest ▸ old
    have older : id < f := Nat.lt_of_le_of_ne (Nat.le_of_lt_succ here) other
    rw [confined.others id (Nat.lt_of_lt_of_le old h.grows)
      (Nat.ne_of_lt (Nat.lt_of_lt_of_le older least))]
    exact h.kept id old other
  · rcases framed.owners with same | ⟨-, more⟩ | less
    · exact same ▸ above
    · rw [more]
      exact above.trans (List.suffix_cons ..)
    · rw [less] at above
      rcases List.suffix_cons_iff.1 above with same | below
      · -- Then the frame itself is left.
        have left : m.owners = u.after.owners := (List.cons.inj same).2
        rw [← m.length_owners, left, Machine.length_owners] at deep'
        exact absurd deep' (Nat.lt_irrefl _)
      · exact below

theorem Course.inside {k k' : Machine} {s : List Moment} (course : Course Moment.Framed k s k')
    (confined : ∀ u ∈ s, u.Confined) (ranked : ∀ u ∈ s, u.before.Ranked)
    (newest : f + 1 = m.scopes.size) (deep : ∀ u ∈ s, m.depth < u.before.depth)
    (h : m.Inside f k) : ∀ u ∈ s, m.Inside f u.before ∧ m.Inside f u.after := by
  induction course with
  | nil => exact List.forall_mem_nil _
  | @cons u s _ hu _ ih =>
    obtain ⟨confined₁, confined⟩ := List.forall_mem_cons.1 confined
    obtain ⟨ranked₁, ranked⟩ := List.forall_mem_cons.1 ranked
    obtain ⟨deep₁, deep⟩ := List.forall_mem_cons.1 deep
    have after := hu.inside confined₁ ranked₁ newest deep₁ h
    exact List.forall_mem_cons.2 ⟨⟨h, after⟩, ih confined ranked deep after⟩

end

/-! ### Runs -/

namespace Course

variable {P : Moment → Prop} {m m' : Machine} {s : List Moment}

theorem last_mem (course : Course P m s m') : m' ∈ StepTrace.trajectory m s := by
  induction course with
  | nil m => exact List.mem_singleton_self m
  | cons _ _ ih => exact List.mem_cons_of_mem _ ih

theorem before_mem (course : Course P m s m') : ∀ u ∈ s, u.before ∈ StepTrace.trajectory m s := by
  induction course with
  | nil => exact List.forall_mem_nil _
  | cons _ _ ih =>
    exact List.forall_mem_cons.2 ⟨List.mem_cons_self, fun v hv => List.mem_cons_of_mem _ (ih v hv)⟩

theorem sizes (course : Course P m s m') (confined : ∀ u ∈ s, u.Confined) :
    ∀ k ∈ StepTrace.trajectory m s, k.scopes.size ≤ m'.scopes.size := by
  induction course with
  | nil m => exact List.forall_mem_singleton.2 (Nat.le_refl _)
  | @cons u s m' _ _ ih =>
    obtain ⟨first, confined⟩ := List.forall_mem_cons.1 confined
    have later := ih confined
    have after := later u.after List.mem_cons_self
    exact List.forall_mem_cons.2 ⟨Nat.le_trans first.grows after, later⟩

end Course

theorem trajectory_concat (m : Machine) (s : List Moment) (u : Moment) :
    trajectory m (s ++ [u]) = trajectory m s ++ [u.after] := by
  rw [trajectory, List.map_append]
  rfl

-- The course of a run in which each frame has a new scope and no name is declared global.
structure Secluded (m : Machine) (s : List Moment) (m' : Machine) : Prop where
  framed : Course Moment.Framed m s m'
  confined : ∀ u ∈ s, u.Confined
  opened : Opened s
  start : m.Ranked

namespace Secluded

variable {m m' : Machine} {s t past body rest : List Moment} {u : Moment}

theorem of_append (h : Secluded m (s ++ t) m') : ∃ m₁, Secluded m s m₁ := by
  obtain ⟨m₁, framed, -⟩ := h.framed.split
  refine ⟨m₁, framed, fun u hu => h.confined u (List.mem_append_left t hu), ?_, h.start⟩
  rintro past u rest rfl
  exact h.opened past u (rest ++ t) (by simp)

theorem ranked (h : Secluded m s m') : ∀ k ∈ trajectory m s, k.Ranked := by
  induction s using List.reverseRecOn generalizing m' with
  | nil => exact List.forall_mem_singleton.2 h.start
  | append_singleton s u ih =>
    obtain ⟨m₁, h₁⟩ := h.of_append
    have states := ih h₁
    have hu : u ∈ s ++ [u] := List.mem_append_right s (List.mem_singleton_self u)
    rw [trajectory_concat]
    refine List.forall_mem_append.2 ⟨states, List.forall_mem_singleton.2 ?_⟩
    refine (h.framed.all u hu).ranked (h.confined u hu) (fun enters => ?_) ?_
    · obtain ⟨past, v, rfl, opens⟩ := h.opened s u [] rfl enters
      exact ⟨v, opens, states _ (h₁.framed.before_mem v (by simp))⟩
    · obtain ⟨k, first, last⟩ := h.framed.split
      cases last
      exact states _ first.last_mem

theorem newest (h : Secluded m (past ++ u :: rest) m') (enters : u.Enters) :
    u.after.frame.scope + 1 = u.before.scopes.size := by
  obtain ⟨_, v, -, opens⟩ := h.opened past u rest rfl enters
  rw [opens.next, opens.made, opens.scope]

-- No frame before has had the scope of one that is entered.
theorem fresh (h : Secluded m (past ++ u :: rest) m') (enters : u.Enters) :
    ∀ k ∈ trajectory m past, k.frame.scope ≠ u.after.frame.scope := by
  obtain ⟨past, v, rfl, opens⟩ := h.opened past u rest rfl enters
  obtain ⟨_, h₁⟩ := h.of_append
  obtain ⟨k, first, last⟩ := h₁.framed.split
  have before : k = v.before := by
    cases last
    rfl
  have older : ∀ k ∈ trajectory m past, k.frame.scope < u.after.frame.scope := by
    intro k hk
    have ranked := h₁.ranked k (trajectory_concat m past v ▸ List.mem_append_left _ hk)
    have size := first.sizes (fun w hw => h₁.confined w (List.mem_append_left _ hw)) k hk
    rw [opens.scope, ← before]
    exact Nat.lt_of_lt_of_le (ranked.made _ List.mem_cons_self) size
  rw [trajectory_concat]
  refine List.forall_mem_append.2 ⟨fun k hk => Nat.ne_of_lt (older k hk), ?_⟩
  refine List.forall_mem_singleton.2 ?_
  rw [opens.frame, ← before]
  exact Nat.ne_of_lt (older k first.last_mem)

-- From the entry into a frame on until it is left, all scopes but its own that were there stay as
-- they are.
theorem inside (h : Secluded m (past ++ u :: (body ++ rest)) m') (enters : u.Enters)
    (deep : ∀ w ∈ body, u.before.depth < w.before.depth) :
    ∀ w ∈ body, u.before.Inside u.after.frame.scope w.before ∧
      u.before.Inside u.after.frame.scope w.after := by
  obtain ⟨k, -, framed⟩ := h.framed.split
  have mem : ∀ w ∈ body, w ∈ past ++ u :: (body ++ rest) := fun w hw => by simp [hw]
  cases framed with
  | cons hu framed =>
    have same := hu.scopes_of_enters enters
    obtain ⟨_, framed, -⟩ := framed.split
    refine framed.inside (fun w hw => h.confined w (mem w hw))
      (fun w hw => h.ranked _ (h.framed.before_mem w (mem w hw))) (h.newest enters) deep ?_
    refine ⟨Nat.le_of_eq (congrArg Array.size same.symm), fun id _ _ => by rw [same], fun _ => ?_⟩
    rw [Machine.owners, Machine.owners, enters]
    exact List.suffix_refl _

end Secluded

-- Before each moment of a course no frame declares a name global if none does so at the start.
theorem Course.bare {m m' : Machine} {s : List Moment}
    (course : Course (fun u => u.after.MayDeclare false) m s m') (hm : m.MayDeclare false) :
    ∀ u ∈ s, u.before.frame.globals = [] := by
  induction course with
  | nil => exact List.forall_mem_nil _
  | cons hu _ ih =>
    exact List.forall_mem_cons.2
      ⟨Frame.globals_eq_nil (hm.frames _ List.mem_cons_self), ih hu⟩

theorem Machine.mayDeclare_start (config : Config) (inputs : List String) :
    (Machine.start config inputs).MayDeclare false := by
  constructor
  · intro id o found
    cases found
  · exact List.forall_mem_singleton.2 (Bool.le_refl false)

theorem Machine.MayDeclare.finish {g : Bool} {m : Machine} (h : m.MayDeclare g) :
    m.finish.MayDeclare g := by
  rw [Machine.finish]
  split <;> exact h.same rfl rfl rfl

theorem secluded_tracedRun (fuel : Nat) {p : Program} (plain : anyGlobal p = false)
    (config : Config) (inputs : List String) :
    ∃ s, History (tracedRun fuel p) (.start config inputs) s ∧
      ∃ m', Secluded (.start config inputs) s m' := by
  have start := Machine.mayDeclare_start config inputs
  have program : Lockstep ⟨false, false, false, true⟩ .all Eq (runProgram fuel p)
      (runProgram fuel p) :=
    runProgram_lockstep (t := false) rfl (.refl fuel) (Bool.le_refl false) p (Bool.le_of_eq plain)
  obtain ⟨s, history, passage, -⟩ : (tracedRun fuel p).Passes false .all
      (.start config inputs) fun _ => True :=
    .bind start trivial (program.passes start trivial) fun _ m₁ _ h₁ _ =>
      .primitive .finish h₁.finish trivial fun _ _ _ => trivial
  refine ⟨s, history, _, history.framed, fun u hu => ?_, passage.opened, Machine.ranked_start ..⟩
  exact history.confined.all u hu (passage.course.bare start u hu)

/--
Without `global` a scope changes only while the frame that owns it is the current one. A frame that
is entered has a scope that no frame before it had, and until it is left all scopes that were there
before stay as they were, the module's among them.
-/
theorem scopes_are_isolated (fuel : Nat) (p : Program) (plain : anyGlobal p = false)
    (config : Config) (inputs : List String) :
    ∃ s, History (tracedRun fuel p) (.start config inputs) s ∧
      (∀ u ∈ s, u.Confined) ∧
      ∀ past u body rest, s = past ++ u :: (body ++ rest) → u.Enters →
        (∀ k ∈ trajectory (.start config inputs) past, k.frame.scope ≠ u.after.frame.scope) ∧
        ((∀ v ∈ body, u.before.depth < v.before.depth) → ∀ v ∈ body,
          (∀ id < u.before.scopes.size, id ≠ u.after.frame.scope →
            v.before.scopes[id]? = u.before.scopes[id]? ∧
              v.after.scopes[id]? = u.before.scopes[id]?) ∧
          v.before.vars moduleScope = u.before.vars moduleScope ∧
            v.after.vars moduleScope = u.before.vars moduleScope) := by
  obtain ⟨s, history, m', secluded⟩ := secluded_tracedRun fuel plain config inputs
  refine ⟨s, history, secluded.confined, ?_⟩
  rintro past u body rest rfl enters
  have fresh := secluded.fresh enters
  refine ⟨fresh, fun deep v hv => ?_⟩
  obtain ⟨before, after⟩ := secluded.inside enters deep v hv
  have kept : ∀ id < u.before.scopes.size, id ≠ u.after.frame.scope →
      v.before.scopes[id]? = u.before.scopes[id]? ∧
        v.after.scopes[id]? = u.before.scopes[id]? :=
    fun id old other => ⟨before.kept id old other, after.kept id old other⟩
  have there : moduleScope < u.before.scopes.size := secluded.newest enters ▸ Nat.succ_pos _
  have module := kept moduleScope there (fresh _ List.mem_cons_self)
  refine ⟨kept, ?_, ?_⟩
  · rw [Machine.vars, module.1]
    rfl
  · rw [Machine.vars, module.2]
    rfl

theorem scopes_are_isolated_shadowed_name :
    ∃ p, parseProgram "x = 0\ndef f(x):\n    x = x + 1\nf(1)\n" = .ok p ∧ anyGlobal p = false ∧
      ∃ s, History (tracedRun 50 p) (.start {} []) s ∧ ∀ u ∈ s, u.Confined := by
  have plain : (parseProgram "x = 0\ndef f(x):\n    x = x + 1\nf(1)\n").toOption.map anyGlobal =
      some false := by
    rw [parseProgram_ofList]
    decide +kernel
  obtain ⟨p, parsed, plain⟩ := Option.map_eq_some_iff.mp plain
  obtain ⟨s, history, confined, -⟩ := scopes_are_isolated 50 p plain {} []
  refine ⟨p, ?_, plain, s, history, confined⟩
  cases result : parseProgram "x = 0\ndef f(x):\n    x = x + 1\nf(1)\n" with
  | ok q =>
    rw [result] at parsed
    exact congrArg _ (Option.some.inj parsed)
  | error e =>
    rw [result] at parsed
    cases parsed

/-! ### Comprehensions -/

-- Where a scope is not as it was, the body of a function has changed it.
theorem Outside.changed {k : Nat} {m m' : Machine} {s : List Moment}
    (h : Outside (Moment.Keeps k) m s m') {id : ScopeId} (old : id < k)
    (differs : m'.scopes[id]? ≠ m.scopes[id]?) :
    ∃ past body rest n f c, s = past ++ (body ++ rest) ∧ History ((interp n).runBody f) c body ∧
      (Run.state ((interp n).runBody f c)).scopes[id]? ≠ c.scopes[id]? := by
  induction h with
  | nil => exact absurd rfl differs
  | @own u s m hu _ ih =>
    rw [← hu id old] at differs
    obtain ⟨past, body, rest, n, f, c, rfl, found⟩ := ih differs
    exact ⟨u :: past, body, rest, n, f, c, rfl, found⟩
  | @body n f m m' s t h _ ih =>
    by_cases same : (Run.state ((interp n).runBody f m)).scopes[id]? = m.scopes[id]?
    · rw [← same] at differs
      obtain ⟨past, body, rest, n, f, c, rfl, found⟩ := ih differs
      exact ⟨s ++ past, body, rest, n, f, c, by simp only [List.append_assoc], found⟩
    · exact ⟨[], s, t, n, f, m, rfl, h, same⟩

/--
To evaluate an expression changes no scope that was there before, apart from what the bodies of the
functions do that are called, where its comprehensions bind no name that the frame has declared
global.
-/
theorem loop_names_stay_inside (n : Nat) (e : Expr) (m : Machine)
    (free : ∀ name ∈ e.loopNames, name ∉ m.frame.globals) :
    ∃ s, History ((interp n).eval e) m s ∧
      Outside (Moment.Keeps m.scopes.size) m s (Run.state ((interp n).eval e m)) ∧
      ∀ id < m.scopes.size, (Run.state ((interp n).eval e m)).scopes[id]? ≠ m.scopes[id]? →
        ∃ past body rest k f c, s = past ++ (body ++ rest) ∧
          History ((interp k).runBody f) c body ∧
          (Run.state ((interp k).runBody f c)).scopes[id]? ≠ c.scopes[id]? := by
  have R : (interp n).InStep ⟨false, false, true, true⟩ (interp n) := interp_inStep rfl (.refl n)
  have steady := R.eval (p := .loops false m.frame.globals) false (Bool.le_refl false) e free
  obtain ⟨s, history, passage, -⟩ := steady.passes m.mayDeclare_true fun _ => id
  have outside := Sheltered.kept passage.shelters m.scopes.size (Nat.le_refl _) nofun
  exact ⟨s, history, outside, fun id old differs => outside.changed old differs⟩

-- `[x for x in [1, 2]]`
def Expr.copyOfList : Expr :=
  .listComp ⟨1, 1⟩ (.name ⟨1, 2⟩ "x")
    [.mk (.name ⟨1, 8⟩ "x") (.list ⟨1, 13⟩ [.int ⟨1, 14⟩ 1, .int ⟨1, 17⟩ 2]) []]

-- Inside the call of a function that has declared names global. The module binds `x`.
def Machine.insideCall (globals : List String) : Machine :=
  { Machine.start {} [] with
    scopes := #[⟨.ofList [("x", .int 0)], none⟩, default]
    frame := { kind := .function, scope := 1, globals }
    callers := [default] }

theorem loop_names_stay_inside_other_global :
    (∀ name ∈ Expr.copyOfList.loopNames, name ∉ (Machine.insideCall ["y"]).frame.globals) ∧
      ∃ s, History ((interp 5).eval .copyOfList) (.insideCall ["y"]) s ∧
        Outside (Moment.Keeps 2) (.insideCall ["y"]) s
          (Run.state ((interp 5).eval .copyOfList (.insideCall ["y"]))) := by
  have free : ∀ name ∈ Expr.copyOfList.loopNames,
      name ∉ (Machine.insideCall ["y"]).frame.globals := by
    decide
  obtain ⟨s, history, outside, -⟩ :=
    loop_names_stay_inside 5 .copyOfList (.insideCall ["y"]) free
  exact ⟨free, s, history, outside⟩

-- There is no function that could be called, and the module's `x` changes.
theorem declared_loop_name_reaches_module :
    (Machine.insideCall ["x"]).heap.size = 0 ∧
      (((Machine.insideCall ["x"]).vars moduleScope).get? "x").bind Value.int? = some 0 ∧
      (((Run.state ((interp 5).eval .copyOfList (.insideCall ["x"]))).vars moduleScope).get?
        "x").bind Value.int? = some 2 := by
  decide +kernel

end StepTrace
