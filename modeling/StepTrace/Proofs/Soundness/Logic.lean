import StepTrace.Proofs.Soundness.World

/-!
Computations that keep a state intact, whose values are at home in the state that they leave, and
that note exactly the accesses they make: the rules by which larger ones are built from smaller
ones.
-/

set_option autoImplicit false

namespace StepTrace

/-! ### Sound moments -/

-- How the accesses that wait for the next step change with an event.
def Event.Accounts (m m' : Machine) : Event → Prop
  | .recorded step => step.accesses = m.accesses.toList ∧ m'.accesses = #[]
  | .accessed kind id i =>
    m'.accesses = m.accesses.push ⟨kind, toString id, i⟩ ∧ Touches kind id i m m'
  | .stopped _ => True
  | _ => m'.accesses = m.accesses

-- Events that leave these accesses alone.
def Event.Quiet : Event → Prop
  | .recorded _ | .accessed .. => False
  | _ => True

structure Moment.Sound (u : Moment) : Prop where
  intact : u.after.Intact
  later : u.before.heap.Later u.after.heap
  accounts : u.event.Accounts u.before u.after

theorem Course.sound {m m' : Machine} {s : List Moment} (course : Course Moment.Sound m s m')
    (intact : m.Intact) : m'.Intact ∧ m.heap.Later m'.heap := by
  induction course with
  | nil => exact ⟨intact, .refl intact.heap.stratified⟩
  | cons hu _ ih =>
    obtain ⟨intact', later⟩ := ih hu.intact
    exact ⟨intact', hu.later.trans later⟩

theorem Course.intact {m m' : Machine} {s : List Moment} (course : Course Moment.Sound m s m')
    (intact : m.Intact) : ∀ u ∈ s, u.before.Intact ∧ u.after.Intact := by
  induction course with
  | nil => exact List.forall_mem_nil _
  | cons hu _ ih => exact List.forall_mem_cons.2 ⟨⟨intact, hu.intact⟩, ih hu.intact⟩

namespace Machine.Intact

variable {m m' : Machine}

-- What does not touch the values of a state keeps it intact.
theorem same (intact : m.Intact) (heap : m'.heap = m.heap) (scopes : m'.scopes = m.scopes)
    (frame : m'.frame.methodOf = m.frame.methodOf) (callers : m'.callers = m.callers)
    (modules : m'.modules = m.modules) : m'.Intact := by
  obtain ⟨hheap, hscopes, hframe, hcallers, hmodules⟩ := intact
  rw [← heap] at hheap hscopes hframe hcallers hmodules
  rw [← scopes] at hscopes
  rw [← callers] at hcallers
  rw [← modules] at hmodules
  refine ⟨hheap, hscopes, fun cls receiver here => ?_, hcallers, hmodules⟩
  exact hframe cls receiver (frame ▸ here)

theorem onHeap (intact : m.Intact) {h : Heap} (hh : h.Intact) (g : m.heap.Grows h) :
    { m with heap := h }.Intact :=
  have later := intact.heap.later g
  ⟨hh, later.keep intact.scopes, later.keep intact.frame, later.keep intact.callers,
    later.keep intact.modules⟩

theorem vars (intact : m.Intact) (id : ScopeId) : m.heap.Hosts (m.vars id) := by
  unfold Machine.vars
  split
  · next s found => exact intact.scopes s (Array.mem_of_getElem? found)
  · exact List.forall_mem_nil _

theorem modifyVars (intact : m.Intact) (id : ScopeId) {f : Namespace → Namespace}
    (hf : ∀ vars, m.heap.Hosts vars → m.heap.Hosts (f vars)) : (m.modifyVars id f).Intact := by
  refine ⟨intact.heap, fun s hs => ?_, intact.frame, intact.callers, intact.modules⟩
  obtain ⟨i, hi, rfl⟩ := Array.mem_iff_getElem.1 hs
  simp only [Machine.modifyVars, Array.getElem_modify]
  simp only [Machine.modifyVars, Array.size_modify] at hi
  have old := intact.scopes m.scopes[i] (Array.getElem_mem hi)
  split
  · exact hf _ old
  · exact old

theorem lookupFrom (intact : m.Intact) (name : String) (bound : Nat) (id : Option ScopeId)
    {v : Value} (found : m.lookupFrom name bound id = some v) : m.heap.Hosts v := by
  induction bound generalizing id with
  | zero => cases found
  | succ bound ih =>
    cases id with
    | none => cases found
    | some id =>
      rw [Machine.lookupFrom] at found
      split at found
      · cases found
      · next s here =>
        split at found
        · next w bound =>
          cases found
          exact Heap.hosts_get? (intact.scopes s (Array.mem_of_getElem? here)) bound
        · exact ih _ found

theorem lookup? (intact : m.Intact) {name : String} {v : Value} (found : m.lookup? name = some v) :
    m.heap.Hosts v := by
  simp only [Machine.lookup?] at found
  split at found
  · next w seen =>
    cases found
    split at seen
    · cases seen
    · exact intact.lookupFrom name _ _ seen
  · split at found
    · next w here =>
      cases found
      exact Heap.hosts_get? (intact.vars _) here
    · obtain ⟨b, -, rfl⟩ := Option.map_eq_some_iff.1 found
      trivial

end Machine.Intact

theorem Object.mapItems_keeps {h : Heap} {f : Array Value → Array Value}
    (hf : ∀ items, h.Hosts items → h.Hosts (f items)) {o : Object} (ho : h.Hosts o) :
    (o.mapList fun l => { l with items := f l.items }).shell = o.shell ∧
      h.Hosts (o.mapList fun l => { l with items := f l.items }) := by
  cases o with
  | list l => exact ⟨rfl, hf l.items ho⟩
  | _ => exact ⟨rfl, ho⟩

theorem Machine.Intact.putItems {m : Machine} (intact : m.Intact) (id : ObjId)
    {f : Array Value → Array Value} (hf : ∀ items, m.heap.Hosts items → m.heap.Hosts (f items)) :
    { m with heap :=
        m.heap.modify id (Object.mapList fun l => { l with items := f l.items }) }.Intact ∧
      m.heap.Later (m.heap.modify id (Object.mapList fun l => { l with items := f l.items })) := by
  have keeps := fun o found => Object.mapItems_keeps hf (intact.heap.hosts id o found)
  have grows := Heap.Grows.modify id fun o found => (keeps o found).1
  exact ⟨intact.onHeap (intact.heap.modify keeps) grows, intact.heap.later grows⟩

/-! ### The judgement -/

-- Started in an intact state `m`, a computation has a history of sound moments; its value is in `A`
-- of the state where it ends.
structure Sound {α : Type} (m : Machine) (A : Machine → α → Prop) (x : Run α) : Prop where
  history : m.Intact → ∃ s, History x m s ∧ Course Moment.Sound m s (Run.state (x m)) ∧
    ∀ a m', x m = .ok a m' → A m' a

-- The value is at home where the computation ends.
abbrev Safe {α : Type} [Resident α] (m : Machine) (x : Run α) : Prop :=
  Sound m (fun m' a => m'.heap.Hosts a) x

-- The computation leaves the state as it is.
abbrev Looks {α : Type} (m : Machine) (A : α → Prop) (x : Run α) : Prop :=
  Sound m (fun m' a => m' = m ∧ A a) x

namespace Sound

variable {α β : Type} {m : Machine} {A : Machine → α → Prop} {B : Machine → β → Prop} {x : Run α}
  {f : α → Run β}

theorem given (h : m.Intact → Sound m A x) : Sound m A x :=
  ⟨fun intact => (h intact).history intact⟩

theorem ret {a : α} (ha : A m a) : Sound m A (pure a) := by
  refine ⟨fun _ => ?_⟩
  refine ⟨[], .pure a m, .nil m, fun b m' done => ?_⟩
  cases done
  exact ha

theorem weaken (hx : Sound m A x) {A' : Machine → α → Prop}
    (h : ∀ m' a, m.heap.Later m'.heap → A m' a → A' m' a) : Sound m A' x := by
  refine ⟨fun intact => ?_⟩
  obtain ⟨s, history, course, value⟩ := hx.history intact
  refine ⟨s, history, course, fun a m' done => ?_⟩
  rw [done] at course
  exact h m' a (course.sound intact).2 (value a m' done)

theorem bind (hx : Sound m A x)
    (hf : ∀ a m', m.heap.Later m'.heap → A m' a → Sound m' B (f a)) : Sound m B (x >>= f) := by
  refine ⟨fun intact => ?_⟩
  obtain ⟨s, history, course, value⟩ := hx.history intact
  cases done : x m with
  | ok a m₁ =>
    rw [done] at course
    obtain ⟨intact₁, later⟩ := course.sound intact
    obtain ⟨t, history', course', value'⟩ :=
      (hf a m₁ later (value a m₁ done)).history intact₁
    rw [Run.bind_ok done]
    exact ⟨s ++ t, .bind history done history', course.append course', value'⟩
  | error e m₁ =>
    rw [done] at course
    rw [Run.bind_error done]
    exact ⟨s, .bindStopped history done, course, fun _ _ never => nomatch never⟩

-- What a computation leaves that ends.
theorem leaves (hx : Sound m A x) (intact : m.Intact) {a : α} {m' : Machine}
    (done : x m = .ok a m') : m'.Intact ∧ m.heap.Later m'.heap ∧ A m' a := by
  obtain ⟨s, -, course, value⟩ := hx.history intact
  rw [done] at course
  obtain ⟨intact', later⟩ := course.sound intact
  exact ⟨intact', later, value a m' done⟩

-- What follows a look goes on in the same state.
theorem after {A : α → Prop} (hx : Looks m A x) (hf : ∀ a, A a → Sound m B (f a)) :
    Sound m B (x >>= f) :=
  hx.bind fun a _ _ looked => looked.1 ▸ hf a looked.2

theorem ite {c : Prop} [Decidable c] {y : Run α} (hx : c → Sound m A x) (hy : ¬ c → Sound m A y) :
    Sound m A (if c then x else y) := by
  split
  · next h => exact hx h
  · next h => exact hy h

-- A value that is found by a look is at home where it is found.
theorem safe [Resident α] {A : α → Prop} (hx : Looks m A x) (h : ∀ a, A a → m.heap.Hosts a) :
    Safe m x :=
  hx.weaken fun _ a _ looked => looked.1 ▸ h a looked.2

theorem map [Resident α] [Resident β] {f : α → β} (hx : Safe m x)
    (hf : ∀ (h : Heap) a, h.Hosts a → h.Hosts (f a)) : Safe m (f <$> x) :=
  hx.bind fun a m' _ ha => .ret (hf m'.heap a ha)

/-! ### Operations -/

theorem primitive (a : Primitive α) (sound : m.Intact → (a.moment m).Sound)
    (value : m.Intact → ∀ v m', a.run m = .ok v m' → A m' v) : Sound m A a.run :=
  ⟨fun intact => ⟨[a.moment m], .primitive a m, .single (sound intact), value intact⟩⟩

theorem accounts_stopped {a : Primitive α} {e : Stop} {m' : Machine}
    (stopped : a.run m = .error e m') : (a.event m).Accounts m (Run.state (a.run m)) := by
  rw [Primitive.event_error stopped]
  trivial

theorem accounts {a : Primitive α} (quiet : (a.mark m).Quiet)
    (same : (Run.state (a.run m)).accesses = m.accesses) :
    (a.event m).Accounts m (Run.state (a.run m)) := by
  cases result : a.run m with
  | ok v m' =>
    rw [← result, Primitive.event_ok result]
    cases marked : a.mark m with
    | recorded | accessed => exact absurd quiet (by rw [marked]; exact id)
    | stopped => trivial
    | _ => exact same
  | error e m' => exact result ▸ accounts_stopped result

theorem accounts_recorded {a : Primitive α} {step : Step} (marked : a.mark m = .recorded step)
    (taken : step.accesses = m.accesses.toList)
    (emptied : ∀ v m', a.run m = .ok v m' → m'.accesses = #[]) :
    (a.event m).Accounts m (Run.state (a.run m)) := by
  cases result : a.run m with
  | ok v m' =>
    rw [Primitive.event_ok result, marked]
    exact ⟨taken, emptied v m' result⟩
  | error e m' => exact result ▸ accounts_stopped result

theorem look (a : Primitive α) {A : α → Prop} (same : Run.state (a.run m) = m)
    (quiet : (a.mark m).Quiet) (value : m.Intact → ∀ v m', a.run m = .ok v m' → A v) :
    Looks m A a.run := by
  refine .primitive a (fun intact => ?_) fun intact v m' done => ⟨?_, value intact v m' done⟩
  · refine ⟨?_, ?_, accounts quiet (congrArg Machine.accesses same)⟩
    · change (Run.state (a.run m)).Intact
      rw [same]
      exact intact
    · change m.heap.Later (Run.state (a.run m)).heap
      rw [same]
      exact .refl intact.heap.stratified
  · rw [done] at same
    exact same

theorem fault (e : Fault) : Sound m A (Run.fault e) := by
  refine .primitive (.fault e) (fun intact => ⟨intact, .refl intact.heap.stratified, trivial⟩) ?_
  exact fun _ _ _ done => nomatch done

theorem faultAtLine (e : Nat → Fault) :
    Sound m A (fun m => .error (.fault (e m.lastLine)) m : Run α) := by
  refine .primitive (.faultAtLine e) (fun intact => ⟨intact, .refl intact.heap.stratified, trivial⟩)
    ?_
  exact fun _ _ _ done => nomatch done

theorem outOfFuel : Sound m A (Run.outOfFuel : Run α) := by
  refine .primitive .outOfFuel (fun intact => ⟨intact, .refl intact.heap.stratified, trivial⟩) ?_
  exact fun _ _ _ done => nomatch done

-- Nothing runs after an error, whatever it would have been.
theorem raise (e : Fault) {f : α → Run β} : Sound m B (Run.fault e >>= f) :=
  (fault e : Sound m (fun _ _ => False) (Run.fault e)).bind fun _ _ _ never => never.elim

theorem onHeap {f : Heap → Run β} (hf : m.heap.Intact → Sound m B (f m.heap)) :
    Sound m B (Run.heap >>= f) := by
  have seen : Looks m (· = m.heap) Run.heap :=
    .look .heap rfl trivial fun _ _ _ done => by cases done; rfl
  refine seen.after ?_
  rintro _ rfl
  exact .given fun intact => hf intact.heap

theorem faultOn (e : Heap → Fault) : Sound m A (Run.faultOn e) := .onHeap fun _ => .fault _

theorem query {f : Heap → α} {A : α → Prop} (hf : m.heap.Intact → A (f m.heap)) :
    Looks m A (do return f (← Run.heap)) :=
  .onHeap fun intact => .ret ⟨rfl, hf intact⟩

theorem deref? (v : Value) :
    Looks m (fun o => o = m.heap.deref? v ∧ m.heap.Hosts o) (Run.deref? v) := by
  refine .query fun intact => ⟨rfl, fun o found => ?_⟩
  cases v with
  | ref id => exact intact.hosts id o found
  | _ => cases found

theorem check (e : Except Fault α) : Looks m (fun a => e = .ok a) (Run.check e) := by
  cases e with
  | ok a => exact .ret ⟨rfl, rfl⟩
  | error f => exact .fault f

theorem checked [Resident α] {e : Except Fault α} (he : ∀ a, e = .ok a → m.heap.Hosts a) :
    Safe m (Run.check e) :=
  (check e).safe he

theorem keyOf (v : Value) : Looks m (fun k => m.heap.hashKey v = .ok k) (Run.keyOf v) := by
  refine .onHeap fun _ => (check _).weaken fun m' k _ done => ⟨done.1, ?_⟩
  obtain ⟨-, done⟩ := done
  rw [Heap.key] at done
  cases key : m.heap.hashKey v with
  | ok k' =>
    rw [key] at done
    exact congrArg _ (Except.ok.inj done)
  | error e =>
    rw [key] at done
    cases done

/-! ### The heap -/

-- What an operation that puts one object on the heap does.
theorem allocates (a : Primitive Value) {o : Object} (same : a.run m = Run.alloc o m)
    (quiet : (a.mark m).Quiet) (ho : m.heap.Hosts o) (placed : o.Placed m.heap.size) :
    Sound m (fun m' v => ∃ id, v = .ref id ∧ m'.heap.get? id = some o) a.run := by
  refine .primitive a (fun intact => ?_) fun intact v m' done => ?_
  · refine ⟨?_, ?_, accounts quiet ?_⟩ <;>
      simp only [Primitive.moment, same, Run.alloc] <;> split
    · next room => exact intact.onHeap (intact.heap.push room placed ho) (.push ..)
    · exact intact
    · exact intact.heap.later (.push ..)
    · exact .refl intact.heap.stratified
    · rfl
    · rfl
  · simp only [same, Run.alloc] at done
    split at done
    · cases done
      exact ⟨_, rfl, Heap.get?_push_size _ _⟩
    · cases done

theorem allocated {o : Object} (ho : m.heap.Hosts o) (untracked : o.tracker? = none) :
    Sound m (fun m' v => ∃ id, v = .ref id ∧ m'.heap.get? id = some o) (Run.alloc o) :=
  allocates (.alloc o) rfl trivial ho (Object.placed_new ho untracked)

theorem home {o : Object} {x : Run Value}
    (hx : Sound m (fun m' v => ∃ id, v = .ref id ∧ m'.heap.get? id = some o) x) : Safe m x := by
  refine hx.weaken ?_
  rintro m' v - ⟨id, rfl, found⟩
  exact Heap.lt_size found

theorem alloc {o : Object} (ho : m.heap.Hosts o) (untracked : o.tracker? = none) :
    Safe m (Run.alloc o) :=
  (allocated ho untracked).home

theorem settle {out : Outcome} (hout : m.heap.Hosts out) : Safe m (Run.settle out) := by
  cases out with
  | value v => exact .ret hout
  | object o => exact .alloc hout.1 hout.2

theorem allocTracked {items : Array Value} (hitems : m.heap.Hosts items) :
    Safe m (Run.allocTracked items) :=
  have placed : (Object.list ⟨items, some m.heap.size⟩).Placed m.heap.size :=
    fun _ same => (Option.some.inj same).symm
  (allocates (.allocTracked items) rfl trivial hitems placed).home

theorem change {id : ObjId} {f : Object → Object}
    (hf : ∀ o, m.heap.get? id = some o → m.heap.Hosts o →
      (f o).shell = o.shell ∧ m.heap.Hosts (f o)) : Safe m (Run.change id f) := by
  refine .primitive (.change id f) (fun intact => ?_) fun _ _ _ _ => trivial
  have keeps := fun o found => hf o found (intact.heap.hosts id o found)
  have grows : m.heap.Grows (m.heap.modify id f) := .modify id fun o found => (keeps o found).1
  exact ⟨intact.onHeap (intact.heap.modify keeps) grows, intact.heap.later grows, rfl⟩

section

variable {id : ObjId}

theorem changeItems {f : Array Value → Array Value}
    (hf : ∀ items, m.heap.Hosts items → m.heap.Hosts (f items)) : Safe m (Run.changeItems id f) :=
  .change fun _ _ ho => Object.mapItems_keeps hf ho

theorem mapDeque {f : Array Value → Array Value}
    (hf : ∀ items, m.heap.Hosts items → m.heap.Hosts (f items)) :
    Safe m (Run.change id (Object.mapDeque f)) :=
  .change fun o _ ho => by
    cases o with
    | deque items => exact ⟨rfl, hf items ho⟩
    | _ => exact ⟨rfl, ho⟩

theorem mapDict {f : DictObject → DictObject} (hf : ∀ d, m.heap.Hosts d → m.heap.Hosts (f d)) :
    Safe m (Run.change id (Object.mapDict f)) :=
  .change fun o _ ho => by
    cases o with
    | dict d => exact ⟨rfl, hf d ho⟩
    | _ => exact ⟨rfl, ho⟩

theorem mapSet {f : SetObject → SetObject} (hf : ∀ s, m.heap.Hosts s → m.heap.Hosts (f s)) :
    Safe m (Run.change id (Object.mapSet f)) :=
  .change fun o _ ho => by
    cases o with
    | set s => exact ⟨rfl, hf s ho⟩
    | _ => exact ⟨rfl, ho⟩

theorem mapAttrs {f : Namespace → Namespace}
    (hf : ∀ attrs, m.heap.Hosts attrs → m.heap.Hosts (f attrs)) :
    Safe m (Run.change id (Object.mapAttrs f)) :=
  .change fun o _ ho => by
    cases o with
    | «instance» i => exact ⟨rfl, ho.1, hf i.fields ho.2⟩
    | «class» c => exact ⟨rfl, ho.1, hf c.attrs ho.2⟩
    | _ => exact ⟨rfl, ho⟩

end

/-! ### Variables, frames and modules -/

theorem frame : Looks m m.heap.Hosts Run.frame :=
  .look .frame rfl trivial fun intact _ _ done => by cases done; exact intact.frame

theorem enclosingScope : Looks m (fun _ => True) Run.enclosingScope :=
  .look .enclosingScope rfl trivial fun _ _ _ _ => trivial

theorem varsOf (id : ScopeId) : Looks m m.heap.Hosts (Run.varsOf id) :=
  .look (.varsOf id) rfl trivial fun intact _ _ done => by cases done; exact intact.vars id

theorem imported? (name : String) : Looks m m.heap.Hosts (Run.imported? name) := by
  refine .look (.imported? name) rfl trivial fun intact v m' done w found => ?_
  cases done
  obtain ⟨before, after, same, -⟩ := List.lookup_eq_some_iff.1 found
  exact (intact.modules (name, w) (by rw [same]; simp)).2

theorem checkDepth : Looks m (fun _ => True) Run.checkDepth := by
  refine .look .checkDepth ?_ trivial fun _ _ _ _ => trivial
  simp only [Primitive.run, Run.checkDepth]
  split <;> rfl

theorem lookup (name : String) : Safe m (Run.lookup name) := by
  have seen : Looks m m.heap.Hosts (Run.lookup name) := by
    refine .look (.lookup name) ?_ trivial fun intact v m' done => ?_
    · simp only [Primitive.run, Run.lookup]
      split <;> rfl
    · simp only [Primitive.run, Run.lookup] at done
      split at done
      · next w found =>
        cases done
        exact intact.lookup? found
      · cases done
  exact seen.weaken fun m' v _ here => here.1 ▸ here.2

-- Operations on variables, frames, modules, output and input; the values on the heap stay.
theorem aside {a : Primitive α} (intact : m.Intact → (Run.state (a.run m)).Intact)
    (heap : (Run.state (a.run m)).heap = m.heap)
    (accounts : (a.event m).Accounts m (Run.state (a.run m)))
    (value : ∀ v m', a.run m = .ok v m' → A m' v) : Sound m A a.run := by
  refine .primitive a (fun h => ⟨intact h, ?_, accounts⟩) fun _ => value
  change m.heap.Later (Run.state (a.run m)).heap
  rw [heap]
  exact .refl h.heap.stratified

theorem store (name : String) {v : Value} (hv : m.heap.Hosts v) : Safe m (Run.store name v) :=
  .aside (a := .store name v) (fun intact => intact.modifyVars _ fun _ hvars =>
    Heap.hosts_insert hvars hv name) rfl rfl fun _ _ _ => trivial

theorem delete (name : String) : Safe m (Run.delete name) := by
  refine .aside (a := .delete name) (fun intact => ?_) ?_ (accounts trivial ?_)
    fun _ _ _ => trivial <;> simp only [Primitive.run, Run.delete] <;> split
  · exact intact.modifyVars _ fun _ hvars => Heap.hosts_erase hvars name
  · exact intact
  all_goals rfl

theorem declareGlobal (names : List String) : Safe m (Run.declareGlobal names) := by
  refine .aside (a := .declareGlobal names) (fun intact => ?_) ?_ (accounts trivial ?_)
    fun _ _ _ => trivial <;> simp only [Primitive.run, Run.declareGlobal] <;> split
  · exact intact
  · exact intact.same rfl rfl rfl rfl rfl
  all_goals rfl

theorem newScope {vars : Namespace} (hvars : m.heap.Hosts vars) (parent : Option ScopeId) :
    Safe m (Run.newScope vars parent) := by
  refine .aside (a := .newScope vars parent) (fun intact => ?_) rfl rfl fun _ _ _ => trivial
  refine ⟨intact.heap, fun s hs => ?_, intact.frame, intact.callers, intact.modules⟩
  rcases Array.mem_push.1 hs with old | rfl
  · exact intact.scopes s old
  · exact hvars

theorem remember (name : String) {v : Value} (hv : m.heap.Hosts v) :
    Safe m (Run.remember name v) := by
  refine .aside (a := .remember name v) (fun intact => ?_) rfl rfl fun _ _ _ => trivial
  exact ⟨intact.heap, intact.scopes, intact.frame, intact.callers,
    List.forall_mem_cons.2 ⟨⟨trivial, hv⟩, intact.modules⟩⟩

theorem print (text : String) : Safe m (Run.print text) :=
  .aside (a := .print text) (fun intact => intact.same rfl rfl rfl rfl rfl) rfl rfl
    fun _ _ _ => trivial

theorem nextInput : Safe m Run.nextInput := by
  refine .aside (a := .nextInput) (fun intact => ?_) ?_ (accounts trivial ?_)
    fun _ _ _ => trivial <;> simp only [Primitive.run, Run.nextInput] <;> split
  · exact intact.same rfl rfl rfl rfl rfl
  · exact intact
  all_goals rfl

theorem boundary (line : Nat) : Safe m (Run.boundary line) := by
  refine .aside (a := .boundary line) (fun intact => ?_) ?_
    (accounts_recorded rfl rfl fun v m' done => ?_) fun _ _ _ => trivial
  · simp only [Primitive.run, Run.boundary]
    split
    · exact intact
    · split <;> exact intact.same rfl rfl rfl rfl rfl
  · simp only [Primitive.run, Run.boundary]
    split
    · rfl
    · split <;> rfl
  · simp only [Primitive.run, Run.boundary] at done
    split at done
    · cases done
    · split at done <;> cases done
      rfl

theorem lastStep : Safe m Primitive.finish.run := by
  have state : Run.state (Primitive.finish.run m) = m.finish := rfl
  by_cases room : m.hasRoom = true
  · have finished := Machine.finish_of_room room
    refine .aside (fun intact => ?_) ?_ (accounts_recorded (if_pos room) rfl fun v m' done => ?_)
      fun _ _ _ => trivial
    · rw [state, finished]
      exact intact.same rfl rfl rfl rfl rfl
    · rw [state, finished]
      rfl
    · cases done
      rw [finished]
      rfl
  · have finished := Machine.finish_of_full room
    refine .aside (fun intact => ?_) ?_ (accounts ?_ ?_) fun _ _ _ => trivial
    · rw [state, finished]
      exact intact
    · rw [state, finished]
    · rw [Primitive.mark, if_neg room]
      trivial
    · rw [state, finished]

/-! ### Elements of lists -/

-- The state after an access to an element of the list `id` is noted.
def noted (m : Machine) (kind : AccessKind) (id : ObjId) (l : ListObject) (i : Int64) : Machine :=
  { m with accesses :=
      if l.tracker.isSome then m.accesses.push ⟨kind, toString id, indexIn l.items.size i⟩
      else m.accesses }

theorem intact_noted (intact : m.Intact) (kind : AccessKind) (id : ObjId) (l : ListObject)
    (i : Int64) : (noted m kind id l i).Intact :=
  intact.same rfl rfl rfl rfl rfl

-- A list that is found under an id and is tracked reports accesses under this id.
theorem note_eq (intact : m.heap.Intact) {id : ObjId} {l : ListObject}
    (found : m.heap.get? id = some (.list l)) (kind : AccessKind) (i : Int64) :
    Interp.note kind l i m = .ok () (noted m kind id l i) := by
  rw [Interp.note, noted]
  cases tracked : l.tracker with
  | none => rfl
  | some t =>
    obtain rfl : t = id := intact.placed id _ found t tracked
    rfl

-- Within bounds, an access leaves its note.
theorem accounts_access {a : Primitive α} {id : ObjId} {l : ListObject} {kind : AccessKind}
    {i : Int64} {v : α} {m' : Machine} (intact : m.Intact)
    (found : m.heap.get? id = some (.list l))
    (marked : a.mark m =
      if l.tracker.isSome then .accessed kind id (indexIn l.items.size i) else .silent)
    {p : Nat} (place : position? l.items.size i = some p) (done : a.run m = .ok v m')
    (left : m'.accesses = (noted m kind id l i).accesses) (subscript : Subscript id i m m' kind) :
    (a.event m).Accounts m (Run.state (a.run m)) := by
  rw [Primitive.event_ok done, marked, done]
  split
  · next tracked =>
    obtain ⟨t, tracker⟩ := Option.isSome_iff_exists.1 tracked
    obtain rfl : t = id := intact.heap.placed id _ found t tracker
    obtain ⟨low, high⟩ := indexIn_of_position? place
    refine ⟨left.trans ?_, l, i, found, tracker, rfl, low, high, subscript⟩
    rw [noted, if_pos tracked]
  · next untracked =>
    refine left.trans ?_
    rw [noted, if_neg untracked]

theorem readElement {id : ObjId} {l : ListObject} (found : m.heap.get? id = some (.list l))
    (i : Int64) : Safe m (do
      Interp.note .read l i
      Interp.inside "list" ((position? l.items.size i).bind (l.items[·]?))) := by
  refine .given fun intact => ?_
  change Safe m (Primitive.readElement id l i).run
  have run : (Primitive.readElement id l i).run m = Interp.inside "list" _ (noted m .read id l i) :=
    Run.bind_ok (note_eq intact.heap found .read i)
  cases element : (position? l.items.size i).bind (l.items[·]?) with
  | some v =>
    rw [element] at run
    obtain ⟨p, place, here⟩ := Option.bind_eq_some_iff.1 element
    refine .aside (fun intact => ?_) ?_ (accounts_access intact found rfl place run rfl
      ⟨v, fun r => (getItem_list found rfl).trans run⟩) fun w m' done => ?_
    · rw [run]
      exact intact_noted intact ..
    · rw [run]
      rfl
    · cases run.symm.trans done
      exact intact.heap.hosts id _ found v (Array.mem_of_getElem? here)
  | none =>
    rw [element] at run
    refine .aside (fun intact => ?_) ?_ (accounts_stopped run)
      fun w m' done => nomatch run.symm.trans done
    · rw [run]
      exact intact_noted intact ..
    · rw [run]
      rfl

theorem writeElement {id : ObjId} {l : ListObject} (found : m.heap.get? id = some (.list l))
    (i : Int64) {v : Value} (hv : m.heap.Hosts v) : Safe m (do
      Interp.note .write l i
      match position? l.items.size i with
      | some p => Run.changeItems id (·.setIfInBounds p v)
      | none => Run.fault (.outside "list assignment")) := by
  refine .given fun intact => ?_
  change Safe m (Primitive.writeElement id l i v).run
  have run : (Primitive.writeElement id l i v).run m = (match position? l.items.size i with
      | some p => Run.changeItems id (·.setIfInBounds p v)
      | none => Run.fault (.outside "list assignment")) (noted m .write id l i) :=
    Run.bind_ok (note_eq intact.heap found .write i)
  cases place : position? l.items.size i with
  | some p =>
    rw [place] at run
    have stored := (intact_noted intact .write id l i).putItems id
      fun _ hitems => Heap.hosts_set hitems p hv
    refine .primitive _ (fun intact => ⟨?_, ?_, accounts_access intact found rfl place run rfl
      ⟨v, fun r => (setItem_list found rfl v).trans run⟩⟩) fun _ _ _ _ => trivial
    · change (Run.state ((Primitive.writeElement id l i v).run m)).Intact
      rw [run]
      exact stored.1
    · change m.heap.Later (Run.state ((Primitive.writeElement id l i v).run m)).heap
      rw [run]
      exact stored.2
  | none =>
    rw [place] at run
    refine .aside (fun intact => ?_) ?_ (accounts_stopped run)
      fun w m' done => nomatch run.symm.trans done
    · rw [run]
      exact intact_noted intact ..
    · rw [run]
      rfl

/-! ### Parts that put a piece of the state back -/

-- A part is entered or left: what is set aside or put back is intact, and no access is noted.
structure Onward (m m' : Machine) : Prop where
  intact : m'.Intact
  later : m.heap.Later m'.heap
  accesses : m'.accesses = m.accesses

theorem Onward.same {m' : Machine} (intact : m'.Intact) (heap : m'.heap = m.heap)
    (accesses : m'.accesses = m.accesses) : Onward m m' := by
  refine ⟨intact, ?_, accesses⟩
  rw [heap]
  exact .refl (heap ▸ intact.heap.stratified)

theorem around [Resident α] [Resident β] {y : Run β} {m₁ : Machine} {g : α → β}
    {leave : α → Machine → Machine} {fail : Machine → Machine}
    (eq : y m = Run.putBack g leave fail (x m₁))
    (history : ∀ s, History x m₁ s →
      History y m (around m m₁ s (Run.state (x m₁)) (Run.state (y m))))
    (hx : Safe m₁ x) (entered : m.Intact → Onward m m₁)
    (left : m.Intact → ∀ a m₂, m.heap.Later m₂.heap → m₂.Intact → m₂.heap.Hosts a →
      Onward m₂ (leave a m₂) ∧ (leave a m₂).heap.Hosts (g a))
    (failed : m.Intact → ∀ m₂, m.heap.Later m₂.heap → m₂.Intact → Onward m₂ (fail m₂)) :
    Safe m y := by
  refine ⟨fun intact => ?_⟩
  have enter := entered intact
  obtain ⟨s, past, course, value⟩ := hx.history enter.intact
  obtain ⟨intact₂, later⟩ := course.sound enter.intact
  replace later := enter.later.trans later
  have leaves : Onward (Run.state (x m₁)) (Run.state (y m)) ∧
      ∀ b m', y m = .ok b m' → m'.heap.Hosts b := by
    rw [eq]
    cases done : x m₁ with
    | ok a m₂ =>
      rw [done] at intact₂ later
      obtain ⟨onward, hosted⟩ := left intact a m₂ later intact₂ (value a m₂ done)
      refine ⟨onward, fun b m' result => ?_⟩
      cases result
      exact hosted
    | error e m₂ =>
      rw [done] at intact₂ later
      exact ⟨failed intact m₂ later intact₂, fun _ _ never => nomatch never⟩
  obtain ⟨onward, hosted⟩ := leaves
  exact ⟨_, history s past, course.around ⟨enter.intact, enter.later, enter.accesses⟩
    ⟨onward.intact, onward.later, onward.accesses⟩, hosted⟩

-- A part that is refused stops the run.
theorem refused {e : Stop} {y : Run β} (stops : y m = .error e m)
    (history : History y m [⟨m, .stopped e, m⟩]) : Sound m B y := by
  refine ⟨fun intact => ?_⟩
  have stop : Moment.Sound ⟨m, .stopped e, m⟩ := ⟨intact, .refl intact.heap.stratified, trivial⟩
  rw [stops]
  exact ⟨_, history, .single stop, fun _ _ never => nomatch never⟩

theorem inFrame {f : Frame} [Resident α] (hf : m.heap.Hosts f) (hx : Safe (m.enter f) x) :
    Safe m (Run.inFrame f x) := by
  by_cases room : m.depth < m.config.maxCallDepth
  · have restored : ∀ m₂ : Machine, m.Intact → m.heap.Later m₂.heap → m₂.Intact →
        Onward m₂ { m₂ with frame := m.frame, callers := m.callers } :=
      fun m₂ intact later intact₂ => .same ⟨intact₂.heap, intact₂.scopes, later.keep intact.frame,
        later.keep intact.callers, intact₂.modules⟩ rfl rfl
    refine around ((Run.inFrame_eq f x m).trans (if_pos room)) (fun s => .inFrame f room) hx
      (fun intact => ?_) (fun intact a m₂ later intact₂ ha => ?_)
      fun intact m₂ later intact₂ => restored m₂ intact later intact₂
    · have callers := List.forall_mem_cons.2 ⟨intact.frame, intact.callers⟩
      exact .same ⟨intact.heap, intact.scopes, hf, callers, intact.modules⟩ rfl rfl
    · exact ⟨restored m₂ intact later intact₂, ha⟩
  · exact refused (if_neg room) (.inFrameRefused f room)

theorem deeper [Resident α] (hx : Safe m.deepen x) : Safe m (Run.deeper x) := by
  by_cases room : m.evaluating < evaluationLimit
  · have restored : ∀ (m₂ : Machine) (k : Nat), m₂.Intact →
        Onward m₂ { m₂ with evaluating := k } := fun m₂ k intact₂ =>
      .same (intact₂.same rfl rfl rfl rfl rfl) rfl rfl
    exact around ((Run.deeper_eq x m).trans (if_pos room)) (fun s => .deeper room) hx
      (restored m _) (fun _ a m₂ _ intact₂ ha => ⟨restored m₂ _ intact₂, ha⟩)
      fun _ m₂ _ intact₂ => restored m₂ _ intact₂
  · exact refused (if_neg room) (.deeperRefused room)

theorem rearrange {id : ObjId} [Resident α] {x : Array Value → Run (Array Value × α)}
    (hx : ∀ items m₁, m.heap.Later m₁.heap → m₁.heap.Hosts items → Safe m₁ (x items)) :
    Safe m (Run.rearrange id x) := by
  refine .given fun intact => ?_
  by_cases found : ∃ l, m.heap.get? id = some (.list l)
  · obtain ⟨l, found⟩ := found
    have hitems : m.heap.Hosts l.items := intact.heap.hosts id _ found
    have put : ∀ (m₂ : Machine) (items : Array Value), m₂.Intact → m₂.heap.Hosts items →
        Onward m₂ (Run.putItems id items m₂) := fun m₂ items intact₂ hitems =>
      have kept := intact₂.putItems id (f := fun _ => items) fun _ _ => hitems
      ⟨kept.1, kept.2, rfl⟩
    have emptied := put m #[] intact Heap.hosts_empty
    exact around (Run.rearrange_of_list found) (fun s => .rearrange found)
      (hx l.items _ emptied.later (emptied.later.keep hitems)) (fun _ => emptied)
      (fun _ a m₂ _ intact₂ ha =>
        have back := put m₂ a.1 intact₂ ha.1
        ⟨back, back.later.keep ha.2⟩)
      fun _ m₂ later intact₂ => put m₂ l.items intact₂ (later.keep hitems)
  · have other : ∀ l, m.heap.get? id ≠ some (.list l) := not_exists.1 found
    obtain ⟨s, past, course, value⟩ :=
      (hx #[] m (.refl intact.heap.stratified) Heap.hosts_empty).history intact
    have left : Run.state (Run.rearrange id x m) = Run.state (x #[] m) ∧
        ∀ b m', Run.rearrange id x m = .ok b m' → m'.heap.Hosts b := by
      rw [Run.rearrange_of_other other]
      cases done : x #[] m with
      | ok a m₁ =>
        refine ⟨rfl, fun b m' result => ?_⟩
        cases result
        exact (value a m₁ done).2
      | error e m₁ => exact ⟨rfl, fun _ _ never => nomatch never⟩
    refine ⟨fun _ => ⟨s, .rearrangeOther other past, ?_, left.2⟩⟩
    rw [left.1]
    exact course

end Sound

end StepTrace
