import StepTrace.Proofs.Runaway
import Mathlib.Data.Fintype.Card

/-!
How calls are passed on: a call of an instance is one of what its class has as `__call__`, a call
of a class one of its `__init__`, until a native routine, a function of the program or an error is
reached. This ends, unless a value that is called comes back to itself.
-/

set_option autoImplicit false

namespace StepTrace

/-! ### What a call is passed on to -/

structure Invocation where
  callee : Value
  args : List Value
  keywords : Keywords

def Interp.invoke (r : Interp) (c : Invocation) : Run Value := r.call c.callee c.args c.keywords

-- Where a call ends up that is not passed on.
inductive Arrival
  | routine (b : Builtin)
  | method (receiver : Value) (name : String)
  | base (receiver : Value)
  | frame (f : FunctionObject)
  -- A new object whose class has no `__init__`.
  | object (v : Value)
  | exception (v : Value)
  | refused (f : Fault)

def Arrival.run (r : Interp) (c : Invocation) : Arrival → Run Value
  | routine b => r.callBuiltin b c.args c.keywords
  | method receiver name => r.builtinMethod receiver name c.args c.keywords
  | base receiver => r.baseInit receiver c.args
  | frame f => r.callFunction f c.args c.keywords
  | object v => pure v
  | exception v => do
    let _ ← r.baseInit v c.args
    return v
  | refused f => Run.fault f

-- One step of the dispatch: another value is called, after a class has made an object for it, or
-- the call has arrived.
inductive Turn
  | on (made : Option Value) (m : Machine) (c : Invocation)
  | arrived (m : Machine) (a : Arrival)

namespace Machine

def withInstance (m : Machine) (cls : ObjId) : Machine :=
  { m with heap := m.heap.push (.instance ⟨cls, .empty⟩) }

def construct (m : Machine) (cls : ObjId) (c : Invocation) : Turn :=
  let object := .ref m.heap.size
  let m' := m.withInstance cls
  match m'.heap.classAttr? cls "__init__" with
  | some init => .on (some object) m' ⟨init, object :: c.args, c.keywords⟩
  | none =>
    if (m'.heap.exceptionBase? cls).isSome then .arrived m' (.exception object)
    else if c.args.isEmpty && c.keywords.isEmpty then .arrived m' (.object object)
    else .arrived m' (.refused (.type (m'.heap.className cls ++ "() takes no arguments")))

def turn (m : Machine) (c : Invocation) : Turn :=
  match c.callee, m.heap.deref? c.callee with
  | .builtin b, _ => .arrived m (.routine b)
  | .ref _, some (.function f) => .arrived m (.frame f)
  | .ref id, some (.class _) =>
    if m.heap.size < m.heap.limit then m.construct id c
    else .arrived m (.refused (.heapFull m.heap.limit))
  | .ref _, some (.boundMethod receiver function) =>
    .on none m ⟨.ref function, receiver :: c.args, c.keywords⟩
  | .ref _, some (.builtinMethod receiver name) =>
    .arrived m (if name = "__init__" then .base receiver else .method receiver name)
  | .ref _, some (.instance i) =>
    match m.heap.classAttr? i.cls "__call__" with
    | some method => .on none m ⟨method, c.callee :: c.args, c.keywords⟩
    | none => .arrived m (.refused (.notCallable (m.heap.typeName c.callee)))
  | _, _ => .arrived m (.refused (.notCallable (m.heap.typeName c.callee)))

end Machine

-- What a class makes of the answer of the method that initializes an object.
def Run.initialized (object : Value) (answer : Run Value) : Run Value := do
  let v ← answer
  if v.isNone then return object
  else Run.faultOn fun h =>
    .type ("__init__() should return None, not " ++ Fault.mark (h.typeName v))

theorem Run.initialized_congr {object : Value} {x y : Run Value} {m m' : Machine}
    (h : x m = y m') : initialized object x m = initialized object y m' := by
  unfold initialized
  cases done : y m' with
  | ok v m₁ => rw [bind_ok (h.trans done), bind_ok done]
  | error e m₁ => rw [bind_error (h.trans done), bind_error done]

theorem Run.initialized_foldr_congr (objects : List Value) {x y : Run Value} {m m' : Machine}
    (h : x m = y m') : objects.foldr initialized x m = objects.foldr initialized y m' := by
  induction objects with
  | nil => exact h
  | cons object objects ih => exact initialized_congr ih

-- What an interpreter does that has taken one step of the dispatch.
def Turn.run (r : Interp) (c : Invocation) : Turn → EStateM.Result Stop Machine Value
  | on made m c' => made.toList.foldr Run.initialized (r.invoke c') m
  | arrived m a => a.run r c m

namespace Interp

variable {r : Interp} {m : Machine} {c : Invocation}

theorem instantiate_eq (room : m.heap.size < m.heap.limit) (cls : ObjId) :
    r.instantiate cls c.args c.keywords m = (m.construct cls c).run r c := by
  have made : Run.alloc (.instance ⟨cls, .empty⟩) m = .ok (.ref m.heap.size) (m.withInstance cls) :=
    if_pos room
  unfold instantiate Machine.construct
  rw [Run.bind_ok made, Run.heap_bind]
  dsimp only
  cases (m.withInstance cls).heap.classAttr? cls "__init__" with
  | some init => rfl
  | none =>
    dsimp only
    split
    · rfl
    · split <;> rfl

theorem invoke_succ (n : Nat) (m : Machine) (c : Invocation) :
    (interp (n + 1)).invoke c m = (m.turn c).run (interp n) c := by
  obtain ⟨callee, args, keywords⟩ := c
  refine (Run.heap_bind _ m).trans ?_
  unfold Machine.turn
  dsimp only
  cases callee with
  | ref id =>
    cases m.heap.deref? (.ref id) with
    | none => rfl
    | some o =>
      cases o with
      | «class» cls =>
        dsimp only
        split
        · next room => exact instantiate_eq (c := ⟨.ref id, args, keywords⟩) room id
        · next full =>
          have refused : Run.alloc (.instance ⟨id, .empty⟩) m =
              .error (.fault (.heapFull m.heap.limit)) m := if_neg full
          exact Run.bind_error refused
      | builtinMethod receiver name =>
        dsimp only
        split <;> rfl
      | «instance» i =>
        dsimp only
        cases m.heap.classAttr? i.cls "__call__" <;> rfl
      | _ => rfl
  | _ => rfl

end Interp

/-! ### Values that calls of others are calls of -/

namespace Heap

-- What is called in the place of a value, of those that make no object first.
def passesTo? (h : Heap) (v : Value) : Option Value :=
  match h.deref? v with
  | some (.boundMethod _ function) => some (.ref function)
  | some (.instance i) => h.classAttr? i.cls "__call__"
  | _ => none

def follow (h : Heap) : Nat → Value → Option Value
  | 0, v => some v
  | n + 1, v => (h.passesTo? v).bind (h.follow n)

-- A call of the value is, some steps on, a call of the same value again.
def Circular (h : Heap) (v : Value) : Prop := ∃ n, h.follow (n + 1) v = some v

variable {h : Heap} {v w : Value} {n : Nat}

theorem lt_of_passesTo? (passes : h.passesTo? v = some w) : ∃ id < h.size, v = .ref id := by
  cases v with
  | ref id =>
    unfold passesTo? at passes
    cases found : h.deref? (.ref id) with
    | none =>
      rw [found] at passes
      cases passes
    | some o => exact ⟨id, lt_size found, rfl⟩
  | _ => cases passes

theorem follow_add (h : Heap) (n k : Nat) (v : Value) :
    h.follow (n + k) v = (h.follow n v).bind (h.follow k) := by
  induction n generalizing v with
  | zero => rw [Nat.zero_add, follow, Option.bind_some]
  | succ n ih =>
    rw [Nat.add_right_comm, follow, follow, Option.bind_assoc]
    exact congrArg _ (funext ih)

theorem follow_succ (reached : h.follow n v = some w) : h.follow (n + 1) v = h.passesTo? w := by
  rw [follow_add, reached, Option.bind_some, follow]
  cases h.passesTo? w <;> rfl

theorem Circular.passesTo? (circular : h.Circular v) :
    ∃ w, h.passesTo? v = some w ∧ h.Circular w := by
  obtain ⟨n, round⟩ := circular
  rw [follow, Option.bind_eq_some_iff] at round
  obtain ⟨w, passes, back⟩ := round
  exact ⟨w, passes, n, (follow_succ back).trans passes⟩

-- There are no more places than the heap has, so the values that calls are passed on to come to an
-- end there, or to one that was met before.
theorem follow_ends (straight : ∀ n w, h.follow n v = some w → ¬ h.Circular w) :
    ∃ n ≤ h.size, ∃ w, h.follow n v = some w ∧ h.passesTo? w = none := by
  by_contra endless
  have goesOn : ∀ n ≤ h.size, ∃ id : Fin h.size, h.follow n v = some (.ref id) := by
    have passes : ∀ n ≤ h.size, ∀ w, h.follow n v = some w → ∃ w', h.passesTo? w = some w' :=
      fun n le w reached => Option.ne_none_iff_exists'.1 fun stops =>
        endless ⟨n, le, w, reached, stops⟩
    have reached : ∀ n ≤ h.size, ∃ w, h.follow n v = some w := by
      intro n le
      induction n with
      | zero => exact ⟨v, rfl⟩
      | succ n ih =>
        obtain ⟨w, before⟩ := ih (Nat.le_of_succ_le le)
        obtain ⟨w', here⟩ := passes n (Nat.le_of_succ_le le) w before
        exact ⟨w', (follow_succ before).trans here⟩
    intro n le
    obtain ⟨w, here⟩ := reached n le
    obtain ⟨w', next⟩ := passes n le w here
    obtain ⟨id, lt, rfl⟩ := lt_of_passesTo? next
    exact ⟨⟨id, lt⟩, here⟩
  choose place placed using fun i : Fin (h.size + 1) => goesOn i (Nat.le_of_lt_succ i.isLt)
  obtain ⟨i, j, differ, same⟩ := Fintype.exists_ne_map_eq_of_card_lt place (by simp)
  wlog before : i < j generalizing i j
  · exact this j i differ.symm same.symm (lt_of_le_of_ne (not_lt.1 before) differ.symm)
  obtain ⟨k, between⟩ : ∃ k, (j : Nat) = i + (k + 1) := ⟨j - i - 1, by omega⟩
  have round := placed j
  rw [between, follow_add, placed i, Option.bind_some, ← same] at round
  exact straight i _ (placed i) ⟨k, round⟩

end Heap

/-! ### Calls that are passed on -/

namespace Machine

variable {m m₁ : Machine} {c c₁ : Invocation} {made : Option Value}

theorem turn_of_passesTo? {v : Value} (passes : m.heap.passesTo? c.callee = some v) :
    ∃ args, m.turn c = .on none m ⟨v, args, c.keywords⟩ := by
  obtain ⟨callee, args, keywords⟩ := c
  obtain ⟨id, -, rfl⟩ := Heap.lt_of_passesTo? passes
  unfold Heap.passesTo? at passes
  unfold turn
  cases found : m.heap.deref? (.ref id) with
  | none =>
    rw [found] at passes
    cases passes
  | some o =>
    rw [found] at passes
    cases o with
    | boundMethod receiver function =>
      cases passes
      exact ⟨_, rfl⟩
    | «instance» i =>
      dsimp only at passes ⊢
      rw [passes]
      exact ⟨_, rfl⟩
    | _ => cases passes

-- A call is passed on in the same state, or by a class that has made an object.
theorem turn_on (turned : m.turn c = .on made m₁ c₁) :
    made = none ∧ m₁ = m ∧ m.heap.passesTo? c.callee = some c₁.callee ∨
      ∃ cls, made = some (.ref m.heap.size) ∧ m₁ = m.withInstance cls ∧
        m.heap.size < m.heap.limit := by
  obtain ⟨callee, args, keywords⟩ := c
  unfold turn at turned
  unfold Heap.passesTo?
  cases callee with
  | ref id =>
    dsimp only at turned ⊢
    cases found : m.heap.deref? (.ref id) with
    | none =>
      rw [found] at turned
      cases turned
    | some o =>
      rw [found] at turned
      cases o with
      | boundMethod receiver function =>
        cases turned
        exact .inl ⟨rfl, rfl, rfl⟩
      | «instance» i =>
        dsimp only at turned ⊢
        split at turned
        · next method has =>
          cases turned
          exact .inl ⟨rfl, rfl, has⟩
        · cases turned
      | «class» cls =>
        dsimp only at turned
        split at turned
        · next room =>
          unfold construct at turned
          dsimp only at turned
          split at turned
          · cases turned
            exact .inr ⟨id, rfl, rfl, room⟩
          · split at turned
            · cases turned
            · split at turned <;> cases turned
        · cases turned
      | _ => cases turned
  | _ => cases turned

theorem turn_arrived {a : Arrival} (turned : m.turn c = .arrived m₁ a) :
    m₁ = m ∨ ∃ cls, m₁ = m.withInstance cls ∧ (a = .object (.ref m.heap.size) ∨
      a = .exception (.ref m.heap.size) ∨ ∃ f, a = .refused f) := by
  obtain ⟨callee, args, keywords⟩ := c
  unfold turn at turned
  cases callee with
  | ref id =>
    dsimp only at turned
    cases found : m.heap.deref? (.ref id) with
    | none =>
      rw [found] at turned
      cases turned
      exact .inl rfl
    | some o =>
      rw [found] at turned
      cases o with
      | boundMethod receiver function => cases turned
      | «instance» i =>
        dsimp only at turned
        split at turned <;> cases turned
        exact .inl rfl
      | «class» cls =>
        dsimp only at turned
        split at turned
        · unfold construct at turned
          dsimp only at turned
          split at turned
          · cases turned
          · split at turned
            · cases turned
              exact .inr ⟨id, rfl, .inr (.inl rfl)⟩
            · split at turned <;> cases turned
              · exact .inr ⟨id, rfl, .inl rfl⟩
              · exact .inr ⟨id, rfl, .inr (.inr ⟨_, rfl⟩)⟩
        · cases turned
          exact .inl rfl
      | _ =>
        cases turned
        exact .inl rfl
  | _ =>
    cases turned
    exact .inl rfl

end Machine

-- A call that has been passed on `n` times, and the objects that classes have made for it.
inductive PassedOn : Nat → Machine → Invocation → List Value → Machine → Invocation → Prop
  | here (m : Machine) (c : Invocation) : PassedOn 0 m c [] m c
  | on {n : Nat} {m m₁ m' : Machine} {c c₁ c' : Invocation} {made : Option Value}
    {objects : List Value} (turned : m.turn c = .on made m₁ c₁)
    (rest : PassedOn n m₁ c₁ objects m' c') :
    PassedOn (n + 1) m c (made.toList ++ objects) m' c'

-- Only the heap changes, and that by new objects.
def Machine.Extends (m m' : Machine) (objects : Nat) : Prop :=
  ∃ h : Heap, m' = { m with heap := h } ∧ h.limit = m.heap.limit ∧ h.size = m.heap.size + objects

theorem Machine.Extends.trans {m m' m'' : Machine} {k l : Nat} (left : m.Extends m' k)
    (right : m'.Extends m'' l) : m.Extends m'' (k + l) := by
  obtain ⟨h, rfl, limit, size⟩ := left
  obtain ⟨h', rfl, limit', size'⟩ := right
  exact ⟨h', rfl, limit'.trans limit, by rw [size', size, Nat.add_assoc]⟩

theorem Machine.extends_withInstance (m : Machine) (cls : ObjId) :
    m.Extends (m.withInstance cls) 1 :=
  ⟨_, rfl, rfl, Heap.size_push _ _⟩

namespace PassedOn

variable {n k : Nat} {m m₁ m' : Machine} {c c₁ c' : Invocation} {objects others : List Value}

theorem trans (left : PassedOn n m c objects m₁ c₁) (right : PassedOn k m₁ c₁ others m' c') :
    PassedOn (n + k) m c (objects ++ others) m' c' := by
  induction left with
  | here => rwa [Nat.zero_add]
  | on turned _ ih =>
    rw [Nat.add_right_comm, List.append_assoc]
    exact .on turned (ih right)

theorem extend (passed : PassedOn n m c objects m' c') : m.Extends m' objects.length := by
  induction passed with
  | here m => exact ⟨m.heap, rfl, rfl, rfl⟩
  | @on _ m m₁ m' _ _ _ made objects turned _ ih =>
    rcases Machine.turn_on turned with ⟨rfl, rfl, -⟩ | ⟨cls, rfl, rfl, -⟩
    · exact ih
    · have grown := (m.extends_withInstance cls).trans ih
      rwa [Nat.add_comm] at grown

-- What the call comes to, with the fuel that is left where it has been passed on.
theorem run (passed : PassedOn n m c objects m' c') (k : Nat) :
    (interp (k + n)).invoke c m =
      objects.foldr Run.initialized ((interp k).invoke c') m' := by
  induction passed with
  | here => rfl
  | @on n m m₁ m' c c₁ c' made objects turned _ ih =>
    rw [← Nat.add_assoc, Interp.invoke_succ, turned, List.foldr_append]
    exact Run.initialized_foldr_congr _ ih

theorem of_follow {w : Value} (reached : m.heap.follow n c.callee = some w) :
    ∃ c', PassedOn n m c [] m c' ∧ c'.callee = w := by
  induction n generalizing c with
  | zero => exact ⟨c, .here m c, Option.some.inj reached⟩
  | succ n ih =>
    rw [Heap.follow, Option.bind_eq_some_iff] at reached
    obtain ⟨v, passes, reached⟩ := reached
    obtain ⟨args, turned⟩ := Machine.turn_of_passesTo? passes
    obtain ⟨c', passed, same⟩ := ih (c := ⟨v, args, c.keywords⟩) reached
    exact ⟨c', .on turned passed, same⟩

end PassedOn

-- After `n` steps the call arrives, and what it does from there on depends on that alone. No step
-- of the program is recorded on the way, and no frame is entered.
structure Resolves (n : Nat) (m : Machine) (c : Invocation) (objects : List Value) (m' : Machine)
    (c' : Invocation) (a : Arrival) : Prop where
  arrived : ∃ m₁, PassedOn n m c objects m₁ c' ∧ m₁.turn c' = .arrived m' a
  heap : ∃ k, m.Extends m' k
  run : ∀ k, (interp (k + n + 1)).invoke c m =
    objects.foldr Run.initialized (a.run (interp k) c') m'

theorem PassedOn.resolves {n : Nat} {m m₁ m' : Machine} {c c' : Invocation} {objects : List Value}
    {a : Arrival} (passed : PassedOn n m c objects m₁ c') (turned : m₁.turn c' = .arrived m' a) :
    Resolves n m c objects m' c' a where
  arrived := ⟨m₁, passed, turned⟩
  heap := by
    rcases Machine.turn_arrived turned with rfl | ⟨cls, rfl, -⟩
    · exact ⟨_, passed.extend⟩
    · exact ⟨_, passed.extend.trans (m₁.extends_withInstance cls)⟩
  run k := by
    rw [Nat.add_right_comm, passed.run]
    refine Run.initialized_foldr_congr objects ?_
    rw [Interp.invoke_succ, turned]
    rfl

-- No value that is called on the way comes back to itself.
def Straight (m : Machine) (c : Invocation) : Prop :=
  ∀ n objects m' c', PassedOn n m c objects m' c' → ¬ m'.heap.Circular c'.callee

theorem Straight.on {n : Nat} {m m' : Machine} {c c' : Invocation} {objects : List Value}
    (straight : Straight m c) (passed : PassedOn n m c objects m' c') : Straight m' c' :=
  fun _ _ _ _ rest => straight _ _ _ _ (passed.trans rest)

-- As long as no class makes an object there are no more steps than places on the heap.
theorem Straight.next {m : Machine} {c : Invocation} (straight : Straight m c) :
    ∃ n ≤ m.heap.size, ∃ c', PassedOn n m c [] m c' ∧
      ((∃ m' a, m.turn c' = .arrived m' a) ∨
        ∃ v cls c₁, m.turn c' = .on (some v) (m.withInstance cls) c₁ ∧
          m.heap.size < m.heap.limit) := by
  obtain ⟨n, short, w, reached, stops⟩ := m.heap.follow_ends fun n w reached => by
    obtain ⟨c', passed, rfl⟩ := PassedOn.of_follow reached
    exact straight _ _ _ _ passed
  obtain ⟨c', passed, rfl⟩ := PassedOn.of_follow reached
  refine ⟨n, short, c', passed, ?_⟩
  cases turned : m.turn c' with
  | arrived m' a => exact .inl ⟨m', a, rfl⟩
  | on made m₁ c₁ =>
    rcases Machine.turn_on turned with ⟨-, -, passes⟩ | ⟨cls, rfl, rfl, space⟩
    · exact absurd (stops.symm.trans passes) nofun
    · exact .inr ⟨_, cls, c₁, rfl, space⟩

-- The induction is on how many objects there is room for.
theorem Straight.resolves_within {room places : Nat} {m : Machine} {c : Invocation}
    (straight : Straight m c) (left : m.heap.limit - m.heap.size ≤ room)
    (fits : m.heap.size ≤ places) (limited : m.heap.limit ≤ places) :
    ∃ n < (room + 1) * (places + 1), ∃ objects m' c' a, Resolves n m c objects m' c' a := by
  induction room generalizing m c with
  | zero =>
    obtain ⟨n, short, c', passed, ⟨m', a, turned⟩ | ⟨_, _, _, _, space⟩⟩ := straight.next
    · exact ⟨n, by omega, [], m', c', a, passed.resolves turned⟩
    · omega
  | succ room ih =>
    rw [Nat.succ_mul]
    obtain ⟨n, short, c', passed, ⟨m', a, turned⟩ | ⟨v, cls, c₁, turned, space⟩⟩ := straight.next
    · exact ⟨n, by omega, [], m', c', a, passed.resolves turned⟩
    · have way := passed.trans (.on turned (.here ..))
      have size : (m.withInstance cls).heap.size = m.heap.size + 1 := Heap.size_push _ _
      have limit : (m.withInstance cls).heap.limit = m.heap.limit := rfl
      obtain ⟨k, few, objects, m', c', a, rest⟩ :=
        ih (straight.on way) (by omega) (by omega) limited
      obtain ⟨m₁, passed', turned'⟩ := rest.arrived
      exact ⟨_, by omega, _, m', c', a, (way.trans passed').resolves turned'⟩

/-! ### Calls that never arrive -/

section

variable {n k : Nat} {m m' m₁ : Machine} {c c' c₁ : Invocation} {objects others : List Value}

theorem Heap.Circular.goes_on (circular : m.heap.Circular c.callee) :
    ∃ c', m.turn c = .on none m c' ∧ m.heap.Circular c'.callee := by
  obtain ⟨w, passes, circular⟩ := circular.passesTo?
  obtain ⟨args, turned⟩ := Machine.turn_of_passesTo? passes
  exact ⟨_, turned, circular⟩

theorem PassedOn.never_arrives (way : PassedOn n m c objects m' c')
    (circular : m'.heap.Circular c'.callee) (passed : PassedOn k m c others m₁ c₁) :
    ∃ made m₂ c₂, m₁.turn c₁ = .on made m₂ c₂ := by
  induction way generalizing k others with
  | here m c =>
    induction passed with
    | here m c =>
      obtain ⟨c', turned, -⟩ := circular.goes_on
      exact ⟨_, _, _, turned⟩
    | on turned _ ih =>
      obtain ⟨c', turned', circular⟩ := circular.goes_on
      cases turned.symm.trans turned'
      exact ih circular
  | on turned _ ih =>
    cases passed with
    | here => exact ⟨_, _, _, turned⟩
    | on turned' rest =>
      cases turned.symm.trans turned'
      exact ih circular rest

theorem Straight.of_arrived {a : Arrival} (turned : m.turn c = .arrived m' a) : Straight m c := by
  intro n objects m₁ c₁ passed circular
  cases passed with
  | here =>
    obtain ⟨c', goes, -⟩ := circular.goes_on
    cases turned.symm.trans goes
  | on goes => cases turned.symm.trans goes

theorem Straight.of_on {made : Option Value} (turned : m.turn c = .on made m' c')
    (straight : Straight m' c') : Straight m c := by
  intro n objects m₁ c₁ passed circular
  cases passed with
  | here =>
    obtain ⟨c₁, goes, again⟩ := circular.goes_on
    cases turned.symm.trans goes
    exact straight 0 [] m _ (.here ..) again
  | on goes rest =>
    cases turned.symm.trans goes
    exact straight _ _ _ _ rest circular

theorem Run.Endless.initialized {object : Value} {x : Run Value} (endless : x.Endless m) :
    (Run.initialized object x).Endless m := .bind endless

theorem Heap.Circular.endless (circular : m.heap.Circular c.callee) (k : Nat) :
    ((interp k).invoke c).Endless m := by
  induction k generalizing c with
  | zero => exact .outOfFuel
  | succ k ih =>
    obtain ⟨c', turned, circular⟩ := circular.goes_on
    have same : (interp (k + 1)).invoke c m = (interp k).invoke c' m := by
      rw [Interp.invoke_succ, turned]
      rfl
    unfold Run.Endless Run.Reaches
    rw [same]
    exact ih circular

end

/-! ### Programs that call such a value -/

-- A state in which a call of what the name means goes round.
structure Machine.Rounding (m : Machine) (name : String) (v : Value) : Prop where
  meant : m.lookup? name = some v
  circular : m.heap.Circular v
  going : m.halted = false
  room : m.hasRoom = true
  levels : m.evaluating + 1 < evaluationLimit

theorem Machine.Rounding.endless {m : Machine} {name : String} {v : Value}
    (rounding : m.Rounding name v) (l l' l'' : Location) (k : Nat) :
    ((interp k).execBlock [.expr l (.call l' (.name l'' name) [] [])]).Endless m := by
  refine .bind_ok (Run.boundary_of_room l.line rounding.going rounding.room) ?_
  refine Run.Endless.bind (Run.Endless.bind (.eval (Nat.lt_of_succ_lt rounding.levels) fun k => ?_))
  refine .bind (.evalName (v := v) ((Machine.lookup?_deepen _).trans ?_) rounding.levels)
    fun w m' same => ?_
  · refine Eq.trans ?_ rounding.meant
    exact Machine.lookup?_congr (fun _ => rfl) rfl rfl
  · obtain ⟨rfl, rfl⟩ := same
    refine .bind_ok (a := []) rfl (.bind_ok (a := []) rfl ?_)
    let now := Machine.deepen ({ m with lastLine := l.line }.record (Step.atLine l.line))
    have circular : now.heap.Circular w := rounding.circular
    exact Heap.Circular.endless (c := ⟨w, [], []⟩) circular (k + 1)

-- A program whose last statement calls what a name means, in a state where that goes round.
inductive Program.GoesRound : Program → Prop
  | intro {body : Program} {name : String} {v : Value} {n : Nat} {m : Machine}
    (ran : (interp n).execBlock body (.start {} []) = .ok .normal m) (rounding : m.Rounding name v)
    (l l' l'' : Location) : GoesRound (body ++ [.expr l (.call l' (.name l'' name) [] [])])

theorem Program.GoesRound.endless {p : Program} (round : p.GoesRound) (k : Nat) :
    (runProgram k p).Endless (.start {} []) := by
  obtain ⟨ran, rounding, l, l', l''⟩ := round
  refine Run.Endless.bind ?_
  rw [Interp.execBlock_append]
  refine Run.Reaches.bind (Interp.reaches_of_ok ran k) fun flow m' same => ?_
  obtain ⟨rfl, rfl⟩ := same
  exact rounding.endless l l' l'' k

-- Whether the name means an instance that has itself as `__call__`, once the body has run.
def Program.roundsWithin (n : Nat) (body : Program) (name : String) : Bool :=
  match (interp n).execBlock body (.start {} []) with
  | .ok .normal m =>
    match m.lookup? name with
    | some (.ref id) =>
      (match m.heap.passesTo? (.ref id) with
        | some (.ref id') => id' = id
        | _ => false) && !m.halted && m.hasRoom && m.evaluating + 1 < evaluationLimit
    | _ => false
  | _ => false

theorem Program.rounding_of {n : Nat} {body : Program} {name : String}
    (rounds : body.roundsWithin n name = true) :
    ∃ m v, (interp n).execBlock body (.start {} []) = .ok .normal m ∧ m.Rounding name v := by
  unfold roundsWithin at rounds
  split at rounds
  · next m ran =>
    split at rounds
    · next id meant =>
      simp only [Bool.and_eq_true, decide_eq_true_iff, Bool.not_eq_true'] at rounds
      obtain ⟨⟨⟨self, going⟩, room⟩, levels⟩ := rounds
      split at self
      · next id' passes =>
        obtain rfl := of_decide_eq_true self
        have again : m.heap.follow 1 (.ref id') = some (.ref id') :=
          (Heap.follow_succ rfl).trans passes
        exact ⟨m, .ref id', ran, meant, ⟨0, again⟩, going, room, levels⟩
      · cases self
    · cases rounds
  · cases rounds

end StepTrace
