import Mathlib
import StepTrace.Proofs.Balance
import StepTrace.Proofs.Lockstep.Statement

/-!
What is done in lockstep has a history. In it each frame is entered right after its scope is made,
code that declares names global stays away where there was none, and an expression changes the
scopes around it in the bodies of functions only.
-/

set_option autoImplicit false

namespace StepTrace

/-! ### New frames have new scopes -/

def Moment.Enters (u : Moment) : Prop := u.after.callers = u.before.frame :: u.before.callers

-- The scope of the frame that is entered next is made.
structure Moment.Opens (v u : Moment) : Prop where
  next : u.before = v.after
  frame : v.after.frame = v.before.frame
  callers : v.after.callers = v.before.callers
  made : v.after.scopes.size = v.before.scopes.size + 1
  scope : u.after.frame.scope = v.before.scopes.size

def Opened (s : List Moment) : Prop :=
  ∀ past u rest, s = past ++ u :: rest → u.Enters → ∃ past' v, past = past' ++ [v] ∧ v.Opens u

namespace Opened

variable {s t : List Moment}

theorem nil : Opened [] := by
  intro past u rest same
  cases past <;> cases same

theorem append (hs : Opened s) (ht : Opened t) : Opened (s ++ t) := by
  intro past u rest same enters
  rcases List.append_eq_append_iff.1 same with ⟨mid, rfl, tail⟩ | ⟨mid, rfl, tail⟩
  · obtain ⟨past', v, rfl, opens⟩ := ht mid u rest tail enters
    exact ⟨s ++ past', v, (List.append_assoc ..).symm, opens⟩
  · cases mid with
    | nil =>
      obtain ⟨past', v, split, opens⟩ := ht [] u rest tail.symm enters
      exact absurd split (by simp)
    | cons w mid =>
      obtain ⟨rfl, rfl⟩ := List.cons.inj tail
      exact hs past u mid rfl enters

-- Moments that enter nothing need nothing before them.
theorem single {u : Moment} (still : u.after.callers.length ≤ u.before.callers.length) :
    Opened [u] := by
  intro past u' rest same enters
  cases past with
  | nil =>
    obtain ⟨rfl, -⟩ := List.cons.inj same
    have longer := congrArg List.length enters
    rw [List.length_cons] at longer
    omega
  | cons w past => simp at same

theorem inScope (hs : Opened s) {v : Moment} {m m₁ m₂ m₃ : Machine}
    (opens : v.Opens ⟨m, .silent, m₁⟩)
    (left : m₃.callers.length ≤ m₂.callers.length) : Opened (v :: around m m₁ s m₂ m₃) := by
  have leave : Opened [⟨m₂, .unwound, m₃⟩] := single left
  have enter : Opened [v, ⟨m, .silent, m₁⟩] := by
    intro past u rest same enters
    cases past with
    | nil =>
      obtain ⟨rfl, -⟩ := List.cons.inj same
      have longer := congrArg List.length (opens.callers.symm.trans enters)
      rw [List.length_cons] at longer
      omega
    | cons w past =>
      obtain ⟨first, same⟩ := List.cons.inj same
      cases past with
      | nil =>
        obtain ⟨second, -⟩ := List.cons.inj same
        exact ⟨[], v, by rw [first, List.nil_append], second ▸ opens⟩
      | cons w' past => simp at same
  exact enter.append (hs.append leave)

theorem around (hs : Opened s) {m m₁ m₂ m₃ : Machine} (before : m₁.callers = m.callers)
    (after : m₃.callers = m₂.callers) : Opened (around m m₁ s m₂ m₃) := by
  have enter : Opened [⟨m, .silent, m₁⟩] := single (Nat.le_of_eq (congrArg List.length before))
  have leave : Opened [⟨m₂, .unwound, m₃⟩] := single (Nat.le_of_eq (congrArg List.length after))
  exact enter.append (hs.append leave)

end Opened

/-! ### Expressions change no scope -/

-- The oldest `k` scopes stay as they are.
def Moment.Keeps (k : Nat) (u : Moment) : Prop :=
  ∀ id < k, u.after.scopes[id]? = u.before.scopes[id]?

theorem Moment.Keeps.still {k : Nat} {u : Moment} (same : u.after.scopes = u.before.scopes) :
    u.Keeps k := by
  intro id _
  rw [same]

-- Moments in a row. Those in the bodies of functions may be any; the others satisfy `P`.
inductive Outside (P : Moment → Prop) : Machine → List Moment → Machine → Prop
  | nil (m : Machine) : Outside P m [] m
  | own {u : Moment} {s : List Moment} {m : Machine} (hu : P u) (rest : Outside P u.after s m) :
    Outside P u.before (u :: s) m
  | body {n : Nat} {f : FunctionObject} {m m' : Machine} {s t : List Moment}
    (h : History ((interp n).runBody f) m s)
    (rest : Outside P (Run.state ((interp n).runBody f m)) t m') : Outside P m (s ++ t) m'

namespace Outside

variable {P : Moment → Prop} {m m₁ m₂ m₃ : Machine} {s t : List Moment}

theorem single {u : Moment} (hu : P u) : Outside P u.before [u] u.after := .own hu (.nil _)

theorem append (hs : Outside P m s m₁) (ht : Outside P m₁ t m₂) : Outside P m (s ++ t) m₂ := by
  induction hs with
  | nil => exact ht
  | own hu _ ih => exact .own hu (ih ht)
  | body h _ ih =>
    rw [List.append_assoc]
    exact .body h (ih ht)

theorem around (enter : P ⟨m, .silent, m₁⟩) (hs : Outside P m₁ s m₂)
    (leave : P ⟨m₂, .unwound, m₃⟩) : Outside P m (around m m₁ s m₂ m₃) m₃ := by
  have left : Outside P m₂ [⟨m₂, .unwound, m₃⟩] m₃ := .single leave
  exact .own enter (hs.append left)

end Outside

-- What an expression leaves as it is. In the frame of a comprehension the scope of that is new.
structure Sheltered (own : Bool) (m : Machine) (s : List Moment) (m' : Machine) : Prop where
  frame : m'.frame = m.frame
  grows : m.scopes.size ≤ m'.scopes.size
  kept : ∀ k ≤ m.scopes.size, (own = true → k ≤ m.frame.scope) →
    Outside (Moment.Keeps k) m s m'

namespace Sheltered

variable {own : Bool} {m m₁ m₂ m₃ : Machine} {s t : List Moment}

theorem nil : Sheltered own m [] m := ⟨rfl, Nat.le_refl _, fun _ _ _ => .nil m⟩

theorem append (hs : Sheltered own m s m₁) (ht : Sheltered own m₁ t m₂) :
    Sheltered own m (s ++ t) m₂ := by
  refine ⟨ht.frame.trans hs.frame, Nat.le_trans hs.grows ht.grows, fun k old newer => ?_⟩
  exact (hs.kept k old newer).append
    (ht.kept k (Nat.le_trans old hs.grows) (hs.frame.symm ▸ newer))

theorem around (hs : Sheltered own m₁ s m₂) (frame : m₁.frame = m.frame)
    (scopes : m₁.scopes = m.scopes) (frame' : m₃.frame = m₂.frame)
    (scopes' : m₃.scopes = m₂.scopes) : Sheltered own m (around m m₁ s m₂ m₃) m₃ := by
  refine ⟨(frame'.trans hs.frame).trans frame, ?_, fun k old newer => ?_⟩
  · rw [scopes', ← scopes]
    exact hs.grows
  · rw [← scopes] at old
    rw [← frame] at newer
    exact .around (.still scopes) (hs.kept k old newer) (.still scopes')

end Sheltered

def Rights.Shelters : Rights → Machine → List Moment → Machine → Prop
  | all, _, _, _ => True
  | loops own _, m, s, m' => Sheltered own m s m'

namespace Rights.Shelters

variable {p : Rights} {m m₁ m₂ m₃ : Machine} {s t : List Moment}

theorem nil : p.Shelters m [] m := by
  cases p with
  | all => trivial
  | loops => exact Sheltered.nil

theorem append (hs : p.Shelters m s m₁) (ht : p.Shelters m₁ t m₂) : p.Shelters m (s ++ t) m₂ := by
  cases p with
  | all => trivial
  | loops => exact Sheltered.append hs ht

theorem around (hs : p.Shelters m₁ s m₂) (frame : m₁.frame = m.frame)
    (scopes : m₁.scopes = m.scopes) (frame' : m₃.frame = m₂.frame)
    (scopes' : m₃.scopes = m₂.scopes) : p.Shelters m (around m m₁ s m₂ m₃) m₃ := by
  cases p with
  | all => trivial
  | loops => exact Sheltered.around hs frame scopes frame' scopes'

theorem still {u : Moment} (frame : u.after.frame = u.before.frame)
    (scopes : u.after.scopes = u.before.scopes) : p.Shelters u.before [u] u.after := by
  cases p with
  | all => trivial
  | loops =>
    exact ⟨frame, Nat.le_of_eq (congrArg Array.size scopes.symm),
      fun k _ _ => .single (.still scopes)⟩

theorem knows (h : p.Shelters m s m₁) (known : p.Knows m.frame) : p.Knows m₁.frame := by
  cases p with
  | all => trivial
  | loops =>
    have same := Sheltered.frame h
    rw [same]
    exact known

-- The name that is bound is not one that the frame has declared global.
theorem primitive {α : Type} (a : Primitive α) (m : Machine) (known : p.Knows m.frame)
    (binds : ∀ name, a.name? = some name → p.Binds name) (declares : a.declares = true → p = .all) :
    p.Shelters m [a.moment m] (Run.state (a.run m)) := by
  cases p with
  | all => trivial
  | loops own kept =>
    have undeclared : a.declares = false := by
      cases h : a.declares with
      | false => rfl
      | true => cases declares h
    obtain ⟨grows, others⟩ := a.scopes m
    refine ⟨a.frame_of_undeclared undeclared m, grows, fun k old newer => ?_⟩
    refine .single (u := a.moment m) fun id older => others id (Nat.lt_of_lt_of_le older old) ?_
    rintro ⟨name, bound, here⟩
    obtain ⟨inLoop, free⟩ := binds name bound
    have undeclaredName : m.frame.globals.contains name = false := by
      rw [List.contains_eq_mem, decide_eq_false_iff_not]
      exact fun mem => free (known name mem)
    rw [Machine.bindingScope, undeclaredName] at here
    have here : m.frame.scope = id := here
    exact absurd (here ▸ newer inLoop) (Nat.not_le_of_lt older)

end Rights.Shelters

/-! ### Operations -/

namespace Machine.MayDeclare

variable {g : Bool} {m m' : Machine}

theorem same (h : m.MayDeclare g) (heap : m'.heap = m.heap) (frame : m'.frame = m.frame)
    (callers : m'.callers = m.callers) : m'.MayDeclare g := by
  constructor
  · rw [heap]
    exact h.heap
  · rw [frame, callers]
    exact h.frames

theorem alloc (h : m.MayDeclare g) {o : Object} (code : o.hasGlobal ≤ g) :
    (Run.state (Run.alloc o m)).MayDeclare g := by
  unfold Run.alloc
  split
  · exact ⟨h.heap.push code, h.frames⟩
  · exact h

theorem change (h : m.MayDeclare g) (id : ObjId) {f : Object → Object}
    (code : ∀ o, (f o).hasGlobal = o.hasGlobal) :
    (Run.state (Run.change id f m)).MayDeclare g :=
  ⟨h.heap.modify id code, h.frames⟩

theorem changeItems (h : m.MayDeclare g) (id : ObjId) (f : Array Value → Array Value) :
    (Run.state (Run.changeItems id f m)).MayDeclare g :=
  h.change id fun o => by cases o <;> rfl

theorem putItems (h : m.MayDeclare g) (id : ObjId) (items : Array Value) :
    (Run.putItems id items m).MayDeclare g :=
  h.change id fun o => by cases o <;> rfl

theorem enter (h : m.MayDeclare g) {f : Frame} (code : f.hasGlobal ≤ g) :
    (m.enter f).MayDeclare g :=
  ⟨h.heap, List.forall_mem_cons.2 ⟨code, h.frames⟩⟩

end Machine.MayDeclare

-- The operation of histories that is done, and what it does to names.
structure Primitive.Within {α : Type} (p : Rights) (a : Primitive α) (x : Run α) : Prop where
  run : x = a.run
  binds : ∀ name, a.name? = some name → p.Binds name
  declares : a.declares = true → p = .all

theorem Primitive.binds_nothing {α : Type} {p : Rights} {a : Primitive α} (h : a.name? = none)
    (name : String) (bound : a.name? = some name) : p.Binds name := by
  rw [h] at bound
  cases bound

theorem Primitive.declares_nothing {α : Type} {p : Rights} {a : Primitive α}
    (h : a.declares = false) (declared : a.declares = true) : p = .all := by
  rw [h] at declared
  cases declared

theorem Primitive.Within.unconcerned {α : Type} {p : Rights} {a : Primitive α}
    (h : a.concernsNames = false) : a.Within p a.run := by
  cases a with
  | store | delete | declareGlobal | newScope => cases h
  | _ => exact ⟨rfl, nofun, nofun⟩

-- The operation concerns no names, and both programs have the same result.
theorem Primitive.shared {g : Bool} {p : Rights} {α : Type} {a : Primitive α}
    (h : a.concernsNames = false)
    (keeps : ∀ m : Machine, m.MayDeclare g → (Run.state (a.run m)).MayDeclare g) :
    ∃ a' : Primitive α, a'.Within p a.run ∧ ∀ m : Machine, m.MayDeclare g → p.Knows m.frame →
      (Run.state (a'.run m)).MayDeclare g ∧ ∀ v m', a'.run m = .ok v m' → ∃ b, v = b :=
  ⟨a, .unconcerned h, fun m hm _ => ⟨keeps m hm, fun v _ _ => ⟨v, rfl⟩⟩⟩

-- An operation done in lockstep is one of those that histories are made of.
theorem Operation.primitive {d : Leeway} {p : Rights} {α : Type} {A : α → α → Prop} {x y : Run α}
    (h : Operation d p A x y) :
    ∃ a : Primitive α, a.Within p x ∧ ∀ m : Machine, m.MayDeclare d.globals → p.Knows m.frame →
      (Run.state (a.run m)).MayDeclare d.globals ∧ ∀ v m', a.run m = .ok v m' → ∃ b, A v b := by
  cases h with
  | fault f =>
    exact ⟨.fault f, .unconcerned rfl, fun m hm _ => ⟨hm, fun _ _ done => by cases done⟩⟩
  | faultAtLine f =>
    exact ⟨.faultAtLine f, .unconcerned rfl, fun m hm _ => ⟨hm, fun _ _ done => by cases done⟩⟩
  | outOfFuel =>
    exact ⟨.outOfFuel, .unconcerned rfl, fun m hm _ => ⟨hm, fun _ _ done => by cases done⟩⟩
  | heap =>
    refine ⟨.heap, .unconcerned rfl, fun m hm _ => ⟨hm, fun h _ done => ?_⟩⟩
    cases done
    exact ⟨m.heap, .refl _, hm.heap⟩
  | frame =>
    refine ⟨.frame, .unconcerned rfl, fun m hm known => ⟨hm, fun f _ done => ?_⟩⟩
    cases done
    exact ⟨m.frame, rfl, hm.frames m.frame List.mem_cons_self, known⟩
  | enclosingScope => exact Primitive.shared (a := .enclosingScope) rfl fun m hm => hm
  | @alloc o _ _ code => exact Primitive.shared (a := .alloc o) rfl fun m hm => hm.alloc code
  | allocTracked items =>
    exact Primitive.shared (a := .allocTracked items) rfl fun m hm => hm.alloc (Bool.false_le _)
  | allocMarked _ items =>
    exact Primitive.shared (a := .alloc (.list ⟨items, none⟩)) rfl fun m hm =>
      hm.alloc (Bool.false_le _)
  | @change id f _ _ code =>
    exact Primitive.shared (a := .change id f) rfl fun m hm => hm.change id code
  | lookup name =>
    refine Primitive.shared (a := .lookup name) rfl fun m hm => ?_
    simp only [Primitive.run, Run.lookup]
    split <;> exact hm
  | store name v binds =>
    refine ⟨.store name v, ⟨rfl, ?_, Primitive.declares_nothing rfl⟩, fun m hm _ =>
      ⟨hm.same rfl rfl rfl, fun v _ _ => ⟨v, rfl⟩⟩⟩
    rintro _ ⟨⟩
    exact binds
  | delete name all =>
    subst all
    refine ⟨.delete name, ⟨rfl, fun _ _ => trivial, Primitive.declares_nothing rfl⟩, fun m hm _ =>
      ⟨?_, fun v _ _ => ⟨v, rfl⟩⟩⟩
    simp only [Primitive.run, Run.delete]
    split
    · exact hm.same rfl rfl rfl
    · exact hm
  | declareGlobal globals names all =>
    refine ⟨.declareGlobal names, ⟨rfl, Primitive.binds_nothing rfl, fun _ => all⟩, fun m _ _ =>
      ⟨?_, fun v _ _ => ⟨v, rfl⟩⟩⟩
    rw [globals]
    exact Machine.mayDeclare_true _
  | newScope vars parent =>
    exact ⟨.newScope vars parent,
      ⟨rfl, Primitive.binds_nothing rfl, Primitive.declares_nothing rfl⟩, fun m hm _ =>
      ⟨hm.same rfl rfl rfl, fun v _ _ => ⟨v, rfl⟩⟩⟩
  | varsOf id => exact Primitive.shared (a := .varsOf id) rfl fun m hm => hm
  | checkDepth =>
    refine Primitive.shared (a := .checkDepth) rfl fun m hm => ?_
    simp only [Primitive.run, Run.checkDepth]
    split <;> exact hm
  | print text =>
    exact Primitive.shared (a := .print text) rfl fun m hm => hm.same rfl rfl rfl
  | nextInput =>
    refine Primitive.shared (a := .nextInput) rfl fun m hm => ?_
    simp only [Primitive.run, Run.nextInput]
    split
    · exact hm.same rfl rfl rfl
    · exact hm
  | @readElement id l _ _ i =>
    refine Primitive.shared (a := .readElement id l i) rfl fun m hm => ?_
    obtain ⟨accesses, -, run⟩ := Primitive.readElement_eq id l i m
    rw [run]
    split <;> exact hm.same rfl rfl rfl
  | @writeElement id l _ _ i v =>
    refine Primitive.shared (a := .writeElement id l i v) rfl fun m hm => ?_
    obtain ⟨accesses, -, run⟩ := Primitive.writeElement_eq id l i v m
    rw [run]
    have noted : { m with accesses := accesses }.MayDeclare d.globals := hm.same rfl rfl rfl
    split
    · exact noted.changeItems id _
    · exact noted
  | imported? name => exact Primitive.shared (a := .imported? name) rfl fun m hm => hm
  | remember name v =>
    exact Primitive.shared (a := .remember name v) rfl fun m hm => hm.same rfl rfl rfl

/-! ### Histories of what is done in lockstep -/

theorem Course.last {I : Machine → Prop} {m m' : Machine} {s : List Moment}
    (course : Course (fun u => I u.after) m s m') (h : I m) : I m' := by
  induction course with
  | nil => exact h
  | cons hu _ ih => exact ih hu

-- The history of a computation brings in no code with `global` unless `g`, and does no more to
-- names than `p` allows.
structure Passage (g : Bool) (p : Rights) (m : Machine) (s : List Moment) (m' : Machine) :
    Prop where
  course : Course (fun u => u.after.MayDeclare g) m s m'
  opened : Opened s
  shelters : p.Shelters m s m'

namespace Passage

variable {g : Bool} {p : Rights} {m m₁ m₂ m₃ : Machine} {s t : List Moment}

theorem append (hs : Passage g p m s m₁) (ht : Passage g p m₁ t m₂) :
    Passage g p m (s ++ t) m₂ :=
  ⟨hs.course.append ht.course, hs.opened.append ht.opened, hs.shelters.append ht.shelters⟩

-- A part that stays in its frame.
theorem around (hs : Passage g p m₁ s m₂) (entered : m₁.MayDeclare g) (left : m₃.MayDeclare g)
    (frame : m₁.frame = m.frame) (callers : m₁.callers = m.callers)
    (scopes : m₁.scopes = m.scopes) (frame' : m₃.frame = m₂.frame)
    (callers' : m₃.callers = m₂.callers) (scopes' : m₃.scopes = m₂.scopes) :
    Passage g p m (StepTrace.around m m₁ s m₂ m₃) m₃ :=
  ⟨hs.course.around entered left, hs.opened.around callers callers',
    hs.shelters.around frame scopes frame' scopes'⟩

theorem refused (e : Stop) (hm : m.MayDeclare g) : Passage g p m [⟨m, .stopped e, m⟩] m := by
  refine ⟨.cons (u := ⟨m, .stopped e, m⟩) hm (.nil m), .single (Nat.le_refl _), ?_⟩
  exact Rights.Shelters.still (u := ⟨m, .stopped e, m⟩) rfl rfl

end Passage

-- From `m` the computation has such a history, and its value is in `P`.
def Run.Passes {α : Type} (g : Bool) (p : Rights) (m : Machine) (P : α → Prop) (x : Run α) : Prop :=
  ∃ s, History x m s ∧ Passage g p m s (Run.state (x m)) ∧ ∀ v m', x m = .ok v m' → P v

namespace Run.Passes

variable {α β : Type} {g : Bool} {p : Rights} {m m₁ : Machine} {P : α → Prop} {Q : β → Prop}
  {x : Run α} {y : Run β}

theorem primitive (a : Primitive α) (after : (Run.state (a.run m)).MayDeclare g)
    (shelters : p.Shelters m [a.moment m] (Run.state (a.run m)))
    (value : ∀ v m', a.run m = .ok v m' → P v) : a.run.Passes g p m P := by
  have course : Course (fun u => u.after.MayDeclare g) m [a.moment m] (Run.state (a.run m)) :=
    .cons (u := a.moment m) after (.nil _)
  refine ⟨_, .primitive a m, ⟨course, .single ?_, shelters⟩, value⟩
  exact Nat.le_of_eq (congrArg List.length (a.balanced m).callers)

theorem bind {f : α → Run β} (hm : m.MayDeclare g) (known : p.Knows m.frame)
    (hx : x.Passes g p m P)
    (hf : ∀ v m₁, P v → m₁.MayDeclare g → p.Knows m₁.frame → (f v).Passes g p m₁ Q) :
    (x >>= f).Passes g p m Q := by
  obtain ⟨s, history, passage, value⟩ := hx
  cases done : x m with
  | ok a m₁ =>
    rw [done] at passage
    obtain ⟨t, history', passage', value'⟩ :=
      hf a m₁ (value a m₁ done) (passage.course.last hm) (passage.shelters.knows known)
    refine ⟨s ++ t, .bind history done history', ?_, ?_⟩
    all_goals rw [Run.bind_ok done]
    · exact passage.append passage'
    · exact value'
  | error e m₁ =>
    rw [done] at passage
    refine ⟨s, .bindStopped history done, ?_, ?_⟩
    all_goals rw [Run.bind_error done]
    · exact passage
    · exact fun _ _ never => nomatch never

theorem refused {e : Stop} (hm : m.MayDeclare g) (stops : x m = .error e m)
    (history : History x m [⟨m, .stopped e, m⟩]) : x.Passes g p m P := by
  refine ⟨_, history, ?_, fun v m' done => ?_⟩
  · rw [stops]
    exact .refused e hm
  · rw [stops] at done
    cases done

theorem value_putBack {f : α → β} {leave : α → Machine → Machine} {fail : Machine → Machine}
    {result : EStateM.Result Stop Machine α} {v : β} {m' : Machine}
    (done : putBack f leave fail result = .ok v m') : ∃ a m₂, result = .ok a m₂ ∧ f a = v := by
  cases result with
  | ok a m₂ =>
    cases done
    exact ⟨a, m₂, rfl, rfl⟩
  | error => cases done

-- A part of a computation.
theorem part {f : α → β} {leave : α → Machine → Machine} {fail : Machine → Machine}
    (eq : y m = putBack f leave fail (x m₁)) (hx : x.Passes g p m₁ P)
    (history : ∀ s, History x m₁ s → History y m (around m m₁ s (state (x m₁)) (state (y m))))
    (passage : ∀ s, Passage g p m₁ s (state (x m₁)) →
      Passage g p m (around m m₁ s (state (x m₁)) (state (y m))) (state (y m)))
    (value : ∀ a, P a → Q (f a)) : y.Passes g p m Q := by
  obtain ⟨s, past, within, result⟩ := hx
  refine ⟨_, history s past, passage s within, fun v m' done => ?_⟩
  rw [eq] at done
  obtain ⟨a, m₂, ended, rfl⟩ := value_putBack done
  exact value a (result a m₂ ended)

-- A body that has its rights from the expression around it, or that of a function.
theorem shelters_inScope {d : Leeway} {q : Rights} {x : ScopeId → Run α} (gives : p.Gives d x q)
    {id : ScopeId} {f : Frame} {s : List Moment} {m₃ : Machine} {e : Event}
    (made : m.Scoped (fun _ => False) m₁) (same : m₁.frame = m.frame)
    (scope : f.scope = m.scopes.size) (past : History (x id) (m₁.enter f) s)
    (inner : q.Shelters (m₁.enter f) s (state (x id (m₁.enter f)))) (frame : m₃.frame = m₁.frame)
    (scopes : m₃.scopes = (state (x id (m₁.enter f))).scopes) :
    p.Shelters m (⟨m, e, m₁⟩ :: around m₁ (m₁.enter f) s (state (x id (m₁.enter f))) m₃) m₃ := by
  cases p with
  | all => trivial
  | loops own kept =>
    have inside : ∀ k ≤ m.scopes.size,
        Outside (Moment.Keeps k) (m₁.enter f) s (state (x id (m₁.enter f))) := fun k old => by
      cases gives with
      | within => exact Sheltered.kept inner k (Nat.le_trans old made.grows) fun _ => scope ▸ old
      | called _ body =>
        have here := body id
        generalize x id = y at here past ⊢
        cases here
        rw [← List.append_nil s]
        exact .body past (.nil _)
    refine ⟨frame.trans same, ?_, fun k old _ => ?_⟩
    · rw [scopes]
      exact Nat.le_trans made.grows past.grows.le_size
    · have opens : Moment.Keeps k ⟨m, e, m₁⟩ := fun id older =>
        made.others id (Nat.lt_of_lt_of_le older old) not_false
      exact .own (u := ⟨m, e, m₁⟩) opens (.around (.still rfl) (inside k old) (.still scopes))

theorem inScope {d : Leeway} {q : Rights} (hm : m.MayDeclare g) (here : p.Knows m.frame)
    (vars : Namespace) (parent : Option ScopeId) {frame : ScopeId → Frame}
    {x : ScopeId → Run α} (own : ∀ id, (frame id).scope = id)
    (code : ∀ id, (frame id).hasGlobal ≤ g) (known : ∀ id, q.Knows (frame id))
    (gives : p.Gives d x q)
    (hx : ∀ id m₁, m₁.MayDeclare g → q.Knows m₁.frame → (x id).Passes g q m₁ P) :
    (Run.inScope vars parent frame x).Passes g p m P := by
  obtain ⟨m₁, made, hm₁, same, callers, pushed, kept⟩ : ∃ m₁ : Machine,
      (Primitive.newScope vars parent).run m = .ok m.scopes.size m₁ ∧ m₁.MayDeclare g ∧
      m₁.frame = m.frame ∧ m₁.callers = m.callers ∧ m₁.scopes.size = m.scopes.size + 1 ∧
      m.Scoped (fun _ => False) m₁ := by
    refine ⟨_, rfl, hm.same rfl rfl rfl, rfl, rfl, Array.size_push _, ?_⟩
    refine ((Primitive.newScope vars parent).scopes m).imp ?_
    rintro _ ⟨_, ⟨⟩, _⟩
  have entered := hm₁.enter (code m.scopes.size)
  have eq : Run.inScope vars parent frame x m = _ := Run.bind_ok made
  have moment : (Primitive.newScope vars parent).moment m = ⟨m, .silent, m₁⟩ := by
    rw [Primitive.moment, Primitive.event_ok made, made]
    rfl
  have first := History.primitive (.newScope vars parent) m
  rw [moment] at first
  by_cases room : m₁.depth < m₁.config.maxCallDepth
  · obtain ⟨s, past, passage, value⟩ := hx m.scopes.size _ entered (known _)
    have left := state_inFrame (f := frame m.scopes.size) (x := x m.scopes.size) room
    refine ⟨_, .bind first made (.inFrame _ room past), ⟨?_, ?_, ?_⟩, fun v m' done => ?_⟩
    · rw [eq]
      refine .cons (u := ⟨m, .silent, m₁⟩) hm₁ (passage.course.around entered ?_)
      rw [left]
      exact ⟨(passage.course.last entered).heap, hm₁.frames⟩
    · refine passage.opened.inScope ⟨rfl, same, callers, pushed, own _⟩ ?_
      rw [left, past.balanced.callers]
      exact Nat.le_succ _
    · rw [eq]
      refine shelters_inScope gives kept same (own _) past passage.shelters ?_ ?_ <;> rw [left]
    · rw [eq, inFrame_eq, if_pos room] at done
      obtain ⟨a, m₂, ended, rfl⟩ := value_putBack done
      exact value a m₂ ended
  · have refused : inFrame (frame m.scopes.size) (x m.scopes.size) m₁ = _ := if_neg room
    have opens : Passage g p m [⟨m, .silent, m₁⟩] m₁ := by
      refine ⟨.cons (u := ⟨m, .silent, m₁⟩) hm₁ (.nil m₁),
        .single (Nat.le_of_eq (congrArg List.length callers)), ?_⟩
      have quiet := Rights.Shelters.primitive (.newScope vars parent) m here nofun nofun
      rw [moment, made] at quiet
      exact quiet
    refine ⟨_, .bind first made (.inFrameRefused _ room), ?_, fun v m' done => ?_⟩
    · rw [eq, refused]
      exact opens.append (.refused _ hm₁)
    · rw [eq, refused] at done
      cases done

end Run.Passes

-- On how the computation is built. Code without `global` makes only such code, and runs it in
-- frames that declare nothing global.
theorem Lockstep.passes {d : Leeway} {p : Rights} {α : Type} {A : α → α → Prop} {x y : Run α}
    (h : Lockstep d p A x y) {m : Machine} (hm : m.MayDeclare d.globals)
    (known : p.Knows m.frame) : x.Passes d.globals p m fun v => ∃ b, A v b := by
  induction h generalizing m with
  | op h =>
    obtain ⟨a, ⟨rfl, binds, declares⟩, keeps⟩ := h.primitive
    exact .primitive a (keeps m hm known).1 (.primitive a m known binds declares)
      (keeps m hm known).2
  | boundary line =>
    have quiet := Rights.Shelters.primitive (.boundary line) m known
      (Primitive.binds_nothing rfl) (Primitive.declares_nothing rfl)
    refine .primitive (.boundary line) ?_ quiet fun v _ _ => ⟨v, rfl⟩
    simp only [Primitive.run, Run.boundary]
    split
    · exact hm
    · split <;> exact hm.same rfl rfl rfl
  | @pure _ _ _ a b h =>
    refine ⟨[], .pure a m, ⟨.nil m, .nil, .nil⟩, fun v _ done => ?_⟩
    cases done
    exact ⟨b, h⟩
  | bind _ _ ihx ihf =>
    exact .bind hm known (ihx hm known) fun a _ value hm₁ known₁ =>
      value.elim fun b hab => ihf a b hab hm₁ known₁
  | starved =>
    exact .primitive .outOfFuel hm (.primitive .outOfFuel m known
      (Primitive.binds_nothing rfl) (Primitive.declares_nothing rfl))
      fun _ _ never => by cases never
  | inScope vars parent own code knows gives _ ih =>
    exact .inScope hm known vars parent own code knows gives fun id m₁ => ih id
  | @deeper _ _ _ x y _ ih =>
    by_cases room : m.evaluating < evaluationLimit
    · have entered : m.deepen.MayDeclare d.globals := hm.same rfl rfl rfl
      refine .part ((Run.deeper_eq x m).trans (if_pos room)) (ih entered known)
        (fun s => .deeper room) (fun s passage => ?_) fun _ => id
      have left := passage.course.last entered
      have after := Run.state_deeper (x := x) room
      refine passage.around entered ?_ rfl rfl rfl ?_ ?_ ?_
      all_goals rw [after]
      · exact left.same rfl rfl rfl
      all_goals rfl
    · exact .refused hm (if_neg room) (.deeperRefused room)
  | @rearrange _ _ id x y _ ih =>
    by_cases found : ∃ l, m.heap.get? id = some (.list l)
    · obtain ⟨l, found⟩ := found
      have entered := hm.putItems id #[]
      obtain ⟨items, after⟩ := Run.state_rearrange x found
      refine .part (Run.rearrange_of_list found) (ih l.items entered known)
        (fun s => .rearrange found) (fun s passage => ?_) fun _ _ => ⟨_, rfl⟩
      have left := (passage.course.last entered).putItems id items
      refine passage.around entered ?_ rfl rfl rfl ?_ ?_ ?_
      all_goals rw [after]
      · exact left
      all_goals rfl
    · have other : ∀ l, m.heap.get? id ≠ some (.list l) := not_exists.1 found
      obtain ⟨s, history, passage, value⟩ := ih #[] hm known
      refine ⟨s, .rearrangeOther other history, ?_, fun v _ _ => ⟨v, rfl⟩⟩
      rw [Run.state_rearrange_of_other other]
      exact passage

end StepTrace
