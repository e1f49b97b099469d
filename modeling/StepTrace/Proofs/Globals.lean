import StepTrace.Attribute
import StepTrace.Proofs.Marks
import StepTrace.Proofs.Runs

/-!
Code without `global` statements, on its own and where a run keeps it: as bodies of the functions on
the heap. Wherever it runs, no frame has names declared global.
-/

set_option autoImplicit false

namespace StepTrace

/-! ### In programs -/

mutual

def Stmt.hasGlobal : Stmt → Bool
  | .global .. => true
  | .ifElse _ _ body orelse => anyGlobal body || anyGlobal orelse
  | .while _ _ body | .for _ _ _ body | .function _ _ _ body | .class _ _ _ body => anyGlobal body
  | _ => false

def anyGlobal : List Stmt → Bool
  | [] => false
  | s :: rest => s.hasGlobal || anyGlobal rest

end

mutual

theorem Stmt.hasGlobal_track (s : Stmt) : s.track.hasGlobal = s.hasGlobal := by
  cases s with
  | ifElse _ _ body orelse =>
    rw [Stmt.track, Stmt.hasGlobal, Stmt.hasGlobal, anyGlobal_trackBlock body,
      anyGlobal_trackBlock orelse]
  | «while» _ _ body | «for» _ _ _ body | function _ _ _ body | «class» _ _ _ body =>
    exact anyGlobal_trackBlock body
  | _ => rfl

theorem anyGlobal_trackBlock (body : List Stmt) : anyGlobal (trackBlock body) = anyGlobal body := by
  cases body with
  | nil => rfl
  | cons s rest =>
    rw [trackBlock, anyGlobal, anyGlobal, Stmt.hasGlobal_track s, anyGlobal_trackBlock rest]

end

theorem le_of_or_le {a b g : Bool} (h : (a || b) ≤ g) : a ≤ g ∧ b ≤ g :=
  ⟨fun ha => h (by rw [ha, Bool.true_or]), fun hb => h (by rw [hb, Bool.or_true])⟩

/-! ### In states -/

-- A lambda is an expression, and no expression has statements in it.
def FunctionBody.hasGlobal : FunctionBody → Bool
  | .block body => anyGlobal body
  | .lambda _ => false

def Object.hasGlobal : Object → Bool
  | .function f => f.body.hasGlobal
  | _ => false

def Outcome.hasGlobal : Outcome → Bool
  | .value _ => false
  | .object o => o.hasGlobal

def Frame.hasGlobal (f : Frame) : Bool := !f.globals.isEmpty

-- Only if `g` is there code on the heap that declares names global.
def Heap.MayDeclare (g : Bool) (h : Heap) : Prop :=
  ∀ id o, h.get? id = some o → o.hasGlobal ≤ g

structure Machine.MayDeclare (g : Bool) (m : Machine) : Prop where
  heap : m.heap.MayDeclare g
  frames : ∀ f ∈ m.frame :: m.callers, f.hasGlobal ≤ g

theorem Heap.mayDeclare_true (h : Heap) : h.MayDeclare true := fun _ o _ => Bool.le_true o.hasGlobal

theorem Machine.mayDeclare_true (m : Machine) : m.MayDeclare true :=
  ⟨m.heap.mayDeclare_true, fun f _ => Bool.le_true f.hasGlobal⟩

theorem Frame.globals_eq_nil {f : Frame} (h : f.hasGlobal ≤ false) : f.globals = [] := by
  cases globals : f.globals with
  | nil => rfl
  | cons name rest =>
    rw [Frame.hasGlobal, globals] at h
    cases h rfl

namespace Heap.MayDeclare

variable {g : Bool} {h : Heap}

theorem push (hh : h.MayDeclare g) {o : Object} (ho : o.hasGlobal ≤ g) : (h.push o).MayDeclare g := by
  intro id p found
  rw [Heap.get?, Heap.push, Array.getElem?_push] at found
  split at found
  · cases found
    exact ho
  · exact hh id p found

theorem modify (hh : h.MayDeclare g) (id : ObjId) {f : Object → Object}
    (keeps : ∀ o, (f o).hasGlobal = o.hasGlobal) : (h.modify id f).MayDeclare g := by
  intro j p found
  rw [Heap.get?, Heap.modify, Array.getElem?_modify] at found
  split at found
  · obtain ⟨o, here, rfl⟩ := Option.map_eq_some_iff.1 found
    rw [keeps]
    exact hh j o here
  · exact hh j p found

end Heap.MayDeclare

/-! ### In results -/

-- Attributes and operators make new objects, but none with code.
namespace Heap

theorem hasGlobal_bound (h : Heap) (receiver attr : Value) :
    (h.bound receiver attr).hasGlobal = false := by
  cases attr with
  | ref f =>
    rw [bound]
    split <;> rfl
  | _ => rfl

theorem hasGlobal_attr {h : Heap} {object : Value} {name : String} {out : Outcome}
    (done : h.attr object name = .ok out) : out.hasGlobal = false := by
  unfold attr at done
  dsimp only at done
  repeat' split at done
  all_goals cases done
  all_goals first
    | rfl
    | exact h.hasGlobal_bound ..

theorem hasGlobal_containerOperator {op : BinaryOp} {l r o : Object}
    (done : containerOperator op l r = some o) : o.hasGlobal = false := by
  unfold containerOperator at done
  split at done
  case h_4 =>
    obtain ⟨s, -, rfl⟩ := Option.map_eq_some_iff.1 done
    rfl
  all_goals cases done
  all_goals rfl

theorem hasGlobal_repeatedObject {l o : Object} {times : Nat}
    (done : repeatedObject l times = some (.ok o)) : o.hasGlobal = false := by
  unfold repeatedObject at done
  dsimp only at done
  split at done
  case h_3 => cases done
  all_goals
    have done := Option.some.inj done
    split at done <;> cases done
    rfl

theorem hasGlobal_containerOperator? {h : Heap} {op : BinaryOp} {a b : Value} {o : Object}
    (done : h.containerOperator? op a b = some (.ok o)) : o.hasGlobal = false := by
  unfold containerOperator? at done
  split at done
  · obtain ⟨o', result, same⟩ := Option.map_eq_some_iff.1 done
    cases same
    exact hasGlobal_containerOperator result
  · split at done
    · obtain ⟨n, -, result⟩ := Option.bind_eq_some_iff.1 done
      exact hasGlobal_repeatedObject result
    · cases done
  · split at done
    · obtain ⟨n, -, result⟩ := Option.bind_eq_some_iff.1 done
      exact hasGlobal_repeatedObject result
    · cases done
  · cases done

theorem hasGlobal_binary {h : Heap} {op : BinaryOp} {a b : Value} {out : Outcome}
    (done : h.binary op a b = .ok out) : out.hasGlobal = false := by
  unfold binary at done
  dsimp only at done
  split at done
  iterate 3
    · cases done
      rfl
  split at done
  · obtain ⟨v, -, rfl⟩ := Except.of_map_ok done
    rfl
  · split at done
    · split at done
      · obtain ⟨f, -, rfl⟩ := Except.of_map_ok done
        rfl
      · cases done
    · split at done
      · obtain ⟨s, -, rfl⟩ := Except.of_map_ok done
        rfl
      · split at done
        · next combined =>
          obtain ⟨o, result, rfl⟩ := Except.of_map_ok done
          rw [result] at combined
          exact hasGlobal_containerOperator? combined
        · cases done

end Heap

end StepTrace
