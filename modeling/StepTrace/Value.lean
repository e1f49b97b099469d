import StepTrace.Builtin
import StepTrace.Ordered
import StepTrace.Number.Binary

/-!
Values of a running program. Scalars are values themselves; what has an identity lies on the heap
and is referred to by its place there.
-/

set_option autoImplicit false

namespace StepTrace

/-- The place of an object on the heap. -/
abbrev ObjId := Nat

theorem eq_of_toString_eq {a b : Nat} (same : toString a = toString b) : a = b := by
  have read := congrArg (fun s => Nat.ofDigitChars 10 s.toList 0) same
  simpa only [Nat.toString_eq_repr, Nat.toList_repr, Nat.ofDigitChars_ten_toDigits] using read

inductive Value
  | none
  | bool (b : Bool)
  | int (n : Int64)
  | float (f : Float)
  | str (s : String)
  | ref (id : ObjId)
  | builtin (b : Builtin)

instance : Inhabited Value := ⟨.none⟩

/-- Names with values, in the order in which the names were bound first. -/
abbrev Namespace := Ordered String Value

namespace Value

/-- The integer that a value counts as. -/
def int? : Value → Option Int64
  | int n => some n
  | bool b => some (if b then 1 else 0)
  | _ => Option.none

/-- The number that a value counts as in arithmetic with fractions. -/
def float? : Value → Option Float
  | float f => some f
  | v => v.int?.map Number.ofWord

def str? : Value → Option String
  | str s => some s
  | _ => Option.none

def ref? : Value → Option ObjId
  | ref id => some id
  | _ => Option.none

def isNone : Value → Bool
  | none => true
  | _ => false

def isNumber : Value → Bool
  | int _ | float _ | bool _ => true
  | _ => false

def number (v : Value) : Float := v.float?.getD (0.0 / 0.0)

/-- Whether two values are the same one; fractions are compared by their bits. -/
def same : Value → Value → Bool
  | none, none => true
  | bool a, bool b => a == b
  | int a, int b => a == b
  | float a, float b => a.toBits == b.toBits
  | str a, str b => a == b
  | ref a, ref b => a == b
  | builtin a, builtin b => a == b
  | _, _ => false

end Value

/--
What dictionaries and sets tell their members apart by: numbers of equal value share a key, tuples
are taken apart, and what has no value of its own counts by its identity.
-/
inductive HashKey
  | none
  | int (n : Int64)
  /-- The bits of a number that is not an integer. -/
  | float (bits : UInt64)
  | str (s : String)
  | tuple (items : List HashKey)
  | identity (id : ObjId)
  | builtin (name : String)
deriving Repr

namespace HashKey

mutual

def decEq : (a b : HashKey) → Decidable (a = b)
  | none, none => isTrue rfl
  | int a, int b => decidable_of_iff (a = b) (by simp)
  | float a, float b => decidable_of_iff (a = b) (by simp)
  | str a, str b => decidable_of_iff (a = b) (by simp)
  | tuple a, tuple b => @decidable_of_iff _ (a = b) (by simp) (decEqList a b)
  | identity a, identity b => decidable_of_iff (a = b) (by simp)
  | builtin a, builtin b => decidable_of_iff (a = b) (by simp)
  | none, int _ | none, float _ | none, str _ | none, tuple _ | none, identity _
  | none, builtin _ | int _, none | int _, float _ | int _, str _ | int _, tuple _
  | int _, identity _ | int _, builtin _ | float _, none | float _, int _ | float _, str _
  | float _, tuple _ | float _, identity _ | float _, builtin _ | str _, none | str _, int _
  | str _, float _ | str _, tuple _ | str _, identity _ | str _, builtin _ | tuple _, none
  | tuple _, int _ | tuple _, float _ | tuple _, str _ | tuple _, identity _ | tuple _, builtin _
  | identity _, none | identity _, int _ | identity _, float _ | identity _, str _
  | identity _, tuple _ | identity _, builtin _ | builtin _, none | builtin _, int _
  | builtin _, float _ | builtin _, str _ | builtin _, tuple _ | builtin _, identity _ =>
    isFalse (by simp)

def decEqList : (a b : List HashKey) → Decidable (a = b)
  | [], [] => isTrue rfl
  | [], _ :: _ => isFalse (by simp)
  | _ :: _, [] => isFalse (by simp)
  | a :: as, b :: bs =>
    match decEq a b, decEqList as bs with
    | isTrue h, isTrue hs => isTrue (by rw [h, hs])
    | isFalse h, _ => isFalse fun e => h (List.cons.inj e).1
    | _, isFalse h => isFalse fun e => h (List.cons.inj e).2

end

instance : DecidableEq HashKey := decEq

end HashKey

end StepTrace
