import Mathlib.Algebra.Group.Nat.Defs
import StepTrace.Grammar.Statement
import StepTrace.Proofs.History
import StepTrace.Proofs.Methods

/-!
Looking for an element of a list or a tuple. The methods ask of each element whether it equals the
one that is looked for, and the program may answer; membership never asks it.
-/

set_option autoImplicit false

namespace StepTrace

-- A list or a tuple of these items.
inductive Heap.Sequence (h : Heap) : Value → List Value → Prop
  | list {id : ObjId} {l : ListObject} (found : h.get? id = some (.list l)) :
    h.Sequence (.ref id) l.items.toList
  | tuple {id : ObjId} {items : Array Value} (found : h.get? id = some (.tuple items)) :
    h.Sequence (.ref id) items.toList

theorem position?_ofNat {n j : Nat} (inside : j < n) (fits : n < 2 ^ 63) :
    position? n (Int64.ofNat j) = some j := by
  have jFits : j < 2 ^ 63 := Nat.lt_trans inside fits
  have notNegative : ¬ Int64.ofNat j < 0 := Int64.not_lt.2 (Int64.zero_le_ofNat_of_lt jFits)
  unfold position?
  dsimp only
  rw [if_neg notNegative, Int64.toInt_ofNat_of_lt jFits, if_pos (by omega)]
  rfl

namespace Interp

variable {r : Interp} {L x : Value} {items : List Value} {m : Machine}

/-! ### Lists and tuples alike -/

theorem callMethod_sequence (here : m.heap.Sequence L items) {name : String}
    (search : name = "count" ∨ name = "index") (args : List Value) :
    ∃ typeName, r.callMethod L name args [] m =
      r.searchMethod items.toArray typeName name args m := by
  cases here with
  | @list id l found =>
    refine ⟨"list", ?_⟩
    have itemsOf : itemsOf id m = .ok l.items m := by
      refine (Run.heap_bind _ m).trans ?_
      rw [found]
      rfl
    rcases search with rfl | rfl <;>
      exact (callMethod_list found (by decide)).trans (Run.bind_ok itemsOf)
  | tuple found =>
    refine ⟨"tuple", ?_⟩
    rcases search with rfl | rfl <;> exact callMethod_tuple found (by decide)

theorem getItem_sequence (here : m.heap.Sequence L items) (fits : items.length < 2 ^ 63)
    {j : Nat} (inside : j < items.length) :
    ∃ accesses, r.getItem L (.int (Int64.ofNat j)) m =
      .ok items[j] { m with accesses := accesses } := by
  have place := position?_ofNat inside fits
  have item := List.getElem?_eq_getElem inside
  cases here with
  | @list id l found =>
    obtain ⟨accesses, -, read⟩ := Primitive.readElement_eq id l (Int64.ofNat j) m
    refine ⟨accesses, ?_⟩
    rw [getItem_list found rfl, read, ← Array.length_toList, place, Option.bind_some,
      ← Array.getElem?_toList, item]
  | @tuple id items found =>
    refine ⟨m.accesses, ?_⟩
    refine (Run.heap_bind _ m).trans ?_
    rw [found]
    refine (Run.bind_ok (indexOf_ok "tuple" rfl)).trans ?_
    rw [← Array.length_toList, place, Option.bind_some, ← Array.getElem?_toList, item]
    rfl

-- Membership compares what is on the heap.
theorem contains_sequence (here : m.heap.Sequence L items) (x : Value) :
    r.contains L x m = .ok (items.any fun v => v.same x || m.heap.equal v x) m := by
  cases here with
  | list found | tuple found =>
    refine (Run.heap_bind _ m).trans ?_
    rw [if_pos (by rw [Heap.isInstance, Heap.deref?, found]; rfl)]
    refine (Run.heap_bind _ m).trans ?_
    unfold Heap.contains Heap.deref?
    dsimp only
    rw [found, Array.any_toList]
    rfl

theorem ofNat_countP_pos (eq : Value → Bool) (fits : items.length < 2 ^ 63) :
    0 < Int64.ofNat (items.countP eq) ↔ items.any eq = true := by
  have countFits : items.countP eq < 2 ^ 63 := Nat.lt_of_le_of_lt List.countP_le_length fits
  have positive : 0 < Int64.ofNat (items.countP eq) ↔ 0 < items.countP eq :=
    Int64.ofNat_lt_iff_lt (by decide) countFits
  rw [positive, List.countP_pos_iff, List.any_eq_true]

/-! ### Questions of equality -/

-- For each of the items the program can decide whether it equals `x`, and gives the same answer
-- whenever it is asked. `holds k` is true of states in which there is room for `k` more questions.
structure Decides (r : Interp) (L x : Value) (items : List Value) (eq : Value → Bool)
    (holds : Nat → Machine → Prop) : Prop where
  answer {k : Nat} {m : Machine} : holds (k + 1) m → ∀ v ∈ items,
    ∃ m', r.equal v x m = .ok (eq v) m' ∧ holds k m'
  keeps {k : Nat} {m : Machine} : holds k m → m.heap.Sequence L items
  noted {k : Nat} {m : Machine} : holds k m → ∀ accesses,
    holds k { m with accesses := accesses }

namespace Decides

variable {eq : Value → Bool} {holds : Nat → Machine → Prop}

theorem occurrences (D : r.Decides L x items eq holds) {vs : List Value} (among : vs ⊆ items)
    (n k : Nat) (room : holds (vs.length + k) m) :
    ∃ m', r.occurrences x n vs m = .ok (n + vs.countP eq) m' ∧ holds k m' := by
  induction vs generalizing n m with
  | nil => exact ⟨m, rfl, by rwa [List.length_nil, Nat.zero_add] at room⟩
  | cons v vs ih =>
    obtain ⟨first, rest⟩ := List.cons_subset.1 among
    rw [List.length_cons, Nat.add_right_comm] at room
    obtain ⟨m₁, asked, room⟩ := D.answer room v first
    obtain ⟨m₂, counted, room⟩ := ih rest (if eq v then n + 1 else n) room
    refine ⟨m₂, ?_, room⟩
    refine (Run.bind_ok asked).trans (counted.trans ?_)
    rw [List.countP_cons]
    congr 1
    split <;> omega

theorem placeOf (D : r.Decides L x items eq holds) {vs : List Value} (among : vs ⊆ items)
    (i k : Nat) (room : holds (vs.length + k) m) :
    ∃ m' k', r.placeOf x i vs m = .ok ((vs.findIdx? eq).map (i + ·)) m' ∧ holds (k' + k) m' := by
  induction vs generalizing i m with
  | nil => exact ⟨m, 0, rfl, room⟩
  | cons v vs ih =>
    obtain ⟨first, rest⟩ := List.cons_subset.1 among
    rw [List.length_cons, Nat.add_right_comm] at room
    obtain ⟨m₁, asked, room⟩ := D.answer room v first
    cases equal : eq v with
    | true =>
      rw [equal] at asked
      refine ⟨m₁, vs.length, ?_, room⟩
      rw [List.findIdx?_cons, equal]
      exact Run.bind_ok asked
    | false =>
      rw [equal] at asked
      obtain ⟨m₂, k', found, room⟩ := ih rest (i + 1) room
      refine ⟨m₂, k', ?_, room⟩
      refine (Run.bind_ok asked).trans (found.trans ?_)
      rw [List.findIdx?_cons, equal]
      simp only [Bool.false_eq_true, if_false, Option.map_map, Function.comp_def, Nat.add_assoc,
        Nat.add_comm 1]

end Decides

-- `L[i] == x` is `t`.
def EqualAt (r : Interp) (L x : Value) (i : Int64) (t : Bool) (m : Machine) : Prop :=
  ∃ v m₁ m₂, r.getItem L (.int i) m = .ok v m₁ ∧ r.compare .eq v x m₁ = .ok t m₂

-- What `L.index(x)` does where `L.count(x)` is `c`: it finds the first element that equals `x`, if
-- there is one.
def FindsFirst (r : Interp) (L x : Value) (c : Int64) (m : Machine) : Prop :=
  if 0 < c then
    ∃ i m', r.callMethod L "index" [x] [] m = .ok (.int i) m' ∧ 0 ≤ i ∧ r.EqualAt L x i true m' ∧
      ∀ j, 0 ≤ j → j < i → r.EqualAt L x j false m'
  else ∃ message m', r.callMethod L "index" [x] [] m = .error (.fault (.value message)) m'

namespace Decides

variable {eq : Value → Bool} {holds : Nat → Machine → Prop} {k : Nat}

theorem equalAt (D : r.Decides L x items eq holds) (fits : items.length < 2 ^ 63)
    (room : holds (k + 1) m) {j : Nat} (inside : j < items.length) :
    r.EqualAt L x (Int64.ofNat j) (eq items[j]) m := by
  obtain ⟨accesses, read⟩ := getItem_sequence (D.keeps room) fits inside
  obtain ⟨m', asked, -⟩ := D.answer (D.noted room accesses) items[j] (List.getElem_mem inside)
  exact ⟨items[j], _, m', read, asked⟩

theorem count (D : r.Decides L x items eq holds) (room : holds (items.length + k) m) :
    ∃ m', r.callMethod L "count" [x] [] m = .ok (.int (Int64.ofNat (items.countP eq))) m' := by
  obtain ⟨typeName, search⟩ := callMethod_sequence (D.keeps room) (.inl rfl) [x]
  obtain ⟨m', counted, -⟩ := D.occurrences (List.Subset.refl items) 0 k room
  rw [Nat.zero_add] at counted
  exact ⟨m', search.trans (Run.bind_ok counted)⟩

theorem findsFirst (D : r.Decides L x items eq holds) (fits : items.length < 2 ^ 63)
    (room : holds (items.length + 1) m) :
    r.FindsFirst L x (Int64.ofNat (items.countP eq)) m := by
  obtain ⟨typeName, search⟩ := callMethod_sequence (D.keeps room) (.inr rfl) [x]
  obtain ⟨m', k', looked, room'⟩ := D.placeOf (List.Subset.refl items) 0 1 room
  have positive := ofNat_countP_pos eq fits
  unfold FindsFirst
  cases place : items.findIdx? eq with
  | none =>
    have no : items.any eq = false := List.any_eq_false.2 fun v hv =>
      Bool.eq_false_iff.1 (List.findIdx?_eq_none_iff.1 place v hv)
    rw [if_neg (by rw [positive, no]; exact Bool.false_ne_true), search]
    rw [place] at looked
    have refused : ∃ message, (if typeName = "tuple" then
          Run.fault (.value "tuple.index(x): x not in tuple")
        else Run.faultOn fun h => .value (h.repr x ++ " is not in list") : Run Value) m' =
        .error (.fault (.value message)) m' := by
      split <;> exact ⟨_, rfl⟩
    obtain ⟨message, refused⟩ := refused
    exact ⟨message, m', (Run.bind_ok looked).trans refused⟩
  | some p =>
    obtain ⟨inside, equal, before⟩ := List.findIdx?_eq_some_iff_getElem.1 place
    have some : items.any eq = true := List.any_eq_true.2 ⟨_, List.getElem_mem inside, equal⟩
    have pFits : p < 2 ^ 63 := Nat.lt_trans inside fits
    rw [place, Option.map_some, Nat.zero_add] at looked
    rw [if_pos (positive.2 some), search]
    refine ⟨Int64.ofNat p, m', Run.bind_ok looked, Int64.zero_le_ofNat_of_lt pFits, ?_, fun j least less => ?_⟩
    · rw [← equal]
      exact D.equalAt fits room' inside
    · have same := Int64.ofNat_toNatClampNeg j least
      rw [← same] at less ⊢
      have earlier := (Int64.ofNat_lt_iff_lt j.toNatClampNeg_lt pFits).1 less
      rw [← Bool.eq_false_iff.2 (before _ earlier)]
      exact D.equalAt fits room' (Nat.lt_trans earlier inside)

end Decides

-- Where no class says what equality means, it is that of the heap.
theorem equal_plain {v : Value} (left : m.heap.method? v "__eq__" = none)
    (right : m.heap.method? x "__eq__" = none) :
    r.equal v x m = .ok (v.same x || m.heap.equal v x) m := by
  have asked : r.askEqual v x m = .ok none m := Run.bind_ok (special_of_none left)
  have askedBack : r.askEqual x v m = .ok none m := Run.bind_ok (special_of_none right)
  exact (Run.bind_ok asked).trans ((Run.bind_ok askedBack).trans (Run.heap_bind _ m))

theorem decides_plain (here : m.heap.Sequence L items)
    (plain : ∀ v ∈ x :: items, m.heap.method? v "__eq__" = none) :
    r.Decides L x items (fun v => v.same x || m.heap.equal v x)
      fun _ m' => ∃ accesses, m' = { m with accesses := accesses } where
  answer := by
    rintro k _ ⟨accesses, rfl⟩ v hv
    obtain ⟨right, left⟩ := List.forall_mem_cons.1 plain
    exact ⟨_, equal_plain (left v hv) right, accesses, rfl⟩
  keeps := by
    rintro k _ ⟨accesses, rfl⟩
    exact here
  noted := by
    rintro k _ ⟨-, rfl⟩ accesses
    exact ⟨accesses, rfl⟩

-- An `__eq__` that answers at once.
theorem equal_answer {k : Nat} {v : Value} {id : ObjId} {f : FunctionObject} {b : Bool}
    {vars : Namespace} (own : m.heap.method? v "__eq__" = some (.ref id))
    (found : m.heap.get? id = some (.function f)) (body : f.body = .block (Stmt.answer b))
    (bound : f.bind [v, x] [] = .ok vars) (may : m.MayCall (k + 1)) (n : Nat) :
    ∃ m', (interp (n + 3)).equal v x m = .ok b m' ∧ m.Answered m' := by
  obtain ⟨m', special, answered⟩ := special_answer own found body bound may n
  have asked : (interp (n + 3)).askEqual v x m = .ok (some b) m' := Run.bind_ok special
  exact ⟨m', Run.bind_ok asked, answered⟩

end Interp

/--
Counting and searching agree, with each other and with `==`, whatever the program says about
equality, if it says the same each time. Membership agrees with them where the program says nothing.
-/
theorem counting_and_searching_agree (r : Interp) (L x : Value) (items : List Value) (m : Machine)
    (here : m.heap.Sequence L items) (fits : items.length < 2 ^ 63) :
    (∀ eq holds, r.Decides L x items eq holds → holds (items.length + 1) m →
      ∃ c m', r.callMethod L "count" [x] [] m = .ok (.int c) m' ∧ r.FindsFirst L x c m) ∧
    ((∀ v ∈ x :: items, m.heap.method? v "__eq__" = none) →
      ∃ c m', r.callMethod L "count" [x] [] m = .ok (.int c) m' ∧ r.FindsFirst L x c m ∧
        r.compare .isIn x L m = .ok (decide (0 < c)) m) := by
  have searches : ∀ eq holds, r.Decides L x items eq holds → holds (items.length + 1) m →
      ∃ m', r.callMethod L "count" [x] [] m = .ok (.int (Int64.ofNat (items.countP eq))) m' ∧
        r.FindsFirst L x (Int64.ofNat (items.countP eq)) m := by
    intro eq holds D room
    obtain ⟨m', counted⟩ := D.count room
    exact ⟨m', counted, D.findsFirst fits room⟩
  constructor
  · intro eq holds D room
    exact ⟨_, searches eq holds D room⟩
  · intro plain
    obtain ⟨m', counted, finds⟩ := searches _ _ (Interp.decides_plain here plain) ⟨m.accesses, rfl⟩
    refine ⟨_, m', counted, finds, ?_⟩
    simp only [Interp.ofNat_countP_pos _ fits, Bool.decide_eq_true]
    exact Interp.contains_sequence here x

/-! ### A class that equals everything -/

-- An instance whose class defines `__eq__`, a list of it, and a tuple of numbers.
def Machine.comparing : Machine :=
  { Machine.start {} [] with
    heap := .withMethod (.answering "__eq__" ["self", "other"] true)
      [.list ⟨#[.ref 2], none⟩, .tuple #[.int 2, .int 1]] }

theorem Interp.decides_comparing (n : Nat) :
    (interp (n + 3)).Decides (.ref 3) (.int 1) [.ref 2] (fun _ => true)
      fun k m => m.heap = Machine.comparing.heap ∧ m.MayCall k where
  answer := by
    rintro k m ⟨heap, may⟩ v hv
    obtain rfl := List.mem_singleton.1 hv
    have own : m.heap.method? (.ref 2) "__eq__" = some (.ref 0) := by
      rw [heap]
      exact Heap.method?_withMethod ..
    have found : m.heap.get? 0 =
        some (.function (.answering "__eq__" ["self", "other"] true)) := by
      rw [heap]
      rfl
    obtain ⟨m', asked, answered⟩ := Interp.equal_answer (x := .int 1) own found rfl rfl may n
    exact ⟨m', asked, answered.heap.trans heap, may.next answered⟩
  keeps := by
    rintro k m ⟨heap, -⟩
    rw [heap]
    exact .list (l := ⟨#[.ref 2], none⟩) rfl
  noted := by
    rintro k m ⟨heap, may⟩ accesses
    exact ⟨heap, may.going, may.steps, may.frames, may.levels⟩

theorem counting_and_searching_agree_own_equality :
    Machine.comparing.heap.Sequence (.ref 3) [.ref 2] ∧
    Machine.comparing.heap.Sequence (.ref 4) [.int 2, .int 1] ∧
    (∃ c m', (interp 3).callMethod (.ref 3) "count" [.int 1] [] .comparing = .ok (.int c) m' ∧
      (interp 3).FindsFirst (.ref 3) (.int 1) c .comparing) ∧
    (∃ c m', (interp 3).callMethod (.ref 4) "count" [.int 1] [] .comparing = .ok (.int c) m' ∧
      (interp 3).FindsFirst (.ref 4) (.int 1) c .comparing ∧
      (interp 3).compare .isIn (.int 1) (.ref 4) .comparing = .ok (decide (0 < c)) .comparing) := by
  have may : Machine.comparing.MayCall 2 := ⟨rfl, by decide, by decide, by decide⟩
  have list : Machine.comparing.heap.Sequence (.ref 3) [.ref 2] :=
    .list (l := ⟨#[.ref 2], none⟩) rfl
  have made : Machine.comparing.heap.get? 4 = some (.tuple #[.int 2, .int 1]) := rfl
  have tuple : Machine.comparing.heap.Sequence (.ref 4) [.int 2, .int 1] := .tuple made
  have plain : ∀ v ∈ [Value.int 1, .int 2, .int 1],
      Machine.comparing.heap.method? v "__eq__" = none := by
    simp only [List.forall_mem_cons]
    exact ⟨rfl, rfl, rfl, List.forall_mem_nil _⟩
  refine ⟨list, tuple, ?_, ?_⟩
  · exact (counting_and_searching_agree (interp 3) _ (.int 1) _ .comparing list (by decide)).1 _ _
      (Interp.decides_comparing 0) ⟨rfl, may⟩
  · exact (counting_and_searching_agree (interp 3) _ (.int 1) _ .comparing tuple (by decide)).2
      plain

-- A program that counts and finds an element that it says is not there.
theorem membership_ignores_own_equality :
    ((parseProgram ("class A:\n    def __eq__(self, other):\n        return True\na = A()\n" ++
      "print(1 in [a], [a].count(1), [a].index(1))\n")).toOption.map fun p =>
        (Run.state (runProgram 30 p (.start {} []))).output) = some "False 1 0\n" := by
  rw [← String.ofList_append, parseProgram_ofList]
  decide +kernel

end StepTrace
