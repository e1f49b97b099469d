import Mathlib.Data.List.Forall2
import StepTrace.Proofs.Membership
import StepTrace.Proofs.Ordering.Lexicographic

/-!
The comparisons of values that are built from booleans, integers, texts, lists and tuples. They all
agree with the lexicographic order.
-/

set_option autoImplicit false

namespace StepTrace

def RowKind.items? : RowKind → Object → Option (List Value)
  | list, .list l => some l.items.toList
  | tuple, .tuple items => some items.toList
  | _, _ => none

-- What a value is to a comparison.
inductive Heap.Forms (h : Heap) : Value → Comparand → Prop
  | bool (b : Bool) : Forms h (.bool b) (.number (if b then 1 else 0))
  | int (n : Int64) : Forms h (.int n) (.number n)
  | text (s : String) : Forms h (.str s) (.text s)
  | row {id : ObjId} {o : Object} {kind : RowKind} {vs : List Value} {cs : List Comparand}
    (found : h.get? id = some o) (items : kind.items? o = some vs)
    (formed : List.Forall₂ (Forms h) vs cs) : Forms h (.ref id) (.row kind cs)

-- These values are equal if they are the same to a comparison.
def Heap.Decides (h : Heap) (eq : Value → Value → Bool) (cs : List Comparand) : Prop :=
  ∀ c ∈ cs, ∀ d v w, h.Forms v c → h.Forms w d → (eq v w = true ↔ c = d)

-- Equality where no class of the program says what it is.
def Heap.same (h : Heap) (v w : Value) : Bool := v.same w || h.equal v w

theorem RowKind.items?_unique {kind kind' : RowKind} {o : Object} {vs ws : List Value}
    (items : kind.items? o = some vs) (items' : kind'.items? o = some ws) :
    kind = kind' ∧ vs = ws := by
  cases kind <;> cases kind' <;> cases o <;> cases items <;> cases items' <;> exact ⟨rfl, rfl⟩

theorem Heap.equalObjects_row {kind kind' : RowKind} {o o' : Object} {vs ws : List Value}
    (eq : Value → Value → Bool) (items : kind.items? o = some vs)
    (items' : kind'.items? o' = some ws) :
    Heap.equalObjects eq o o' = (decide (kind = kind') && vs.isEqv ws eq) := by
  have onLists (l r : Array Value) : l.isEqv r eq = l.toList.isEqv r.toList eq :=
    (@Array.isEqv_toList _ _ ⟨Value.same⟩ l r).symm
  cases kind <;> cases kind' <;> cases o <;> cases items <;> cases o' <;> cases items'
  · exact onLists ..
  · rfl
  · rfl
  · exact onLists ..

namespace Heap.Forms

variable {h : Heap} {v w : Value} {c d : Comparand} {vs ws : List Value} {cs ds : List Comparand}
  {eq : Value → Value → Bool} {room : Nat}

/-! ### What a value is -/

theorem eq_of_forall₂ (ih : ∀ c ∈ cs, ∀ v d, h.Forms v c → h.Forms v d → c = d)
    (formed : List.Forall₂ h.Forms vs cs) (formed' : List.Forall₂ h.Forms vs ds) : cs = ds := by
  induction formed generalizing ds with
  | nil =>
    cases formed'
    rfl
  | cons first _ rest =>
    obtain ⟨same, ih⟩ := List.forall_mem_cons.1 ih
    cases formed' with
    | cons first' others' => rw [same _ _ first first', rest ih others']

theorem unique (formed : h.Forms v c) (formed' : h.Forms v d) : c = d := by
  induction c generalizing v d with
  | number n => cases formed <;> cases formed' <;> rfl
  | text s => cases formed; cases formed'; rfl
  | row kind cs ih =>
    cases formed with
    | row found items formed =>
      cases formed' with
      | row found' items' formed' =>
        cases found.symm.trans found'
        obtain ⟨rfl, rfl⟩ := RowKind.items?_unique items items'
        rw [eq_of_forall₂ (fun c hc _ _ => ih c hc) formed formed']

theorem not_instance (formed : h.Forms v c) : h.isInstance v = false := by
  cases formed with
  | bool | int | text => rfl
  | @row _ o kind _ _ found items =>
    rw [Heap.isInstance, Heap.deref?, found]
    cases kind <;> cases o <;> cases items <;> rfl

theorem not_method (formed : h.Forms v c) (name : String) : h.method? v name = none := by
  by_contra has
  obtain ⟨f, has⟩ := Option.ne_none_iff_exists'.1 has
  have here := Heap.isInstance_of_method? has
  rw [formed.not_instance] at here
  cases here

/-! ### Equality -/

theorem isEqv_iff (decides : h.Decides eq cs) (formed : List.Forall₂ h.Forms vs cs)
    (formed' : List.Forall₂ h.Forms ws ds) : vs.isEqv ws eq = true ↔ cs = ds := by
  induction formed generalizing ws ds with
  | nil => cases formed' <;> simp [List.isEqv]
  | cons first _ rest =>
    obtain ⟨here, others⟩ := List.forall_mem_cons.1 decides
    cases formed' with
    | nil => simp [List.isEqv]
    | cons first' others' =>
      rw [List.isEqv, Bool.and_eq_true, here _ _ _ first first', rest others others',
        List.cons.injEq]

theorem equalWithin_iff (formed : h.Forms v c) (formed' : h.Forms w d) (deep : c.depth < room) :
    h.equalWithin room v w = true ↔ c = d := by
  induction c generalizing v w d room with
  | number n =>
    cases deep <;> cases formed <;> cases formed' <;>
      simp [Heap.equalWithin, Value.isNumber, Value.int?]
  | text s =>
    cases deep <;> cases formed <;> cases formed' <;> simp [Heap.equalWithin, Value.isNumber]
  | row kind cs ih =>
    obtain ⟨room, rfl⟩ := Nat.exists_eq_add_one.2 (Nat.zero_lt_of_lt deep)
    have inside := Comparand.inside_row deep
    cases formed with
    | @row _ o _ _ _ found items formed =>
      cases formed' with
      | bool | int | text => simp [Heap.equalWithin, Value.isNumber]
      | @row _ o' kind' _ ds found' items' formed' =>
        have objects : Heap.equalObjects (h.equalWithin room) o o' = true ↔
            Comparand.row kind cs = .row kind' ds := by
          have decides : h.Decides (h.equalWithin room) cs := fun c hc _ _ _ formed formed' =>
            ih c hc formed formed' (inside c hc)
          rw [equalObjects_row _ items items', Bool.and_eq_true, decide_eq_true_iff,
            isEqv_iff decides formed formed', Comparand.row.injEq]
        rw [Heap.equalWithin, found, found', Bool.or_eq_true, objects, or_iff_right_of_imp]
        intro same
        obtain rfl := eq_of_beq same
        exact unique (.row found items formed) (.row found' items' formed')

theorem decides_equalWithin (inside : ∀ c ∈ cs, c.depth < room) :
    h.Decides (h.equalWithin room) cs := fun c hc _ _ _ formed formed' =>
  equalWithin_iff formed formed' (inside c hc)

theorem eq_of_same (formed : h.Forms v c) (formed' : h.Forms w d) (same : v.same w = true) :
    c = d := by
  have same : v = w := by
    cases formed <;> cases formed' <;> first | cases same | rw [eq_of_beq same]
  exact formed.unique (same ▸ formed')

theorem same_iff (formed : h.Forms v c) (formed' : h.Forms w d) (deep : c.depth < comparedDepth) :
    h.same v w = true ↔ c = d := by
  rw [Heap.same, Bool.or_eq_true, Heap.equal, equalWithin_iff formed formed' deep,
    or_iff_right_of_imp]
  exact formed.eq_of_same formed'

end Heap.Forms

/-! ### The first difference -/

-- Where two rows differ first, if not in their lengths.
inductive FirstDifference (h : Heap) (cs ds : List Comparand) : Option (Value × Value) → Prop
  | found {v w : Value} {c d : Comparand} (here : c ∈ cs) (formed : h.Forms v c)
    (formed' : h.Forms w d) (order : Comparand.orderAll? cs ds = c.order? d) :
    FirstDifference h cs ds (some (v, w))
  | none (order : Comparand.orderAll? cs ds = some (compare cs.length ds.length)) :
    FirstDifference h cs ds none

theorem FirstDifference.cons {h : Heap} {cs ds : List Comparand} {pair : Option (Value × Value)}
    (rest : FirstDifference h cs ds pair) (c : Comparand) :
    FirstDifference h (c :: cs) (c :: ds) pair := by
  cases rest with
  | found inside formed formed' order =>
    exact .found (List.mem_cons_of_mem c inside) formed formed'
      ((Comparand.orderAll?_cons ..).trans order)
  | none order =>
    refine .none ((Comparand.orderAll?_cons ..).trans (order.trans (congrArg some ?_)))
    simp [Nat.compare_eq_ite_lt]

namespace Heap.Forms

variable {h : Heap} {v w : Value} {c d : Comparand} {vs ws : List Value} {cs ds : List Comparand}
  {eq : Value → Value → Bool} {room : Nat}

theorem firstDifference (decides : h.Decides eq cs) (formed : List.Forall₂ h.Forms vs cs)
    (formed' : List.Forall₂ h.Forms ws ds) :
    FirstDifference h cs ds (firstDifference? eq vs ws) := by
  induction formed generalizing ws ds with
  | nil => cases formed' <;> exact .none rfl
  | @cons v c _ _ first _ rest =>
    obtain ⟨here, others⟩ := List.forall_mem_cons.1 decides
    cases formed' with
    | nil => exact .none rfl
    | @cons w d _ _ first' others' =>
      have same := here d v w first first'
      rw [firstDifference?]
      cases equal : eq v w with
      | true =>
        obtain rfl := same.1 equal
        rw [if_pos rfl]
        exact (rest others others').cons c
      | false =>
        have differ : c ≠ d := fun eq => Bool.eq_false_iff.1 equal (same.2 eq)
        rw [if_neg Bool.false_ne_true]
        exact .found List.mem_cons_self first first' (Comparand.orderAll?_of_ne differ)

end Heap.Forms

/-! ### Order on the heap -/

-- A comparison ends with what it makes of the order, or in some other way if there is none.
inductive Agrees {α : Type} (made : Ordering → α) (refused : α → Prop) :
    Option Ordering → α → Prop
  | some (o : Ordering) : Agrees made refused (some o) (made o)
  | none {a : α} (none : refused a) : Agrees made refused Option.none a

namespace Agrees

variable {α β : Type} {made : Ordering → α} {refused : α → Prop} {made' : Ordering → β}
  {refused' : β → Prop} {answer : Option Ordering} {a : α}

theorem of_some {o : Ordering} (ended : Agrees made refused (Option.some o) a) : a = made o := by
  cases ended
  rfl

theorem of_none (ended : Agrees made refused Option.none a) : refused a := by
  cases ended
  assumption

theorem map (ended : Agrees made refused answer a) (f : α → β) (done : ∀ o, f (made o) = made' o)
    (failed : ∀ a, refused a → refused' (f a)) : Agrees made' refused' answer (f a) := by
  cases ended with
  | some o => exact done o ▸ .some o
  | none none => exact .none (failed _ none)

end Agrees

-- How it ends to compare two values.
abbrev Heap.OrderEnds (h : Heap) (symbol : String) :
    Option Ordering → Except Fault (Option Ordering) → Prop :=
  Agrees (fun o => .ok (some o)) fun result => ∃ v w, result = .error (h.notOrdered symbol v w)

theorem Heap.sequencePair?_rows {h : Heap} {id id' : ObjId} {o o' : Object} {kind kind' : RowKind}
    {vs ws : List Value} (found : h.get? id = some o) (found' : h.get? id' = some o')
    (items : kind.items? o = some vs) (items' : kind'.items? o' = some ws) :
    h.sequencePair? (.ref id) (.ref id') = if kind = kind' then some (vs, ws) else none := by
  rw [sequencePair?, deref?, deref?, found, found']
  cases kind <;> cases kind' <;> cases o <;> cases items <;> cases o' <;> cases items' <;> rfl

-- Two values are rows of one kind, or are compared as they are.
inductive Heap.Pairing (h : Heap) (v w : Value) : Comparand → Comparand → Prop
  | rows {id : ObjId} {kind : RowKind} {vs ws : List Value} {cs ds : List Comparand}
    (ref : v = .ref id) (pair : h.sequencePair? v w = some (vs, ws))
    (formed : List.Forall₂ h.Forms vs cs) (formed' : List.Forall₂ h.Forms ws ds) :
    Pairing h v w (.row kind cs) (.row kind ds)
  | apart {c d : Comparand} (none : h.sequencePair? v w = none)
    (ordered : ∀ symbol room,
      h.OrderEnds symbol (c.order? d) (h.orderWithin symbol (room + 1) v w)) : Pairing h v w c d

theorem Heap.orderWithin_ref (h : Heap) (symbol : String) (room : Nat) (id : ObjId) (w : Value) :
    h.orderWithin symbol (room + 1) (.ref id) w =
      match h.sequencePair? (.ref id) w with
      | some (vs, ws) =>
        match firstDifference? (h.equalWithin room) vs ws with
        | some (x, y) => h.orderWithin symbol room x y
        | none => .ok (some (compare vs.length ws.length))
      | none => .error (h.notOrdered symbol (.ref id) w) := by
  rw [orderWithin]
  · exact if_neg Bool.false_ne_true
  · nofun

theorem Heap.Forms.pairing {h : Heap} {v w : Value} {c d : Comparand} (formed : h.Forms v c)
    (formed' : h.Forms w d) : h.Pairing v w c d := by
  have ref {id : ObjId} {w : Value} (none : h.sequencePair? (.ref id) w = none) {c d : Comparand}
      (unordered : c.order? d = Option.none) : h.Pairing (.ref id) w c d := by
    refine .apart none fun symbol room => ?_
    rw [unordered, orderWithin_ref, none]
    exact .none ⟨_, _, rfl⟩
  cases formed with
  | bool | int =>
    cases formed' with
    | bool | int => exact .apart rfl fun _ _ => .some _
    | text | row => exact .apart rfl fun _ _ => .none ⟨_, _, rfl⟩
  | text =>
    cases formed' with
    | text => exact .apart rfl fun _ _ => .some _
    | bool | int | row => exact .apart rfl fun _ _ => .none ⟨_, _, rfl⟩
  | @row _ o kind vs cs found items formed =>
    cases formed' with
    | bool | int | text =>
      refine ref ?_ rfl
      unfold Heap.sequencePair?
      split
      · next found' => cases found'
      · next found' => cases found'
      · rfl
    | @row _ o' kind' ws ds found' items' formed' =>
      have pair := Heap.sequencePair?_rows found found' items items'
      by_cases same : kind = kind'
      · rw [if_pos same] at pair
        subst same
        exact .rows rfl pair formed formed'
      · rw [if_neg same] at pair
        exact ref pair (if_neg same)

theorem Heap.Forms.ordered {h : Heap} (symbol : String) {v w : Value} {c d : Comparand} {room : Nat}
    (formed : h.Forms v c) (formed' : h.Forms w d) (deep : c.depth < room) :
    h.OrderEnds symbol (c.order? d) (h.orderWithin symbol room v w) := by
  induction room generalizing v w c d with
  | zero => cases deep
  | succ room ih =>
    cases formed.pairing formed' with
    | apart none ordered => exact ordered symbol room
    | rows ref pair items items' =>
      subst ref
      have inside := Comparand.inside_row deep
      rw [Heap.orderWithin_ref, pair, Comparand.order?, if_pos rfl]
      dsimp only
      have first := firstDifference (decides_equalWithin inside) items items'
      generalize firstDifference? (h.equalWithin room) _ _ = difference at first
      cases first with
      | found here formed formed' order =>
        rw [order]
        exact ih formed formed' (inside _ here)
      | none order =>
        rw [order, items.length_eq, items'.length_eq]
        exact .some _

/-! ### The comparisons of a program -/

def OrderOp.operator : OrderOp → CompareOp
  | lt => .lt
  | le => .le
  | gt => .gt
  | ge => .ge

namespace Interp

variable {r : Interp} {m : Machine} {v w : Value} {c d : Comparand} {vs ws : List Value}
  {cs ds : List Comparand} {room : Nat}

theorem equal_formed (formed : m.heap.Forms v c) (formed' : m.heap.Forms w d) :
    r.equal v w m = .ok (m.heap.same v w) m :=
  equal_plain (formed.not_method _) (formed'.not_method _)

theorem firstUnequal_formed (formed : List.Forall₂ m.heap.Forms vs cs)
    (formed' : List.Forall₂ m.heap.Forms ws ds) :
    r.firstUnequal vs ws m = .ok (firstDifference? m.heap.same vs ws) m := by
  induction formed generalizing ws ds with
  | nil => cases formed' <;> rfl
  | cons first _ rest =>
    cases formed' with
    | nil => rfl
    | @cons w _ ws _ first' others' =>
      rw [firstUnequal, Run.bind_ok (equal_formed first first'), firstDifference?]
      cases m.heap.same _ w with
      | true => exact rest others'
      | false => rfl

-- How it ends to compare two values in a run.
abbrev OrderEnds (m : Machine) : Option Ordering → EStateM.Result Stop Machine Ordering → Prop :=
  Agrees (fun o => .ok o m) fun result =>
    ∃ v w, result = .error (.fault (m.heap.notOrdered "<" v w)) m

theorem order?_eq_some {answer : Option Ordering} {o : Ordering}
    {result : EStateM.Result Stop Machine Ordering} (ended : OrderEnds m answer result)
    (done : result = .ok o m) : answer = some o := by
  cases ended with
  | some => cases done; rfl
  | none none =>
    obtain ⟨_, _, rfl⟩ := none
    cases done

theorem orderWithin_formed (formed : m.heap.Forms v c) (formed' : m.heap.Forms w d)
    (deep : c.depth < room) (shallow : c.depth < comparedDepth) :
    OrderEnds m (c.order? d) (r.orderWithin room v w m) := by
  induction room generalizing v w c d with
  | zero => cases deep
  | succ room ih =>
    rw [orderWithin, Run.heap_bind]
    cases formed.pairing formed' with
    | apart none ordered =>
      rw [none]
      dsimp only
      rw [formed.not_instance, formed'.not_instance, Bool.or_self, if_neg Bool.false_ne_true]
      have ended : m.heap.OrderEnds OrderOp.lt.symbol (c.order? d)
          (m.heap.order? OrderOp.lt.symbol v w) := ordered OrderOp.lt.symbol 200
      refine ended.map (fun result => (do return (← Run.check result).getD .eq : Run _) m)
        (fun _ => rfl) ?_
      rintro _ ⟨v, w, rfl⟩
      exact ⟨v, w, rfl⟩
    | @rows id _ vs ws _ _ ref pair items items' =>
      have inside := Comparand.inside_row deep
      rw [pair, Comparand.order?, if_pos rfl]
      dsimp only
      rw [Run.bind_ok (firstUnequal_formed items items')]
      have decides : m.heap.Decides m.heap.same _ := fun c hc _ _ _ formed formed' =>
        formed.same_iff formed' (Nat.lt_trans (Comparand.depth_lt hc) shallow)
      have first := Heap.Forms.firstDifference decides items items'
      generalize firstDifference? m.heap.same vs ws = difference at first
      cases first with
      | found here formed formed' order =>
        rw [order]
        exact ih formed formed' (inside _ here)
          (Nat.lt_trans (Comparand.depth_lt here) shallow)
      | none order =>
        rw [order, items.length_eq, items'.length_eq]
        exact .some _

theorem order_formed (r : Interp) (formed : m.heap.Forms v c) (formed' : m.heap.Forms w d)
    (deep : c.depth < comparedDepth) : OrderEnds m (c.order? d) (r.order v w m) :=
  orderWithin_formed formed formed' deep deep

-- How it ends to ask for an operator.
abbrev Holds (op : OrderOp) (m : Machine) :
    Option Ordering → EStateM.Result Stop Machine Bool → Prop :=
  Agrees (fun o => .ok (op.holds o) m) fun result => ∃ e, result = .error e m

theorem ordered_formed (r : Interp) (op : OrderOp) (formed : m.heap.Forms v c)
    (formed' : m.heap.Forms w d) (deep : c.depth < comparedDepth) :
    Holds op m (c.order? d) (r.ordered op v w m) := by
  have asked : r.askOrder op v w m = .ok none m := by
    refine (Run.bind_ok (special_of_none (formed.not_method _))).trans ?_
    exact Run.bind_ok (special_of_none (formed'.not_method _))
  rw [ordered, Run.bind_ok asked]
  dsimp only
  rw [Run.heap_bind]
  by_cases rows : (m.heap.sequencePair? v w).isSome
  · have ended := order_formed r formed formed' deep
    rw [if_pos rows]
    cases answer : c.order? d with
    | some o =>
      rw [answer] at ended
      rw [Run.bind_ok (Run.map_ok ended.of_some)]
      exact .some o
    | none =>
      rw [answer] at ended
      obtain ⟨x, y, failed⟩ := ended.of_none
      rw [Run.bind_error (Run.map_error failed)]
      exact .none ⟨_, rfl⟩
  · have ended : m.heap.OrderEnds op.symbol (c.order? d) (m.heap.order? op.symbol v w) :=
      formed.ordered op.symbol formed' deep
    rw [if_neg rows]
    refine ended.map (fun result => (do return (← Run.check result).any op.holds : Run _) m)
      (fun _ => rfl) ?_
    rintro _ ⟨x, y, rfl⟩
    exact ⟨_, rfl⟩

-- All comparisons of two values at once. They tell one order, or none of them tells any.
inductive Compares (r : Interp) (m : Machine) (v w : Value) : Option Ordering → Prop
  | ordered {o : Ordering} (order : r.order v w m = .ok o m) (back : r.order w v m = .ok o.swap m)
    (equal : r.equal v w m = .ok (o == .eq) m)
    (heap : ∀ symbol, m.heap.order? symbol v w = .ok (some o))
    (operators : ∀ op : OrderOp, r.compare op.operator v w m = .ok (op.holds o) m) :
    Compares r m v w (some o)
  | unordered (order : ∃ x y, r.order v w m = .error (.fault (m.heap.notOrdered "<" x y)) m)
    (back : ∃ x y, r.order w v m = .error (.fault (m.heap.notOrdered "<" x y)) m)
    (equal : r.equal v w m = .ok false m)
    (heap : ∀ symbol, ∃ x y, m.heap.order? symbol v w = .error (m.heap.notOrdered symbol x y))
    (operators : ∀ op : OrderOp, ∃ e, r.compare op.operator v w m = .error e m) :
    Compares r m v w none

theorem compares (r : Interp) (formed : m.heap.Forms v c) (formed' : m.heap.Forms w d)
    (deep : c.depth < comparedDepth) (deep' : d.depth < comparedDepth) :
    r.Compares m v w (c.order? d) := by
  have order := order_formed r formed formed' deep
  have back := order_formed r formed' formed deep'
  have equal : r.equal v w m = .ok (m.heap.same v w) m := equal_formed formed formed'
  have same := formed.same_iff formed' deep
  have heap (symbol : String) : m.heap.OrderEnds symbol (c.order? d) (m.heap.order? symbol v w) :=
    formed.ordered symbol formed' deep
  have operators (op : OrderOp) : Holds op m (c.order? d) (r.compare op.operator v w m) := by
    cases op <;> exact ordered_formed r _ formed formed' deep
  rw [Comparand.order?_swap] at back
  rw [← Comparand.order?_eq_eq] at same
  generalize c.order? d = answer at order back same heap operators
  cases answer with
  | some o =>
    have agree : m.heap.same v w = (o == .eq) := by
      rw [Bool.eq_iff_iff, same, Option.some.injEq, beq_iff_eq]
    exact .ordered order.of_some back.of_some (equal.trans (by rw [agree]))
      (fun symbol => (heap symbol).of_some) fun op => (operators op).of_some
  | none =>
    have differ : m.heap.same v w = false := Bool.eq_false_iff.2 fun equal => nomatch same.1 equal
    exact .unordered order.of_none back.of_none (equal.trans (by rw [differ]))
      (fun symbol => (heap symbol).of_none) fun op => (operators op).of_none

end Interp

/--
Values that are built from booleans, integers, texts, lists and tuples are compared in their
lexicographic order, and all ways to compare two of them agree: the order in which they are sorted,
from either side, equality, the order on the heap, whatever the operator is called, and the
operators. Where two of them have no order, each of these fails, but equality, which says that they
differ. The order is transitive.
-/
theorem comparisons_are_lexicographic (r : Interp) {m : Machine} {a b c : Value}
    {x y z : Comparand} (ha : m.heap.Forms a x) (hb : m.heap.Forms b y) (hc : m.heap.Forms c z)
    (deep : x.depth < comparedDepth) (deep' : y.depth < comparedDepth) :
    r.Compares m a b (x.order? y) ∧
    ∀ o o', r.order a b m = .ok o m → r.order b c m = .ok o' m → o ≠ .gt → o' ≠ .gt →
      r.order a c m = .ok (o.then o') m := by
  refine ⟨Interp.compares r ha hb deep deep', fun o o' first second le le' => ?_⟩
  have first := Interp.order?_eq_some (Interp.order_formed r ha hb deep) first
  have second := Interp.order?_eq_some (Interp.order_formed r hb hc deep') second
  have third := Interp.order_formed r ha hc deep
  rw [Comparand.order?_trans first second le le'] at third
  exact third.of_some

-- Three lists, and a tuple around each.
def Machine.rows : Machine :=
  let lists : Run Value := do
    let _ ← Run.allocTuple #[← Run.allocList #[.int 1, .str "a"]]
    let _ ← Run.allocTuple #[← Run.allocList #[.bool true, .str "b"]]
    Run.allocTuple #[← Run.allocList #[.int 2]]
  Run.state (lists (.start {} []))

theorem comparisons_are_lexicographic_rows :
    let x : Comparand := .row .tuple [.row .list [.number 1, .text "a"]]
    let y : Comparand := .row .tuple [.row .list [.number 1, .text "b"]]
    let z : Comparand := .row .tuple [.row .list [.number 2]]
    Machine.rows.heap.Forms (.ref 1) x ∧ Machine.rows.heap.Forms (.ref 3) y ∧
      Machine.rows.heap.Forms (.ref 5) z ∧ x.depth < comparedDepth ∧ y.depth < comparedDepth ∧
      (interp 0).Compares .rows (.ref 1) (.ref 3) (some .lt) ∧
      (interp 0).order (.ref 1) (.ref 5) .rows = .ok .lt .rows := by
  intro x y z
  have ha : Machine.rows.heap.Forms (.ref 1) x :=
    .row rfl rfl (.cons (.row rfl rfl (.cons (.int 1) (.cons (.text "a") .nil))) .nil)
  have hb : Machine.rows.heap.Forms (.ref 3) y :=
    .row rfl rfl (.cons (.row rfl rfl (.cons (.bool true) (.cons (.text "b") .nil))) .nil)
  have hc : Machine.rows.heap.Forms (.ref 5) z :=
    .row rfl rfl (.cons (.row rfl rfl (.cons (.int 2) .nil)) .nil)
  have deep : x.depth < comparedDepth := by decide
  have deep' : y.depth < comparedDepth := by decide
  have less : x.order? y = some .lt := by decide
  have comparisons := comparisons_are_lexicographic (interp 0) ha hb hc deep deep'
  refine ⟨ha, hb, hc, deep, deep', less ▸ comparisons.1, ?_⟩
  exact comparisons.2 .lt .lt rfl rfl (by decide) (by decide)

end StepTrace
