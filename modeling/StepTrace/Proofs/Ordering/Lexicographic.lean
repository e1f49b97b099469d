import Mathlib.Data.List.Basic

/-!
The lexicographic order of numbers, texts and rows of them, inside each other, as far as two of them
can be compared.
-/

set_option autoImplicit false

namespace StepTrace

inductive RowKind
  | list | tuple
deriving DecidableEq, Repr

inductive Comparand
  | number (n : Int64)
  | text (s : String)
  | row (kind : RowKind) (items : List Comparand)

namespace Comparand

@[induction_eliminator]
theorem induction {P : Comparand → Prop} (number : ∀ n, P (.number n)) (text : ∀ s, P (.text s))
    (row : ∀ kind items, (∀ c ∈ items, P c) → P (.row kind items)) (c : Comparand) : P c :=
  Comparand.rec (motive_1 := P) (motive_2 := fun items => ∀ c ∈ items, P c) number text row
    (List.forall_mem_nil _) (fun _ _ first others => List.forall_mem_cons.2 ⟨first, others⟩) c

mutual

-- How many rows are inside each other.
def depth : Comparand → Nat
  | row _ items => depthAll items + 1
  | _ => 0

def depthAll : List Comparand → Nat
  | [] => 0
  | c :: rest => max c.depth (depthAll rest)

end

theorem depth_le_depthAll {c : Comparand} {items : List Comparand} (h : c ∈ items) :
    c.depth ≤ depthAll items := by
  induction items with
  | nil => cases h
  | cons first rest ih =>
    rw [depthAll]
    rcases List.mem_cons.1 h with rfl | h
    · exact Nat.le_max_left ..
    · exact Nat.le_trans (ih h) (Nat.le_max_right ..)

theorem depth_lt {kind : RowKind} {items : List Comparand} {c : Comparand} (h : c ∈ items) :
    c.depth < (row kind items).depth := Nat.lt_succ_of_le (depth_le_depthAll h)

theorem inside_row {kind : RowKind} {items : List Comparand} {room : Nat}
    (deep : (row kind items).depth < room + 1) : ∀ c ∈ items, c.depth < room := fun _ here =>
  Nat.lt_of_lt_of_le (depth_lt here) (Nat.le_of_lt_succ deep)

mutual

-- The order of two of them. Rows of one kind are in the order of the first two items that are not
-- equal, or else the shorter one comes first.
def order? : Comparand → Comparand → Option Ordering
  | number x, number y => some (compare x y)
  | text x, text y => some (compare x y)
  | row kind xs, row kind' ys => if kind = kind' then orderAll? xs ys else none
  | _, _ => none

def orderAll? : List Comparand → List Comparand → Option Ordering
  | x :: xs, y :: ys =>
    match x.order? y with
    | some .eq => orderAll? xs ys
    | o => o
  | xs, ys => some (compare xs.length ys.length)

end

attribute [local simp] order? orderAll?

variable {x y : Comparand} {xs ys : List Comparand}

theorem order?_row_eq_some {kind kind' : RowKind} {o : Ordering} :
    (row kind xs).order? (row kind' ys) = some o ↔ kind = kind' ∧ orderAll? xs ys = some o := by
  rw [order?]
  by_cases same : kind = kind'
  · rw [if_pos same]
    exact (and_iff_right same).symm
  · rw [if_neg same]
    exact iff_of_false nofun fun both => same both.1

/-! ### Equality -/

theorem orderAll?_eq_eq (ih : ∀ x ∈ xs, ∀ y, x.order? y = some .eq ↔ x = y) :
    orderAll? xs ys = some .eq ↔ xs = ys := by
  induction xs generalizing ys with
  | nil => cases ys <;> simp
  | cons x xs ihs =>
    obtain ⟨first, others⟩ := List.forall_mem_cons.1 ih
    cases ys with
    | nil => simp
    | cons y ys =>
      rw [orderAll?, List.cons.injEq, ← first y, ← ihs others]
      rcases x.order? y with _ | _ | _ | _ <;> simp

theorem order?_eq_eq (x y : Comparand) : x.order? y = some .eq ↔ x = y := by
  induction x generalizing y with
  | number n => cases y <;> simp
  | text s => cases y <;> simp
  | row kind items ih =>
    cases y with
    | number | text => simp
    | row kind' items' => rw [order?_row_eq_some, orderAll?_eq_eq ih, row.injEq]

theorem order?_self (x : Comparand) : x.order? x = some .eq := (order?_eq_eq x x).2 rfl

theorem orderAll?_cons (x : Comparand) (xs ys : List Comparand) :
    orderAll? (x :: xs) (x :: ys) = orderAll? xs ys := by
  rw [orderAll?, order?_self]

theorem orderAll?_of_ne (differ : x ≠ y) : orderAll? (x :: xs) (y :: ys) = x.order? y := by
  rw [orderAll?]
  split
  · next same => exact absurd ((order?_eq_eq x y).1 same) differ
  · rfl

/-! ### The other way round -/

theorem orderAll?_swap (ih : ∀ x ∈ xs, ∀ y, y.order? x = (x.order? y).map Ordering.swap) :
    orderAll? ys xs = (orderAll? xs ys).map Ordering.swap := by
  induction xs generalizing ys with
  | nil => cases ys <;> rfl
  | cons x xs ihs =>
    obtain ⟨first, others⟩ := List.forall_mem_cons.1 ih
    cases ys with
    | nil => rfl
    | cons y ys =>
      rw [orderAll?, orderAll?, first y, ihs others]
      rcases x.order? y with _ | _ | _ | _ <;> rfl

theorem order?_swap (x y : Comparand) : y.order? x = (x.order? y).map Ordering.swap := by
  induction x generalizing y with
  | number n =>
    cases y with
    | number k => exact congrArg some Std.OrientedCmp.eq_swap
    | _ => rfl
  | text s =>
    cases y with
    | text t => exact congrArg some Std.OrientedCmp.eq_swap
    | _ => rfl
  | row kind items ih =>
    cases y with
    | number | text => rfl
    | row kind' items' =>
      rw [order?, order?]
      by_cases same : kind = kind'
      · rw [if_pos same, if_pos same.symm, orderAll?_swap ih]
      · rw [if_neg same, if_neg (Ne.symm same)]
        rfl

/-! ### Transitivity -/

theorem orderAll?_lt_trans {zs : List Comparand}
    (ih : ∀ x ∈ xs, ∀ y z, x.order? y = some .lt → y.order? z = some .lt → x.order? z = some .lt)
    (first : orderAll? xs ys = some .lt) (second : orderAll? ys zs = some .lt) :
    orderAll? xs zs = some .lt := by
  induction xs generalizing ys zs with
  | nil =>
    cases zs with
    | nil => cases ys <;> cases second
    | cons => rfl
  | cons x xs ihs =>
    obtain ⟨here, others⟩ := List.forall_mem_cons.1 ih
    cases ys with
    | nil => cases first
    | cons y ys =>
      cases zs with
      | nil => cases second
      | cons z zs =>
        by_cases xy : x = y
        · subst xy
          rw [orderAll?_cons] at first
          by_cases xz : x = z
          · subst xz
            rw [orderAll?_cons] at second ⊢
            exact ihs others first second
          · rw [orderAll?_of_ne xz] at second ⊢
            exact second
        · rw [orderAll?_of_ne xy] at first
          by_cases yz : y = z
          · subst yz
            rw [orderAll?_of_ne xy]
            exact first
          · rw [orderAll?_of_ne yz] at second
            have less := here y z first second
            have xz : x ≠ z := by
              rintro rfl
              cases less.symm.trans (order?_self x)
            rw [orderAll?_of_ne xz]
            exact less

theorem order?_lt_trans {x y z : Comparand} (first : x.order? y = some .lt)
    (second : y.order? z = some .lt) : x.order? z = some .lt := by
  induction x generalizing y z with
  | number n =>
    cases y with
    | number k =>
      cases z with
      | number l =>
        have less := Std.TransCmp.lt_trans (Option.some.inj first) (Option.some.inj second)
        exact congrArg some less
      | _ => cases second
    | _ => cases first
  | text s =>
    cases y with
    | text t =>
      cases z with
      | text u =>
        have less := Std.TransCmp.lt_trans (Option.some.inj first) (Option.some.inj second)
        exact congrArg some less
      | _ => cases second
    | _ => cases first
  | row kind items ih =>
    cases y with
    | number | text => cases first
    | row kind' items' =>
      cases z with
      | number | text => cases second
      | row kind'' items'' =>
        obtain ⟨rfl, before⟩ := order?_row_eq_some.1 first
        obtain ⟨rfl, after⟩ := order?_row_eq_some.1 second
        exact order?_row_eq_some.2 ⟨rfl, orderAll?_lt_trans (fun x hx _ _ => ih x hx) before after⟩

-- What is not greater than something not greater is not greater either.
theorem order?_trans {x y z : Comparand} {o o' : Ordering} (first : x.order? y = some o)
    (second : y.order? z = some o') (le : o ≠ .gt) (le' : o' ≠ .gt) :
    x.order? z = some (o.then o') := by
  cases o with
  | gt => contradiction
  | eq =>
    obtain rfl := (order?_eq_eq x y).1 first
    exact second
  | lt =>
    cases o' with
    | gt => contradiction
    | lt => exact order?_lt_trans first second
    | eq =>
      obtain rfl := (order?_eq_eq y z).1 second
      exact first

end Comparand

end StepTrace
