import StepTrace.Proofs.Sorting.Sifting

/-!
Priority queues. The operations keep the items of a list in such an order that no item is less than
its parent, by the order in which values are while the list is empty.
-/

set_option autoImplicit false

namespace StepTrace

-- The computation leaves the state as it is and gives a value in `A`.
def Run.Settles {α : Type} (m : Machine) (A : α → Prop) (x : Run α) : Prop :=
  ∃ a, x m = .ok a m ∧ A a

namespace Run.Settles

variable {α β : Type} {m : Machine} {A : α → Prop} {B : β → Prop} {x : Run α} {f : α → Run β}

theorem ret {a : α} (ha : A a) : Settles m A (pure a) := ⟨a, rfl, ha⟩

theorem bind (hx : Settles m A x) (hf : ∀ a, A a → Settles m B (f a)) : Settles m B (x >>= f) := by
  obtain ⟨a, done, ha⟩ := hx
  obtain ⟨b, done', hb⟩ := hf a ha
  exact ⟨b, (bind_ok done).trans done', hb⟩

end Run.Settles

-- In this state some values are in the order `f`, and no code of the program is asked for it.
structure Interp.Orders (r : Interp) (m : Machine) (f : Value → Value → Ordering)
    (all : List Value) : Prop where
  preorders : Preorders f all
  answers : ∀ a ∈ all, ∀ b ∈ all, r.order a b m = .ok (f a b) m

namespace Interp

variable {r : Interp} {m : Machine} {f : Value → Value → Ordering} {all : List Value}
  {items : Array Value} {i j k p : Nat}

/-! ### Items that find their place -/

section

variable (orders : r.Orders m f all) (mine : ∀ v ∈ items, v ∈ all)

include orders mine

theorem lessAt_answers (hi : i < items.size) (hj : j < items.size) :
    r.lessAt items i j m = .ok (comesBefore f (itemAt items i) (itemAt items j)) m := by
  have first := mine _ (mem_itemAt hi)
  have second := mine _ (mem_itemAt hj)
  exact Run.bind_ok (orders.answers _ first _ second)

end

theorem mem_of_perm {items' : Array Value} (same : items'.toList.Perm items.toList)
    (mine : ∀ v ∈ items, v ∈ all) : ∀ v ∈ items', v ∈ all := fun v hv =>
  mine v (Array.mem_toList_iff.1 (same.mem_iff.1 (Array.mem_toList_iff.2 hv)))

theorem mem_of_swap (mine : ∀ v ∈ items, v ∈ all) (i j : Nat) :
    ∀ v ∈ items.swapIfInBounds i j, v ∈ all := mem_of_perm (swapIfInBounds_perm items i j) mine

-- The fuel is enough for all places from `p` on.
theorem siftDown_settles (orders : r.Orders m f all) (mine : ∀ v ∈ items, v ∈ all)
    (sinks : Sinks (comesBefore f) k items p) {fuel : Nat} (enough : items.size ≤ p + fuel) :
    Run.Settles m (OrderedFrom (comesBefore f) k) (r.siftDown fuel items p) := by
  have weak := orders.preorders.strict
  induction fuel generalizing items p with
  | zero => exact .ret (sinks.settle fun i pos here child => by omega)
  | succ fuel ih =>
    have past (c : Nat) (hc : c < items.size) (pos : 0 < c) (child : (c - 1) / 2 = p)
        (least : ∀ i, 0 < i → i < items.size → (i - 1) / 2 = p →
          NotLess (comesBefore f) items i c) :
        Run.Settles m (OrderedFrom (comesBefore f) k) (do
          if ← r.lessAt items c p then r.siftDown fuel (items.swapIfInBounds c p) c
          else return items) := by
      have down := lessAt_answers orders mine hc (show p < items.size by omega)
      cases before : comesBefore f (itemAt items c) (itemAt items p) with
      | true =>
        rw [before] at down
        have moved := sinks.move weak mine pos hc child before least
        obtain ⟨out, done, ordered⟩ := ih (mem_of_swap mine c p) moved (by
          rw [Array.size_swapIfInBounds]
          omega)
        exact ⟨out, (Run.bind_ok down).trans done, ordered⟩
      | false =>
        rw [before] at down
        refine ⟨items, Run.bind_ok down, sinks.settle fun i pos here below => ?_⟩
        exact NotLess.trans weak mine (least i pos here below) before here hc
          (by omega)
    rw [siftDown]
    by_cases leaf : items.size ≤ 2 * p + 1
    · rw [if_pos leaf]
      exact .ret (sinks.settle fun i pos here child => by omega)
    · rw [if_neg leaf]
      have inside : 2 * p + 1 < items.size := Nat.lt_of_not_le leaf
      by_cases two : 2 * p + 1 + 1 < items.size
      · rw [if_pos two]
        have lesser := lessAt_answers orders mine two inside
        refine Run.Settles.bind ⟨_, lesser, rfl⟩ fun right same => ?_
        subst same
        cases right : comesBefore f (itemAt items (2 * p + 1 + 1)) (itemAt items (2 * p + 1)) with
        | true =>
          exact past (2 * p + 1 + 1) two (by omega) (by omega) (least_right weak mine two right)
        | false =>
          exact past (2 * p + 1) inside (by omega) (by omega)
            (least_left weak mine fun _ => right)
      · rw [if_neg two]
        exact past (2 * p + 1) inside (by omega) (by omega)
          (least_left weak mine fun h => absurd h two)

theorem siftUp_settles (orders : r.Orders m f all) (mine : ∀ v ∈ items, v ∈ all)
    (rises : Rises (comesBefore f) items p) (inside : p < items.size) :
    Run.Settles m (IsHeap (comesBefore f)) (r.siftUp items p) := by
  induction p using Nat.strongRecOn generalizing items with
  | ind p ih =>
    unfold siftUp
    by_cases root : p = 0
    · rw [dif_pos root]
      exact .ret (rises.settle fun pos => absurd root (by omega))
    · rw [dif_neg root]
      have up := lessAt_answers orders mine inside (show (p - 1) / 2 < items.size by omega)
      cases before : comesBefore f (itemAt items p) (itemAt items ((p - 1) / 2)) with
      | true =>
        rw [before] at up
        have moved := rises.move orders.preorders.strict mine (by omega) inside before
        obtain ⟨out, done, ordered⟩ := ih _ (by omega) (mem_of_swap mine _ _) moved (by
          rw [Array.size_swapIfInBounds]
          omega)
        exact ⟨out, (Run.bind_ok up).trans done, ordered⟩
      | false =>
        rw [before] at up
        exact ⟨items, Run.bind_ok up, rises.settle fun _ => before⟩

theorem siftAll_settles (orders : r.Orders m f all) (mine : ∀ v ∈ items, v ∈ all)
    (ordered : OrderedFrom (comesBefore f) k items) :
    Run.Settles m (IsHeap (comesBefore f)) (r.siftAll k items) := by
  induction k generalizing items with
  | zero => exact .ret (isHeap_iff.2 ordered)
  | succ k ih =>
    obtain ⟨sifted, done, ordered'⟩ := siftDown_settles orders mine
      (Sinks.start ordered) (Nat.le_add_left items.size k)
    have same := siftDown_perm items.size items k m sifted m done
    obtain ⟨out, done', heap⟩ := ih (mem_of_perm same mine) ordered'
    exact ⟨out, (Run.bind_ok done).trans done', heap⟩

end Interp

/-! ### Operations on lists -/

theorem Run.putItems_putItems (id : ObjId) (items items' : Array Value) (m : Machine) :
    putItems id items (putItems id items' m) = putItems id items m := by
  have once : ∀ o, Object.mapList (fun l => { l with items })
      (Object.mapList (fun l => { l with items := items' }) o) =
        Object.mapList (fun l => { l with items }) o := by
    intro o
    cases o <;> rfl
  simp only [putItems, Heap.modify, Machine.mk.injEq, Heap.mk.injEq, and_true, true_and]
  refine Array.ext_getElem? fun i => ?_
  rw [Array.getElem?_modify, Array.getElem?_modify, Array.getElem?_modify]
  by_cases here : id = i
  · simp [here, once, Function.comp_def]
  · simp [here]

theorem Run.putItems_same {m : Machine} {id : ObjId} {l : ListObject}
    (found : m.heap.get? id = some (.list l)) : putItems id l.items m = m := by
  have same : (m.heap.modify id (Object.mapList fun l' => { l' with items := l.items })).objects =
      m.heap.objects := by
    refine Array.ext_getElem? fun i => ?_
    rw [Heap.modify, Array.getElem?_modify]
    by_cases here : id = i
    · have found : m.heap.objects[i]? = some (.list l) := here ▸ found
      rw [if_pos here, found]
      rfl
    · rw [if_neg here]
  exact congrArg (fun objects => { m with heap := { m.heap with objects } }) same

theorem Run.get?_putItems {m : Machine} {id : ObjId} {l : ListObject}
    (found : m.heap.get? id = some (.list l)) (items : Array Value) :
    (putItems id items m).heap.get? id = some (.list { l with items }) := by
  rw [putItems, Heap.get?_modify, if_pos rfl, found]
  rfl

inductive QueueOp
  | push (v : Value)
  | pop

-- What a queue of some values answers to operations, and the values that are left. A value that is
-- taken is not greater than any other.
inductive Serves (f : Value → Value → Ordering) :
    List Value → List QueueOp → List Value → List Value → Prop
  | nil {before after : List Value} (same : after.Perm before) : Serves f before [] [] after
  | push {before answers after : List Value} {ops : List QueueOp} {v : Value}
    (rest : Serves f (v :: before) ops answers after) :
    Serves f before (.push v :: ops) answers after
  | pop {before left answers after : List Value} {ops : List QueueOp} {v : Value}
    (taken : before.Perm (v :: left)) (least : ∀ w ∈ before, f v w ≠ .gt)
    (rest : Serves f left ops answers after) : Serves f before (.pop :: ops) (v :: answers) after

theorem Serves.of_perm {f : Value → Value → Ordering} {before before' answers after : List Value}
    {ops : List QueueOp} (h : Serves f before ops answers after) (same : before'.Perm before) :
    Serves f before' ops answers after := by
  induction h generalizing before' with
  | nil same' => exact .nil (same'.trans same.symm)
  | push _ ih => exact .push (ih (same.cons _))
  | pop taken least rest =>
    exact .pop (same.trans taken) (fun w hw => least w (same.mem_iff.1 hw)) rest

-- Operations on the queue that is in a list, one after the other, with what is popped.
def Interp.serve (r : Interp) (list : Value) : List QueueOp → Run (List Value)
  | [] => return []
  | .push v :: ops => do
    let _ ← r.callValue (.builtin .heappush) [list, v] []
    r.serve list ops
  | .pop :: ops => do
    let v ← r.callValue (.builtin .heappop) [list] []
    return v :: (← r.serve list ops)

-- How it ends to use a list as a queue: as a queue of its items answers, or with an error where
-- something is to be taken from the empty one.
inductive Served (f : Value → Value → Ordering) (id : ObjId) (m : Machine) (before : List Value)
    (ops : List QueueOp) : EStateM.Result Stop Machine (List Value) → Prop
  | done {answers : List Value} {items : Array Value}
    (serves : Serves f before ops answers items.toList)
    (heap : IsHeap (Interp.comesBefore f) items) :
    Served f id m before ops (.ok answers (Run.putItems id items m))
  | empty {answers : List Value} (served rest : List QueueOp) (upTo : ops = served ++ .pop :: rest)
    (serves : Serves f before served answers []) :
    Served f id m before ops (.error (.fault (.index "index out of range")) (Run.putItems id #[] m))

namespace Interp

variable {r : Interp} {m : Machine} {f : Value → Value → Ordering} {all : List Value}
  {items : Array Value} {id : ObjId} {l : ListObject} {item : Value}

-- The first item is not greater than any other, so it is the one to take.
theorem least_first (preorders : Preorders f all) (mine : ∀ v ∈ items, v ∈ all)
    (heap : IsHeap (comesBefore f) items) :
    ∀ w ∈ items.toList, f (itemAt items 0) w ≠ .gt := by
  intro w hw
  obtain ⟨i, hi, rfl⟩ := Array.mem_iff_getElem.1 (Array.mem_toList_iff.1 hw)
  have root := heap.notLess_root preorders.strict mine hi
  rw [NotLess, itemAt_of_lt hi] at root
  have top := mine _ (mem_itemAt (Nat.zero_lt_of_lt hi))
  exact (comesBefore_eq_false preorders (mine _ (Array.getElem_mem hi)) top).1 root

section

variable (found : m.heap.get? id = some (.list l))

include found

-- Items that are rearranged by a computation that leaves the state as it is.
theorem rearrange_done {α : Type} {x : Array Value → Run (Array Value × α)}
    {items' : Array Value} {a : α}
    (done : x items (Run.putItems id #[] m) = .ok (items', a) (Run.putItems id #[] m)) :
    Run.rearrange id x (Run.putItems id items m) = .ok a (Run.putItems id items' m) := by
  rw [Run.rearrange_of_list (Run.get?_putItems found items), Run.putItems_putItems]
  dsimp only
  rw [done]
  exact congrArg (EStateM.Result.ok a) (Run.putItems_putItems id items' #[] m)

theorem queuePop_empty : r.callValue (.builtin .heappop) [.ref id] [] (Run.putItems id #[] m) =
    .error (.fault (.index "index out of range")) (Run.putItems id #[] m) := by
  have here := Run.get?_putItems found #[]
  rw [callValue_heappop, queuePop, Run.bind_ok (queueOf_list "heappop" here),
    Run.rearrange_of_list here, Run.putItems_putItems]
  exact congrArg (EStateM.Result.error _) (Run.putItems_putItems id #[] #[] m)

variable (orders : r.Orders (Run.putItems id #[] m) f all)

include orders

theorem queueMake_heap (mine : ∀ v ∈ items, v ∈ all) :
    ∃ items', r.callValue (.builtin .heapify) [.ref id] [] (Run.putItems id items m) =
        .ok .none (Run.putItems id items' m) ∧
      items'.toList.Perm items.toList ∧ IsHeap (comesBefore f) items' := by
  rw [callValue_heapify, queueMake,
    Run.bind_ok (queueOf_list "heapify" (Run.get?_putItems found items))]
  obtain ⟨sifted, done, heap⟩ := siftAll_settles orders mine orderedFrom_half
  have same := siftAll_perm _ items _ sifted _ done
  exact ⟨sifted, rearrange_done found (Run.bind_ok done), same, heap⟩

theorem queuePush_heap (mine : ∀ v ∈ items, v ∈ all) (here : item ∈ all)
    (heap : IsHeap (comesBefore f) items) :
    ∃ items', r.callValue (.builtin .heappush) [.ref id, item] [] (Run.putItems id items m) =
        .ok .none (Run.putItems id items' m) ∧
      items'.toList.Perm (item :: items.toList) ∧ IsHeap (comesBefore f) items' := by
  rw [callValue_heappush, queuePush,
    Run.bind_ok (queueOf_list "heappush" (Run.get?_putItems found items))]
  have mine' : ∀ v ∈ items.push item, v ∈ all := by
    intro v hv
    rcases Array.mem_push.1 hv with old | rfl
    · exact mine v old
    · exact here
  obtain ⟨sifted, done, heap'⟩ := siftUp_settles orders mine' (.pushed heap) (by simp)
  have same := siftUp_perm _ _ _ sifted _ done
  exact ⟨sifted, rearrange_done found (Run.bind_ok done), same.trans (by simp), heap'⟩

theorem queuePop_heap (mine : ∀ v ∈ items, v ∈ all) (some : items ≠ #[])
    (heap : IsHeap (comesBefore f) items) :
    ∃ v items', r.callValue (.builtin .heappop) [.ref id] [] (Run.putItems id items m) =
        .ok v (Run.putItems id items' m) ∧
      items.toList.Perm (v :: items'.toList) ∧ (∀ w ∈ items.toList, f v w ≠ .gt) ∧
      IsHeap (comesBefore f) items' := by
  have least := least_first orders.preorders mine heap
  rw [callValue_heappop, queuePop,
    Run.bind_ok (queueOf_list "heappop" (Run.get?_putItems found items))]
  obtain ⟨front, last, rfl⟩ := Array.eq_push_of_size_ne_zero (fun none =>
    some (Array.size_eq_zero_iff.1 none))
  rcases front with ⟨_ | ⟨top, rest⟩⟩
  · refine ⟨last, #[], rearrange_done found rfl, .refl _, least, fun i pos here => ?_⟩
    cases here
  · have mine' : ∀ v ∈ (Array.mk (top :: rest)).setIfInBounds 0 last, v ∈ all := by
      intro v hv
      refine mine v ?_
      simp at hv ⊢
      rcases hv with rfl | hv
      · exact .inr (.inr rfl)
      · exact .inr (.inl hv)
    obtain ⟨sifted, done, heap'⟩ := siftDown_settles orders mine' (.replaced heap)
      (Nat.le_add_left _ 0)
    have same := siftDown_perm _ _ _ _ sifted _ done
    refine ⟨top, sifted, rearrange_done found ?_, ?_, least, isHeap_iff.2 heap'⟩
    · simp only [Array.back?_push, Array.pop_push]
      exact Run.bind_ok done
    · calc ((Array.mk (top :: rest)).push last).toList = top :: (rest ++ [last]) := by simp
        _ |>.Perm (top :: last :: rest) := (List.perm_append_singleton last rest).cons top
        _ |>.Perm (top :: sifted.toList) := (same.trans (by simp)).symm.cons top

theorem serve_served (mine : ∀ v ∈ items, v ∈ all) (heap : IsHeap (comesBefore f) items)
    (ops : List QueueOp) (pushed : ∀ v, .push v ∈ ops → v ∈ all) :
    Served f id m items.toList ops (r.serve (.ref id) ops (Run.putItems id items m)) := by
  induction ops generalizing items with
  | nil => exact .done (.nil (.refl _)) heap
  | cons op ops ih =>
    have later : ∀ v, .push v ∈ ops → v ∈ all := fun v hv => pushed v (List.mem_cons_of_mem _ hv)
    cases op with
    | push v =>
      have here : v ∈ all := pushed v List.mem_cons_self
      obtain ⟨items', done, same, heap'⟩ := queuePush_heap found orders mine here heap
      have mine' : ∀ w ∈ items', w ∈ all := by
        intro w hw
        rcases List.mem_cons.1 (same.mem_iff.1 (Array.mem_toList_iff.2 hw)) with rfl | old
        · exact here
        · exact mine w (Array.mem_toList_iff.1 old)
      have served := ih mine' heap' later
      rw [serve, Run.bind_ok done]
      generalize r.serve (.ref id) ops (Run.putItems id items' m) = result at served
      cases served with
      | done serves heap => exact .done (.push (serves.of_perm same.symm)) heap
      | empty served rest upTo serves =>
        exact .empty (.push v :: served) rest (congrArg (List.cons _) upTo)
          (.push (serves.of_perm same.symm))
    | pop =>
      rw [serve]
      by_cases none : items = #[]
      · subst none
        rw [Run.bind_error (queuePop_empty found)]
        exact .empty [] ops rfl (.nil (.refl _))
      · obtain ⟨v, items', done, taken, least, heap'⟩ :=
          queuePop_heap found orders mine none heap
        have mine' : ∀ w ∈ items', w ∈ all := fun w hw => mine w (Array.mem_toList_iff.1
          (taken.mem_iff.2 (List.mem_cons_of_mem _ (Array.mem_toList_iff.2 hw))))
        have served := ih mine' heap' later
        rw [Run.bind_ok done]
        cases result : r.serve (.ref id) ops (Run.putItems id items' m) with
        | ok answers m' =>
          rw [result] at served
          rw [Run.bind_ok result]
          cases served with
          | done serves heap => exact .done (.pop taken least serves) heap
        | error e m' =>
          rw [result] at served
          rw [Run.bind_error result]
          cases served with
          | empty served rest upTo serves =>
            exact .empty (.pop :: served) rest (congrArg (List.cons _) upTo)
              (.pop taken least serves)

end

end Interp

/--
Where the values of a queue and those that are pushed have one order, whatever items the list has
and without any code of the program, the queue operations serve by it. To make a queue leaves the
same items with none less than its parent. A queue stays one: to push adds exactly one item, and to
pop takes exactly one, which is not greater than any other. So a row of operations answers as a
queue does.
-/
theorem queues_serve_least_first (r : Interp) {m : Machine} {id : ObjId} {l : ListObject}
    {f : Value → Value → Ordering} {all : List Value} (found : m.heap.get? id = some (.list l))
    (mine : ∀ v ∈ l.items, v ∈ all) (orders : ∀ items, r.Orders (Run.putItems id items m) f all) :
    (∃ items, r.callValue (.builtin .heapify) [.ref id] [] m = .ok .none (Run.putItems id items m) ∧
      items.toList.Perm l.items.toList ∧ IsHeap (Interp.comesBefore f) items) ∧
    (IsHeap (Interp.comesBefore f) l.items →
      (∀ item ∈ all, ∃ items, r.callValue (.builtin .heappush) [.ref id, item] [] m =
          .ok .none (Run.putItems id items m) ∧
        items.toList.Perm (item :: l.items.toList) ∧ IsHeap (Interp.comesBefore f) items) ∧
      (l.items ≠ #[] → ∃ v items, r.callValue (.builtin .heappop) [.ref id] [] m =
          .ok v (Run.putItems id items m) ∧
        l.items.toList.Perm (v :: items.toList) ∧ (∀ w ∈ l.items.toList, f v w ≠ .gt) ∧
        IsHeap (Interp.comesBefore f) items) ∧
      ∀ ops, (∀ v, .push v ∈ ops → v ∈ all) →
        Served f id m l.items.toList ops (r.serve (.ref id) ops m)) := by
  have same := Run.putItems_same found
  have make := Interp.queueMake_heap found (orders #[]) mine
  rw [same] at make
  refine ⟨make, fun heap => ⟨fun item here => ?_, fun some => ?_, fun ops pushed => ?_⟩⟩
  · have push := Interp.queuePush_heap found (orders #[]) mine here heap
    rwa [same] at push
  · have pop := Interp.queuePop_heap found (orders #[]) mine some heap
    rwa [same] at pop
  · have served := Interp.serve_served found (orders #[]) mine heap ops pushed
    rwa [same] at served

-- The order of two integers.
def intOrder (a b : Value) : Ordering := (numberOrder? a b).getD .eq

-- A queue of two numbers.
def Machine.queue : Machine := Run.state (Run.allocList #[.int 1, .int 2] (.start {} []))

theorem queues_serve_least_first_two_numbers :
    let l : ListObject := ⟨#[.int 1, .int 2], none⟩
    let all : List Value := [.int 1, .int 2]
    let ops : List QueueOp := [.push (.int 1), .pop, .pop, .pop, .pop]
    Machine.queue.heap.get? 0 = some (.list l) ∧ (∀ v ∈ l.items, v ∈ all) ∧
      (∀ items, (interp 0).Orders (Run.putItems 0 items .queue) intOrder all) ∧
      IsHeap (Interp.comesBefore intOrder) l.items ∧ (∀ v, .push v ∈ ops → v ∈ all) ∧
      Served intOrder 0 .queue l.items.toList ops ((interp 0).serve (.ref 0) ops .queue) := by
  intro l all ops
  have mine : ∀ v ∈ l.items, v ∈ all := by simp [l, all]
  have orders : ∀ items, (interp 0).Orders (Run.putItems 0 items .queue) intOrder all := by
    refine fun items => ⟨⟨by decide, by decide⟩, fun a ha b hb => ?_⟩
    rcases List.mem_pair.1 ha with rfl | rfl <;> rcases List.mem_pair.1 hb with rfl | rfl <;> rfl
  have heap : IsHeap (Interp.comesBefore intOrder) l.items := by
    intro i pos here
    obtain rfl : i = 1 := Nat.le_antisymm (Nat.le_of_lt_succ here) pos
    rfl
  have pushed : ∀ v, .push v ∈ ops → v ∈ all := by simp [ops, all]
  exact ⟨rfl, mine, orders, heap, pushed,
    ((queues_serve_least_first (interp 0) rfl mine orders).2 heap).2.2 ops pushed⟩

-- A list that is inside its own items. While it is empty these are in the other order.
theorem queue_of_itself_is_no_heap :
    ((parseProgram ("import heapq\nl = []\nm = [()]\nl.append((l,))\nl.append((m,))\n" ++
      "print(l[1] < l[0])\nheapq.heapify(l)\nprint(l[1] < l[0])\ndel l\ndel m\n")).toOption.map
        fun p => (Run.state (runProgram 30 p (.start {} []))).output) = some "True\nTrue\n" := by
  rw [← String.ofList_append, parseProgram_ofList]
  decide +kernel

end StepTrace
