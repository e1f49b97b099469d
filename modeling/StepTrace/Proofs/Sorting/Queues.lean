import StepTrace.Grammar.Statement
import StepTrace.Proofs.Sorting.InPlace

/-!
Priority queues, and what becomes of a list that the program changes while it is rearranged.
-/

set_option autoImplicit false

namespace StepTrace

theorem swapIfInBounds_perm (items : Array Value) (i j : Nat) :
    (items.swapIfInBounds i j).toList.Perm items.toList := by
  unfold Array.swapIfInBounds
  split
  · split
    · next hi hj => exact (Array.swap_perm hi hj).toList
    · exact .refl _
  · exact .refl _

-- Whatever value a computation gives, it is in `A`.
def Run.Gives {α : Type} (A : α → Prop) (x : Run α) : Prop := ∀ m a m', x m = .ok a m' → A a

namespace Run.Gives

variable {α β : Type} {A : α → Prop} {B : β → Prop} {x : Run α} {f : α → Run β}

theorem ret {a : α} (ha : A a) : Gives A (pure a) := by
  intro m b m' done
  cases done
  exact ha

theorem bind (hx : Gives A x) (hf : ∀ a, A a → Gives B (f a)) : Gives B (x >>= f) := by
  intro m b m' done
  cases first : x m with
  | error e m₁ => cases (bind_error first).symm.trans done
  | ok a m₁ => exact hf a (hx m a m₁ first) m₁ b m' ((bind_ok first).symm.trans done)

theorem andThen (hf : ∀ a, Gives B (f a)) : Gives B (x >>= f) :=
  bind (A := fun _ => True) (fun _ _ _ _ => trivial) fun a _ => hf a

theorem weaken {A' : α → Prop} (hx : Gives A x) (h : ∀ a, A a → A' a) : Gives A' x :=
  fun m a m' done => h a (hx m a m' done)

end Run.Gives

namespace Interp

variable {r : Interp}

theorem siftUp_perm (items : Array Value) (i : Nat) :
    Run.Gives (fun out => out.toList.Perm items.toList) (r.siftUp items i) := by
  induction i using Nat.strongRecOn generalizing items with
  | ind i ih =>
    unfold siftUp
    by_cases root : i = 0
    · rw [dif_pos root]
      exact .ret (.refl _)
    · rw [dif_neg root]
      refine .andThen fun less => ?_
      cases less with
      | false => exact .ret (.refl _)
      | true =>
        exact (ih ((i - 1) / 2) (by omega) _).weaken fun _ up => up.trans (swapIfInBounds_perm ..)

theorem siftDown_perm (room : Nat) (items : Array Value) (i : Nat) :
    Run.Gives (fun out => out.toList.Perm items.toList) (r.siftDown room items i) := by
  induction room generalizing items i with
  | zero => exact .ret (.refl _)
  | succ room ih =>
    have swaps (child : Nat) : Run.Gives (fun out => out.toList.Perm items.toList) (do
        if ← r.lessAt items child i then r.siftDown room (items.swapIfInBounds child i) child
        else return items) := by
      refine .andThen fun less => ?_
      cases less with
      | false => exact .ret (.refl _)
      | true => exact (ih _ _).weaken fun _ down => down.trans (swapIfInBounds_perm ..)
    rw [siftDown]
    by_cases leaf : items.size ≤ 2 * i + 1
    · rw [if_pos leaf]
      exact .ret (.refl _)
    · rw [if_neg leaf]
      by_cases two : 2 * i + 1 + 1 < items.size
      · rw [if_pos two]
        exact .andThen fun _ => swaps _
      · rw [if_neg two]
        exact swaps (2 * i + 1)

theorem siftAll_perm (n : Nat) (items : Array Value) :
    Run.Gives (fun out => out.toList.Perm items.toList) (r.siftAll n items) := by
  induction n generalizing items with
  | zero => exact .ret (.refl _)
  | succ n ih =>
    exact (siftDown_perm items.size items n).bind fun sifted down =>
      (ih sifted).weaken fun _ all => all.trans down

/-! ### Operations on lists -/

variable {m : Machine} {id : ObjId} {l : ListObject}

theorem queueOf_list (name : String) (found : m.heap.get? id = some (.list l)) :
    queueOf name (.ref id) m = .ok id m := by
  have here : Run.deref? (.ref id) m = .ok (some (.list l)) m :=
    congrArg (EStateM.Result.ok · m) found
  exact Run.bind_ok here

theorem callValue_heappush (list item : Value) :
    r.callValue (.builtin .heappush) [list, item] [] m = r.queuePush list item m :=
  congrFun (bind_pure (r.queuePush list item)) m

theorem callValue_heappop (list : Value) :
    r.callValue (.builtin .heappop) [list] [] m = r.queuePop list m :=
  congrFun (bind_pure (r.queuePop list)) m

theorem callValue_heapify (list : Value) :
    r.callValue (.builtin .heapify) [list] [] m = r.queueMake list m :=
  congrFun (bind_pure (r.queueMake list)) m

end Interp

-- The list at an id has other items, of which `P` holds.
def Machine.Relists (m : Machine) (id : ObjId) (l : ListObject) (P : List Value → Prop) : Prop :=
  ∃ items : Array Value, m.heap.get? id = some (.list { l with items }) ∧ P items.toList

namespace Interp

variable {r : Interp} {m m' : Machine} {id : ObjId} {l : ListObject} {item v : Value}

-- A list that is rearranged has the items that result, whatever has been done to it meanwhile.
theorem relists_of_rearrange {x : Array Value → Run (Array Value × Value)}
    {A : Array Value × Value → Prop} (found : m.heap.get? id = some (.list l))
    (grows : m.heap.Grows (Run.state (Run.rearrange id x m)).heap)
    (done : Run.rearrange id x m = .ok v m') (gives : Run.Gives A (x l.items)) :
    m'.Relists id l fun items => A (items.toArray, v) := by
  have ended := Run.rearranged found grows
  rw [done] at ended
  cases ended with
  | @done items _ m₁ body found => exact ⟨items, found, gives _ _ _ body⟩

theorem queuePush_relists (R : r.Sound) (intact : m.Intact)
    (found : m.heap.get? id = some (.list l)) (home : m.heap.Hosts item)
    (done : r.queuePush (.ref id) item m = .ok v m') :
    m'.Relists id l fun items => items.Perm (item :: l.items.toList) := by
  have grows := (R.queuePush (.ref id) home).grows intact
  rw [queuePush, Run.bind_ok (queueOf_list "heappush" found)] at done grows
  refine relists_of_rearrange (A := fun out => out.1.toList.Perm (item :: l.items.toList)) found
    grows done ?_
  exact (siftUp_perm _ _).bind fun _ up => .ret (up.trans (by simp))

-- The items of a queue are the last one and the ones before it, the first of which is taken.
theorem queuePop_relists (R : r.Sound) (intact : m.Intact)
    (found : m.heap.get? id = some (.list l)) (done : r.queuePop (.ref id) m = .ok v m') :
    m'.Relists id l fun items => (v :: items).Perm l.items.toList := by
  have grows := (R.queuePop m (.ref id)).grows intact
  rw [queuePop, Run.bind_ok (queueOf_list "heappop" found)] at done grows
  refine relists_of_rearrange (A := fun out => (out.2 :: out.1.toList).Perm l.items.toList) found
    grows done ?_
  cases back : l.items.back? with
  | none => exact fun _ _ _ never => by cases never
  | some last =>
    obtain ⟨front, whole⟩ := Array.back?_eq_some_iff.1 back
    simp only [whole, Array.pop_push]
    rcases front with ⟨_ | ⟨top, rest⟩⟩
    · exact .ret (.refl _)
    · refine (siftDown_perm _ _ 0).bind fun sifted down => .ret ?_
      have below : sifted.toList.Perm (last :: rest) := by simpa using down
      calc (top :: sifted.toList).Perm (top :: last :: rest) := below.cons top
        _ |>.Perm (top :: (rest ++ [last])) :=
          (List.perm_append_singleton last rest).symm.cons top
        _ = ((⟨top :: rest⟩ : Array Value).push last).toList := by simp

theorem queueMake_relists (R : r.Sound) (intact : m.Intact)
    (found : m.heap.get? id = some (.list l)) (done : r.queueMake (.ref id) m = .ok v m') :
    m'.Relists id l fun items => items.Perm l.items.toList := by
  have grows := (R.queueMake m (.ref id)).grows intact
  rw [queueMake, Run.bind_ok (queueOf_list "heapify" found)] at done grows
  refine relists_of_rearrange (A := fun out => out.1.toList.Perm l.items.toList) found grows done ?_
  exact (siftAll_perm _ _).bind fun _ all => .ret all

theorem sort_relists (R : r.Sound) (args : List Value) {keywords : Keywords} (intact : m.Intact)
    (home : m.heap.Hosts keywords) (found : m.heap.get? id = some (.list l))
    (done : r.listMethod id "sort" args keywords m = .ok v m') :
    m'.Relists id l fun items => items.Perm l.items.toList := by
  have ended := sortMethod_run R args intact home found
  rw [← listMethod_sort, done] at ended
  cases ended with
  | @done items m₁ sorted found =>
    refine ⟨items, found, ?_⟩
    have run := r.sorted_run (keywords.lookup "key") ((keywords.lookup "reverse").any m.heap.truthy)
      l.items (Run.putItems id #[] m)
    rw [sorted] at run
    cases run with
    | done _ _ _ _ perm _ => exact perm

end Interp

/--
A list that `sort` or a queue operation has rearranged has exactly the items that it had before,
with the one pushed and without the one popped. What a key function or a comparison has appended to
it meanwhile is not among them.
-/
theorem rearranging_keeps_own_items (fuel : Nat) {m : Machine} {id : ObjId} {l : ListObject}
    (intact : m.Intact) (found : m.heap.get? id = some (.list l)) :
    (∀ args keywords v m', m.heap.Hosts keywords →
      (interp fuel).listMethod id "sort" args keywords m = .ok v m' →
      m'.Relists id l fun items => items.Perm l.items.toList) ∧
    (∀ item v m', m.heap.Hosts item →
      (interp fuel).callValue (.builtin .heappush) [.ref id, item] [] m = .ok v m' →
      m'.Relists id l fun items => items.Perm (item :: l.items.toList)) ∧
    (∀ v m', (interp fuel).callValue (.builtin .heappop) [.ref id] [] m = .ok v m' →
      m'.Relists id l fun items => (v :: items).Perm l.items.toList) ∧
    ∀ v m', (interp fuel).callValue (.builtin .heapify) [.ref id] [] m = .ok v m' →
      m'.Relists id l fun items => items.Perm l.items.toList := by
  have R := interp_sound fuel
  refine ⟨fun args keywords v m' home done => ?_, fun item v m' home done => ?_,
    fun v m' done => ?_, fun v m' done => ?_⟩
  · exact Interp.sort_relists R args intact home found done
  · rw [Interp.callValue_heappush] at done
    exact Interp.queuePush_relists R intact found home done
  · rw [Interp.callValue_heappop] at done
    exact Interp.queuePop_relists R intact found done
  · rw [Interp.callValue_heapify] at done
    exact Interp.queueMake_relists R intact found done

theorem rearranging_keeps_own_items_two_numbers :
    let l : ListObject := ⟨#[.int 2, .int 1], none⟩
    Machine.sorting.Intact ∧ Machine.sorting.heap.get? 0 = some (.list l) ∧
      ∃ m', (interp 0).callValue (.builtin .heapify) [.ref 0] [] .sorting = .ok .none m' ∧
        m'.Relists 0 l (fun items => items.Perm [.int 2, .int 1]) ∧
        m'.heap.repr (.ref 0) = "[1, 2]" := by
  intro l
  have kept := @rearranging_keeps_own_items 0 .sorting 0 l Machine.intact_sorting rfl
  refine ⟨Machine.intact_sorting, rfl, ?_⟩
  refine ⟨_, rfl, kept.2.2.2 .none _ rfl, ?_⟩
  decide +kernel

-- A key function that appends to the list that is sorted.
theorem sort_loses_appended_items :
    ((parseProgram ("xs = [3, 1, 2]\ndef k(v):\n    xs.append(9)\n    return v\n" ++
      "xs.sort(key=k)\nprint(len(xs), 9 in xs)\ndel xs\n")).toOption.map fun p =>
        (Run.state (runProgram 30 p (.start {} []))).output) = some "3 False\n" := by
  rw [← String.ofList_append, parseProgram_ofList]
  decide +kernel

end StepTrace
