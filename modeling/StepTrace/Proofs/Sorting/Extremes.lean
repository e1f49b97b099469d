import StepTrace.Proofs.Sorting.Stable
import StepTrace.Proofs.Soundness.World

/-!
The least and the greatest of some items. The one that is kept while they are gone through is the
first one of the sorted items.
-/

set_option autoImplicit false

namespace StepTrace

section

variable {α β : Type} {less : α → α → Bool} {all xs done zs : List α} {x y z : α}

-- The first one of the elements before which none comes.
inductive FirstOf (less : α → α → Bool) (xs : List α) (x : α) : Prop
  | intro (before after : List α) (split : xs = before ++ x :: after)
    (earlier : ∀ y ∈ before, less x y = true) (later : ∀ y ∈ after, less y x = false)

theorem FirstOf.mem (h : FirstOf less xs x) : x ∈ xs := by
  obtain ⟨before, after, rfl, -, -⟩ := h
  simp

theorem FirstOf.unique (h : FirstOf less xs x) (h' : FirstOf less xs y) : x = y := by
  obtain ⟨before, after, rfl, earlier, later⟩ := h
  obtain ⟨before', after', split, earlier', later'⟩ := h'
  have apart {x y : α} (first : less x y = true) (not : less x y = false) : x = y := by
    rw [first] at not
    cases not
  rcases List.append_eq_append_iff.1 split with ⟨_ | ⟨z, between⟩, rfl, rest⟩ |
    ⟨_ | ⟨z, between⟩, rfl, rest⟩
  · exact (List.cons.inj rest).1
  · obtain ⟨rfl, rfl⟩ := List.cons.inj rest
    exact (apart (earlier' x (by simp)) (later y (by simp))).symm
  · exact (List.cons.inj rest).1.symm
  · obtain ⟨rfl, rfl⟩ := List.cons.inj rest
    exact apart (earlier y (by simp)) (later' x (by simp))

theorem FirstOf.map {less : β → β → Bool} {f : α → β}
    (h : FirstOf (fun a b => less (f a) (f b)) xs x) : FirstOf less (xs.map f) (f x) := by
  obtain ⟨before, after, rfl, earlier, later⟩ := h
  exact ⟨before.map f, after.map f, by simp, List.forall_mem_map.2 earlier,
    List.forall_mem_map.2 later⟩

theorem FirstOf.singleton (x : α) : FirstOf less [x] x :=
  ⟨[], [], rfl, List.forall_mem_nil _, List.forall_mem_nil _⟩

theorem FirstOf.keep (h : FirstOf less done x) (notBefore : less y x = false) :
    FirstOf less (done ++ [y]) x := by
  obtain ⟨before, after, rfl, earlier, later⟩ := h
  exact ⟨before, after ++ [y], by simp, earlier,
    List.forall_mem_append.2 ⟨later, List.forall_mem_singleton.2 notBefore⟩⟩

section

variable (weak : WeakOrder less all)

include weak

-- What comes before an element also comes before what does not come before that.
theorem WeakOrder.before (hx : x ∈ all) (hy : y ∈ all) (hz : z ∈ all) (first : less y x = true)
    (notBefore : less z x = false) : less y z = true := by
  by_contra not
  have later := weak.trans x hx z hz y hy notBefore (Bool.eq_false_iff.2 not)
  rw [first] at later
  cases later

theorem FirstOf.replace (h : FirstOf less done x) (old : done ⊆ all) (hy : y ∈ all)
    (first : less y x = true) : FirstOf less (done ++ [y]) y := by
  have hx : x ∈ all := old h.mem
  obtain ⟨before, after, rfl, earlier, later⟩ := h
  refine ⟨before ++ x :: after, [], rfl, fun z hz => ?_, List.forall_mem_nil _⟩
  have inside : z ∈ all := old hz
  refine weak.before hx hy inside first ?_
  rcases List.mem_append.1 hz with hz | hz
  · exact weak.asymm x hx z inside (earlier z hz)
  · rcases List.mem_cons.1 hz with rfl | hz
    · exact weak.irrefl hx
    · exact later z hz

-- Elements before which the first of the sorted ones does not come are those that it was among.
theorem Sorts.firstOf {told : α → α → Bool → Prop} (tells : Tells told less all)
    (h : Sorts told xs (x :: zs)) (inside : xs ⊆ all) : FirstOf less xs x := by
  have hx : x ∈ all := inside (h.perm.mem_iff.1 List.mem_cons_self)
  have least : ∀ y ∈ xs, less y x = false := by
    intro y hy
    rcases List.mem_cons.1 (h.perm.mem_iff.2 hy) with rfl | later
    · exact weak.irrefl hx
    · exact (List.pairwise_cons.1 (h.inOrder weak tells inside)).1 y later
  have alike : ∀ a ∈ all, ∀ b ∈ all, (less a x == false && less x a == false) = true →
      (less b x == false && less x b == false) = true → less a b = false := by
    intro a ha b hb hax hbx
    simp only [beq_false, Bool.and_eq_true, Bool.not_eq_true'] at hax hbx
    exact weak.trans b hb x hx a ha hbx.2 hax.1
  have same := h.filter weak tells inside alike
  rw [List.filter_cons_of_pos (by simp [weak.irrefl hx])] at same
  obtain ⟨before, after, rfl, other, -, -⟩ := List.filter_eq_cons_iff.1 same.symm
  refine ⟨before, after, rfl, fun y hy => ?_, fun y hy => least y (by simp [hy])⟩
  have notBefore := least y (by simp [hy])
  by_contra not
  exact other y hy (by simp [notBefore, Bool.eq_false_iff.2 not])

end

end

namespace Interp

/-! ### What is asked about the items -/

-- The key of an item.
def rank (r : Interp) (key : Option Value) (v : Value) : Run Value :=
  match keyFunction key with
  | some f => r.call f [v] []
  | none => pure v

variable (r : Interp) (key : Option Value) (items : List Value) (m : Machine)

theorem rank_called (r : Interp) {key : Option Value} {f : Value}
    (function : keyFunction key = some f) (v : Value) : r.rank key v = r.call f [v] [] := by
  rw [rank, function]

-- States that are reached by asking for keys of items and in what order these keys are, with the
-- keys that are known and their items.
inductive Ranks : List (Value × Value) → Machine → Prop
  | start : Ranks [] m
  | key {known : List (Value × Value)} {m₁ m₂ : Machine} {v k : Value} (before : Ranks known m₁)
    (here : v ∈ items) (answer : r.rank key v m₁ = .ok k m₂) : Ranks ((k, v) :: known) m₂
  | order {known : List (Value × Value)} {m₁ m₂ : Machine} {a b : Value × Value} {o : Ordering}
    (before : Ranks known m₁) (ha : a ∈ known) (hb : b ∈ known)
    (answer : r.order a.1 b.1 m₁ = .ok o m₂) : Ranks known m₂

-- Whenever the keys of two items are compared, the answer is the order of the items in `g`.
structure RanksBy (g : Value → Value → Ordering) : Prop where
  preorders : Preorders g items
  agrees : ∀ known m₁, r.Ranks key items m known m₁ → ∀ a ∈ known, ∀ b ∈ known, ∀ o m₂,
    r.order a.1 b.1 m₁ = .ok o m₂ → o = g a.2 b.2

-- A key function or a comparison of keys has ended the run.
inductive RankFails (e : Stop) (m' : Machine) : Prop
  | key {known : List (Value × Value)} {m₁ : Machine} {v : Value}
    (before : r.Ranks key items m known m₁) (here : v ∈ items)
    (failed : r.rank key v m₁ = .error e m')
  | order {known : List (Value × Value)} {m₁ : Machine} {a b : Value × Value}
    (before : r.Ranks key items m known m₁) (ha : a ∈ known) (hb : b ∈ known)
    (failed : r.order a.1 b.1 m₁ = .error e m')

-- How a computation ends that only asks for keys and their order.
inductive Ranking {α : Type} (A : α → Prop) : EStateM.Result Stop Machine α → Prop
  | done {a : α} {m' : Machine} (value : A a) : Ranking A (.ok a m')
  | failed {e : Stop} {m' : Machine} (fails : r.RankFails key items m e m') :
    Ranking A (.error e m')

-- One item comes before another, in descending order where the greatest is looked for.
abbrev ahead (g : Value → Value → Ordering) (greatest : Bool) : Value → Value → Bool :=
  comesBefore (directed g greatest)

variable {r key items m} {g : Value → Value → Ordering} {greatest : Bool}
  {known : List (Value × Value)} {m₁ m₂ : Machine}

theorem Preorders.comap {k : Value → Value} {f : Value → Value → Ordering}
    (h : Preorders f (items.map k)) : Preorders (fun v w => f (k v) (k w)) items where
  swap _ ha _ hb := h.swap _ (List.mem_map_of_mem ha) _ (List.mem_map_of_mem hb)
  trans _ ha _ hb _ hc := h.trans _ (List.mem_map_of_mem ha) _ (List.mem_map_of_mem hb) _
    (List.mem_map_of_mem hc)

-- A key function that always makes the same of an item, with results that are always compared in
-- the same way, ranks the items by this and never ends the run.
theorem RanksBy.of_pure (k : Value → Value) (f : Value → Value → Ordering) (Holds : Machine → Prop)
    (holds : Holds m) (preorders : Preorders f (items.map k))
    (keys : ∀ v ∈ items, ∀ m₁, Holds m₁ → ∃ m₂, r.rank key v m₁ = .ok (k v) m₂ ∧ Holds m₂)
    (orders : ∀ v ∈ items, ∀ w ∈ items, ∀ m₁, Holds m₁ →
      ∃ m₂, r.order (k v) (k w) m₁ = .ok (f (k v) (k w)) m₂ ∧ Holds m₂) :
    r.RanksBy key items m (fun v w => f (k v) (k w)) ∧ ∀ e m', ¬ r.RankFails key items m e m' := by
  have reached {known : List (Value × Value)} {m₁ : Machine}
      (ranks : r.Ranks key items m known m₁) :
      Holds m₁ ∧ ∀ p ∈ known, p.2 ∈ items ∧ p.1 = k p.2 := by
    induction ranks with
    | start => exact ⟨holds, List.forall_mem_nil _⟩
    | @key known m₁ m₂ v w _ here answer ih =>
      obtain ⟨_, made, holds'⟩ := keys v here m₁ ih.1
      cases answer.symm.trans made
      exact ⟨holds', List.forall_mem_cons.2 ⟨⟨here, rfl⟩, ih.2⟩⟩
    | @order known m₁ m₂ a b o _ ha hb answer ih =>
      obtain ⟨here, ka⟩ := ih.2 a ha
      obtain ⟨there, kb⟩ := ih.2 b hb
      obtain ⟨_, compared, holds'⟩ := orders a.2 here b.2 there m₁ ih.1
      rw [ka, kb] at answer
      cases answer.symm.trans compared
      exact ⟨holds', ih.2⟩
  have asked {known : List (Value × Value)} {m₁ : Machine} (ranks : r.Ranks key items m known m₁)
      {a b : Value × Value} (ha : a ∈ known) (hb : b ∈ known) :
      ∃ m₂, r.order a.1 b.1 m₁ = .ok (f (k a.2) (k b.2)) m₂ := by
    obtain ⟨holds', made⟩ := reached ranks
    obtain ⟨m₂, compared, -⟩ := orders a.2 (made a ha).1 b.2 (made b hb).1 m₁ holds'
    exact ⟨m₂, by rw [(made a ha).2, (made b hb).2, compared]⟩
  refine ⟨⟨preorders.comap, fun known m₁ ranks a ha b hb o m₂ answer => ?_⟩, fun e m' fails => ?_⟩
  · obtain ⟨_, compared⟩ := asked ranks ha hb
    cases answer.symm.trans compared
    rfl
  · cases fails with
    | key ranks here failed =>
      obtain ⟨_, made, -⟩ := keys _ here _ (reached ranks).1
      cases failed.symm.trans made
    | order ranks ha hb failed =>
      obtain ⟨_, compared⟩ := asked ranks ha hb
      cases failed.symm.trans compared

/-! ### One item after the other -/

-- The best one of the items that have been gone through.
inductive BestOf (less : Value → Value → Bool) (known : List (Value × Value)) :
    List Value → Option (Value × Value) → Prop
  | none : BestOf less known [] none
  | some {done : List Value} {best : Value × Value} (here : best ∈ known)
    (first : FirstOf less done best.2) : BestOf less known done (some best)

theorem extremeFrom_first (r : Interp) (v : Value) (rest : List Value) :
    r.extremeFrom greatest (keyFunction key) none (v :: rest) = (do
      let k ← r.rank key v
      r.extremeFrom greatest (keyFunction key) (some (k, v)) rest) := by
  rw [extremeFrom.eq_def, rank]
  cases keyFunction key <;> rfl

theorem extremeFrom_next (r : Interp) (best : Value × Value) (v : Value) (rest : List Value) :
    r.extremeFrom greatest (keyFunction key) (some best) (v :: rest) = (do
      let k ← r.rank key v
      let o ← r.order k best.1
      r.extremeFrom greatest (keyFunction key)
        (if (if greatest then o == .gt else o == .lt) then some (k, v) else some best) rest) := by
  rw [extremeFrom.eq_def, rank]
  cases keyFunction key <;> rfl

theorem better_eq (g : Value → Value → Ordering) (greatest : Bool) (v w : Value) :
    (if greatest then g v w == .gt else g v w == .lt) = ahead g greatest v w := by
  unfold ahead comesBefore directed
  cases greatest <;> cases g v w <;> rfl

theorem extremeFrom_ranking (by_ : r.RanksBy key items m g) {done rest : List Value}
    {best : Option (Value × Value)} (ranks : r.Ranks key items m known m₁)
    (split : items = done ++ rest) (sofar : BestOf (ahead g greatest) known done best) :
    r.Ranking key items m
      (fun found => items ≠ [] → ∃ v, found = some v ∧ FirstOf (ahead g greatest) items v)
      (r.extremeFrom greatest (keyFunction key) best rest m₁) := by
  induction rest generalizing done best known m₁ with
  | nil =>
    refine .done fun nonempty => ?_
    rw [List.append_nil] at split
    cases sofar with
    | none => exact absurd split nonempty
    | @some _ best here first => exact ⟨best.2, rfl, split ▸ first⟩
  | cons v rest ih =>
    have here : v ∈ items := by simp [split]
    have split' : items = (done ++ [v]) ++ rest := by simp [split]
    cases sofar with
    | none =>
      rw [extremeFrom_first]
      cases answer : r.rank key v m₁ with
      | error e m' =>
        rw [Run.bind_error answer]
        exact .failed (.key ranks here answer)
      | ok k m₂ =>
        rw [Run.bind_ok answer]
        exact ih (ranks.key here answer) split' (.some List.mem_cons_self (.singleton v))
    | @some _ best there first =>
      rw [extremeFrom_next]
      cases answer : r.rank key v m₁ with
      | error e m' =>
        rw [Run.bind_error answer]
        exact .failed (.key ranks here answer)
      | ok k m₂ =>
        have ranks' := ranks.key here answer
        have latest : (k, v) ∈ (k, v) :: known := List.mem_cons_self
        have there' : best ∈ (k, v) :: known := List.mem_cons_of_mem _ there
        rw [Run.bind_ok answer]
        cases compared : r.order k best.1 m₂ with
        | error e m' =>
          rw [Run.bind_error compared]
          exact .failed (.order (a := (k, v)) ranks' latest there' compared)
        | ok o m₃ =>
          obtain rfl := by_.agrees _ _ ranks' (k, v) latest best there' o m₃ compared
          rw [Run.bind_ok compared]
          have ranks'' := ranks'.order (a := (k, v)) latest there' compared
          have old : done ⊆ items := fun w hw => by simp [split, hw]
          have weak := (by_.preorders.directed greatest).strict
          rw [better_eq]
          cases better : ahead g greatest v best.2 with
          | true =>
            rw [if_pos rfl]
            exact ih ranks'' split' (.some latest (first.replace weak old here better))
          | false =>
            rw [if_neg Bool.false_ne_true]
            exact ih ranks'' split' (.some there' (first.keep better))

/-! ### All keys first -/

theorem Keyed.asked {pairs : List (Value × Value)} (keyed : r.Keyed key m₁ pairs m₂) :
    Asked (r.rank key) m₁ (pairs.map Prod.swap) m₂ := by
  cases keyed with
  | themselves items none =>
    have rank : r.rank key = pure := by
      funext v
      rw [Interp.rank, none]
    rw [rank]
    induction items with
    | nil => exact .nil m₁
    | cons v rest ih => exact .cons rfl ih
  | @called f _ _ function asked =>
    simpa only [← rank_called r function] using asked

theorem Ranks.asked {s : List (Value × Value)} (before : r.Ranks key items m known m₁)
    (asked : Asked (r.rank key) m₁ s m₂) (inside : s.map Prod.fst ⊆ items) :
    r.Ranks key items m ((s.map Prod.swap).reverse ++ known) m₂ := by
  induction asked generalizing known with
  | nil => exact before
  | @cons v k s _ _ _ answered _ ih =>
    have here : v ∈ items := inside List.mem_cons_self
    have after := ih (before.key here answered) (List.subset_of_cons_subset inside)
    simpa using after

theorem Ranks.ordered {pairs : List (Value × Value)} {s : List ((Value × Value) × Ordering)}
    (by_ : r.RanksBy key items m g) (before : r.Ranks key items m pairs m₁)
    (asked : Asked r.orderOf m₁ s m₂) (among : ∀ q ∈ s, AreKeys pairs q.1) :
    r.Ranks key items m pairs m₂ ∧ ∀ q ∈ s, ∀ a ∈ pairs, ∀ b ∈ pairs, q.1 = (a.1, b.1) →
      q.2 = g a.2 b.2 := by
  induction asked with
  | nil => exact ⟨before, List.forall_mem_nil _⟩
  | @cons i o s _ _ _ answered _ ih =>
    obtain ⟨⟨first, second⟩, others⟩ := List.forall_mem_cons.1 among
    obtain ⟨a, ha, ka⟩ := List.mem_map.1 first
    obtain ⟨b, hb, kb⟩ := List.mem_map.1 second
    rw [orderOf, ← ka, ← kb] at answered
    obtain ⟨after, agree⟩ := ih (before.order ha hb answered) others
    refine ⟨after, List.forall_mem_cons.2 ⟨fun a' ha' b' hb' same => ?_, agree⟩⟩
    cases i
    cases same
    rw [ka, kb] at answered
    exact by_.agrees _ _ before a' ha' b' hb' o _ answered

theorem Ranks.keyed {pairs : List (Value × Value)} (keyed : r.Keyed key m pairs m₁)
    (all : pairs.map Prod.snd = items) : r.Ranks key items m pairs.reverse m₁ := by
  have inside : (pairs.map Prod.swap).map Prod.fst ⊆ items := by simp [Function.comp_def, ← all]
  have ranks := Ranks.start.asked keyed.asked inside
  simpa [Function.comp_def] using ranks

theorem AreKeys.reverse {pairs : List (Value × Value)} {keys : Value × Value}
    (h : AreKeys pairs keys) : AreKeys pairs.reverse keys := by
  simpa only [AreKeys, List.map_reverse, List.mem_reverse] using h

theorem sorted_ranking {items : Array Value} (by_ : r.RanksBy key items.toList m g)
    (nonempty : items ≠ #[]) :
    r.Ranking key items.toList m
      (fun out => ∃ v rest, out.toList = v :: rest ∧ FirstOf (ahead g greatest) items.toList v)
      (r.sorted items key greatest m) := by
  have course := r.sorted_course key greatest items m
  generalize r.sorted items key greatest m = result at course
  cases course with
  | @keyFailed f s v rest e m₁ m' function upTo asked failed =>
    simp only [← rank_called r function] at asked failed
    have here : v ∈ items.toList := by simp [upTo]
    exact .failed (.key (Ranks.start.asked asked (by simp [upTo])) here failed)
  | orderFailed all keyed asked among last failed =>
    have among' := fun q hq => (among q hq).reverse
    obtain ⟨after, -⟩ := (Ranks.keyed keyed all).ordered by_ asked among'
    obtain ⟨a, ha, ka⟩ := List.mem_map.1 last.reverse.1
    obtain ⟨b, hb, kb⟩ := List.mem_map.1 last.reverse.2
    subst ka kb
    exact .failed (.order after ha hb failed)
  | @done pairs sorted s _ _ all keyed asked among sorts =>
    have among' := fun q hq => (among q hq).reverse
    obtain ⟨-, agree⟩ := (Ranks.keyed keyed all).ordered by_ asked among'
    have weak : WeakOrder (fun a b => ahead g greatest a.2 b.2) pairs := by
      have strict := (by_.preorders.directed greatest).strict
      rw [← all] at strict
      exact strict.comap
    have tells : Tells (Compared greatest s) (fun a b => ahead g greatest a.2 b.2) pairs := by
      rintro a ha b hb t ⟨o, asked, rfl⟩
      obtain rfl := agree _ asked a (List.mem_reverse.2 ha) b (List.mem_reverse.2 hb) rfl
      rfl
    cases sorted with
    | nil =>
      rw [← sorts.perm.nil_eq] at all
      exact absurd (Array.toList_eq_nil_iff.1 all.symm) nonempty
    | cons first rest =>
      have least := sorts.firstOf weak tells (List.Subset.refl pairs)
      exact .done ⟨first.2, rest.map Prod.snd, rfl, all ▸ least.map⟩

/-! ### The functions of the program -/

-- The function that looks for the extreme item.
def extremeFunction (greatest : Bool) : Builtin := if greatest then .max else .min

-- The keyword arguments for a key function.
def keyArgument (key : Option Value) : Keywords := key.toList.map fun k => ("key", k)

-- The keyword arguments for sorted items of which the extreme one is the first.
def sortArguments (key : Option Value) (greatest : Bool) : Keywords :=
  keyArgument key ++ if greatest then [("reverse", .bool true)] else []

variable {xs : Value} {m' : Machine} {items : Array Value}

theorem callExtreme_eq (collected : r.collect xs m = .ok items m₁) :
    r.callValue (.builtin (extremeFunction greatest)) [xs] (keyArgument key) m =
      r.extremeOf (extremeFunction greatest).name greatest key none items.toList m₁ := by
  have items' : (Array.toList <$> r.collect xs) m = .ok items.toList m₁ := Run.map_ok collected
  cases key <;> cases greatest <;>
    exact (congrFun (bind_pure (r.extreme _ _ [xs] _ none)) m).trans (Run.bind_ok items')

theorem callSorted_eq (collected : r.collect xs m = .ok items m₁) :
    r.callValue (.builtin .sorted) [xs] (sortArguments key greatest) m =
      (do Run.allocList (← r.sorted items key greatest)) m₁ := by
  cases key <;> cases greatest <;>
    exact (congrFun (bind_pure (r.sequenceFunction .sorted [xs] _)) m).trans (Run.bind_ok collected)

-- How a computation ends that gives a list whose first item is in `A`, after it only asks for keys
-- and their order. There may be no room for the list.
inductive Foremost (r : Interp) (key : Option Value) (items : List Value) (m : Machine)
    (A : Value → Prop) : EStateM.Result Stop Machine Value → Prop
  | done {list v : Value} {m' : Machine} (first : r.getItem list (.int 0) m' = .ok v m')
    (value : A v) : Foremost r key items m A (.ok list m')
  | failed {e : Stop} {m' : Machine} (fails : r.RankFails key items m e m') :
    Foremost r key items m A (.error e m')
  | full {m' : Machine} (full : m'.heap.limit ≤ m'.heap.size) :
    Foremost r key items m A (.error (.fault (.heapFull m'.heap.limit)) m')

theorem getItem_first {v : Value} {rest : List Value} {out : Array Value} {id : ObjId}
    (found : m.heap.get? id = some (.list ⟨out, none⟩)) (shape : out.toList = v :: rest) :
    r.getItem (.ref id) (.int 0) m = .ok v m := by
  have place : position? out.size 0 = some 0 := by
    rw [← Array.length_toList, shape]
    exact if_pos ⟨Int.le_refl 0, Int.natCast_pos.2 (Nat.succ_pos _)⟩
  have item : out[0]? = some v := by rw [← Array.getElem?_toList, shape]; rfl
  rw [getItem_list found rfl]
  -- The list has no tracker, so no access is noted.
  have noted : note .read ⟨out, none⟩ 0 m = .ok () m := rfl
  refine (Run.bind_ok noted).trans ?_
  rw [place, Option.bind_some, item]
  rfl

variable (by_ : r.RanksBy key items.toList m₁ g) (nonempty : items ≠ #[])
  (collected : r.collect xs m = .ok items m₁)

include by_ nonempty collected

theorem callExtreme_ranking :
    r.Ranking key items.toList m₁ (FirstOf (ahead g greatest) items.toList)
      (r.callValue (.builtin (extremeFunction greatest)) [xs] (keyArgument key) m) := by
  rw [callExtreme_eq collected, extremeOf]
  have ranking := extremeFrom_ranking by_ .start (List.nil_append _).symm
    (.none : BestOf (ahead g greatest) _ _ _)
  cases result : r.extremeFrom greatest (keyFunction key) none items.toList m₁ with
  | error e m' =>
    rw [result] at ranking
    rw [Run.bind_error result]
    cases ranking with
    | failed fails => exact .failed fails
  | ok found m' =>
    rw [result] at ranking
    rw [Run.bind_ok result]
    cases ranking with
    | done value =>
      obtain ⟨v, rfl, first⟩ := value fun none => nonempty (Array.toList_eq_nil_iff.1 none)
      exact .done first

theorem callSorted_foremost :
    r.Foremost key items.toList m₁ (FirstOf (ahead g greatest) items.toList)
      (r.callValue (.builtin .sorted) [xs] (sortArguments key greatest) m) := by
  rw [callSorted_eq collected]
  have ranking : r.Ranking _ _ _ _ (r.sorted items key greatest m₁) := sorted_ranking by_ nonempty
  cases result : r.sorted items key greatest m₁ with
  | error e m' =>
    rw [result] at ranking
    rw [Run.bind_error result]
    cases ranking with
    | failed fails => exact .failed fails
  | ok out m' =>
    rw [result] at ranking
    rw [Run.bind_ok result, Run.allocList, Run.alloc]
    cases ranking with
    | done value =>
      obtain ⟨v, rest, shape, first⟩ := value
      by_cases room : m'.heap.size < m'.heap.limit
      · rw [if_pos room]
        exact .done (getItem_first (Heap.get?_push_size _ _) shape) first
      · rw [if_neg room]
        exact .full (Nat.le_of_not_lt room)

end Interp

/--
The least and the greatest of some items, by keys that have one order, are the first ones of the
items sorted by these keys, ascending and descending: each is the first item, as they come, before
which no other one is. A key function or a comparison that fails ends both, and to sort also needs
room for the list.
-/
theorem extremes_agree_with_sorting {r : Interp} {xs : Value} {key : Option Value}
    {items : Array Value} {m m₁ : Machine} {g : Value → Value → Ordering} (greatest : Bool)
    (collected : r.collect xs m = .ok items m₁) (nonempty : items ≠ #[])
    (by_ : r.RanksBy key items.toList m₁ g) :
    let extreme := r.callValue (.builtin (Interp.extremeFunction greatest)) [xs]
      (Interp.keyArgument key) m
    let sorted := r.callValue (.builtin .sorted) [xs] (Interp.sortArguments key greatest) m
    r.Ranking key items.toList m₁ (FirstOf (Interp.ahead g greatest) items.toList) extreme ∧
      r.Foremost key items.toList m₁ (FirstOf (Interp.ahead g greatest) items.toList) sorted ∧
      ∀ v m' list m'', extreme = .ok v m' → sorted = .ok list m'' →
        r.getItem list (.int 0) m'' = .ok v m'' := by
  intro extreme sorted
  have ofExtreme : r.Ranking key items.toList m₁ _ extreme :=
    Interp.callExtreme_ranking by_ nonempty collected
  have ofSorted : r.Foremost key items.toList m₁ _ sorted :=
    Interp.callSorted_foremost by_ nonempty collected
  refine ⟨ofExtreme, ofSorted, fun v m' list m'' first second => ?_⟩
  rw [first] at ofExtreme
  rw [second] at ofSorted
  cases ofExtreme with
  | done value =>
    cases ofSorted with
    | done read value' => rwa [value.unique value']

-- A list of two numbers of the same truth.
def Machine.opposites : Machine := Run.state (Run.allocList #[.int (-1), .int 1] (.start {} []))

-- Neither is greater, so the first one is the greatest.
theorem extremes_agree_with_sorting_by_truth :
    let items : Array Value := #[.int (-1), .int 1]
    let key : Option Value := some (.builtin .bool)
    let sorted := (interp 1).callValue (.builtin .sorted) [.ref 0]
      (Interp.sortArguments key true) .opposites
    (interp 1).collect (.ref 0) .opposites = .ok items .opposites ∧ items ≠ #[] ∧
      (interp 1).RanksBy key items.toList .opposites (fun _ _ => .eq) ∧
      (interp 1).callValue (.builtin .max) [.ref 0] (Interp.keyArgument key) .opposites =
        .ok (.int (-1)) .opposites ∧
      (∀ list m', sorted = .ok list m' →
        (interp 1).getItem list (.int 0) m' = .ok (.int (-1)) m') ∧
      (Run.state sorted).heap.repr (.ref 1) = "[-1, 1]" := by
  intro items key sorted
  have nonempty : items ≠ #[] := by simp [items]
  have ranks : (interp 1).RanksBy key items.toList .opposites (fun _ _ => .eq) := by
    refine (Interp.RanksBy.of_pure (fun _ => .bool true) (fun _ _ => .eq) (fun _ => True) trivial
      ⟨by simp, by simp⟩ (fun v hv m _ => ?_) fun _ _ _ _ m _ => ⟨m, rfl, trivial⟩).1
    rcases List.mem_pair.1 hv with rfl | rfl <;> exact ⟨m, rfl, trivial⟩
  refine ⟨rfl, nonempty, ranks, rfl, fun list m' done => ?_, ?_⟩
  · exact (extremes_agree_with_sorting true rfl nonempty ranks).2.2 _ _ _ _ rfl done
  · decide +kernel

end StepTrace
