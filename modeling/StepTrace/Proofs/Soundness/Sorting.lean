import StepTrace.Proofs.Soundness.Item

/-!
Sorting, extremes and priority queues keep states intact.
-/

set_option autoImplicit false

namespace StepTrace

open Heap

namespace Sound

variable {m : Machine} {α : Type} [Resident α] {less : α → α → Run Bool}

theorem mergeBy (hless : ∀ {m : Machine} {a b}, m.heap.Hosts a → m.heap.Hosts b → Safe m (less a b))
    {xs ys out : List α} (hxs : m.heap.Hosts xs) (hys : m.heap.Hosts ys)
    (hout : m.heap.Hosts out) : Safe m (StepTrace.mergeBy less xs ys out) := by
  induction xs, ys, out using StepTrace.mergeBy.induct generalizing m with
  | case1 ys out =>
    simp only [StepTrace.mergeBy]
    exact .ret (hosts_reverseAux hout hys)
  | case2 xs out nonempty =>
    cases xs with
    | nil => exact absurd rfl nonempty
    | cons x xs =>
      simp only [StepTrace.mergeBy]
      exact .ret (hosts_reverseAux hout hxs)
  | case3 x xs y ys out left right =>
    rw [StepTrace.mergeBy]
    obtain ⟨hx, hxs'⟩ := hosts_uncons hxs
    obtain ⟨hy, hys'⟩ := hosts_uncons hys
    exact .bind (hless hy hx) fun
      | true, _, l, _ => left (l.keep hxs) (l.keep hys') (l.keep (hosts_cons hy hout))
      | false, _, l, _ => right (l.keep hxs') (l.keep hys) (l.keep (hosts_cons hx hout))

theorem sortBy (hless : ∀ {m : Machine} {a b}, m.heap.Hosts a → m.heap.Hosts b → Safe m (less a b))
    {xs : List α} (hxs : m.heap.Hosts xs) : Safe m (StepTrace.sortBy less xs) := by
  induction xs using StepTrace.sortBy.induct generalizing m with
  | case1 xs short =>
    unfold StepTrace.sortBy
    rw [dif_pos short]
    exact .ret hxs
  | case2 xs long left right =>
    unfold StepTrace.sortBy
    rw [dif_neg long]
    refine .bind (left fun x hx => hxs x (List.mem_of_mem_take hx)) fun _ _ l hleft => ?_
    refine .bind (right (l.keep fun x hx => hxs x (List.mem_of_mem_drop hx)))
      fun _ _ l' hright => ?_
    exact mergeBy hless (l'.keep hleft) hright hosts_nil

theorem queueOf (name : String) (list : Value) :
    Looks m (fun _ => True) (Interp.queueOf name list) := by
  cases list with
  | ref id =>
    refine .after (.deref? (.ref id)) fun o _ => ?_
    dsimp only
    split
    · exact .ret ⟨rfl, trivial⟩
    · exact .faultOn _
  | none | bool | int | float | str | builtin => exact .after (.deref? _) fun _ _ => .faultOn _

end Sound

namespace Interp.Sound

theorem hosts_keyFunction {h : Heap} {key : Option Value} (hkey : h.Hosts key) :
    h.Hosts (keyFunction key) := by
  intro f given
  obtain ⟨given, -⟩ := Option.filter_eq_some_iff.1 given
  exact hkey f given

variable {r : Interp} (R : r.Sound) {m : Machine}
include R

theorem mapCall {f : Value} {out : Array Value} {vs : List Value} (hf : m.heap.Hosts f)
    (hout : m.heap.Hosts out) (hvs : m.heap.Hosts vs) : Safe m (r.mapCall f out vs) := by
  induction vs generalizing out m with
  | nil => exact .ret hout
  | cons v rest ih =>
    obtain ⟨hv, hrest⟩ := hosts_uncons hvs
    exact .bind (R.call hf (hosts_cons hv hosts_nil) hosts_nil) fun _ _ l hw =>
      ih (l.keep hf) (hosts_push (l.keep hout) hw) (l.keep hrest)

theorem keysOf {key : Option Value} {items : Array Value} (hkey : m.heap.Hosts key)
    (hitems : m.heap.Hosts items) : Safe m (r.keysOf key items) := by
  unfold Interp.keysOf
  split
  · next f given =>
    exact R.mapCall (hosts_keyFunction hkey f given) hosts_empty (hosts_toList hitems)
  · exact .ret hitems

theorem keyLess (reverse : Bool) {a b : Value × Value} (ha : m.heap.Hosts a) (hb : m.heap.Hosts b) :
    Safe m (r.keyLess reverse a b) :=
  .bind (R.order ha.1 hb.1) fun _ _ _ _ => .ret trivial

theorem sorted {items : Array Value} {key : Option Value} (reverse : Bool)
    (hitems : m.heap.Hosts items) (hkey : m.heap.Hosts key) :
    Safe m (r.sorted items key reverse) := by
  refine .bind (R.keysOf hkey hitems) fun keys _ l hkeys => ?_
  have pairs : Heap.Hosts _ (keys.toList.zip items.toList) := fun e he =>
    ⟨hosts_toList hkeys _ (List.of_mem_zip he).1,
      hosts_toList (l.keep hitems) _ (List.of_mem_zip he).2⟩
  refine .bind (.sortBy (R.keyLess reverse) pairs) fun sorted _ _ hsorted => .ret ?_
  refine hosts_toArray fun v hv => ?_
  obtain ⟨e, he, rfl⟩ := List.mem_map.1 hv
  exact (hsorted e he).2

theorem extremeFrom (greatest : Bool) {key : Option Value} {best : Option (Value × Value)}
    {vs : List Value} (hkey : m.heap.Hosts key) (hbest : m.heap.Hosts best)
    (hvs : m.heap.Hosts vs) : Safe m (r.extremeFrom greatest key best vs) := by
  induction vs generalizing best m with
  | nil =>
    refine .ret fun v found => ?_
    obtain ⟨e, here, rfl⟩ := Option.map_eq_some_iff.1 found
    exact (hbest e here).2
  | cons v rest ih =>
    obtain ⟨hv, hrest⟩ := hosts_uncons hvs
    cases best with
    | none =>
      have first : ∀ k m', m.heap.Later m'.heap → m'.heap.Hosts k →
          Safe m' (r.extremeFrom greatest key (some (k, v)) rest) := fun k m' l hk =>
        ih (l.keep hkey) (hosts_some ⟨hk, l.keep hv⟩) (l.keep hrest)
      cases key with
      | some f =>
        exact .bind (R.call (hkey f rfl) (hosts_cons hv hosts_nil) hosts_nil) first
      | none => exact .bind (.ret hv) first
    | some found =>
      have hfound := hbest found rfl
      have compared : ∀ k m', m.heap.Later m'.heap → m'.heap.Hosts k →
          Safe m' (do
            let o ← r.order k found.1
            let better := if greatest then o == .gt else o == .lt
            r.extremeFrom greatest key (if better then some (k, v) else some found) rest) :=
        fun k m' l hk => .bind (R.order hk (l.keep hfound.1)) fun _ _ l' _ =>
          have later := l.trans l'
          ih (later.keep hkey)
            (hosts_ite (hosts_some ⟨l'.keep hk, later.keep hv⟩) (hosts_some (later.keep hfound)))
            (later.keep hrest)
      cases key with
      | some f =>
        exact .bind (R.call (hkey f rfl) (hosts_cons hv hosts_nil) hosts_nil) compared
      | none => exact .bind (.ret hv) compared

theorem extremeOf (name : String) (greatest : Bool) {key fallback : Option Value}
    {items : List Value} (hkey : m.heap.Hosts key) (hfallback : m.heap.Hosts fallback)
    (hitems : m.heap.Hosts items) :
    Safe m (r.extremeOf name greatest key fallback items) := by
  refine .bind (R.extremeFrom greatest (hosts_keyFunction hkey) hosts_none hitems)
    fun found _ l hfound => ?_
  split
  · exact .ret (hfound _ rfl)
  · exact .ret (l.keep (hfallback _ rfl))
  · exact .fault _

theorem extreme (name : String) (greatest : Bool) {args : List Value} {key fallback : Option Value}
    (hargs : m.heap.Hosts args) (hkey : m.heap.Hosts key) (hfallback : m.heap.Hosts fallback) :
    Safe m (r.extreme name greatest args key fallback) := by
  unfold Interp.extreme
  split
  · exact .raise _
  · have items := Sound.map (R.collect (hosts_uncons hargs).1) fun _ _ => hosts_toList
    exact items.bind fun _ _ l hitems =>
      R.extremeOf name greatest (l.keep hkey) (l.keep hfallback) hitems
  · exact .bind (.ret hargs) fun _ _ l hitems =>
      R.extremeOf name greatest (l.keep hkey) (l.keep hfallback) hitems

theorem lessAt {items : Array Value} (hitems : m.heap.Hosts items) (i j : Nat) :
    Safe m (r.lessAt items i j) :=
  .bind (R.order (hosts_getItem hitems i) (hosts_getItem hitems j)) fun _ _ _ _ => .ret trivial

theorem siftDown (room : Nat) {items : Array Value} (hitems : m.heap.Hosts items) (i : Nat) :
    Safe m (r.siftDown room items i) := by
  induction room generalizing items i m with
  | zero => exact .ret hitems
  | succ room ih =>
    have swaps : ∀ {m' : Machine} (b : Bool), m.heap.Later m'.heap → Safe m' (do
        let child := if b then 2 * i + 1 + 1 else 2 * i + 1
        if ← r.lessAt items child i then r.siftDown room (items.swapIfInBounds child i) child
        else return items) := fun b l =>
      .bind (R.lessAt (l.keep hitems) _ _) fun
        | true, _, l', _ => ih (hosts_swap (l'.keep (l.keep hitems)) _ _) _
        | false, _, l', _ => .ret (l'.keep (l.keep hitems))
    -- Without a second child the comparison of the children is left out.
    refine .ite (fun _ => .ret hitems) fun _ => .ite
      (fun _ => .bind (R.lessAt hitems _ _) ?_)
      fun _ => .bind (A := fun _ _ => True) (.ret trivial) ?_
    all_goals exact fun b _ l _ => swaps b l

theorem siftUp {items : Array Value} (hitems : m.heap.Hosts items) (i : Nat) :
    Safe m (r.siftUp items i) := by
  induction i using Nat.strongRecOn generalizing items m with
  | ind i ih =>
    unfold Interp.siftUp
    split
    · exact .ret hitems
    · exact .bind (R.lessAt hitems _ _) fun
        | true, _, l, _ => ih _ (by omega) (hosts_swap (l.keep hitems) _ _)
        | false, _, l, _ => .ret (l.keep hitems)

theorem queuePush (list : Value) {item : Value} (hitem : m.heap.Hosts item) :
    Safe m (r.queuePush list item) :=
  .after (.queueOf ..) fun _ _ => .rearrange fun _ _ l hitems =>
    .bind (R.siftUp (hosts_push hitems (l.keep hitem)) _) fun _ _ _ hsifted =>
      .ret ⟨hsifted, trivial⟩

theorem queuePop (m : Machine) (list : Value) : Safe m (r.queuePop list) := by
  refine .after (.queueOf ..) fun _ _ => .rearrange fun items m' l hitems => ?_
  split
  · exact .fault _
  · next last back =>
    have hlast := hitems last (Array.mem_of_back? back)
    dsimp only
    split
    · exact .ret ⟨hosts_pop hitems, hlast⟩
    · next top first =>
      have htop := hosts_getElem? (hosts_pop hitems) 0 top first
      exact .bind (R.siftDown _ (hosts_set (hosts_pop hitems) 0 hlast) 0) fun _ _ l' hsifted =>
        .ret ⟨hsifted, l'.keep htop⟩

theorem siftAll (n : Nat) {items : Array Value} (hitems : m.heap.Hosts items) :
    Safe m (r.siftAll n items) := by
  induction n generalizing items m with
  | zero => exact .ret hitems
  | succ n ih => exact .bind (R.siftDown _ hitems n) fun _ _ _ hsifted => ih hsifted

theorem queueMake (m : Machine) (list : Value) : Safe m (r.queueMake list) :=
  .after (.queueOf ..) fun _ _ => .rearrange fun _ _ _ hitems =>
    .bind (R.siftAll _ hitems) fun _ _ _ hsifted => .ret ⟨hsifted, trivial⟩

end Interp.Sound

end StepTrace
