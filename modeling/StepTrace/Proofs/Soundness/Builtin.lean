import StepTrace.Eval.Builtin
import StepTrace.Proofs.Soundness.Method

/-!
Built-in functions and types keep states intact.
-/

set_option autoImplicit false

namespace StepTrace

open Heap

namespace Sound

variable {m : Machine}

/-! ### Functions that run no code of the program -/

theorem textOr (fallback : String) (v : Option Value) :
    Looks m (fun _ => True) (Interp.textOr fallback v) := by
  unfold Interp.textOr
  split
  · exact .ret ⟨rfl, trivial⟩
  · exact .ret ⟨rfl, trivial⟩
  · exact .ret ⟨rfl, trivial⟩
  · exact .faultOn _

theorem codeOf (v : Value) : Safe m (Interp.codeOf v) := by
  unfold Interp.codeOf
  split
  · split
    · exact .ret trivial
    · exact .fault _
  · exact .faultOn _

theorem characterOf (v : Value) : Safe m (Interp.characterOf v) := by
  refine .after (intArgument v) fun n _ => ?_
  split
  · exact .ret trivial
  · exact .fault _

theorem inBase (base : Nat) (mark : List Char) (v : Value) : Safe m (Interp.inBase base mark v) :=
  .after (intArgument v) fun _ _ => .ret trivial

-- A number that is checked and made a value.
theorem number {α : Type} (e : Except Fault α) {f : α → Value}
    (hf : ∀ a, m.heap.Hosts (f a)) : Safe m (do return f (← Run.check e)) :=
  .after (.check e) fun a _ => .ret (hf a)

theorem toInt (args : List Value) (keywords : Keywords) :
    Safe m (Interp.toInt args keywords) := by
  refine .after (arity ..) fun _ _ => ?_
  dsimp only
  split
  · exact .ret trivial
  · split
    · refine .after (intArgument _) fun _ _ => .ite (fun _ => .raise _) fun _ => ?_
      split
      · exact .ret trivial
      · exact .fault _
    · refine .bind (A := fun _ _ => True) (.ret trivial) fun _ _ _ _ =>
        .ite (fun _ => .raise _) fun _ => ?_
      split
      · exact .ret trivial
      · exact .fault _
  · exact .fault _
  · exact number _ fun _ => trivial
  · split
    · exact .ret trivial
    · exact .faultOn _

theorem toFloat (args : List Value) : Safe m (Interp.toFloat args) := by
  refine .after (arity ..) fun _ _ => ?_
  split
  · exact .ret trivial
  · split
    · exact .ret trivial
    · exact .fault _
  · exact .after (numberArgument ..) fun _ _ => .ret trivial

theorem absolute (v : Value) : Safe m (Interp.absolute v) := by
  unfold Interp.absolute
  split
  · exact .ret trivial
  · split
    · exact number _ fun _ => trivial
    · exact .faultOn _

theorem roundedTo (v : Value) (places : Option Int64) : Safe m (Interp.roundedTo v places) := by
  unfold Interp.roundedTo
  split
  · exact number _ fun _ => trivial
  · exact .ret trivial
  · split
    · exact .ite (fun _ => number _ fun _ => trivial) fun _ => .ret trivial
    · exact .ret trivial
    · exact .faultOn _

theorem rounded (v : Value) (places : Option Value) : Safe m (Interp.rounded v places) := by
  unfold Interp.rounded
  split
  · exact .bind (A := fun _ _ => True) (.ret trivial) fun _ _ _ _ => roundedTo ..
  · exact .bind (A := fun _ _ => True) (.ret trivial) fun _ _ _ _ => roundedTo ..
  · exact .bind (A := fun _ _ => True) (.after (intArgument _) fun _ _ => .ret trivial)
      fun _ _ _ _ => roundedTo ..

theorem quotientAndRemainder (a b : Value) : Safe m (Interp.quotientAndRemainder a b) := by
  refine .ite (fun _ => .faultOn _) fun _ => .after (.check _) fun pair done => ?_
  obtain ⟨hq, hm⟩ := hosts_divMod (h := m.heap) done
  exact .allocPair hq hm

theorem commonDivisor (acc : Int64) (vs : List Value) : Safe m (Interp.commonDivisor acc vs) := by
  induction vs generalizing acc with
  | nil => exact .ret trivial
  | cons v rest ih => exact .after (intArgument v) fun _ _ => .after (.check _) fun _ _ => ih _

theorem logarithm (b : Builtin) (args : List Value) : Safe m (Interp.logarithm b args) := by
  refine .after (arity ..) fun _ _ => .after (numberArgument ..) fun _ _ =>
    .ite (fun _ => .raise _) fun _ => ?_
  dsimp only
  split
  · exact .ret trivial
  · exact .ret trivial
  · exact .after (numberArgument ..) fun _ _ => .ite (fun _ => .raise _) fun _ => .ret trivial
  · exact .ret trivial

theorem raiseRoot (n fuel root : Nat) :
    Looks m (fun _ => True) (Interp.raiseRoot n fuel root) := by
  induction fuel generalizing root with
  | zero => exact .outOfFuel
  | succ fuel ih => exact .ite (fun _ => ih _) fun _ => .ret ⟨rfl, trivial⟩

theorem mathFunction (r : Interp) (b : Builtin) (args : List Value) :
    Safe m (r.mathFunction b args) := by
  unfold Interp.mathFunction
  dsimp only
  split
  · exact .after (arity ..) fun _ _ => .after (numberArgument ..) fun _ _ =>
      .ite (fun _ => .fault _) fun _ => .ret trivial
  iterate 2
    · refine .after (arity ..) fun _ _ => ?_
      split
      · exact .ret trivial
      · exact .after (numberArgument ..) fun _ _ => number _ fun _ => trivial
  · exact commonDivisor ..
  · exact .after (arity ..) fun _ _ => .after (numberArgument ..) fun _ _ => .ret trivial
  · exact .after (arity ..) fun _ _ => .after (intArgument _) fun _ _ =>
      .ite (fun _ => .raise _) fun _ => .after (raiseRoot ..) fun _ _ => .ret trivial
  · exact .after (arity ..) fun _ _ => .after (intArgument _) fun _ _ =>
      .ite (fun _ => .raise _) fun _ => number _ fun _ => trivial
  · exact .after (arity ..) fun _ _ => .after (numberArgument ..) fun _ _ =>
      .after (numberArgument ..) fun _ _ => .ret trivial
  · exact logarithm ..

theorem numbered (n : Int64) {out : Array Value} {vs : List Value} (hout : m.heap.Hosts out)
    (hvs : m.heap.Hosts vs) : Safe m (Interp.numbered n out vs) := by
  induction vs generalizing n out m with
  | nil => exact .ret hout
  | cons v rest ih =>
    obtain ⟨hv, hrest⟩ := hosts_uncons hvs
    exact .bind (allocPair trivial hv) fun _ _ l hpair =>
      ih _ (hosts_push (l.keep hout) hpair) (l.keep hrest)

theorem hosts_row {h : Heap} {columns : List (Array Value)} (hcolumns : h.Hosts columns) (i : Nat) :
    h.Hosts (Interp.row columns i) := by
  intro v here
  obtain ⟨column, hcolumn, rfl⟩ := List.mem_map.1 here
  exact hosts_getItem (hcolumns column hcolumn) i

theorem eachRow {make : List Value → Run Value} {columns : List (Array Value)} (count i : Nat)
    {out : Array Value} {c : Value} (hc : m.heap.Hosts c)
    (hmake : ∀ {m : Machine} {row}, m.heap.Hosts c → m.heap.Hosts row → Safe m (make row))
    (hcolumns : m.heap.Hosts columns) (hout : m.heap.Hosts out) :
    Safe m (Interp.eachRow make columns count i out) := by
  induction count generalizing i out m with
  | zero => exact .ret hout
  | succ count ih =>
    exact .bind (hmake hc (hosts_row hcolumns i)) fun _ _ l hv =>
      ih _ (l.keep hc) (l.keep hcolumns) (hosts_push (l.keep hout) hv)

theorem rangeOf (start stop step : Int64) : Safe m (Interp.rangeOf start stop step) :=
  .ite (fun _ => .fault _) fun _ => .alloc trivial rfl

theorem makeRange (args : List Value) : Safe m (Interp.makeRange args) := by
  refine .after (arity ..) fun _ _ => .after (mapM intArgument args) fun bounds _ => ?_
  split <;> exact rangeOf ..

theorem makeDefaultDict {args : List Value} (hargs : m.heap.Hosts args) :
    Safe m (Interp.makeDefaultDict args) := by
  refine .after (arity ..) fun _ _ => .onHeap fun _ => .ite (fun _ => ?_) fun _ => .fault _
  refine .alloc ⟨hosts_dict_empty.1, hosts_some (hosts_getD (fun v first => ?_) trivial)⟩ rfl
  exact hargs v (List.mem_of_head? first)

theorem attribute? (b : Builtin) {args : List Value} (hargs : m.heap.Hosts args) :
    Safe m (Interp.attribute? b args) := by
  refine .after (arity ..) fun _ _ => ?_
  split
  · refine .onHeap fun intact => ?_
    have found : ∀ {name out}, m.heap.attr (Interp.argument args 0) name = .ok out →
        m.heap.Hosts out := intact.attr (hosts_argument hargs 0)
    split
    · next out done => exact .settle (found done)
    · next out done _ => exact .bind (.settle (found done)) fun _ _ _ _ => .ret trivial
    · split
      · next v given => exact .ret (hosts_item? hargs 2 v given)
      · exact .fault _
    · exact .ret trivial
  · exact .fault _

theorem makeSuper (args : List Value) : Safe m (Interp.makeSuper args) := by
  refine .after (arity ..) fun _ _ => .after .frame fun f hf => ?_
  split
  · next cls receiver inside => exact .alloc (hf cls receiver inside) rfl
  · exact .fault _

end Sound

namespace Interp.Sound

variable {r : Interp} (R : r.Sound) {m : Machine}
include R

/-! ### Functions that may run code of the program -/

theorem displayAll {vs : List Value} (hvs : m.heap.Hosts vs) : Safe m (r.displayAll vs) := by
  induction vs generalizing m with
  | nil => exact .ret hosts_nil
  | cons v rest ih =>
    obtain ⟨hv, hrest⟩ := hosts_uncons hvs
    exact .bind (R.display hv) fun _ _ l _ => .bind (ih (l.keep hrest)) fun _ _ _ hs =>
      .ret (hosts_cons trivial hs)

theorem printValues {args : List Value} {keywords : Keywords} (hargs : m.heap.Hosts args) :
    Safe m (r.printValues args keywords) :=
  .after (.textOr ..) fun _ _ => .after (.textOr ..) fun _ _ => .bind (R.displayAll hargs)
    fun _ _ _ _ => .bind (.print _) fun _ _ _ _ => .ret trivial

theorem messageOf {args : List Value} (hargs : m.heap.Hosts args) : Safe m (r.messageOf args) := by
  unfold Interp.messageOf
  split
  · exact .ret trivial
  · exact R.display (hosts_uncons hargs).1
  · exact .bind (.alloc (hosts_toArray hargs) rfl) fun _ _ _ hv => R.display hv

theorem formatValue {v : Value} (spec : Option Value) (hv : m.heap.Hosts v) :
    Safe m (r.formatValue v spec) := by
  unfold Interp.formatValue
  split
  · exact .bind (R.display hv) fun _ _ _ _ => .ret trivial
  · exact .bind (R.display hv) fun _ _ _ _ => .ret trivial
  · exact .onHeap fun _ => .after (.check _) fun _ _ => .ret trivial
  · exact .faultOn _

theorem total {acc : Value} {vs : List Value} (hacc : m.heap.Hosts acc) (hvs : m.heap.Hosts vs) :
    Safe m (r.total acc vs) := by
  induction vs generalizing acc m with
  | nil => exact .ret hacc
  | cons v rest ih =>
    obtain ⟨hv, hrest⟩ := hosts_uncons hvs
    exact .bind (R.binary .add hacc hv) fun _ _ l hsum => ih hsum (l.keep hrest)

theorem collectAll {vs : List Value} (hvs : m.heap.Hosts vs) : Safe m (r.collectAll vs) := by
  induction vs generalizing m with
  | nil => exact .ret hosts_nil
  | cons v rest ih =>
    obtain ⟨hv, hrest⟩ := hosts_uncons hvs
    exact .bind (R.collect hv) fun _ _ l hitems => .bind (ih (l.keep hrest)) fun _ _ l' hs =>
      .ret (hosts_cons (l'.keep hitems) hs)

theorem kept {f : Value} {out : Array Value} {vs : List Value} (hf : m.heap.Hosts f)
    (hout : m.heap.Hosts out) (hvs : m.heap.Hosts vs) : Safe m (r.kept f out vs) := by
  induction vs generalizing out m with
  | nil => exact .ret hout
  | cons v rest ih =>
    obtain ⟨hv, hrest⟩ := hosts_uncons hvs
    have goesOn : ∀ {m' : Machine} (answer : Value), m.heap.Later m'.heap → Safe m' (do
        r.kept f (if (← Run.heap).truthy answer then out.push v else out) rest) := fun _ l =>
      .onHeap fun _ => ih (l.keep hf)
        (hosts_ite (hosts_push (l.keep hout) (l.keep hv)) (l.keep hout)) (l.keep hrest)
    exact .ite (fun _ => .bind (A := fun m a => m.heap.Hosts a) (.ret hv)
      fun answer _ l _ => goesOn answer l) fun _ =>
      .bind (R.call hf (hosts_cons hv hosts_nil) hosts_nil) fun answer _ l _ => goesOn answer l

theorem itemsOfArgument {args : List Value} (hargs : m.heap.Hosts args) :
    Safe m (r.itemsOfArgument args) := by
  unfold Interp.itemsOfArgument
  split
  · exact R.collect (hosts_uncons hargs).1
  · exact .ret hosts_empty

theorem sequenceFunction (b : Builtin) {args : List Value} {keywords : Keywords}
    (hargs : m.heap.Hosts args) (hkeywords : m.heap.Hosts keywords) :
    Safe m (r.sequenceFunction b args keywords) := by
  have hitem := hosts_argument hargs 0
  unfold Interp.sequenceFunction
  dsimp only
  split
  · refine .after (.arity ..) fun _ _ => .ite (fun _ => .raise _) fun _ =>
      .bind (R.collect hitem) fun _ _ l hitems => R.total (l.keep ?_) (hosts_toList hitems)
    exact hosts_getD (hosts_orElse (hosts_lookup hkeywords _) (hosts_item? hargs 1)) trivial
  · exact .after (.arity ..) fun _ _ => .after (.finish ..) fun _ _ =>
      .bind (R.collect hitem) fun _ _ l hitems => .onHeap fun _ =>
        .bind (R.sorted _ hitems (l.keep (hosts_lookup hkeywords _))) fun _ _ _ hs => .alloc hs rfl
  · exact .after (.arity ..) fun _ _ => .bind (R.collect hitem) fun _ _ _ hitems =>
      .alloc (hosts_reverse hitems) rfl
  · refine .after (.arity ..) fun _ _ => ?_
    split
    · exact .after (.intArgument _) fun _ _ => .bind (R.collect hitem) fun _ _ _ hitems =>
        .bind (.numbered _ hosts_empty (hosts_toList hitems)) fun _ _ _ hs => .alloc hs rfl
    · exact .bind (A := fun _ _ => True) (.ret trivial) fun _ _ l _ =>
        .bind (R.collect (l.keep hitem)) fun _ _ _ hitems =>
        .bind (.numbered _ hosts_empty (hosts_toList hitems)) fun _ _ _ hs => .alloc hs rfl
  · exact .bind (R.collectAll hargs) fun _ _ _ hcolumns =>
      .bind (.eachRow (c := .none) _ _ trivial (fun _ hrow => .alloc (hosts_toArray hrow) rfl)
        hcolumns hosts_empty) fun _ _ _ hs => .alloc hs rfl
  · exact .after (.arity ..) fun _ _ =>
      .bind (R.collectAll fun v here => hargs v (List.mem_of_mem_drop here)) fun _ _ l hcolumns =>
        .bind (.eachRow _ _ (l.keep hitem) (fun hf hrow => R.call hf hrow hosts_nil) hcolumns
          hosts_empty) fun _ _ _ hs => .alloc hs rfl
  · exact .after (.arity ..) fun _ _ => .bind (R.collect (hosts_argument hargs 1))
      fun _ _ l hitems => .bind (R.kept (l.keep hitem) hosts_empty (hosts_toList hitems))
        fun _ _ _ hs => .alloc hs rfl
  · exact .after (.arity ..) fun _ _ => .bind (R.collect hitem) fun _ _ _ _ =>
      .onHeap fun _ => .ret trivial
  · exact .after (.arity ..) fun _ _ => .bind (R.collect hitem) fun _ _ _ _ =>
      .onHeap fun _ => .ret trivial
  · exact .after (.arity ..) fun _ _ => .bind (R.itemsOfArgument hargs) fun _ _ _ hs =>
      .alloc hs rfl
  · exact .after (.arity ..) fun _ _ => .bind (R.itemsOfArgument hargs) fun _ _ _ hs =>
      .alloc hs rfl
  · exact .after (.arity ..) fun _ _ => .bind (R.itemsOfArgument hargs) fun _ _ _ hs =>
      .bind (.setOf (hosts_toList hs) hosts_set_empty) fun _ _ _ hset => .alloc hset rfl
  · exact .after (.arity ..) fun _ _ => .bind (R.itemsOfArgument hargs) fun _ _ _ hs =>
      .alloc hs rfl
  · refine .after (.arity ..) fun _ _ => ?_
    split
    · exact .bind (R.addEntries hosts_dict_empty (hosts_uncons hargs).1) fun _ _ l hd =>
        .alloc (hosts_addKeywords hd (l.keep hkeywords)) rfl
    · exact .bind (.ret hosts_dict_empty) fun _ _ l hd =>
        .alloc (hosts_addKeywords hd (l.keep hkeywords)) rfl

theorem valueFunction (b : Builtin) {args : List Value} {keywords : Keywords}
    (hargs : m.heap.Hosts args) : Safe m (r.valueFunction b args keywords) := by
  have hitem := hosts_argument hargs 0
  unfold Interp.valueFunction
  dsimp only
  split
  · exact .after (.arity ..) fun _ _ => .bind .nextInput fun _ _ _ _ => .ret trivial
  · exact .after (.arity ..) fun _ _ => .bind (R.length hitem) fun _ _ _ _ => .ret trivial
  · exact .makeRange _
  · exact .after (.arity ..) fun _ _ => .absolute _
  · exact .after (.arity ..) fun _ _ => .rounded ..
  · exact .after (.arity ..) fun _ _ => .bind (R.represent hitem) fun _ _ _ _ => .ret trivial
  · exact .after (.arity ..) fun _ _ => .onHeap fun _ => .number _ fun _ => trivial
  · exact .attribute? _ hargs
  · exact .attribute? _ hargs
  · exact .after (.arity ..) fun _ _ => .codeOf _
  · exact .after (.arity ..) fun _ _ => .characterOf _
  · exact .after (.arity ..) fun _ _ => .quotientAndRemainder ..
  · refine .after (.arity ..) fun _ _ => ?_
    split
    · exact .after (.intArgument _) fun _ _ => .after (.intArgument _) fun _ _ =>
        .after (.intArgument _) fun _ _ => .number _ fun _ => trivial
    · exact R.binary _ hitem (hosts_argument hargs 1)
  iterate 3 exact .after (.arity ..) fun _ _ => .inBase ..
  · exact .after (.arity ..) fun _ _ => R.formatValue _ hitem
  · exact .makeSuper _
  · exact .toInt ..
  · exact .toFloat _
  · refine .after (.arity ..) fun _ _ => ?_
    split
    · exact .bind (R.display (hosts_uncons hargs).1) fun _ _ _ _ => .ret trivial
    · exact .ret trivial
  · exact .after (.arity ..) fun _ _ => .onHeap fun _ => .ret trivial
  · exact .after (.arity ..) fun _ _ => .onHeap fun intact => .ret (intact.typeOf _)
  · exact .fault _
  · exact .bind (R.messageOf hargs) fun _ _ _ _ => .alloc trivial rfl
  · exact .fault _

theorem callBuiltin (b : Builtin) {args : List Value} {keywords : Keywords}
    (hargs : m.heap.Hosts args) (hkeywords : m.heap.Hosts keywords) :
    Safe m (r.callBuiltin b args keywords) := by
  have ended : ∀ (name : String) (rest : Keywords) (v : Value) (m' : Machine),
      m.heap.Later m'.heap → m'.heap.Hosts v →
      Safe m' (do rest.finish name; return v : Run Value) :=
    fun _ _ _ _ _ hv => .after (.finish ..) fun _ _ => .ret hv
  unfold Interp.callBuiltin
  dsimp only
  refine .ite (fun _ => .after (.finish ..) fun _ _ => ?_) fun _ => ?_
  all_goals
    split
    · exact .bind (R.printValues hargs) (ended _ _)
    iterate 2
      exact .bind (R.extreme _ _ hargs (hosts_lookup hkeywords _) (hosts_lookup hkeywords _))
        (ended _ _)
    iterate 14 exact .bind (R.sequenceFunction _ hargs hkeywords) (ended _ _)
    iterate 11 exact .bind (.mathFunction ..) (ended _ _)
    · exact .bind (.makeDefaultDict hargs) (ended _ _)
    · exact .after (.arity ..) fun _ _ =>
        .bind (R.queuePush _ (hosts_argument hargs 1)) (ended _ _)
    · exact .after (.arity ..) fun _ _ => .bind (R.queuePop ..) (ended _ _)
    · exact .after (.arity ..) fun _ _ => .bind (R.queueMake ..) (ended _ _)
    · exact .bind (R.valueFunction _ hargs) (ended _ _)

end Interp.Sound

end StepTrace
