import StepTrace.Eval.Arguments
import StepTrace.Eval.Method.Container
import StepTrace.Eval.Method.Text
import StepTrace.Proofs.Soundness.Sorting

/-!
Methods keep states intact: those of lists, tuples, dictionaries, sets, deques and strings. Arguments
are looked at in the state in which a call finds them, and sets and dictionaries made from them have
every member under its own hash key.
-/

set_option autoImplicit false

namespace StepTrace

open Heap

/-! ### Arguments -/

namespace Sound

variable {m : Machine}

theorem finish (name : String) (keywords : Keywords) :
    Looks m (fun _ => True) (keywords.finish name) := by
  cases keywords with
  | nil => exact .ret ⟨rfl, trivial⟩
  | cons keyword rest => exact .fault _

theorem arity (name : String) (args : List Value) (low : Nat) (high : Option Nat) :
    Looks m (fun _ => True) (StepTrace.arity name args low high) :=
  .ite (fun _ => .ret ⟨rfl, trivial⟩) fun _ => .fault _

theorem intArgument (v : Value) : Looks m (fun _ => True) (StepTrace.intArgument v) := by
  unfold StepTrace.intArgument
  split
  · exact .ret ⟨rfl, trivial⟩
  · exact .faultOn _

theorem numberArgument (name : String) (v : Value) :
    Looks m (fun _ => True) (StepTrace.numberArgument name v) := by
  unfold StepTrace.numberArgument
  split
  · exact .ret ⟨rfl, trivial⟩
  · exact .faultOn _

theorem intParameter (method : String) (v : Value) :
    Looks m (fun _ => True) (StepTrace.intParameter method v) := by
  unfold StepTrace.intParameter
  split
  · exact .ret ⟨rfl, trivial⟩
  · exact .faultOn _

theorem intParameter? (method : String) (v : Option Value) :
    Looks m (fun _ => True) (StepTrace.intParameter? method v) := by
  unfold StepTrace.intParameter?
  split
  · exact .ret ⟨rfl, trivial⟩
  · exact .ret ⟨rfl, trivial⟩
  · exact .after (intParameter ..) fun _ _ => .ret ⟨rfl, trivial⟩

theorem textParameter (method : String) (v : Value) :
    Looks m (fun _ => True) (StepTrace.textParameter method v) := by
  unfold StepTrace.textParameter
  split
  · exact .ret ⟨rfl, trivial⟩
  · exact .faultOn _

theorem setOf {vs : List Value} {s : SetObject} (hvs : m.heap.Hosts vs) (hs : m.heap.Hosts s) :
    Safe m (StepTrace.setOf vs s) := by
  induction vs generalizing s with
  | nil => exact .ret hs
  | cons v rest ih =>
    obtain ⟨hv, hrest⟩ := hosts_uncons hvs
    exact .after (.keyOf v) fun _ hkey => ih hrest (hosts_set_insert hs ⟨hv, hkey⟩)

end Sound

namespace Interp.Sound

variable {r : Interp} (R : r.Sound) {m : Machine}
include R

theorem addPairs {pairs : List Value} (i : Nat) {entries : DictObject}
    (hpairs : m.heap.Hosts pairs) (hentries : m.heap.Hosts entries) :
    Safe m (StepTrace.addPairs r pairs i entries) := by
  induction pairs generalizing i entries m with
  | nil => exact .ret hentries
  | cons pair rest ih =>
    obtain ⟨hpair, hrest⟩ := hosts_uncons hpairs
    refine .bind (R.collect hpair) fun parts _ l hparts => ?_
    split
    · next key value same =>
      obtain ⟨hkey, hvalue⟩ := hosts_uncons (same ▸ hosts_toList hparts)
      exact .after (.keyOf _) fun _ keyed =>
        ih _ (l.keep hrest)
          (hosts_dict_insert (l.keep hentries) ⟨hkey, keyed⟩ (hosts_uncons hvalue).1)
    · exact .fault _

theorem addEntries {entries : DictObject} {source : Value} (hentries : m.heap.Hosts entries)
    (hsource : m.heap.Hosts source) : Safe m (StepTrace.addEntries r entries source) := by
  refine .after (.deref? source) fun o ho => ?_
  obtain ⟨-, ho⟩ := ho
  split
  · exact .ret (hosts_dict_union hentries (ho _ rfl))
  · exact .bind (R.collect hsource) fun _ _ l hpairs =>
      R.addPairs 0 (hosts_toList hpairs) (l.keep hentries)

end Interp.Sound

/-! ### Containers -/

namespace Heap

variable {h : Heap}

theorem hosts_argument {args : List Value} (hargs : h.Hosts args) (i : Nat) :
    h.Hosts (Interp.argument args i) :=
  hosts_getD (hosts_item? hargs i) trivial

theorem hosts_setCombination (name : String) {s t : SetObject} (hs : h.Hosts s) (ht : h.Hosts t) :
    h.Hosts (Interp.setCombination name s t) := by
  unfold Interp.setCombination
  split
  · exact hosts_set_filter hs _
  · exact hosts_set_filter hs _
  · exact hosts_set_fold hs ht fun s k v hs keyed => hosts_set_insert hs keyed

theorem hosts_rotated {items : Array Value} (hitems : h.Hosts items) (n : Int64) :
    h.Hosts (Interp.rotated items n) :=
  hosts_append (hosts_extract hitems _ _) (hosts_extract hitems _ _)

end Heap

namespace Sound

variable {m : Machine}

theorem noMethod (typeName name : String) : Safe m (Interp.noMethod typeName name) := .fault _

theorem itemsOf (id : ObjId) : Looks m m.heap.Hosts (Interp.itemsOf id) := by
  refine .onHeap fun intact => ?_
  split
  · next l found => exact .ret ⟨rfl, intact.hosts id _ found⟩
  · next items found => exact .ret ⟨rfl, intact.hosts id _ found⟩
  · next items found => exact .ret ⟨rfl, intact.hosts id _ found⟩
  · exact .ret ⟨rfl, hosts_empty⟩

theorem dictOf (id : ObjId) : Looks m m.heap.Hosts (Interp.dictOf id) := by
  refine .onHeap fun intact => ?_
  split
  · next d found => exact .ret ⟨rfl, intact.hosts id _ found⟩
  · exact .ret ⟨rfl, hosts_dict_empty⟩

theorem membersOf (id : ObjId) : Looks m m.heap.Hosts (Interp.membersOf id) := by
  refine .onHeap fun intact => ?_
  split
  · next s found => exact .ret ⟨rfl, intact.hosts id _ found⟩
  · exact .ret ⟨rfl, hosts_set_empty⟩

theorem allocPair {a b : Value} (ha : m.heap.Hosts a) (hb : m.heap.Hosts b) :
    Safe m (Run.allocTuple #[a, b]) :=
  .alloc (hosts_push (hosts_push hosts_empty ha) hb) rfl

theorem allocPairs {out : Array Value} {pairs : List (Value × Value)} (hout : m.heap.Hosts out)
    (hpairs : m.heap.Hosts pairs) : Safe m (Interp.allocPairs out pairs) := by
  induction pairs generalizing out m with
  | nil => exact .ret hout
  | cons pair rest ih =>
    obtain ⟨hpair, hrest⟩ := hosts_uncons hpairs
    exact .bind (allocPair hpair.1 hpair.2) fun _ _ l hv =>
      ih (hosts_push (l.keep hout) hv) (l.keep hrest)

theorem popItem (id : ObjId) (i : Int64) : Safe m (Interp.popItem id i) := by
  refine .after (itemsOf id) fun items hitems => .ite (fun _ => .raise _) fun _ => ?_
  split
  · next p _ =>
    exact .bind (.changeItems fun _ hold => hosts_eraseIdx hold p) fun _ _ l _ =>
      .ret (l.keep (hosts_getItem hitems p))
  · exact .fault _

theorem removeMember (id : ObjId) (wanted : Bool) (item : Value) (key : HashKey) :
    Safe m (Interp.removeMember id wanted item key) :=
  .after (membersOf id) fun _ _ =>
    .ite (fun _ => .mapSet fun _ hs => hosts_set_erase hs key) fun _ =>
      .ite (fun _ => .faultOn _) fun _ => .ret trivial

end Sound

namespace Interp.Sound

variable {r : Interp} (R : r.Sound) {m : Machine}
include R

theorem placeOf {item : Value} (i : Nat) {vs : List Value} (hitem : m.heap.Hosts item)
    (hvs : m.heap.Hosts vs) : Safe m (r.placeOf item i vs) := by
  induction vs generalizing i m with
  | nil => exact .ret hosts_none
  | cons v rest ih =>
    obtain ⟨hv, hrest⟩ := hosts_uncons hvs
    exact .bind (R.equal hv hitem) fun
      | true, _, _, _ => .ret (hosts_some trivial)
      | false, _, l, _ => ih _ (l.keep hitem) (l.keep hrest)

theorem occurrences {item : Value} (n : Nat) {vs : List Value} (hitem : m.heap.Hosts item)
    (hvs : m.heap.Hosts vs) : Safe m (r.occurrences item n vs) := by
  induction vs generalizing n m with
  | nil => exact .ret trivial
  | cons v rest ih =>
    obtain ⟨hv, hrest⟩ := hosts_uncons hvs
    exact .bind (R.equal hv hitem) fun _ _ l _ => ih _ (l.keep hitem) (l.keep hrest)

theorem searchMethod {items : Array Value} (typeName name : String) {args : List Value}
    (hitems : m.heap.Hosts items) (hargs : m.heap.Hosts args) :
    Safe m (r.searchMethod items typeName name args) := by
  have hitem := hosts_argument hargs 0
  unfold Interp.searchMethod
  split
  · refine .after (.arity ..) fun _ _ => .bind (R.placeOf 0 hitem (hosts_toList hitems))
      fun found _ _ _ => ?_
    split
    · exact .ret trivial
    · exact .ite (fun _ => .fault _) fun _ => .faultOn _
  · exact .after (.arity ..) fun _ _ => .bind (R.occurrences 0 hitem (hosts_toList hitems))
      fun _ _ _ _ => .ret trivial
  · exact .noMethod ..

theorem sortMethod (id : ObjId) {args : List Value} {keywords : Keywords}
    (hkeywords : m.heap.Hosts keywords) : Safe m (r.sortMethod id args keywords) :=
  .ite (fun _ => .raise _) fun _ => .onHeap fun _ => .after (.finish ..) fun _ _ =>
    .rearrange fun _ _ l hitems => .bind (R.sorted _ hitems (l.keep (hosts_lookup hkeywords "key")))
      fun _ _ _ hsorted => .ret ⟨hsorted, trivial⟩

theorem listMethod (id : ObjId) (name : String) {args : List Value} {keywords : Keywords}
    (hargs : m.heap.Hosts args) (hkeywords : m.heap.Hosts keywords) :
    Safe m (r.listMethod id name args keywords) := by
  have hitem := hosts_argument hargs 0
  refine .ite (fun _ => R.sortMethod id hkeywords) fun _ => .after (.finish ..) fun _ _ => ?_
  split
  · exact .after (.arity ..) fun _ _ =>
      .bind (.changeItems fun _ hold => hosts_push hold hitem) fun _ _ _ _ => .ret trivial
  · exact .after (.arity ..) fun _ _ => .bind (R.collect hitem) fun _ _ _ hnew =>
      .bind (.changeItems fun _ hold => hosts_append hold hnew) fun _ _ _ _ => .ret trivial
  · exact .after (.arity ..) fun _ _ => .after (.intParameter ..) fun _ _ =>
      .bind (.changeItems fun _ hold => hosts_insertIdx hold _ (hosts_argument hargs 1))
        fun _ _ _ _ => .ret trivial
  · refine .after (.arity ..) fun _ _ => ?_
    split
    · exact .after (.intParameter ..) fun _ _ => .popItem ..
    · exact .popItem ..
  · refine .after (.arity ..) fun _ _ => .after (.itemsOf id) fun items hitems =>
      .bind (R.placeOf 0 hitem (hosts_toList hitems)) fun found _ _ _ => ?_
    split
    · exact .bind (.changeItems fun _ hold => hosts_eraseIdx hold _) fun _ _ _ _ => .ret trivial
    · exact .fault _
  · exact .after (.arity ..) fun _ _ =>
      .bind (.changeItems fun _ hold => hosts_reverse hold) fun _ _ _ _ => .ret trivial
  · exact .after (.arity ..) fun _ _ =>
      .bind (.changeItems fun _ _ => hosts_empty) fun _ _ _ _ => .ret trivial
  · exact .after (.arity ..) fun _ _ => .after (.itemsOf id) fun _ hitems => .alloc hitems rfl
  · exact .after (.itemsOf id) fun _ hitems => R.searchMethod _ _ hitems hargs

theorem dictMethod (id : ObjId) (name : String) {args : List Value} {keywords : Keywords}
    (hargs : m.heap.Hosts args) (hkeywords : m.heap.Hosts keywords) :
    Safe m (r.dictMethod id name args keywords) := by
  have hkey := hosts_argument hargs 0
  have hvalue := hosts_argument hargs 1
  refine .ite (fun _ => .after (.arity ..) fun _ _ => ?_) fun _ => .after (.finish ..) fun _ _ => ?_
  · have merge : ∀ {m' : Machine} {d : DictObject}, m'.heap.Hosts keywords → m'.heap.Hosts d →
        Safe m' (do
          Run.change id (Object.mapDict fun e => e.union (addKeywords d keywords))
          return Value.none) := fun hkeywords hd =>
      .bind (.mapDict fun _ hold => hosts_dict_union hold (hosts_addKeywords hd hkeywords))
        fun _ _ _ _ => .ret trivial
    split
    · exact .bind (R.addEntries hosts_dict_empty (hosts_uncons hargs).1) fun _ _ l hd =>
        merge (l.keep hkeywords) hd
    · exact .bind (.ret hosts_dict_empty) fun _ _ l hd => merge (l.keep hkeywords) hd
  split
  · exact .after (.arity ..) fun _ _ => .after (.keyOf _) fun key _ =>
      .after (.dictOf id) fun _ hd => .ret (hosts_getD (hosts_dict_get? hd key) hvalue)
  · exact .after (.arity ..) fun _ _ => .after (.dictOf id) fun _ hd =>
      .alloc (hosts_toArray (hosts_dict_keys hd)) rfl
  · refine .after (.arity ..) fun _ _ => .after (.dictOf id) fun _ hd =>
      .alloc (hosts_toArray fun v here => ?_) rfl
    obtain ⟨e, he, rfl⟩ := List.mem_map.1 here
    exact (hosts_dict_entries hd e he).2
  · exact .after (.arity ..) fun _ _ => .after (.dictOf id) fun _ hd =>
      .bind (.allocPairs hosts_empty (hosts_dict_entries hd)) fun _ _ _ hpairs => .alloc hpairs rfl
  · refine .after (.arity ..) fun _ _ => .after (.keyOf _) fun key _ =>
      .after (.dictOf id) fun d hd => ?_
    split
    · next v found =>
      exact .bind (.mapDict fun _ hold => hosts_dict_erase hold key) fun _ _ l _ =>
        .ret (l.keep (hosts_dict_get? hd key v found))
    · split
      · exact .ret (hosts_uncons (hosts_uncons hargs).2).1
      · exact .faultOn _
  · refine .after (.arity ..) fun _ _ => .after (.keyOf _) fun key keyed =>
      .after (.dictOf id) fun d hd => ?_
    split
    · next v found => exact .ret (hosts_dict_get? hd key v found)
    · exact .bind (.mapDict fun _ hold => hosts_dict_insert hold ⟨hkey, keyed⟩ hvalue)
        fun _ _ l _ => .ret (l.keep hvalue)
  · exact .after (.arity ..) fun _ _ => .bind (.mapDict fun _ hold =>
      ⟨fun _ _ _ none => absurd none List.not_mem_nil, hold.2⟩) fun _ _ _ _ => .ret trivial
  · exact .after (.arity ..) fun _ _ => .after (.dictOf id) fun _ hd => .alloc hd rfl
  · refine .after (.arity ..) fun _ _ => .after (.dictOf id) fun d hd => ?_
    dsimp only
    split
    · next k key v last =>
      have entry := hd.1 k key v (Array.mem_toList_iff.2 (Array.mem_of_getElem? last))
      refine .bind (.mapDict fun e hold => ⟨fun k' key' v' here => ?_, hold.2⟩) fun _ _ l _ =>
        .allocPair (l.keep entry.1.1) (l.keep entry.2)
      rw [Ordered.toList_dropLast] at here
      exact hold.1 k' key' v' ((List.dropLast_sublist _).subset here)
    · exact .fault _
  · exact .noMethod ..

theorem combineSets {f : SetObject → SetObject → SetObject} {s : SetObject} {vs : List Value}
    (hf : ∀ {h : Heap} {s t}, h.Hosts s → h.Hosts t → h.Hosts (f s t)) (hs : m.heap.Hosts s)
    (hvs : m.heap.Hosts vs) : Safe m (r.combineSets f s vs) := by
  induction vs generalizing s m with
  | nil => exact .ret hs
  | cons v rest ih =>
    obtain ⟨hv, hrest⟩ := hosts_uncons hvs
    exact .bind (R.collect hv) fun _ _ l hitems =>
      .bind (.setOf (hosts_toList hitems) hosts_set_empty) fun _ _ l' hother =>
        ih (hf (l'.keep (l.keep hs)) hother) (l'.keep (l.keep hrest))

theorem setMethod (id : ObjId) (name : String) {args : List Value} {keywords : Keywords}
    (hargs : m.heap.Hosts args) : Safe m (r.setMethod id name args keywords) := by
  have hitem := hosts_argument hargs 0
  refine .after (.finish ..) fun _ _ => ?_
  split
  · exact .after (.arity ..) fun _ _ => .after (.keyOf _) fun key keyed =>
      .bind (.mapSet fun _ hold => hosts_set_insert hold ⟨hitem, keyed⟩) fun _ _ _ _ => .ret trivial
  · exact .after (.arity ..) fun _ _ => .after (.keyOf _) fun _ _ =>
      .bind (.removeMember ..) fun _ _ _ _ => .ret trivial
  · exact .after (.arity ..) fun _ _ => .after (.keyOf _) fun _ _ =>
      .bind (.removeMember ..) fun _ _ _ _ => .ret trivial
  · refine .after (.arity ..) fun _ _ => .after (.membersOf id) fun members hs => ?_
    split
    · next k v first =>
      have member := hs k v (Array.mem_toList_iff.2 (Array.mem_of_getElem? first))
      exact .bind (.mapSet fun _ hold => hosts_set_eraseAt hold 0) fun _ _ l _ =>
        .ret (l.keep member.1)
    · exact .fault _
  · exact .after (.arity ..) fun _ _ => .bind (.mapSet fun _ _ => hosts_set_empty)
      fun _ _ _ _ => .ret trivial
  · exact .after (.arity ..) fun _ _ => .after (.membersOf id) fun _ hs => .alloc hs rfl
  · exact .after (.membersOf id) fun _ hs =>
      .bind (R.combineSets (hosts_setCombination _) hs hargs) fun _ _ _ ht => .alloc ht rfl
  · exact .after (.membersOf id) fun _ hs =>
      .bind (R.combineSets (hosts_setCombination _) hs hargs) fun _ _ _ ht => .alloc ht rfl
  · exact .after (.membersOf id) fun _ hs =>
      .bind (R.combineSets (hosts_setCombination _) hs hargs) fun _ _ _ ht => .alloc ht rfl
  · exact .after (.membersOf id) fun _ hs =>
      .bind (R.combineSets (hosts_setCombination _) hs hargs) fun _ _ _ ht =>
        .bind (.mapSet fun _ _ => ht) fun _ _ _ _ => .ret trivial
  · exact .after (.arity ..) fun _ _ => .bind (R.collect hitem) fun _ _ _ hitems =>
      .bind (.setOf (hosts_toList hitems) hosts_set_empty) fun _ _ _ _ =>
        .after (.membersOf id) fun _ _ => .ret trivial
  · exact .after (.arity ..) fun _ _ => .bind (R.collect hitem) fun _ _ _ hitems =>
      .bind (.setOf (hosts_toList hitems) hosts_set_empty) fun _ _ _ _ =>
        .after (.membersOf id) fun _ _ => .ret trivial
  · exact .noMethod ..

theorem dequeMethod (id : ObjId) (name : String) {args : List Value} {keywords : Keywords}
    (hargs : m.heap.Hosts args) : Safe m (r.dequeMethod id name args keywords) := by
  have hitem := hosts_argument hargs 0
  refine .after (.finish ..) fun _ _ => ?_
  split
  · exact .after (.arity ..) fun _ _ =>
      .bind (.mapDeque fun _ hold => hosts_push hold hitem) fun _ _ _ _ => .ret trivial
  · exact .after (.arity ..) fun _ _ => .bind (.mapDeque fun _ hold =>
      hosts_append (hosts_push hosts_empty hitem) hold) fun _ _ _ _ => .ret trivial
  · refine .after (.arity ..) fun _ _ => .after (.itemsOf id) fun items hitems => ?_
    split
    · next v back =>
      exact .bind (.mapDeque fun _ hold => hosts_pop hold) fun _ _ l _ =>
        .ret (l.keep (hitems v (Array.mem_of_back? back)))
    · exact .fault _
  · refine .after (.arity ..) fun _ _ => .after (.itemsOf id) fun items hitems => ?_
    split
    · next v first =>
      exact .bind (.mapDeque fun _ hold => hosts_eraseIdx hold 0) fun _ _ l _ =>
        .ret (l.keep (hosts_getElem? hitems 0 v first))
    · exact .fault _
  · exact .after (.arity ..) fun _ _ => .bind (R.collect hitem) fun _ _ _ hnew =>
      .bind (.mapDeque fun _ hold => hosts_append hold hnew) fun _ _ _ _ => .ret trivial
  · exact .after (.arity ..) fun _ _ => .bind (R.collect hitem) fun _ _ _ hnew =>
      .bind (.mapDeque fun _ hold => hosts_append (hosts_reverse hnew) hold)
        fun _ _ _ _ => .ret trivial
  · exact .after (.arity ..) fun _ _ =>
      .bind (.mapDeque fun _ _ => hosts_empty) fun _ _ _ _ => .ret trivial
  · refine .after (.arity ..) fun _ _ => ?_
    split
    · exact .after (.intParameter ..) fun n _ =>
        .bind (.mapDeque fun _ hold => hosts_rotated hold n) fun _ _ _ _ => .ret trivial
    · exact .bind (A := fun _ _ => True) (.ret trivial) fun n _ _ _ =>
        .bind (.mapDeque fun _ hold => hosts_rotated hold n) fun _ _ _ _ => .ret trivial
  · exact .noMethod ..

end Interp.Sound

/-! ### Strings -/

namespace Sound

variable {m : Machine}

theorem joinable (i : Nat) (vs : List Value) : Looks m (fun _ => True) (Interp.joinable i vs) := by
  induction vs generalizing i with
  | nil => exact .ret ⟨rfl, trivial⟩
  | cons v rest ih =>
    cases v with
    | str s => exact .after (ih _) fun _ _ => .ret ⟨rfl, trivial⟩
    | none | bool | int | float | ref | builtin => exact .faultOn _

theorem mapM {α β : Type} {f : α → Run β} (hf : ∀ a, Looks m (fun _ => True) (f a)) (as : List α) :
    Looks m (fun _ => True) (as.mapM f) := by
  induction as with
  | nil =>
    rw [List.mapM_nil]
    exact .ret ⟨rfl, trivial⟩
  | cons a rest ih =>
    rw [List.mapM_cons]
    exact .after (hf a) fun _ _ => .after ih fun _ _ => .ret ⟨rfl, trivial⟩

theorem affixes (name : String) (v : Value) : Looks m (fun _ => True) (Interp.affixes name v) := by
  refine .after (.deref? v) fun o _ => ?_
  split
  · exact mapM (textParameter name) _
  · exact .after (textParameter ..) fun _ _ => .ret ⟨rfl, trivial⟩

theorem fillCharacter (name : String) (v : Option Value) :
    Looks m (fun _ => True) (Interp.fillCharacter name v) := by
  cases v with
  | none => exact .ret ⟨rfl, trivial⟩
  | some v =>
    refine .after (textParameter name v) fun cs _ => ?_
    split
    · exact .ret ⟨rfl, trivial⟩
    · exact .fault _

-- Texts refer to no object.
theorem allocTexts {α : Type} (pieces : List α) {f : α → Value} (hf : ∀ a, ∃ s, f a = .str s) :
    Safe m (Run.allocList (pieces.map f).toArray) := by
  refine .alloc (hosts_toArray fun v here => ?_) rfl
  obtain ⟨a, -, rfl⟩ := List.mem_map.1 here
  obtain ⟨s, same⟩ := hf a
  rw [same]
  trivial

theorem splitMethod (cs : List Char) (args : List Value) (keywords : Keywords) :
    Safe m (Interp.splitMethod cs args keywords) := by
  have pieces : ∀ {m} (pieces : List (List Char)),
      Safe m (Run.allocList (pieces.map Interp.text).toArray) := fun pieces =>
    allocTexts pieces fun cs => ⟨_, rfl⟩
  refine .after (arity ..) fun _ _ => .after (finish ..) fun _ _ =>
    .after (intParameter? ..) fun _ _ => ?_
  split
  · exact .bind (A := fun _ _ => True) (.ret trivial) fun _ _ _ _ => pieces _
  · exact .bind (A := fun _ _ => True) (.ret trivial) fun _ _ _ _ => pieces _
  · exact .after (textParameter ..) fun _ _ => .ite (fun _ => .raise _) fun _ =>
      .bind (A := fun _ _ => True) (.ret trivial) fun _ _ _ _ => pieces _

theorem findMethod (cs : List Char) (name : String) (args : List Value) :
    Safe m (Interp.findMethod cs name args) := by
  refine .after (arity ..) fun _ _ => .after (textParameter ..) fun _ _ =>
    .after (intParameter? ..) fun _ _ => .after (intParameter? ..) fun _ _ =>
      .after (sliceOf ..) fun _ _ => .ite (fun _ => .ret trivial) fun _ => ?_
  split
  · exact .ret trivial
  · exact .ite (fun _ => .fault _) fun _ => .ret trivial

theorem fillMethod (cs : List Char) (name : String) (args : List Value) :
    Safe m (Interp.fillMethod cs name args) :=
  .after (arity ..) fun _ _ => .after (intParameter ..) fun _ _ =>
    .ite (fun _ => .ret trivial) fun _ => .after (fillCharacter ..) fun _ _ => .ret trivial

theorem stripMethod (cs : List Char) (name : String) (args : List Value) :
    Safe m (Interp.stripMethod cs name args) := by
  refine .after (arity ..) fun _ _ => ?_
  dsimp only
  split
  · exact .bind (A := fun _ _ => True) (.ret trivial) fun _ _ _ _ => .ret trivial
  · exact .bind (A := fun _ _ => True) (.ret trivial) fun _ _ _ _ => .ret trivial
  · exact .after (textParameter ..) fun _ _ =>
      .bind (A := fun _ _ => True) (.ret trivial) fun _ _ _ _ => .ret trivial

theorem plainMethod (s name : String) : Safe m (Interp.plainMethod s name) := by
  unfold Interp.plainMethod
  dsimp only
  split
  all_goals first
    | exact .ret trivial
    | exact allocTexts _ fun s => ⟨s, rfl⟩

end Sound

namespace Interp.Sound

variable {r : Interp} (R : r.Sound) {m : Machine}
include R

theorem textMethod (s name : String) {args : List Value} {keywords : Keywords}
    (hargs : m.heap.Hosts args) : Safe m (r.textMethod s name args keywords) := by
  refine .ite (fun _ => .onHeap fun _ => .after (.check _) fun _ _ => .ret trivial) fun _ =>
    .ite (fun _ => .splitMethod ..) fun _ => .after (.finish ..) fun _ _ => ?_
  split
  iterate 11 exact .after (.arity ..) fun _ _ => .plainMethod ..
  iterate 3 exact .stripMethod ..
  · exact .after (.arity ..) fun _ _ => .bind (R.collect (hosts_argument hargs 0)) fun _ _ _ _ =>
      .after (.joinable ..) fun _ _ => .ret trivial
  · exact .after (.arity ..) fun _ _ => .after (.textParameter ..) fun _ _ =>
      .after (.textParameter ..) fun _ _ => .after (.intParameter? ..) fun _ _ => .ret trivial
  iterate 2 exact .after (.arity ..) fun _ _ => .after (.affixes ..) fun _ _ => .ret trivial
  iterate 4 exact .findMethod ..
  iterate 4 exact .fillMethod ..
  exact .noMethod ..

theorem builtinMethod {receiver : Value} (name : String) {args : List Value} {keywords : Keywords}
    (hargs : m.heap.Hosts args) (hkeywords : m.heap.Hosts keywords) :
    Safe m (r.builtinMethod receiver name args keywords) := by
  unfold Interp.builtinMethod
  split
  · exact R.textMethod _ _ hargs
  · refine .onHeap fun intact => .ite (fun _ => .noMethod ..) fun _ => ?_
    split
    · exact R.listMethod _ _ hargs hkeywords
    · exact R.dictMethod _ _ hargs hkeywords
    · exact R.setMethod _ _ hargs
    · exact R.dequeMethod _ _ hargs
    · next found =>
      exact .after (.finish ..) fun _ _ => R.searchMethod _ _ (intact.deref? found) hargs
    · exact .noMethod ..

end Interp.Sound

end StepTrace
