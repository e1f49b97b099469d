import StepTrace.Proofs.Soundness.Protocol

/-!
Elements, slices and attributes keep states intact. An element of a list is read and written at the
list that the heap holds under the id, so the access is noted under this id.
-/

set_option autoImplicit false

namespace StepTrace

open Heap

namespace Sound

variable {m : Machine}

theorem indexOf (container : String) (v : Value) :
    Looks m (fun _ => True) (Interp.indexOf container v) := by
  unfold Interp.indexOf
  split
  · exact .ret ⟨rfl, trivial⟩
  · exact .faultOn _

theorem inside (container : String) {found : Option Value} (hfound : m.heap.Hosts found) :
    Safe m (Interp.inside container found) := by
  cases found with
  | none => exact .fault _
  | some v => exact .ret (hfound v rfl)

theorem sliceOf (n : Nat) (b : SliceBounds) : Looks m (fun _ => True) (Interp.sliceOf n b) := by
  unfold Interp.sliceOf
  split
  · exact .ret ⟨rfl, trivial⟩
  · exact .fault _

theorem getSlice {object : Value} (b : SliceBounds) : Safe m (Interp.getSlice object b) := by
  unfold Interp.getSlice
  split
  · exact .after (sliceOf ..) fun _ _ => .ret trivial
  · refine .after (.deref? _) fun o ho => ?_
    obtain ⟨-, ho⟩ := ho
    split
    · exact .after (sliceOf ..) fun s _ => .alloc (hosts_select (ho _ rfl) s) rfl
    · exact .after (sliceOf ..) fun s _ => .alloc (hosts_select (ho _ rfl) s) rfl
    · exact .after (sliceOf ..) fun s _ => .alloc trivial rfl
    · exact .faultOn _

theorem listOf (object : Value) : Looks m (fun _ => True) (Interp.listOf object) := by
  cases object with
  | ref id =>
    refine .after (.deref? (.ref id)) fun o _ => ?_
    dsimp only
    split
    · exact .ret ⟨rfl, trivial⟩
    · exact .faultOn _
  | none | bool | int | float | str | builtin => exact .after (.deref? _) fun _ _ => .faultOn _

theorem deleteSlice (object : Value) (b : SliceBounds) : Safe m (Interp.deleteSlice object b) :=
  .after (listOf object) fun _ _ => .after (sliceOf ..) fun s _ =>
    .changeItems fun _ hitems => hosts_remove hitems s

theorem getAttr {object : Value} (hobject : m.heap.Hosts object) (name : String) :
    Safe m (Interp.getAttr object name) :=
  .onHeap fun intact => .after (.check _) fun _ done => .settle (intact.attr hobject done)

theorem noAttr (object : Value) (name : String) : Safe m (Interp.noAttr object name) := .faultOn _

theorem setAttr (object : Value) (name : String) {value : Value} (hvalue : m.heap.Hosts value) :
    Safe m (Interp.setAttr object name value) := by
  have set : ∀ id, Safe m (Run.change id (Object.mapAttrs (·.insert name value))) := fun id =>
    .mapAttrs fun _ hattrs => hosts_insert hattrs hvalue name
  cases object with
  | ref id =>
    refine .after (.deref? (.ref id)) fun o _ => ?_
    split
    · exact set _
    · exact set _
    · exact noAttr _ _
  | none | bool | int | float | str | builtin => exact .after (.deref? _) fun _ _ => noAttr _ _

theorem deleteAttr (object : Value) (name : String) : Safe m (Interp.deleteAttr object name) := by
  have erase : ∀ id, Safe m (Run.change id (Object.mapAttrs (·.erase name))) := fun id =>
    .mapAttrs fun _ hattrs => hosts_erase hattrs name
  cases object with
  | ref id =>
    refine .after (.deref? (.ref id)) fun o _ => ?_
    dsimp only
    split
    · exact .ite (fun _ => erase _) fun _ => noAttr _ _
    · exact .ite (fun _ => erase _) fun _ => noAttr _ _
    · exact noAttr _ _
  | none | bool | int | float | str | builtin => exact .after (.deref? _) fun _ _ => noAttr _ _

end Sound

namespace Interp.Sound

variable {r : Interp} (R : r.Sound) {m : Machine}
include R

theorem getEntry {id : ObjId} {entries : DictObject} {index : Value}
    (hentries : m.heap.Hosts entries) (hindex : m.heap.Hosts index) :
    Safe m (r.getEntry id entries index) := by
  refine .after (.keyOf index) fun key hkey => ?_
  split
  · next v found => exact .ret (hosts_dict_get? hentries key v found)
  · split
    · exact .faultOn _
    · exact .faultOn _
    · next factory _ given =>
      -- The call may change the heap, but the key of the index stays the same.
      refine .bind (R.call (hentries.2 factory given) hosts_nil hosts_nil) fun v m₁ l hv => ?_
      refine .bind (.mapDict fun d hd => ?_) fun _ _ l' _ => .ret (l'.keep hv)
      exact hosts_dict_insert hd ⟨l.keep hindex, l.hashKey hindex hkey⟩ hv

theorem getItem {object index : Value} (hobject : m.heap.Hosts object)
    (hindex : m.heap.Hosts index) : Safe m (r.getItem object index) := by
  unfold Interp.getItem
  split
  · exact .after (.indexOf ..) fun _ _ => .inside _ fun c found => by
      obtain ⟨_, -, rfl⟩ := Option.map_eq_some_iff.1 found
      trivial
  · next id =>
    refine .onHeap fun intact => ?_
    split
    · next l found => exact .after (.indexOf ..) fun i _ => .readElement found i
    · next items found =>
      exact .after (.indexOf ..) fun i _ => .inside _ fun v here => by
        obtain ⟨p, -, item⟩ := Option.bind_eq_some_iff.1 here
        exact hosts_getElem? (intact.hosts id _ found) p v item
    · next items found =>
      exact .after (.indexOf ..) fun i _ => .inside _ fun v here => by
        obtain ⟨p, -, item⟩ := Option.bind_eq_some_iff.1 here
        exact hosts_getElem? (intact.hosts id _ found) p v item
    · exact .after (.indexOf ..) fun i _ => .inside _ fun v here => by
        obtain ⟨n, -, rfl⟩ := Option.map_eq_some_iff.1 here
        trivial
    · next d found => exact R.getEntry (intact.hosts id _ found) hindex
    · exact .bind (R.special _ hobject (hosts_cons hindex hosts_nil)) fun
        | some v, _, _, hv => .ret (hv v rfl)
        | none, _, _, _ => .faultOn _
    · exact .faultOn _
  · exact .faultOn _

theorem setItem {object index value : Value} (hobject : m.heap.Hosts object)
    (hindex : m.heap.Hosts index) (hvalue : m.heap.Hosts value) :
    Safe m (r.setItem object index value) := by
  unfold Interp.setItem
  split
  · next id _ =>
    refine .onHeap fun intact => ?_
    split
    · next l found => exact .after (.indexOf ..) fun i _ => .writeElement found i hvalue
    · refine .after (.indexOf ..) fun i _ => ?_
      split
      · exact .mapDeque fun _ hitems => hosts_set hitems _ hvalue
      · exact .fault _
    · exact .after (.keyOf index) fun key hkey =>
        .mapDict fun _ hd => hosts_dict_insert hd ⟨hindex, hkey⟩ hvalue
    · exact .bind (R.special _ hobject (hosts_cons hindex (hosts_cons hvalue hosts_nil))) fun
        | some v, _, _, _ => .ret trivial
        | none, _, _, _ => .faultOn _
    · exact .faultOn _
  · exact .faultOn _

theorem deleteItem {object index : Value} (hobject : m.heap.Hosts object)
    (hindex : m.heap.Hosts index) : Safe m (r.deleteItem object index) := by
  unfold Interp.deleteItem
  split
  · next id _ =>
    refine .onHeap fun intact => ?_
    split
    · refine .after (.indexOf ..) fun i _ => ?_
      split
      · exact .changeItems fun _ hitems => hosts_eraseIdx hitems _
      · exact .fault _
    · refine .after (.indexOf ..) fun i _ => ?_
      split
      · exact .mapDeque fun _ hitems => hosts_eraseIdx hitems _
      · exact .fault _
    · exact .after (.keyOf index) fun key _ =>
        .ite (fun _ => .mapDict fun _ hd => hosts_dict_erase hd key) fun _ => .faultOn _
    · exact .bind (R.special _ hobject (hosts_cons hindex hosts_nil)) fun
        | some v, _, _, _ => .ret trivial
        | none, _, _, _ => .faultOn _
    · exact .faultOn _
  · exact .faultOn _

theorem sliceBound (m : Machine) (bound : Option Expr) : Safe m (r.sliceBound bound) := by
  cases bound with
  | none => exact .ret hosts_none
  | some e =>
    refine .bind (R.eval m e) fun v _ _ _ => ?_
    split
    · exact .ret hosts_none
    · split
      · exact .ret (hosts_some trivial)
      · exact .fault _

theorem sliceBounds (m : Machine) (lower upper step : Option Expr) :
    Safe m (r.sliceBounds lower upper step) :=
  .bind (R.sliceBound m lower) fun _ m₁ _ _ => .bind (R.sliceBound m₁ upper) fun _ m₂ _ _ =>
    .bind (R.sliceBound m₂ step) fun _ _ _ _ => .ret trivial

theorem setSlice {object value : Value} (b : SliceBounds) (hvalue : m.heap.Hosts value) :
    Safe m (r.setSlice object b value) :=
  .after (.listOf object) fun _ _ => .bind (R.collect hvalue) fun _ _ _ hnew =>
    .after (.listOf object) fun _ _ => .after (.sliceOf ..) fun s _ =>
      .ite (fun _ => .changeItems fun _ hitems => hosts_spliced hitems hnew _ _) fun _ =>
        .ite (fun _ => .changeItems fun _ hitems => hosts_replace hitems hnew s) fun _ => .fault _

end Interp.Sound

end StepTrace
