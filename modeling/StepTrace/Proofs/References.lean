import StepTrace.Proofs.Soundness.Hosting

/-!
The ids that a state mentions, and what is shown for one that leads nowhere: in an intact state all
of them lead somewhere, so neither text nor copy of a value depends on it.
-/

set_option autoImplicit false

namespace StepTrace

open Heap

/-! ### Mentioned ids -/

def Value.refs : Value → List ObjId
  | .ref id => [id]
  | _ => []

def refsOf (vs : List Value) : List ObjId := vs.flatMap Value.refs

def Namespace.refs (vars : Namespace) : List ObjId := refsOf vars.values

def Object.refs : Object → List ObjId
  | .list l => refsOf l.items.toList
  | .tuple items | .deque items => refsOf items.toList
  | .dict d => refsOf (d.entries.values.flatMap fun (key, v) => [key, v]) ++ refsOf d.factory.toList
  | .set s => refsOf s.values
  | .instance i => i.cls :: i.fields.refs
  | .class c => c.base.toList ++ c.attrs.refs
  | .function f => f.owner.toList ++ refsOf f.defaults
  | .boundMethod receiver f => f :: receiver.refs
  | .builtinMethod receiver _ => receiver.refs
  | .module m => m.attrs.refs
  | .super cls receiver => cls :: receiver.refs
  | .range _ | .exception _ _ => []

def Frame.refs (f : Frame) : List ObjId :=
  f.methodOf.toList.flatMap fun (cls, receiver) => cls :: receiver.refs

def Machine.refs (m : Machine) : List ObjId :=
  m.scopes.toList.flatMap (fun s => s.vars.refs) ++ (m.frame :: m.callers).flatMap Frame.refs ++
    refsOf (m.modules.map Prod.snd) ++ m.heap.objects.toList.flatMap Object.refs

-- The ids that are mentioned as those of classes.
def Object.classRefs : Object → List ObjId
  | .instance i => [i.cls]
  | .class c => c.base.toList
  | .function f => f.owner.toList
  | .super cls _ => [cls]
  | _ => []

def Frame.classRefs (f : Frame) : List ObjId := f.methodOf.toList.map Prod.fst

def Machine.classRefs (m : Machine) : List ObjId :=
  (m.frame :: m.callers).flatMap Frame.classRefs ++ m.heap.objects.toList.flatMap Object.classRefs

section

variable {h : Heap}

theorem refs_lt {v : Value} (hv : h.Hosts v) : ∀ id ∈ v.refs, id < h.size := by
  cases v with
  | ref id => exact List.forall_mem_singleton.2 hv
  | _ => exact List.forall_mem_nil _

theorem hosts_of_refs {v : Value} (lt : ∀ id ∈ v.refs, id < h.size) : h.Hosts v := by
  cases v with
  | ref id => exact lt id List.mem_cons_self
  | _ => trivial

theorem refsOf_lt {vs : List Value} (hvs : h.Hosts vs) : ∀ id ∈ refsOf vs, id < h.size :=
  List.forall_mem_flatMap.2 fun v hv => refs_lt (hvs v hv)

theorem namespace_refs_lt {vars : Namespace} (hvars : h.Hosts vars) :
    ∀ id ∈ vars.refs, id < h.size :=
  refsOf_lt (hosts_values hvars)

theorem option_lt {id? : Option ObjId} (classes : ∀ c, id? = some c → h.IsClass c) :
    ∀ id ∈ id?.toList, id < h.size :=
  fun id here => (classes id (Option.mem_toList.1 here)).lt

theorem object_refs_lt {o : Object} (ho : h.Hosts o) : ∀ id ∈ o.refs, id < h.size := by
  cases o with
  | list l => exact refsOf_lt (hosts_toList (show h.Hosts l.items from ho))
  | tuple items | deque items => exact refsOf_lt (hosts_toList (show h.Hosts items from ho))
  | dict d =>
    have hd : h.Hosts d := ho
    refine List.forall_mem_append.2 ⟨refsOf_lt fun v here => ?_, refsOf_lt fun v here => ?_⟩
    · obtain ⟨⟨key, w⟩, entry, here⟩ := List.mem_flatMap.1 here
      obtain ⟨hkey, hw⟩ := hosts_dict_entries hd (key, w) entry
      exact hosts_cons hkey (hosts_cons hw hosts_nil) v here
    · exact hd.2 v (Option.mem_toList.1 here)
  | set s => exact refsOf_lt (hosts_set_values (s := s) ho)
  | builtinMethod receiver => exact refs_lt (v := receiver) ho
  | module m => exact namespace_refs_lt (show h.Hosts m.attrs from ho)
  | «instance» i => exact List.forall_mem_cons.2 ⟨ho.1.lt, namespace_refs_lt ho.2⟩
  | super cls receiver => exact List.forall_mem_cons.2 ⟨ho.1.lt, refs_lt ho.2⟩
  | «class» c => exact List.forall_mem_append.2 ⟨option_lt ho.1, namespace_refs_lt ho.2⟩
  | «function» f => exact List.forall_mem_append.2 ⟨option_lt ho.1, refsOf_lt ho.2⟩
  | boundMethod receiver f => exact List.forall_mem_cons.2 ⟨ho.2, refs_lt ho.1⟩
  | range | exception => exact List.forall_mem_nil _

theorem object_classRefs {o : Object} (ho : h.Hosts o) : ∀ cls ∈ o.classRefs, h.IsClass cls := by
  cases o with
  | «instance» | super => exact List.forall_mem_singleton.2 ho.1
  | «class» | «function» => exact fun cls here => ho.1 cls (Option.mem_toList.1 here)
  | _ => exact List.forall_mem_nil _

end

namespace Machine.Intact

variable {m : Machine}

theorem stored (intact : m.Intact) : ∀ o ∈ m.heap.objects.toList, m.heap.Hosts o := by
  intro o ho
  obtain ⟨i, hi, rfl⟩ := Array.mem_iff_getElem.1 (Array.mem_toList_iff.1 ho)
  exact intact.heap.hosts i _ (Array.getElem?_eq_getElem hi)

theorem frames (intact : m.Intact) : ∀ f ∈ m.frame :: m.callers, m.heap.Hosts f :=
  List.forall_mem_cons.2 ⟨intact.frame, intact.callers⟩

theorem classRefs (intact : m.Intact) : ∀ cls ∈ m.classRefs, m.heap.IsClass cls := by
  refine List.forall_mem_append.2 ⟨List.forall_mem_flatMap.2 fun f hf cls here => ?_,
    List.forall_mem_flatMap.2 fun o ho => object_classRefs (intact.stored o ho)⟩
  obtain ⟨⟨_, receiver⟩, same, rfl⟩ := List.mem_map.1 here
  exact (intact.frames f hf _ receiver (Option.mem_toList.1 same)).1

theorem refs_lt (intact : m.Intact) : ∀ id ∈ m.refs, id < m.heap.size := by
  have frame : ∀ f : Frame, m.heap.Hosts f → ∀ id ∈ f.refs, id < m.heap.size := by
    intro f hf id here
    obtain ⟨⟨cls, receiver⟩, same, here⟩ := List.mem_flatMap.1 here
    obtain ⟨hcls, hreceiver⟩ := hf cls receiver (Option.mem_toList.1 same)
    rcases List.mem_cons.1 here with rfl | here
    · exact hcls.lt
    · exact StepTrace.refs_lt hreceiver id here
  simp only [Machine.refs, List.forall_mem_append]
  refine ⟨⟨⟨?_, ?_⟩, ?_⟩, ?_⟩
  · exact List.forall_mem_flatMap.2 fun s hs =>
      namespace_refs_lt (intact.scopes s (Array.mem_toList_iff.1 hs))
  · exact List.forall_mem_flatMap.2 fun f hf => frame f (intact.frames f hf)
  · refine refsOf_lt fun v here => ?_
    obtain ⟨entry, hentry, rfl⟩ := List.mem_map.1 here
    exact (intact.modules entry hentry).2
  · exact List.forall_mem_flatMap.2 fun o ho => object_refs_lt (intact.stored o ho)

end Machine.Intact

/-! ### Texts -/

theorem appendSeparated_congr {α : Type} {item item' : String → α → String} {as : List α}
    (same : ∀ out, ∀ a ∈ as, item out a = item' out a) (out : String) :
    appendSeparated item out as = appendSeparated item' out as := by
  induction as generalizing out with
  | nil => rfl
  | cons a rest ih =>
    have first := fun out => same out a List.mem_cons_self
    cases rest with
    | nil => exact first out
    | cons b rest =>
      change appendSeparated item (item out a ++ ", ") (b :: rest) =
        appendSeparated item' (item' out a ++ ", ") (b :: rest)
      rw [first, ih fun out c hc => same out c (List.mem_cons_of_mem _ hc)]

namespace Heap

-- The text of a value, with `missing` for what lies nowhere.
def appendValueOr (h : Heap) (missing : String) : Nat → List ObjId → String → Value → String
  | 0, _, out, _ => out
  | room + 1, active, out, v =>
    match v with
    | .ref id =>
      match h.get? id with
      | none => out ++ missing
      | some o =>
        if active.contains id then out ++ o.ellipsis
        else h.appendObject (h.appendValueOr missing room (id :: active)) out o
    | v => h.appendValue (room + 1) active out v

def reprOr (h : Heap) (missing : String) (v : Value) : String :=
  h.appendValueOr missing (h.size + 2) [] "" v

variable {h : Heap}

theorem appendValueOr_invalid (room : Nat) (active : List ObjId) (out : String) (v : Value) :
    h.appendValueOr "<invalid reference>" room active out v = h.appendValue room active out v := by
  induction room generalizing active out v with
  | zero => rfl
  | succ room ih =>
    cases v with
    | ref id =>
      have inner : h.appendValueOr "<invalid reference>" room (id :: active) =
          h.appendValue room (id :: active) := funext fun out => funext fun v => ih ..
      cases found : h.get? id with
      | none => simp only [appendValueOr, appendValue, found]
      | some o => simp only [appendValueOr, appendValue, found, inner]
    | _ => rfl

theorem appendObject_congr {item item' : String → Value → String}
    (same : ∀ out v, h.Hosts v → item out v = item' out v) {o : Object} (ho : h.Hosts o)
    (out : String) : h.appendObject item out o = h.appendObject item' out o := by
  have listed : ∀ {vs : List Value}, h.Hosts vs → ∀ out,
      appendSeparated item out vs = appendSeparated item' out vs := fun hvs =>
    appendSeparated_congr fun out v hv => same out v (hvs v hv)
  cases o with
  | list l =>
    have hitems : h.Hosts l.items := ho
    rw [appendObject, appendObject, listed (hosts_toList hitems)]
  | tuple items =>
    have hitems : h.Hosts items.toList := hosts_toList (show h.Hosts items from ho)
    unfold appendObject
    dsimp only
    split
    · next v single =>
      rw [single] at hitems
      rw [same _ v (hosts_uncons hitems).1]
    · rw [listed hitems]
  | deque items =>
    have hitems : h.Hosts items := ho
    rw [appendObject, appendObject, listed (hosts_toList hitems)]
  | set s => rw [appendObject, appendObject, listed (hosts_set_values (s := s) ho)]
  | dict d =>
    have hd : h.Hosts d := ho
    have entries : ∀ out, appendSeparated (fun out (kv : Value × Value) =>
          item (item out kv.1 ++ ": ") kv.2) out d.entries.values =
        appendSeparated (fun out kv => item' (item' out kv.1 ++ ": ") kv.2) out d.entries.values :=
      appendSeparated_congr fun out kv here => by
        obtain ⟨hkey, hv⟩ := hosts_dict_entries hd kv here
        rw [same _ _ hkey, same _ _ hv]
    unfold appendObject
    dsimp only
    split
    · next f given => rw [entries, same _ f (hd.2 f given)]
    · rw [entries]
  | _ => rfl

-- What is at home is shown the same, whatever stands for what lies nowhere.
theorem appendValueOr_congr (intact : h.Intact) (missing missing' : String) (room : Nat)
    (active : List ObjId) (out : String) {v : Value} (hv : h.Hosts v) :
    h.appendValueOr missing room active out v = h.appendValueOr missing' room active out v := by
  induction room generalizing active out v with
  | zero => rfl
  | succ room ih =>
    cases v with
    | ref id =>
      obtain ⟨o, found⟩ := get?_of_lt (h := h) hv
      rw [appendValueOr, appendValueOr, found]
      dsimp only
      rw [appendObject_congr (fun out v hv => ih (id :: active) out hv) (intact.hosts id o found)]
    | _ => rfl

theorem reprOr_eq (intact : h.Intact) (missing : String) {v : Value} (hv : h.Hosts v) :
    h.reprOr missing v = h.repr v :=
  (appendValueOr_congr intact _ _ _ _ _ hv).trans (appendValueOr_invalid ..)

/-! ### Copies -/

-- The copy of a value, with `missing` for what lies nowhere.
def captureWithinOr (h : Heap) (missing : ObjId → Snapshot) : Nat → List ObjId → Value → Snapshot
  | 0, _, _ => elided
  | room + 1, path, v =>
    match v with
    | .ref id =>
      if path.contains id then .cyclic (toString id)
      else
        match h.get? id with
        | none => missing id
        | some o => h.captureObject (h.captureWithinOr missing room (id :: path)) id o
    | v => h.captureWithin (room + 1) path v

def captureOr (h : Heap) (missing : ObjId → Snapshot) (maxDepth : Nat) (v : Value) : Snapshot :=
  h.captureWithinOr missing (maxDepth + 1) [] v

def dangling (id : ObjId) : Snapshot := .str ("<Error: dangling reference " ++ toString id ++ ">")

theorem captureWithinOr_dangling (room : Nat) (path : List ObjId) (v : Value) :
    h.captureWithinOr dangling room path v = h.captureWithin room path v := by
  induction room generalizing path v with
  | zero => rfl
  | succ room ih =>
    cases v with
    | ref id =>
      have inner : h.captureWithinOr dangling room (id :: path) =
          h.captureWithin room (id :: path) := funext fun v => ih ..
      cases found : h.get? id with
      | none => simp only [captureWithinOr, captureWithin, found, dangling]
      | some o => simp only [captureWithinOr, captureWithin, found, inner]
    | _ => rfl

theorem captureObject_congr {item item' : Value → Snapshot}
    (same : ∀ v, h.Hosts v → item v = item' v) (id : ObjId) {o : Object} (ho : h.Hosts o) :
    h.captureObject item id o = h.captureObject item' id o := by
  have listed : ∀ {vs : List Value}, h.Hosts vs → vs.map item = vs.map item' := fun hvs =>
    List.map_congr_left fun v hv => same v (hvs v hv)
  cases o with
  | list l =>
    have hitems : h.Hosts l.items := ho
    rw [captureObject, captureObject, listed (hosts_toList hitems)]
  | tuple items | deque items =>
    have hitems : h.Hosts items := ho
    rw [captureObject, captureObject, listed (hosts_toList hitems)]
  | set s => rw [captureObject, captureObject, listed (hosts_set_values (s := s) ho)]
  | dict d =>
    have hd : h.Hosts d := ho
    refine congrArg (fun entries => Snapshot.mapping (Ordered.ofList entries).toList) ?_
    exact List.map_congr_left fun kv here =>
      congrArg (Prod.mk (h.str kv.1)) (same kv.2 (hosts_dict_entries hd kv here).2)
  | «instance» i =>
    have fields : h.Hosts i.fields := ho.2
    refine congrArg (Snapshot.object (toString id) (h.className i.cls)) ?_
    refine List.map_congr_left fun e here => congrArg (Prod.mk e.1) (same e.2 ?_)
    rw [Ordered.toList_filter] at here
    exact (fields e (List.mem_filter.1 here).1).2
  | _ => rfl

theorem captureWithinOr_congr (intact : h.Intact) (missing missing' : ObjId → Snapshot)
    (room : Nat) (path : List ObjId) {v : Value} (hv : h.Hosts v) :
    h.captureWithinOr missing room path v = h.captureWithinOr missing' room path v := by
  induction room generalizing path v with
  | zero => rfl
  | succ room ih =>
    cases v with
    | ref id =>
      obtain ⟨o, found⟩ := get?_of_lt (h := h) hv
      rw [captureWithinOr, captureWithinOr, found]
      dsimp only
      rw [captureObject_congr (fun v hv => ih (id :: path) hv) id (intact.hosts id o found)]
    | _ => rfl

theorem captureOr_eq (intact : h.Intact) (missing : ObjId → Snapshot) (maxDepth : Nat) {v : Value}
    (hv : h.Hosts v) : h.captureOr missing maxDepth v = h.capture maxDepth v :=
  (captureWithinOr_congr intact _ _ _ _ hv).trans (captureWithinOr_dangling ..)

end Heap

end StepTrace
