import StepTrace.Proofs.Soundness.World

/-!
What is computed from values at home on a heap is at home there.
-/

set_option autoImplicit false

namespace StepTrace

namespace Heap

variable {h : Heap} {α β κ : Type} [Resident α] [Resident β]

theorem hosts_cons {a : α} {as : List α} (ha : h.Hosts a) (has : h.Hosts as) :
    h.Hosts (a :: as) :=
  List.forall_mem_cons.2 ⟨ha, has⟩

theorem hosts_uncons {a : α} {as : List α} (has : h.Hosts (a :: as)) : h.Hosts a ∧ h.Hosts as :=
  List.forall_mem_cons.1 has

theorem hosts_reverseAux {as bs : List α} (has : h.Hosts as) (hbs : h.Hosts bs) :
    h.Hosts (as.reverseAux bs) := by
  intro a ha
  rw [List.reverseAux_eq, List.mem_append, List.mem_reverse] at ha
  exact ha.elim (has a) (hbs a)

theorem hosts_push {as : Array α} {a : α} (has : h.Hosts as) (ha : h.Hosts a) :
    h.Hosts (as.push a) := by
  intro b hb
  rcases Array.mem_push.1 hb with old | rfl
  · exact has b old
  · exact ha

theorem hosts_toList {as : Array α} (has : h.Hosts as) : h.Hosts as.toList :=
  fun a ha => has a (Array.mem_toList_iff.1 ha)

theorem hosts_toArray {as : List α} (has : h.Hosts as) : h.Hosts as.toArray :=
  fun a ha => has a (List.mem_toArray.1 ha)

-- Arrays whose items come from arrays at home.
theorem hosts_of_subset {as bs : Array α} (has : h.Hosts as) (sub : ∀ a ∈ bs, a ∈ as) :
    h.Hosts bs :=
  fun a ha => has a (sub a ha)

theorem hosts_append {as bs : Array α} (has : h.Hosts as) (hbs : h.Hosts bs) :
    h.Hosts (as ++ bs) :=
  fun a ha => (Array.mem_append.1 ha).elim (has a) (hbs a)

theorem hosts_ite {c : Prop} [Decidable c] {a b : α} (ha : h.Hosts a) (hb : h.Hosts b) :
    h.Hosts (if c then a else b) := by
  split
  · exact ha
  · exact hb

theorem hosts_some {a : α} (ha : h.Hosts a) : h.Hosts (some a) :=
  fun _ same => Option.some.inj same ▸ ha

theorem hosts_none : h.Hosts (none : Option α) := fun _ never => nomatch never

theorem hosts_getD {o : Option α} {a : α} (ho : h.Hosts o) (ha : h.Hosts a) :
    h.Hosts (o.getD a) := by
  cases o with
  | none => exact ha
  | some b => exact ho b rfl

theorem hosts_orElse {o p : Option α} (ho : h.Hosts o) (hp : h.Hosts p) :
    h.Hosts (o.orElse fun _ => p) := by
  cases o with
  | none => exact hp
  | some b => exact ho

theorem hosts_getElem? {as : Array α} (has : h.Hosts as) (i : Nat) : h.Hosts as[i]? :=
  fun a found => has a (Array.mem_of_getElem? found)

theorem hosts_getItem {items : Array Value} (hitems : h.Hosts items) (i : Nat) :
    h.Hosts (items.getD i .none) := by
  rw [Array.getD_eq_getD_getElem?]
  exact hosts_getD (hosts_getElem? hitems i) trivial

theorem hosts_item? {as : List α} (has : h.Hosts as) (i : Nat) : h.Hosts as[i]? :=
  fun a found => has a (List.mem_of_getElem? found)

theorem hosts_lookup {kvs : List (String × α)} (hkvs : h.Hosts kvs) (k : String) :
    h.Hosts (kvs.lookup k) := by
  intro a found
  obtain ⟨before, after, rfl, -⟩ := List.lookup_eq_some_iff.1 found
  exact (hkvs (k, a) (by simp)).2

/-! ### Dictionaries and sets -/

theorem hosts_values {m : Ordered κ α} (hm : h.Hosts m) : h.Hosts m.values := by
  intro a ha
  obtain ⟨e, he, rfl⟩ := List.mem_map.1 ha
  exact (hm e he).2

theorem hosts_dict_empty : h.Hosts DictObject.empty :=
  ⟨fun _ _ _ none => absurd none List.not_mem_nil, hosts_none⟩

theorem hosts_dict_get? {d : DictObject} (hd : h.Hosts d) (k : HashKey) : h.Hosts (d.get? k) := by
  intro v found
  obtain ⟨⟨key, v⟩, entry, rfl⟩ := Option.map_eq_some_iff.1 found
  exact (hd.1 k key v (Ordered.get?_eq_some_iff.1 entry)).2

theorem hosts_dict_insert {d : DictObject} (hd : h.Hosts d) {k : HashKey} {key v : Value}
    (keyed : h.Keyed k key) (hv : h.Hosts v) : h.Hosts (d.insert k key v) := by
  refine ⟨fun k' key' v' here => ?_, hd.2⟩
  rw [DictObject.toList_insert] at here
  split at here
  · obtain ⟨⟨k₀, key₀, v₀⟩, old, same⟩ := List.mem_map.1 here
    have kept := hd.1 k₀ key₀ v₀ old
    split at same <;> cases same
    · exact ⟨kept.1, hv⟩
    · exact kept
  · rcases List.mem_append.1 here with old | new
    · exact hd.1 k' key' v' old
    · cases List.mem_singleton.1 new
      exact ⟨keyed, hv⟩

theorem hosts_dict_erase {d : DictObject} (hd : h.Hosts d) (k : HashKey) :
    h.Hosts (d.erase k) := by
  refine ⟨fun k' key v here => hd.1 k' key v ?_, hd.2⟩
  rw [DictObject.erase, Ordered.toList_erase] at here
  exact (List.mem_filter.1 here).1

theorem hosts_dict_union {d e : DictObject} (hd : h.Hosts d) (he : h.Hosts e) :
    h.Hosts (d.union e) := by
  rw [DictObject.union, ← Array.foldl_toList]
  exact List.foldlRecOn _ _ hd fun d hd e here =>
    hosts_dict_insert hd (he.1 _ _ _ here).1 (he.1 _ _ _ here).2

theorem hosts_dict_keys {d : DictObject} (hd : h.Hosts d) : h.Hosts d.keys := by
  intro key here
  obtain ⟨_, pair, rfl⟩ := List.mem_map.1 here
  obtain ⟨⟨k, key, v⟩, entry, rfl⟩ := List.mem_map.1 pair
  exact (hd.1 k key v entry).1.1

-- The keys and values of a dictionary, pair by pair.
theorem hosts_dict_entries {d : DictObject} (hd : h.Hosts d) : h.Hosts d.entries.values := by
  intro pair here
  obtain ⟨⟨k, key, v⟩, entry, rfl⟩ := List.mem_map.1 here
  obtain ⟨keyed, hv⟩ := hd.1 k key v entry
  exact ⟨keyed.1, hv⟩

theorem hosts_set_empty : h.Hosts (Ordered.empty : SetObject) :=
  fun _ _ none => absurd none List.not_mem_nil

theorem hosts_set_insert {s : SetObject} (hs : h.Hosts s) {k : HashKey} {v : Value}
    (keyed : h.Keyed k v) : h.Hosts (s.insertNew k v) := by
  intro k' v' here
  rw [Ordered.toList_insertNew] at here
  split at here
  · exact hs k' v' here
  · rcases List.mem_append.1 here with old | new
    · exact hs k' v' old
    · cases List.mem_singleton.1 new
      exact keyed

theorem hosts_set_of_subset {s t : SetObject} (hs : h.Hosts s)
    (sub : ∀ e ∈ t.toList, e ∈ s.toList) : h.Hosts t :=
  fun k v here => hs k v (sub _ here)

theorem hosts_set_values {s : SetObject} (hs : h.Hosts s) : h.Hosts s.values := by
  intro v here
  obtain ⟨⟨k, v⟩, entry, rfl⟩ := List.mem_map.1 here
  exact (hs k v entry).1

-- Members of a set put into another one, where `f` puts in one.
theorem hosts_set_fold {s t : SetObject} (hs : h.Hosts s) (ht : h.Hosts t)
    {f : SetObject → HashKey → Value → SetObject}
    (hf : ∀ s k v, h.Hosts s → h.Keyed k v → h.Hosts (f s k v)) :
    h.Hosts (t.entries.foldl (fun s (k, v) => f s k v) s) := by
  rw [← Array.foldl_toList]
  exact List.foldlRecOn _ _ hs fun s hs e here => hf s _ _ hs (ht _ _ here)

theorem hosts_set_filter {s : SetObject} (hs : h.Hosts s) (p : HashKey → Value → Bool) :
    h.Hosts (s.filter p) :=
  hosts_set_of_subset hs fun e here => by
    rw [Ordered.toList_filter] at here
    exact (List.mem_filter.1 here).1

theorem hosts_set_erase {s : SetObject} (hs : h.Hosts s) (k : HashKey) : h.Hosts (s.erase k) :=
  hosts_set_of_subset hs fun e here => by
    rw [Ordered.toList_erase] at here
    exact (List.mem_filter.1 here).1

theorem hosts_set_eraseAt {s : SetObject} (hs : h.Hosts s) (i : Nat) : h.Hosts (s.eraseAt i) :=
  hosts_set_of_subset hs fun e here => by
    rw [Ordered.toList_eraseAt] at here
    exact List.mem_of_mem_eraseIdx here

theorem hosts_setOperator (op : BinaryOp) {s t u : SetObject} (hs : h.Hosts s) (ht : h.Hosts t)
    (done : setOperator op s t = some u) : h.Hosts u := by
  unfold setOperator at done
  split at done <;> cases done
  · exact hosts_set_fold hs ht fun s k v hs keyed => hosts_set_insert hs keyed
  · exact hosts_set_filter hs _
  · exact hosts_set_filter hs _
  · refine hosts_set_fold (f := fun t k v => if s.contains k then t else t.insertNew k v)
      (hosts_set_filter hs _) ht fun t k v ht keyed => ?_
    split
    · exact ht
    · exact hosts_set_insert ht keyed

/-! ### Objects and classes -/

theorem Intact.deref? (intact : h.Intact) {v : Value} {o : Object} (found : h.deref? v = some o) :
    h.Hosts o := by
  cases v with
  | ref id => exact intact.hosts id o found
  | _ => cases found

theorem walkClasses_some {h : Heap} {γ : Type} {answer : ObjId → ClassObject → Option γ}
    {bound : Nat} {id : Option ObjId} {a : γ} (found : h.walkClasses answer bound id = some a) :
    ∃ cls c, h.get? cls = some (.class c) ∧ answer cls c = some a := by
  induction bound generalizing id with
  | zero => cases found
  | succ bound ih =>
    cases id with
    | none => cases found
    | some id =>
      rw [walkClasses] at found
      split at found
      · next c here =>
        split at found
        · next b answered =>
          cases found
          exact ⟨id, c, here, answered⟩
        · exact ih found
      · cases found

theorem Intact.classAttr? (intact : h.Intact) {cls : ObjId} {name : String} {v : Value}
    (found : h.classAttr? cls name = some v) : h.Hosts v := by
  obtain ⟨_, c, here, attr⟩ := walkClasses_some found
  exact hosts_get? (intact.hosts _ _ here).2 attr

theorem Intact.inherited? (intact : h.Intact) {cls : ObjId} {name : String} {v : Value}
    (found : h.inherited? cls name = some v) : h.Hosts v := by
  rw [Heap.inherited?] at found
  split at found
  · obtain ⟨_, -, attr⟩ := Option.bind_eq_some_iff.1 found
    exact intact.classAttr? attr
  · cases found

theorem hosts_bound {receiver attr : Value} (hr : h.Hosts receiver) (ha : h.Hosts attr) :
    h.Hosts (h.bound receiver attr) := by
  cases attr with
  | ref f =>
    rw [Heap.bound]
    split
    · exact ⟨⟨hr, ha⟩, rfl⟩
    · exact ha
  | _ => exact ha

theorem Intact.typeOf (intact : h.Intact) (v : Value) : h.Hosts (h.typeOf v) := by
  cases v with
  | ref id =>
    unfold Heap.typeOf
    dsimp only
    split
    case h_7 i found => exact (intact.hosts id _ found).1.lt
    all_goals trivial
  | _ => trivial

theorem Intact.attr (intact : h.Intact) {v : Value} (hv : h.Hosts v) {name : String}
    {out : Outcome} (done : h.attr v name = .ok out) : h.Hosts out := by
  unfold Heap.attr at done
  dsimp only at done
  split at done
  case h_1 i found =>
    obtain ⟨cls, fields⟩ := intact.deref? found
    split at done
    · next w field =>
      cases done
      exact hosts_get? fields field
    · split at done
      · cases done
        exact cls.lt
      · split at done
        · next attr method =>
          cases done
          exact hosts_bound hv (intact.classAttr? method)
        · cases done
  case h_2 c found =>
    split at done
    · cases done
      trivial
    · split at done
      · next w attr =>
        cases done
        obtain ⟨_, -, attr⟩ := Option.bind_eq_some_iff.1 attr
        exact intact.classAttr? attr
      · cases done
  case h_3 m found =>
    split at done
    · next w attr =>
      cases done
      exact hosts_get? (intact.deref? found) attr
    · cases done
  case h_4 cls receiver found =>
    have hr := (intact.deref? found).2
    split at done
    · next attr method =>
      cases done
      exact hosts_bound hr (intact.inherited? method)
    · split at done <;> cases done
      exact ⟨hr, rfl⟩
  -- What is left are names and the methods of built-in types.
  case h_5 f found =>
    split at done
    · cases done
      trivial
    · split at done <;> cases done
      exact ⟨hv, rfl⟩
  case h_6 kind message found =>
    split at done
    · cases done
      refine ⟨fun w here => ?_, rfl⟩
      split at here
      · exact absurd here (Array.not_mem_empty _)
      · cases Array.mem_singleton.1 here
        trivial
    · split at done <;> cases done
      exact ⟨hv, rfl⟩
  case h_7 =>
    split at done
    · split at done
      · cases done
        trivial
      · split at done <;> cases done
        exact ⟨hv, rfl⟩
    · split at done <;> cases done
      exact ⟨hv, rfl⟩

/-! ### Operators -/

theorem hosts_repeated {items : Array Value} (hitems : h.Hosts items) (times : Nat) :
    h.Hosts (repeated items times) := by
  unfold repeated
  induction times with
  | zero => exact hosts_empty
  | succ k ih =>
    rw [Nat.fold_succ]
    exact hosts_append ih hitems

theorem hosts_repeatedObject {o p : Object} (ho : h.Hosts o) {times : Nat}
    (done : repeatedObject o times = some (.ok p)) : h.Hosts p ∧ p.tracker? = none := by
  cases o with
  | list l =>
    simp only [repeatedObject, Option.some.injEq] at done
    split at done <;> cases done
    exact ⟨hosts_repeated ho times, rfl⟩
  | tuple items =>
    simp only [repeatedObject, Option.some.injEq] at done
    split at done <;> cases done
    exact ⟨hosts_repeated ho times, rfl⟩
  | _ => cases done

theorem hosts_containerOperator {op : BinaryOp} {l r o : Object} (hl : h.Hosts l) (hr : h.Hosts r)
    (done : containerOperator op l r = some o) : h.Hosts o ∧ o.tracker? = none := by
  unfold containerOperator at done
  split at done
  · cases done
    exact ⟨hosts_append hl hr, rfl⟩
  · cases done
    exact ⟨hosts_append hl hr, rfl⟩
  · cases done
    exact ⟨hosts_append hl hr, rfl⟩
  · obtain ⟨u, combined, rfl⟩ := Option.map_eq_some_iff.1 done
    exact ⟨hosts_setOperator op hl hr combined, rfl⟩
  · cases done
    exact ⟨hosts_dict_union hl hr, rfl⟩
  · cases done

theorem Intact.containerOperator? (intact : h.Intact) {op : BinaryOp} {a b : Value} {o : Object}
    (done : h.containerOperator? op a b = some (.ok o)) : h.Hosts o ∧ o.tracker? = none := by
  unfold Heap.containerOperator? at done
  split at done
  · next l r left right =>
    obtain ⟨p, combined, same⟩ := Option.map_eq_some_iff.1 done
    cases same
    exact hosts_containerOperator (intact.deref? left) (intact.deref? right) combined
  · next l left _ =>
    split at done
    · obtain ⟨n, -, repeated⟩ := Option.bind_eq_some_iff.1 done
      exact hosts_repeatedObject (intact.deref? left) repeated
    · cases done
  · next r _ right =>
    split at done
    · obtain ⟨n, -, repeated⟩ := Option.bind_eq_some_iff.1 done
      exact hosts_repeatedObject (intact.deref? right) repeated
    · cases done
  · cases done

-- What is made of numbers and texts refers to no object.
theorem hosts_map {γ : Type} {e : Except Fault γ} {f : γ → Value} {v : Value}
    (plain : ∀ c, h.Hosts (f c)) (done : f <$> e = .ok v) : h.Hosts v := by
  obtain ⟨c, -, rfl⟩ := Except.of_map_ok done
  exact plain c

theorem hosts_ofInts {op : BinaryOp} {a b : Int64} {v : Value}
    (done : Arithmetic.ofInts op a b = .ok v) : h.Hosts v := by
  have ints : ∀ {e : Except Fault Int64}, .int <$> e = Except.ok v → h.Hosts v :=
    hosts_map (f := .int) fun _ => trivial
  cases op <;> simp only [Arithmetic.ofInts] at done
  case add | sub | mul | floorDiv | mod => exact ints done
  case bitAnd | bitOr | bitXor =>
    cases done
    trivial
  case div | shiftRight =>
    split at done <;> cases done
    trivial
  case shiftLeft =>
    split at done
    · cases done
    · exact ints done
  case pow =>
    split at done
    · split at done <;> cases done
      trivial
    · exact ints done

theorem Intact.binary (intact : h.Intact) {op : BinaryOp} {a b : Value} {out : Outcome}
    (done : h.binary op a b = .ok out) : h.Hosts out := by
  unfold Heap.binary at done
  dsimp only at done
  split at done
  iterate 3
    · cases done
      trivial
  split at done
  · obtain ⟨v, result, rfl⟩ := Except.of_map_ok done
    exact hosts_ofInts (v := v) result
  · split at done
    · split at done
      · obtain ⟨f, -, rfl⟩ := Except.of_map_ok done
        trivial
      · cases done
    · split at done
      · obtain ⟨s, -, rfl⟩ := Except.of_map_ok done
        trivial
      · split at done
        · next e combined =>
          obtain ⟨o, result, rfl⟩ := Except.of_map_ok done
          rw [result] at combined
          exact intact.containerOperator? combined
        · cases done

theorem hosts_unary {op : UnaryOp} {v w : Value} (done : h.unary op v = .ok w) : h.Hosts w := by
  unfold Heap.unary at done
  dsimp only at done
  split at done
  iterate 3
    · cases done
      trivial
  split at done
  · exact hosts_map (f := .int) (fun _ => trivial) done
  · cases done
    trivial
  · cases done
    trivial
  · cases done

theorem hosts_ofFloats (op : BinaryOp) {a b : Float} {v : Value}
    (done : (match Arithmetic.ofFloats? op a b with
      | some r => Value.float <$> r
      | none => .ok .none) = .ok v) : h.Hosts v := by
  split at done
  · exact hosts_map (f := .float) (fun _ => trivial) done
  · cases done
    trivial

theorem hosts_divMod {a b q m : Value} (done : Arithmetic.divMod a b = .ok (q, m)) :
    h.Hosts q ∧ h.Hosts m := by
  unfold Arithmetic.divMod at done
  split at done
  · obtain ⟨q, quotient, done⟩ := Except.of_bind_ok done
    obtain ⟨m, remainder, done⟩ := Except.of_bind_ok done
    cases done
    exact ⟨hosts_ofInts quotient, hosts_ofInts remainder⟩
  · obtain ⟨q, quotient, done⟩ := Except.of_bind_ok done
    obtain ⟨m, remainder, done⟩ := Except.of_bind_ok done
    cases done
    exact ⟨hosts_ofFloats .floorDiv quotient, hosts_ofFloats .mod remainder⟩

/-! ### Sequences -/

theorem Intact.sequencePair? (intact : h.Intact) {a b : Value} {xs ys : List Value}
    (found : h.sequencePair? a b = some (xs, ys)) : h.Hosts xs ∧ h.Hosts ys := by
  unfold Heap.sequencePair? at found
  split at found
  · next l r left right =>
    cases found
    exact ⟨hosts_toList (intact.deref? left), hosts_toList (intact.deref? right)⟩
  · next l r left right =>
    cases found
    exact ⟨hosts_toList (intact.deref? left), hosts_toList (intact.deref? right)⟩
  · cases found

theorem Intact.iteration? (intact : h.Intact) {v : Value} {it : Iteration}
    (found : h.iteration? v = some it) : h.Hosts it := by
  unfold Heap.iteration? at found
  split at found
  · next s =>
    cases found
    intro w here
    obtain ⟨c, -, rfl⟩ := List.mem_map.1 here
    trivial
  · next id =>
    split at found <;> cases found
    · trivial
    · trivial
    · next items here => exact hosts_toList (intact.hosts id _ here)
    · next items here => exact hosts_toList (intact.hosts id _ here)
    · next d here => exact hosts_dict_keys (intact.hosts id _ here)
    · next s here => exact hosts_set_values (intact.hosts id _ here)
  · cases found

theorem Intact.next? (intact : h.Intact) {it rest : Iteration} {v : Value} (hit : h.Hosts it)
    (found : it.next? h = some (v, rest)) : h.Hosts v ∧ h.Hosts rest := by
  cases it with
  | progression n step remaining =>
    cases remaining <;> cases found
    exact ⟨trivial, trivial⟩
  | live id i =>
    rw [Iteration.next?] at found
    split at found
    · next l here =>
      obtain ⟨w, item, same⟩ := Option.map_eq_some_iff.1 found
      cases same
      exact ⟨hosts_getElem? (intact.hosts id _ here) i v item, trivial⟩
    · cases found
  | items others =>
    cases others <;> cases found
    exact hosts_uncons hit

theorem hosts_extract {items : Array Value} (hitems : h.Hosts items) (i j : Nat) :
    h.Hosts (items.extract i j) := by
  refine hosts_of_subset hitems fun v here => ?_
  rw [← Array.mem_toList_iff, Array.toList_extract] at here
  exact Array.mem_toList_iff.1 (List.mem_of_mem_drop (List.mem_of_mem_take here))

theorem Intact.toArray (intact : h.Intact) {it : Iteration} (hit : h.Hosts it) :
    h.Hosts (it.toArray h) := by
  cases it with
  | progression n step remaining =>
    intro v here
    obtain ⟨i, rfl⟩ := Array.mem_ofFn.1 here
    trivial
  | live id i =>
    rw [Iteration.toArray]
    split
    · next l here => exact hosts_extract (intact.hosts id _ here) i _
    · exact hosts_empty
  | items rest => exact hosts_toArray hit

/-! ### Items of arrays in another order, or some of them -/

theorem hosts_eraseIdx {items : Array Value} (hitems : h.Hosts items) (i : Nat) :
    h.Hosts (items.eraseIdxIfInBounds i) := by
  refine hosts_of_subset hitems fun v here => ?_
  rw [← Array.mem_toList_iff, Array.toList_eraseIdxIfInBounds] at here
  exact Array.mem_toList_iff.1 (List.mem_of_mem_eraseIdx here)

theorem hosts_pop {items : Array Value} (hitems : h.Hosts items) : h.Hosts items.pop := by
  refine hosts_of_subset hitems fun v here => ?_
  rw [← Array.mem_toList_iff, Array.toList_pop] at here
  exact Array.mem_toList_iff.1 ((List.dropLast_sublist _).subset here)

theorem hosts_insertIdx {items : Array Value} (hitems : h.Hosts items) (i : Nat) {v : Value}
    (hv : h.Hosts v) : h.Hosts (items.insertIdxIfInBounds i v) := by
  intro w here
  unfold Array.insertIdxIfInBounds at here
  split at here
  · rcases Array.mem_insertIdx.1 here with rfl | old
    · exact hv
    · exact hitems w old
  · exact hitems w here

theorem hosts_swap {items : Array Value} (hitems : h.Hosts items) (i j : Nat) :
    h.Hosts (items.swapIfInBounds i j) := by
  refine hosts_of_subset hitems fun v here => ?_
  unfold Array.swapIfInBounds at here
  split at here
  · split at here
    · next hi hj => exact (Array.swap_perm hi hj).mem_iff.1 here
    · exact here
  · exact here

theorem hosts_reverse {items : Array Value} (hitems : h.Hosts items) : h.Hosts items.reverse :=
  hosts_of_subset hitems fun _ here => Array.mem_reverse.1 here

theorem hosts_select {items : Array Value} (hitems : h.Hosts items) (s : Slice) :
    h.Hosts (s.select items) := by
  refine hosts_toArray fun v here => ?_
  obtain ⟨i, -, item⟩ := List.mem_filterMap.1 here
  exact hosts_getElem? hitems i v item

theorem hosts_replace {items new : Array Value} (hitems : h.Hosts items) (hnew : h.Hosts new)
    (s : Slice) : h.Hosts (s.replace items new) := by
  exact List.foldlRecOn _ _ hitems fun items hitems e here =>
    hosts_set hitems _ (hosts_toList hnew _ (List.of_mem_zip here).2)

theorem hosts_remove {items : Array Value} (hitems : h.Hosts items) (s : Slice) :
    h.Hosts (s.remove items) := by
  refine hosts_of_subset hitems fun v here => ?_
  obtain ⟨⟨w, keep⟩, pair, kept⟩ := Array.mem_filterMap.1 here
  simp only [Option.ite_none_right_eq_some] at kept
  cases kept.2
  rw [← Array.mem_toList_iff, Array.toList_zip] at pair
  exact Array.mem_toList_iff.1 (List.of_mem_zip pair).1

theorem hosts_spliced {items new : Array Value} (hitems : h.Hosts items) (hnew : h.Hosts new)
    (i count : Nat) : h.Hosts (spliced items i count new) :=
  hosts_append (hosts_append (hosts_extract hitems _ _) hnew) (hosts_extract hitems _ _)

/-! ### Arguments -/

theorem hosts_fillKeyword {f : FunctionObject} {slots slots' : List (Option Value)}
    {kw : String × Value} (hslots : h.Hosts slots) (hkw : h.Hosts kw)
    (done : f.fillKeyword slots kw = .ok slots') : h.Hosts slots' := by
  unfold FunctionObject.fillKeyword at done
  split at done
  · cases done
  · split at done <;> cases done
    intro slot here
    rcases List.mem_or_eq_of_mem_set here with old | rfl
    · exact hslots slot old
    · exact hosts_some hkw.2

theorem hosts_fillKeywords {f : FunctionObject} {keywords : Keywords}
    {slots slots' : List (Option Value)} (hslots : h.Hosts slots) (hkeywords : h.Hosts keywords)
    (done : keywords.foldlM f.fillKeyword slots = .ok slots') : h.Hosts slots' := by
  induction keywords generalizing slots with
  | nil =>
    cases done
    exact hslots
  | cons kw rest ih =>
    obtain ⟨hkw, hrest⟩ := hosts_uncons hkeywords
    rw [List.foldlM_cons] at done
    obtain ⟨next, filled, done⟩ := Except.of_bind_ok done
    exact ih (hosts_fillKeyword hslots hkw filled) hrest done

theorem hosts_default? {f : FunctionObject} (hf : h.Hosts f.defaults) (i : Nat) :
    h.Hosts (f.default? i) := by
  unfold FunctionObject.default?
  dsimp only
  split
  · exact hosts_item? hf _
  · exact hosts_none

theorem hosts_bind {f : FunctionObject} {args : List Value} {keywords : Keywords}
    {vars : Namespace} (hf : h.Hosts f.defaults) (hargs : h.Hosts args)
    (hkeywords : h.Hosts keywords) (done : f.bind args keywords = .ok vars) : h.Hosts vars := by
  have hslots : h.Hosts (args.map some ++
      List.replicate (f.params.length - args.length) (none : Option Value)) := by
    intro slot here
    rcases List.mem_append.1 here with given | missing
    · obtain ⟨v, hv, rfl⟩ := List.mem_map.1 given
      exact hosts_some (hargs v hv)
    · cases List.eq_of_mem_replicate missing
      exact hosts_none
  unfold FunctionObject.bind at done
  dsimp only at done
  split at done
  · cases done
  obtain ⟨slots, filled, done⟩ := Except.of_bind_ok done
  have hslots := hosts_fillKeywords hslots hkeywords filled
  split at done <;> cases done
  refine hosts_ofList fun entry here => ⟨trivial, ?_⟩
  obtain ⟨⟨p, slot⟩, pair, rfl⟩ := List.mem_map.1 here
  obtain ⟨i, hi, same⟩ := List.mem_mapIdx.1 (List.of_mem_zip pair).2
  subst same
  exact hosts_getD (hosts_orElse (hslots _ (List.getElem_mem hi)) (hosts_default? hf i)) trivial

theorem hashKey_str (h : Heap) (s : String) : h.hashKey (.str s) = .ok (.str s) := by
  rw [Heap.hashKey, hashKeys_cons]
  simp only [keyWithin, hashKeys]
  rfl

theorem hosts_addKeywords {d : DictObject} {keywords : Keywords} (hd : h.Hosts d)
    (hkeywords : h.Hosts keywords) : h.Hosts (addKeywords d keywords) := by
  unfold addKeywords
  induction keywords generalizing d with
  | nil => exact hd
  | cons kw rest ih =>
    obtain ⟨hkw, hrest⟩ := hosts_uncons hkeywords
    exact ih (hosts_dict_insert hd ⟨trivial, hashKey_str h kw.1⟩ hkw.2) hrest

-- The modules that can be imported hold built-in functions and numbers only.
theorem hosts_module? {name : String} {m : ModuleObject} (found : module? name = some m) :
    h.Hosts m.attrs := by
  obtain ⟨attrs, contents, rfl⟩ := Option.map_eq_some_iff.1 found
  have functions : ∀ fs, h.Hosts (functionsByName fs) := fun fs entry here => by
    obtain ⟨b, -, rfl⟩ := List.mem_map.1 here
    exact ⟨trivial, trivial⟩
  refine hosts_ofList ?_
  unfold moduleContents? at contents
  split at contents <;> cases contents
  · intro entry here
    rcases List.mem_append.1 here with function | constant
    · exact functions _ entry function
    · simp only [mathConstants, List.mem_cons, List.not_mem_nil, or_false] at constant
      rcases constant with rfl | rfl | rfl | rfl <;> exact ⟨trivial, trivial⟩
  · exact functions _
  · exact functions _
  · intro entry here
    obtain ⟨_, -, rfl⟩ := List.mem_map.1 here
    exact ⟨trivial, trivial⟩

end Heap

end StepTrace
