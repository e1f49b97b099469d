import StepTrace.Proofs.EqualKeys.Numbers
import StepTrace.Proofs.Soundness.World

/-!
Equal values and their hash keys. Values that compare equal have one key unless they hold, at the
same place, two ranges or a large integer and a fraction: ranges count by their identity, and an
integer beyond 2 ^ 53 may be equal to a fraction that has another key.
-/

set_option autoImplicit false

namespace StepTrace

namespace Heap

-- Values with different keys that may be equal all the same.
inductive Apart (h : Heap) : Value → Value → Prop
  | ranges {x y : ObjId} {p q : Progression} (distinct : x ≠ y)
      (left : h.get? x = some (.range p)) (right : h.get? y = some (.range q)) :
      Apart h (.ref x) (.ref y)
  | rounded {a : Value} {n : Int64} {f : Float} (value : a.int? = some n)
      (long : 2 ^ 53 < n.toInt.natAbs) (other : floatKey f ≠ .int n) : Apart h a (.float f)
  | rounding {b : Value} {n : Int64} {f : Float} (value : b.int? = some n)
      (long : 2 ^ 53 < n.toInt.natAbs) (other : floatKey f ≠ .int n) : Apart h (.float f) b
  | tuples {x y : ObjId} {vs ws : Array Value} {v w : Value} (left : h.get? x = some (.tuple vs))
      (right : h.get? y = some (.tuple ws)) (pair : (v, w) ∈ vs.toList.zip ws.toList)
      (inside : Apart h v w) : Apart h (.ref x) (.ref y)

variable {h : Heap} {a b : Value} {j k : HashKey} {depth room : Nat}

/-! ### Numbers -/

theorem keyWithin_int {n : Int64} (value : a.int? = some n) : h.keyWithin depth a = .ok (.int n) := by
  cases a with
  | int | bool => rw [keyWithin, ← Option.some.inj value]
  | _ => cases value

theorem number_of_int {n : Int64} (value : a.int? = some n) : a.number = Number.ofWord n := by
  cases a with
  | int | bool => rw [← Option.some.inj value]; rfl
  | _ => cases value

-- A number that is no integer is a fraction.
theorem float_of_number (number : a.isNumber = true) (other : a.int? = none) :
    ∃ f, a = .float f := by
  cases a with
  | float f => exact ⟨f, rfl⟩
  | int | bool => cases other
  | _ => cases number

theorem floatKey_int {n : Int64} {f : Float} (same : floatKey f = floatKey (Number.ofWord n)) :
    .int n = floatKey f ∨ (2 ^ 53 < n.toInt.natAbs ∧ floatKey f ≠ .int n) := by
  by_cases key : floatKey f = .int n
  next => exact .inl key.symm
  next =>
    refine .inr ⟨Nat.lt_of_not_le fun short => ?_, key⟩
    exact key (same.trans (Number.floatKey_ofWord short))

theorem keyWithin_numbers (ha : a.isNumber = true) (hb : b.isNumber = true)
    (same : (match a.int?, b.int? with
      | some x, some y => x == y
      | _, _ => a.number == b.number) = true)
    (hj : h.keyWithin depth a = .ok j) (hk : h.keyWithin depth b = .ok k) :
    j = k ∨ h.Apart a b := by
  cases left : a.int? with
  | some n =>
    obtain rfl := Except.ok.inj (hj.symm.trans (keyWithin_int left))
    cases right : b.int? with
    | some m =>
      obtain rfl := Except.ok.inj (hk.symm.trans (keyWithin_int right))
      rw [left, right] at same
      exact .inl (congrArg HashKey.int (eq_of_beq same))
    | none =>
      obtain ⟨f, rfl⟩ := float_of_number hb right
      obtain rfl := Except.ok.inj hk
      rw [left, right, number_of_int left] at same
      exact (floatKey_int (Number.floatKey_congr same).symm).imp id fun apart =>
        .rounded left apart.1 apart.2
  | none =>
    obtain ⟨f, rfl⟩ := float_of_number ha left
    obtain rfl := Except.ok.inj hj
    rw [left] at same
    cases right : b.int? with
    | some m =>
      obtain rfl := Except.ok.inj (hk.symm.trans (keyWithin_int right))
      rw [number_of_int right] at same
      exact (floatKey_int (Number.floatKey_congr same)).imp Eq.symm fun apart =>
        .rounding right apart.1 apart.2
    | none =>
      obtain ⟨g, rfl⟩ := float_of_number hb right
      obtain rfl := Except.ok.inj hk
      exact .inl (Number.floatKey_congr same)

/-! ### Items of tuples -/

theorem hashKeys_equal {R : Value → Value → Prop} {vs ws : List Value} {js ks : List HashKey}
    (single : ∀ v w depth j k, R v w → h.keyWithin depth v = .ok j → h.keyWithin depth w = .ok k →
      j = k ∨ h.Apart v w)
    (pairs : List.Forall₂ R vs ws) (hj : h.hashKeys depth vs = .ok js)
    (hk : h.hashKeys depth ws = .ok ks) :
    js = ks ∨ ∃ v w, (v, w) ∈ vs.zip ws ∧ h.Apart v w := by
  induction pairs generalizing js ks with
  | nil => exact .inl (Except.ok.inj (hj.symm.trans hk))
  | @cons v w vs ws first _ ih =>
    cases depth with
    | zero =>
      rw [hashKeys] at hj hk
      exact .inl (Except.ok.inj (hj.symm.trans hk))
    | succ depth =>
      rw [hashKeys_cons] at hj hk
      obtain ⟨j, hj₁, hj⟩ := Except.of_bind_ok hj
      obtain ⟨js, hj₂, ⟨⟩⟩ := Except.of_bind_ok hj
      obtain ⟨k, hk₁, hk⟩ := Except.of_bind_ok hk
      obtain ⟨ks, hk₂, ⟨⟩⟩ := Except.of_bind_ok hk
      obtain rfl | apart := single v w depth j k first hj₁ hk₁
      · obtain rfl | ⟨v', w', pair, apart⟩ := ih hj₂ hk₂
        · exact .inl rfl
        · exact .inr ⟨v', w', List.mem_cons_of_mem _ pair, apart⟩
      · exact .inr ⟨v, w, List.mem_cons_self, apart⟩

/-! ### Values -/

-- The key of a hashable object tells whether it is a tuple.
theorem keyWithin_tuple {id : ObjId} {items : Array Value}
    (found : h.get? id = some (.tuple items)) (key : h.keyWithin depth (.ref id) = .ok k) :
    ∃ ks, h.hashKeys depth items.toList = .ok ks ∧ k = .tuple ks := by
  rw [keyWithin, found] at key
  obtain ⟨ks, keys, rfl⟩ := Except.of_map_ok key
  exact ⟨ks, keys, rfl⟩

theorem keyWithin_equal (hj : h.keyWithin depth a = .ok j) (hk : h.keyWithin depth b = .ok k)
    (same : h.equalWithin room a b = true) : j = k ∨ h.Apart a b := by
  induction room generalizing a b depth j k with
  | zero => cases same
  | succ room ih =>
    rw [equalWithin.eq_def] at same
    dsimp only at same
    split at same
    next => exact .inl (Except.ok.inj (hj.symm.trans hk))
    next x y =>
      obtain rfl := eq_of_beq same
      exact .inl (Except.ok.inj (hj.symm.trans hk))
    next x y =>
      obtain rfl := eq_of_beq same
      exact .inl (Except.ok.inj (hj.symm.trans hk))
    next x y =>
      by_cases distinct : x = y
      next =>
        subst distinct
        exact .inl (Except.ok.inj (hj.symm.trans hk))
      rw [beq_false_of_ne distinct, Bool.false_or] at same
      split at same
      next l r left right =>
        cases l with
        | list | dict | set | deque =>
          rw [keyWithin, left] at hj
          cases hj
        | tuple vs =>
          cases r with
          | tuple ws =>
            obtain ⟨js, keys, rfl⟩ := keyWithin_tuple left hj
            obtain ⟨ks, keys', rfl⟩ := keyWithin_tuple right hk
            obtain ⟨size, each⟩ := Array.isEqv_iff_rel.1 same
            have pairs : List.Forall₂ (fun v w => h.equalWithin room v w = true) vs.toList ws.toList :=
              List.forall₂_iff_get.2 ⟨size, fun i inside _ => each i inside⟩
            obtain same | ⟨v, w, pair, apart⟩ :=
              hashKeys_equal (fun v w depth j k same hj hk => ih hj hk same) pairs keys keys'
            · exact .inl (congrArg HashKey.tuple same)
            · exact .inr (.tuples left right pair apart)
          | _ => cases same
        | range p =>
          cases r with
          | range q => exact .inr (.ranges distinct left right)
          | _ => cases same
        | _ => cases r <;> cases same
      next => cases same
    next =>
      simp only [Bool.and_eq_true] at same
      exact keyWithin_numbers same.1.1 same.1.2 same.2 hj hk

theorem hashKey_eq_keyWithin (v : Value) : h.hashKey v = h.keyWithin h.size v := by
  rw [hashKey, hashKeys_cons, hashKeys]
  cases h.keyWithin h.size v <;> rfl

end Heap

-- Such pairs apart, equal values have one key, and each finds what a dictionary has under the other.
theorem equal_values_share_key {h : Heap} {a b : Value} {j k : HashKey} (hj : h.hashKey a = .ok j)
    (hk : h.hashKey b = .ok k) (same : h.equal a b = true) :
    h.Apart a b ∨ j = k ∧
      ∀ (d : DictObject) (v : Value), (j, a, v) ∈ d.entries.toList → d.get? k = some v := by
  rw [Heap.hashKey_eq_keyWithin] at hj hk
  obtain rfl | apart := Heap.keyWithin_equal hj hk same
  · refine .inr ⟨rfl, fun d v here => ?_⟩
    rw [DictObject.get?, Ordered.get?_eq_some_iff.2 here, Option.map_some]
  · exact .inl apart

theorem equal_values_share_key_mixed_numbers :
    let h : Heap := ⟨#[.tuple #[.bool true, .float 2.0], .tuple #[.float 1.0, .int 2]], 10⟩
    let d := DictObject.empty.insert (.tuple [.int 1, .int 2]) (.ref 0) (.str "a")
    h.hashKey (.ref 0) = .ok (.tuple [.int 1, .int 2]) ∧
      h.hashKey (.ref 1) = .ok (.tuple [.int 1, .int 2]) ∧ h.equal (.ref 0) (.ref 1) = true ∧
      (h.Apart (.ref 0) (.ref 1) ∨ d.get? (.tuple [.int 1, .int 2]) = some (.str "a")) := by
  intro h d
  have two : Heap.floatKey 2.0 = .int 2 := by decide +kernel
  have one : Heap.floatKey 1.0 = .int 1 := by decide +kernel
  have hj : h.hashKey (.ref 0) = .ok (.tuple [.int 1, .int 2]) := by
    rw [Heap.hashKey_eq_keyWithin]
    change HashKey.tuple <$> h.hashKeys (1 + 1) [.bool true, .float 2.0] = _
    simp only [Heap.hashKeys_cons, Heap.hashKeys, Heap.keyWithin, two]
    rfl
  have hk : h.hashKey (.ref 1) = .ok (.tuple [.int 1, .int 2]) := by
    rw [Heap.hashKey_eq_keyWithin]
    change HashKey.tuple <$> h.hashKeys (1 + 1) [.float 1.0, .int 2] = _
    simp only [Heap.hashKeys_cons, Heap.hashKeys, Heap.keyWithin, one]
    rfl
  have same : h.equal (.ref 0) (.ref 1) = true := by decide +kernel
  have here : (.tuple [.int 1, .int 2], .ref 0, .str "a") ∈ d.entries.toList := by
    have nil : DictObject.empty.entries.keys = [] := rfl
    simp [d, DictObject.toList_insert, nil]
  exact ⟨hj, hk, same, (equal_values_share_key hj hk same).imp_right fun shared =>
    shared.2 d (.str "a") here⟩

-- Two ranges of the same items, and integers that are rounded to a fraction of another key.
theorem equal_values_of_different_keys :
    let h : Heap := ⟨#[.range ⟨0, 3, 1⟩, .range ⟨0, 3, 1⟩], 10⟩
    (h.equal (.ref 0) (.ref 1) = true ∧ h.hashKey (.ref 0) = .ok (.identity 0) ∧
      h.hashKey (.ref 1) = .ok (.identity 1)) ∧
    (h.equal (.int 9007199254740993) (.float 9007199254740992.0) = true ∧
      h.hashKey (.int 9007199254740993) = .ok (.int 9007199254740993) ∧
      h.hashKey (.float 9007199254740992.0) = .ok (.int 9007199254740992)) ∧
    (h.equal (.int 9200000000000000000) (.float 9.2e18) = true ∧
      h.hashKey (.int 9200000000000000000) = .ok (.int 9200000000000000000) ∧
      h.hashKey (.float 9.2e18) = .ok (.float (9.2e18 : Float).toBits)) := by
  have whole : Heap.floatKey 9007199254740992.0 = .int 9007199254740992 := by decide +kernel
  have large : Heap.floatKey 9.2e18 = .float (9.2e18 : Float).toBits := by decide +kernel
  simp only [Heap.hashKey_eq_keyWithin]
  exact ⟨⟨by decide +kernel, rfl, rfl⟩, ⟨by decide +kernel, rfl, congrArg Except.ok whole⟩,
    by decide +kernel, rfl, congrArg Except.ok large⟩

end StepTrace
