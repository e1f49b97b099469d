import Mathlib.Data.List.Nodup
import StepTrace.Proofs.Bodies

/-!
How the parameters of a function get their values. Every parameter is bound once: to the positional
argument at its place, or to the keyword argument of its name, or to its own default.
-/

set_option autoImplicit false

namespace StepTrace

/-! ### Lists read by names -/

section Names

variable {α : Type} {names : List String}

theorem lookup_zip (distinct : names.Nodup) (values : List α) {i : Nat} (here : i < names.length) :
    (names.zip values).lookup names[i] = values[i]? := by
  induction names generalizing values i with
  | nil => exact absurd here (Nat.not_lt_zero _)
  | cons name names ih =>
    obtain ⟨apart, distinct⟩ := List.nodup_cons.1 distinct
    cases values with
    | nil => simp
    | cons a values =>
      cases i with
      | zero => simp
      | succ i =>
        have inside : i < names.length := Nat.lt_of_succ_lt_succ here
        have other : names[i] ≠ name := fun same => apart (same ▸ List.getElem_mem inside)
        rw [List.getElem_cons_succ, List.zip_cons_cons, List.lookup_cons, beq_false_of_ne other]
        exact ih distinct values inside

theorem lookup_zip_isSome {values : List α} {name : String} :
    ((names.zip values).lookup name).isSome = true ↔ name ∈ names.take values.length := by
  induction names generalizing values with
  | nil => simp
  | cons first names ih =>
    cases values with
    | nil => simp
    | cons a values =>
      rw [List.zip_cons_cons, List.lookup_cons, List.length_cons, List.take_succ_cons,
        List.mem_cons]
      by_cases same : name = first
      · simp [same]
      · rw [beq_false_of_ne same, ih]
        simp [same]

theorem lookup_isSome_iff_mem {entries : List (String × α)} {name : String} :
    (entries.lookup name).isSome = true ↔ name ∈ entries.map Prod.fst := by
  rw [List.lookup_isSome_iff, List.mem_map]
  simp only [beq_iff_eq, eq_comm (a := name)]

end Names

namespace FunctionObject

variable {f : FunctionObject} {args : List Value} {done keywords : Keywords} {p : String}

-- The value that a call gives to a parameter.
def given (f : FunctionObject) (args : List Value) (keywords : Keywords) (p : String) :
    Option Value :=
  ((f.params.zip args).lookup p).or (keywords.lookup p)

-- The parameters without a default.
def required (f : FunctionObject) : List String :=
  f.params.take (f.params.length - f.defaults.length)

-- The default of a parameter: the last parameters have one each, in their order.
def ownDefault (f : FunctionObject) (p : String) : Option Value :=
  ((f.params.drop (f.params.length - f.defaults.length)).zip f.defaults).lookup p

-- The value that a parameter has in a call.
def valueOf (f : FunctionObject) (args : List Value) (keywords : Keywords) (p : String) :
    Option Value :=
  (f.given args keywords p).or (f.ownDefault p)

/-- The arguments that a function takes. -/
structure Accepts (f : FunctionObject) (args : List Value) (keywords : Keywords) : Prop where
  fits : args.length ≤ f.params.length
  known : ∀ kw ∈ keywords, kw.1 ∈ f.params
  /-- No parameter gets a positional and a keyword argument. -/
  apart : ∀ kw ∈ keywords, kw.1 ∉ f.params.take args.length
  /-- No parameter gets two keyword arguments. -/
  distinct : (keywords.map Prod.fst).Nodup
  complete : ∀ p ∈ f.required, (f.given args keywords p).isSome = true

/-! ### Positional arguments and defaults -/

theorem given_isSome : (f.given args keywords p).isSome = true ↔
    p ∈ f.params.take args.length ∨ p ∈ keywords.map Prod.fst := by
  rw [given, Option.isSome_or, Bool.or_eq_true, lookup_zip_isSome, lookup_isSome_iff_mem]

-- The positional arguments fill the first places.
theorem given_nil (distinct : f.params.Nodup) (fits : args.length ≤ f.params.length) :
    args.map some ++ List.replicate (f.params.length - args.length) none =
      f.params.map (f.given args []) := by
  refine List.ext_getElem ?_ fun i _ here => ?_
  · simp [Nat.add_sub_cancel' fits]
  · rw [List.length_map] at here
    rw [List.getElem_map, given, lookup_zip distinct _ here, List.lookup_nil, Option.or_none,
      List.getElem_append]
    simp only [List.length_map, List.getElem_map, List.getElem_replicate]
    split
    · next positional => exact (List.getElem?_eq_getElem positional).symm
    · next late => exact (List.getElem?_eq_none (Nat.le_of_not_lt late)).symm

-- The default at a place is the one of the parameter there.
theorem default?_eq (distinct : f.params.Nodup) {i : Nat} (here : i < f.params.length) :
    f.default? i = f.ownDefault f.params[i] := by
  unfold default? ownDefault
  generalize f.params.length - f.defaults.length = first
  dsimp only
  split
  · next late =>
    have inside : i - first < (f.params.drop first).length := by
      rw [List.length_drop]
      omega
    have same : f.params[i] = (f.params.drop first)[i - first] := by
      simp only [List.getElem_drop, Nat.add_sub_cancel' late]
    rw [same, lookup_zip (distinct.sublist (List.drop_sublist _ _)) _ inside]
  · next early =>
    refine (Option.not_isSome_iff_eq_none.1 fun found => early ?_).symm
    obtain ⟨j, inside, same⟩ :=
      List.mem_iff_getElem.1 (List.mem_of_mem_take (lookup_zip_isSome.1 found))
    rw [List.getElem_drop, distinct.getElem_inj_iff] at same
    exact same ▸ Nat.le_add_right first j

theorem ownDefault_isSome (defaulted : f.defaults.length ≤ f.params.length) :
    (f.ownDefault p).isSome = true ↔ p ∈ f.params.drop (f.params.length - f.defaults.length) := by
  have all : (f.params.drop (f.params.length - f.defaults.length)).length ≤ f.defaults.length := by
    rw [List.length_drop]
    omega
  rw [ownDefault, lookup_zip_isSome, List.take_of_length_le all]

/-! ### Keyword arguments -/

theorem given_concat (kw : String × Value) : f.given args (done ++ [kw]) p =
    (f.given args done p).or (if p = kw.1 then some kw.2 else none) := by
  obtain ⟨name, v⟩ := kw
  rw [given, given, List.lookup_append, Option.or_assoc, List.lookup_cons, List.lookup_nil]
  by_cases same : p = name
  · rw [if_pos same, same, beq_self_eq_true]
  · rw [if_neg same, beq_false_of_ne same]

-- A keyword argument fills the place of its parameter, which has to be empty.
theorem fillKeyword_given (distinct : f.params.Nodup) (kw : String × Value) :
    f.fillKeyword (f.params.map (f.given args done)) kw =
      if kw.1 ∈ f.params then
        if (f.given args done kw.1).isSome then .error (.repeatedArgument f.name kw.1)
        else .ok (f.params.map (f.given args (done ++ [kw])))
      else .error (.unexpectedKeyword f.name kw.1) := by
  unfold fillKeyword
  split
  · next unknown =>
    have unknown : kw.1 ∉ f.params := fun known => by
      simpa using List.findIdx?_eq_none_iff.1 unknown kw.1 known
    rw [if_neg unknown]
  · next i found =>
    obtain ⟨here, same, -⟩ := List.findIdx?_eq_some_iff_getElem.1 found
    have same : f.params[i] = kw.1 := beq_iff_eq.1 same
    have slot : (f.params.map (f.given args done))[i]?.join = f.given args done kw.1 := by
      rw [List.getElem?_map, List.getElem?_eq_getElem here, same]
      rfl
    have known : kw.1 ∈ f.params := same ▸ List.getElem_mem here
    rw [slot, if_pos known]
    split
    · rfl
    · next empty =>
      have empty : f.given args done kw.1 = none := Option.not_isSome_iff_eq_none.1 empty
      refine congrArg Except.ok
        (List.ext_getElem (by simp [f.params.length_map]) fun j _ inside => ?_)
      rw [List.length_map] at inside
      simp only [List.getElem_set, List.getElem_map, given_concat, ← same,
        distinct.getElem_inj_iff]
      by_cases place : i = j
      · subst place
        rw [same, empty, if_pos rfl, Option.none_or]
      · rw [if_neg place, if_neg (Ne.symm place), Option.or_none]

-- Keyword arguments that fill empty places after others.
structure Fill (f : FunctionObject) (args : List Value) (done keywords : Keywords) : Prop where
  known : ∀ kw ∈ keywords, kw.1 ∈ f.params
  fresh : ∀ kw ∈ keywords, f.given args done kw.1 = none
  distinct : (keywords.map Prod.fst).Nodup

theorem fill_cons {kw : String × Value} : f.Fill args done (kw :: keywords) ↔
    kw.1 ∈ f.params ∧ f.given args done kw.1 = none ∧ f.Fill args (done ++ [kw]) keywords := by
  constructor
  · rintro ⟨known, fresh, distinct⟩
    obtain ⟨apart, distinct⟩ := List.nodup_cons.1 distinct
    obtain ⟨known_, known⟩ := List.forall_mem_cons.1 known
    obtain ⟨fresh_, fresh⟩ := List.forall_mem_cons.1 fresh
    refine ⟨known_, fresh_, known, fun other here => ?_, distinct⟩
    have differ : other.1 ≠ kw.1 := fun same => apart (same ▸ List.mem_map_of_mem here)
    rw [given_concat, fresh other here, if_neg differ, Option.none_or]
  · rintro ⟨known_, fresh_, known, fresh, distinct⟩
    have after (other : String × Value) (here : other ∈ keywords) :
        f.given args done other.1 = none ∧ other.1 ≠ kw.1 := by
      have empty := fresh other here
      rw [given_concat, Option.or_eq_none_iff] at empty
      exact ⟨empty.1, fun same => nomatch (if_pos same).symm.trans empty.2⟩
    refine ⟨List.forall_mem_cons.2 ⟨known_, known⟩,
      List.forall_mem_cons.2 ⟨fresh_, fun other here => (after other here).1⟩,
      List.nodup_cons.2 ⟨fun here => ?_, distinct⟩⟩
    obtain ⟨other, here, same⟩ := List.mem_map.1 here
    exact (after other here).2 same

theorem fillKeywords_given (distinct : f.params.Nodup) (keywords : Keywords)
    (slots : List (Option Value)) :
    keywords.foldlM f.fillKeyword (f.params.map (f.given args done)) = .ok slots ↔
      f.Fill args done keywords ∧ slots = f.params.map (f.given args (done ++ keywords)) := by
  induction keywords generalizing done with
  | nil =>
    have fill : f.Fill args done [] :=
      ⟨List.forall_mem_nil _, List.forall_mem_nil _, List.nodup_nil⟩
    rw [List.append_nil, List.foldlM_nil]
    exact ⟨fun h => ⟨fill, (Except.ok.inj h).symm⟩, fun h => congrArg Except.ok h.2.symm⟩
  | cons kw keywords ih =>
    rw [List.foldlM_cons, fillKeyword_given distinct, fill_cons]
    by_cases known : kw.1 ∈ f.params
    · rw [if_pos known]
      cases value : f.given args done kw.1 with
      | some v => exact ⟨fun h => (nomatch h), fun h => nomatch h.1.2.1⟩
      | none =>
        have later := @ih (done ++ [kw])
        rw [List.append_assoc, List.singleton_append] at later
        exact later.trans ⟨fun ⟨fill, same⟩ => ⟨⟨known, rfl, fill⟩, same⟩,
          fun ⟨⟨_, _, fill⟩, same⟩ => ⟨fill, same⟩⟩
    · rw [if_neg known]
      exact ⟨fun h => (nomatch h), fun h => absurd h.1.1 known⟩

/-! ### All parameters -/

-- Defaults fill the places that are left.
theorem filled_eq (distinct : f.params.Nodup) :
    (f.params.map (f.given args keywords)).mapIdx
        (fun i slot => slot.orElse fun _ => f.default? i) =
      f.params.map (f.valueOf args keywords) := by
  refine List.ext_getElem (by simp) fun i _ here => ?_
  rw [List.length_map] at here
  rw [List.getElem_mapIdx, List.getElem_map, List.getElem_map, default?_eq distinct here, valueOf]
  exact Option.orElse_eq_or ..

theorem missing_isEmpty {value : String → Option Value} :
    ((((f.params.zip (f.params.map value)).filter (·.2.isNone)).map Prod.fst).isEmpty = true) ↔
      ∀ p ∈ f.params, (value p).isSome = true := by
  rw [← List.map_prod_left_eq_zip]
  simp [List.filter_eq_nil_iff, Option.isSome_iff_ne_none]

theorem bind_eq_ok_iff (distinct : f.params.Nodup) {vars : Namespace} :
    f.bind args keywords = .ok vars ↔
      args.length ≤ f.params.length ∧ f.Fill args [] keywords ∧
        (∀ p ∈ f.params, (f.valueOf args keywords p).isSome = true) ∧
        .ofList (f.params.map fun p => (p, (f.valueOf args keywords p).getD .none)) = vars := by
  unfold FunctionObject.bind
  by_cases fits : args.length ≤ f.params.length
  · rw [given_nil distinct fits, if_neg (Nat.not_lt.2 fits)]
    dsimp only
    cases filled : keywords.foldlM f.fillKeyword (f.params.map (f.given args [])) with
    | error e =>
      have unfilled (fill : f.Fill args [] keywords) : False :=
        nomatch filled.symm.trans ((fillKeywords_given distinct keywords _).2 ⟨fill, rfl⟩)
      exact ⟨fun h => (nomatch h), fun h => (unfilled h.2.1).elim⟩
    | ok slots =>
      obtain ⟨fill, rfl⟩ := (fillKeywords_given distinct keywords slots).1 filled
      rw [List.nil_append, Except.bind_of_ok rfl, filled_eq distinct]
      by_cases all : ∀ p ∈ f.params, (f.valueOf args keywords p).isSome = true
      · rw [if_pos (missing_isEmpty.2 all), ← List.map_prod_left_eq_zip, List.map_map]
        exact ⟨fun h => ⟨fits, fill, all, Except.ok.inj h⟩, fun h => congrArg Except.ok h.2.2.2⟩
      · rw [if_neg (missing_isEmpty.not.2 all)]
        exact ⟨fun h => (nomatch h), fun h => absurd h.2.2.1 all⟩
  · have many : f.params.length < args.length := Nat.lt_of_not_le fits
    rw [if_pos many]
    exact ⟨fun h => (nomatch h), fun h => absurd h.1 fits⟩

theorem valueOf_isSome (defaulted : f.defaults.length ≤ f.params.length)
    (complete : ∀ p ∈ f.required, (f.given args keywords p).isSome = true) :
    ∀ p ∈ f.params, (f.valueOf args keywords p).isSome = true := by
  intro p here
  rw [← List.take_append_drop (f.params.length - f.defaults.length) f.params, List.mem_append]
    at here
  rw [valueOf, Option.isSome_or, Bool.or_eq_true]
  exact here.imp (complete p) (ownDefault_isSome defaulted).2

-- A parameter without a default has no value unless it is given one.
theorem given_of_valueOf (distinct : f.params.Nodup)
    (defaulted : f.defaults.length ≤ f.params.length) (needed : p ∈ f.required)
    (value : (f.valueOf args keywords p).isSome = true) :
    (f.given args keywords p).isSome = true := by
  rw [valueOf, Option.isSome_or, Bool.or_eq_true, ownDefault_isSome defaulted] at value
  exact value.resolve_right fun late => List.disjoint_take_drop distinct (Nat.le_refl _) needed late

theorem accepts_iff (distinct : f.params.Nodup) (defaulted : f.defaults.length ≤ f.params.length) :
    f.Accepts args keywords ↔ args.length ≤ f.params.length ∧ f.Fill args [] keywords ∧
      ∀ p ∈ f.params, (f.valueOf args keywords p).isSome = true := by
  have empty (p : String) : f.given args [] p = none ↔ p ∉ f.params.take args.length := by
    rw [← Option.not_isSome_iff_eq_none, given_isSome, List.map_nil]
    simp only [List.not_mem_nil, or_false]
  constructor
  · rintro ⟨fits, known, apart, once, complete⟩
    exact ⟨fits, ⟨known, fun kw here => (empty kw.1).2 (apart kw here), once⟩,
      valueOf_isSome defaulted complete⟩
  · rintro ⟨fits, ⟨known, fresh, once⟩, all⟩
    refine ⟨fits, known, fun kw here => (empty kw.1).1 (fresh kw here), once, fun p needed => ?_⟩
    exact given_of_valueOf distinct defaulted needed (all p (List.mem_of_mem_take needed))

-- The parameters are bound in their order.
theorem bound_eq (distinct : f.params.Nodup) {vars : Namespace}
    (bound : f.bind args keywords = .ok vars) :
    vars.keys = f.params ∧ ∀ p ∈ f.params, vars.get? p = f.valueOf args keywords p := by
  obtain ⟨-, -, all, rfl⟩ := (bind_eq_ok_iff distinct).1 bound
  have entries : (Ordered.ofList (f.params.map fun p =>
      (p, (f.valueOf args keywords p).getD .none))).toList = _ :=
    Ordered.toList_ofList (by simpa [Function.comp_def] using distinct)
  constructor
  · rw [Ordered.keys, entries, List.map_map]
    exact List.map_id _
  · intro p here
    obtain ⟨v, value⟩ := Option.isSome_iff_exists.1 (all p here)
    rw [value, Ordered.get?_eq_some_iff, entries, List.mem_map]
    exact ⟨p, here, by rw [value, Option.getD_some]⟩

end FunctionObject

/--
A function of distinct parameters, the last of which have defaults, takes just the arguments that
are not too many, that name parameters only, that give no parameter two values and that give one to
every parameter without a default. Its body then runs in a frame with a new scope that binds every
parameter once: to its positional argument, or to its keyword argument, or to its own default. A
call with other arguments fails, and leaves everything as it was.
-/
theorem calls_bind_every_parameter (f : FunctionObject) (distinct : f.params.Nodup)
    (defaulted : f.defaults.length ≤ f.params.length) (args : List Value) (keywords : Keywords) :
    (f.Accepts args keywords → ∃ vars, f.bind args keywords = .ok vars ∧
      vars.keys = f.params ∧
      (∀ p ∈ f.params, vars.get? p = ((f.params.zip args).lookup p).or
        ((keywords.lookup p).or (f.ownDefault p))) ∧
      ∀ (r : Interp) (m : Machine), m.depth < m.config.maxCallDepth →
        ∃ frame : Frame, frame.kind = .function ∧ frame.scope = m.scopes.size ∧
          r.callFunction f args keywords m = Run.inFrame frame (r.runBody f)
            { m with scopes := m.scopes.push ⟨vars, f.closure⟩ }) ∧
    (¬ f.Accepts args keywords → ∃ e, f.bind args keywords = .error e ∧
      ∀ (r : Interp) (m : Machine), r.callFunction f args keywords m =
        .error (.fault (if m.depth < m.config.maxCallDepth then e else .recursion)) m) := by
  constructor
  · intro accepts
    obtain ⟨fits, fill, all⟩ := (FunctionObject.accepts_iff distinct defaulted).1 accepts
    have bound := (FunctionObject.bind_eq_ok_iff distinct).2 ⟨fits, fill, all, rfl⟩
    obtain ⟨keys, values⟩ := FunctionObject.bound_eq distinct bound
    refine ⟨_, bound, keys, fun p here => ?_, fun r m => Interp.callFunction_of_bound r bound⟩
    rw [values p here, FunctionObject.valueOf, FunctionObject.given, Option.or_assoc]
  · intro refused
    cases result : f.bind args keywords with
    | error e => exact ⟨e, rfl, fun r m => Interp.callFunction_of_unbound r result⟩
    | ok vars =>
      obtain ⟨fits, fill, all, -⟩ := (FunctionObject.bind_eq_ok_iff distinct).1 result
      exact absurd ((FunctionObject.accepts_iff distinct defaulted).2 ⟨fits, fill, all⟩) refused

-- `def f(a, b, c=3, d=4)` called as `f(1, d=5, b=2)`.
theorem calls_bind_every_parameter_mixed :
    let f : FunctionObject :=
      ⟨"f", ["a", "b", "c", "d"], [.int 3, .int 4], .block [], none, none, 1⟩
    f.params.Nodup ∧ f.defaults.length ≤ f.params.length ∧
      f.Accepts [.int 1] [("d", .int 5), ("b", .int 2)] ∧
      ∃ vars, f.bind [.int 1] [("d", .int 5), ("b", .int 2)] = .ok vars ∧
        vars.keys = ["a", "b", "c", "d"] ∧ vars.get? "a" = some (.int 1) ∧
        vars.get? "b" = some (.int 2) ∧ vars.get? "c" = some (.int 3) ∧
        vars.get? "d" = some (.int 5) := by
  intro f
  have distinct : f.params.Nodup := by decide
  have defaulted : f.defaults.length ≤ f.params.length := by decide
  have accepts : f.Accepts [.int 1] [("d", .int 5), ("b", .int 2)] := by
    constructor <;> decide
  obtain ⟨vars, bound, keys, values, -⟩ := (calls_bind_every_parameter f distinct defaulted
    [.int 1] [("d", .int 5), ("b", .int 2)]).1 accepts
  exact ⟨distinct, defaulted, accepts, vars, bound, keys, values "a" (by decide),
    values "b" (by decide), values "c" (by decide), values "d" (by decide)⟩

end StepTrace
