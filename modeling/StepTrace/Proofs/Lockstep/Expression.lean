import StepTrace.Proofs.Lockstep.Builtin

/-!
Calls and expressions in lockstep. The bodies of functions may have marks in the second run only, and
expressions of the second program may be marked.
-/

set_option autoImplicit false

namespace StepTrace

/-! ### Calls -/

-- What runs in the frames of functions goes in step.
def BodiesInStep (d : Leeway) (body body' : FunctionObject → Run Value) : Prop :=
  ∀ (p : Rights) {t : Bool}, t ≤ d.marks → ∀ f : FunctionObject, f.body.hasGlobal ≤ d.globals →
    ∃ q, p.Gives d (fun _ => body f) q ∧
      Lockstep d q Eq (body f) (body' { f with body := f.body.marked t })

theorem bodiesInStep_runBody {d : Leeway} (run : d.statements = true) {n : Nat} {r : Interp}
    (R : (interp n).InStep d r) : BodiesInStep d (interp n).runBody r.runBody := by
  intro p t ht f code
  refine ⟨.all, .called run fun _ => .of n f, ?_⟩
  unfold Interp.runBody
  cases h : f.body with
  | block body =>
    rw [h] at code
    refine .seq (R.block run t ht body code) fun flow => ?_
    split
    · exact .ret _
    · exact .ret _
    · exact .fault _
    · exact .fault _
  | lambda body =>
    dsimp only [FunctionBody.marked]
    rw [Expr.location_marked]
    exact .seq (.boundary _ run) fun _ => R.eval t ht body trivial

theorem BodiesInStep.callFunctionBy {d : Leeway} {p : Rights} {r r' : Interp}
    {bodies bodies' : Bodies} (B : BodiesInStep d (bodies r) (bodies' r')) {t : Bool}
    (ht : t ≤ d.marks) (f : FunctionObject) (code : f.body.hasGlobal ≤ d.globals)
    (args : List Value) (keywords : Keywords) :
    Lockstep d p Eq (r.callFunctionBy bodies f args keywords)
      (r'.callFunctionBy bodies' { f with body := f.body.marked t } args keywords) := by
  obtain ⟨q, gives, body⟩ := B p ht f code
  exact .seq (.op .checkDepth) fun _ => .seq (.check rfl) fun vars =>
    .inScope vars f.closure (fun _ => rfl) (fun _ => Bool.false_le _)
      (fun _ => Rights.knows_of_empty rfl) gives fun _ => body

namespace Interp.InStep

variable {d : Leeway} {p : Rights} {r r' : Interp} (R : r.InStep d r')
include R

theorem baseInit (receiver : Value) (args : List Value) :
    Lockstep d p Eq (r.baseInit receiver args) (r'.baseInit receiver args) := by
  refine .onHeap fun h h' H => ?_
  rcases H.points receiver with same | ⟨_, _, left, right⟩ | ⟨_, left, right⟩
  · rw [same]
    split
    · rw [H.exceptionBase?]
      exact .ite (fun _ => .seq (R.messageOf args) fun _ => .seq (.mapAttrs ..) fun _ => .ret _)
        fun _ => .ite (fun _ => .ret _) fun _ => .fault _
    · exact .ret _
  · rw [left, right]
    cases receiver <;> exact .ret _
  · rw [left, right]
    cases receiver <;> exact .ret _

theorem instantiate (cls : ObjId) (args : List Value) (keywords : Keywords) :
    Lockstep d p Eq (r.instantiate cls args keywords) (r'.instantiate cls args keywords) := by
  refine .seq (.alloc rfl) fun object => .onHeap fun h h' H => ?_
  rw [H.classAttr?]
  split
  · exact .seq (R.call ..) fun _ => .ite (fun _ => .ret _) fun _ =>
      .faultOn fun _ _ H => by rw [H.typeName]
  · rw [H.exceptionBase?, H.className]
    exact .ite (fun _ => .seq (R.baseInit ..) fun _ => .ret _) fun _ =>
      .ite (fun _ => .ret _) fun _ => .fault _

theorem callAttr (receiver attr : Value) (args : List Value) (keywords : Keywords) :
    Lockstep d p Eq (r.callAttr receiver attr args keywords)
      (r'.callAttr receiver attr args keywords) := by
  refine .onHeap fun h h' H => ?_
  rw [H.isFunction]
  exact .ite (fun _ => R.call ..) fun _ => R.call ..

theorem callMethod (receiver : Value) (name : String) (args : List Value)
    (keywords : Keywords) :
    Lockstep d p Eq (r.callMethod receiver name args keywords)
      (r'.callMethod receiver name args keywords) := by
  refine .onHeap fun h h' H => ?_
  rcases H.points receiver with same | ⟨_, _, left, right⟩ | ⟨_, left, right⟩
  · rw [same]
    split
    · split
      · exact R.call ..
      · rw [H.classAttr?]
        split
        · exact R.callAttr ..
        · rw [H.className]
          exact .ite (fun _ => R.baseInit ..) fun _ => .fault _
    · rw [H.inherited?]
      split
      · exact R.callAttr ..
      · exact .ite (fun _ => R.baseInit ..) fun _ => .fault _
    · exact .seq (.getAttr ..) fun _ => R.call ..
    · exact .seq (.getAttr ..) fun _ => R.call ..
    · exact R.builtinMethod ..
  · rw [left, right]
    exact R.builtinMethod ..
  · rw [left, right]
    exact R.builtinMethod ..

theorem callValueBy {bodies bodies' : Bodies} (B : BodiesInStep d (bodies r) (bodies' r'))
    (callee : Value) (args : List Value) (keywords : Keywords) :
    Lockstep d p Eq (r.callValueBy bodies callee args keywords)
      (r'.callValueBy bodies' callee args keywords) := by
  have refused : ∀ name, (Run.fault (α := Value) (.notCallable name)).Steady d p :=
    fun _ => .fault _
  cases callee with
  | builtin b => exact .onHeap fun h h' H => R.callBuiltin ..
  | none | bool | int | float | str =>
    refine .onHeap fun h h' H => ?_
    dsimp only
    rw [H.typeName]
    exact refused _
  | ref id =>
    refine .onCode fun h h' H code => ?_
    rw [H.typeName]
    obtain ⟨o, o', left, right, related⟩ := H.entries id
    have code := fun f found => code id (.function f) (left.trans found)
    change h.deref? (.ref id) = o at left
    change h'.deref? (.ref id) = o' at right
    rw [left, right]
    cases related with
    | none => exact refused _
    | some ho =>
      cases ho with
      | list => exact refused _
      | function f marked =>
        exact B.callFunctionBy (t := true) (marked.symm ▸ Bool.le_refl true) f (code f rfl) ..
      | same o =>
        split
        · exact R.callBuiltin ..
        · next f _ here =>
          have plain := B.callFunctionBy (p := p) (Bool.false_le d.marks) f (code f here) args
            keywords
          rw [FunctionBody.marked_false] at plain
          exact plain
        · exact R.instantiate ..
        · exact R.call ..
        · exact .ite (fun _ => R.baseInit ..) fun _ => R.builtinMethod ..
        · rw [H.classAttr?]
          split
          · exact R.call ..
          · exact refused _
        · exact refused _

end Interp.InStep

/-! ### Expressions -/

namespace Lockstep

variable {d : Leeway} {p : Rights}

theorem forEach {σ : Type} {body body' : Value → σ → Run σ}
    (hbody : ∀ v acc, Lockstep d p Eq (body v acc) (body' v acc)) {n k : Nat} (fuel : d.Fuels n k)
    (it : Iteration) (acc : σ) :
    Lockstep d p Eq (Interp.forEach body n it acc) (Interp.forEach body' k it acc) := by
  induction fuel generalizing it acc with
  | spent => exact .op .outOfFuel
  | starved h k => exact .starved h _
  | more _ ih =>
    refine .onHeap fun h h' H => ?_
    rw [H.next?]
    split
    · exact .ret acc
    · exact .seq (hbody ..) fun _ => ih ..

theorem inComprehension {α : Type} {x y : Run α} (h : Lockstep d p.inLoop Eq x y) :
    Lockstep d p Eq (Interp.inComprehension x) (Interp.inComprehension y) := by
  refine .bind (.op .frame) ?_
  rintro f _ ⟨rfl, code, knows⟩
  have body : ∀ around, Lockstep d p Eq
      (Run.inScope .empty around (fun scope => { f with kind := .function, scope }) fun _ => x)
      (Run.inScope .empty around (fun scope => { f with kind := .function, scope }) fun _ => y) :=
    fun around => by
      refine .inScope .empty around (fun _ => rfl) ?_ ?_ .within fun _ => h
      · exact fun _ => code
      · exact fun _ => knows.of_globals rfl
  split
  · exact .seq (.op .enclosingScope) fun _ => .seq (.op .checkDepth) fun _ => body _
  · exact .seq (.ret _) fun _ => .seq (.op .checkDepth) fun _ => body _

end Lockstep

namespace Interp.InStep

variable {d : Leeway} {p : Rights} {r r' : Interp} (R : r.InStep d r') {t : Bool} (ht : t ≤ d.marks)
include R ht

theorem evalAll (out : Array Value) (es : List Expr) (covers : p.Covers (loopNamesAll es)) :
    Lockstep d p Eq (r.evalAll out es) (r'.evalAll out (markIf t trackAll es)) := by
  induction es generalizing out with
  | nil =>
    rw [marked_all_nil]
    exact .ret out
  | cons e rest ih =>
    rw [marked_all_cons]
    obtain ⟨first, others⟩ := Rights.covers_append.1 covers
    exact .seq (R.eval t ht e first) fun _ => ih _ others

theorem evalArguments (es : List Expr) (covers : p.Covers (loopNamesAll es)) :
    Lockstep d p Eq (r.evalArguments es) (r'.evalArguments (markIf t trackAll es)) := by
  induction es with
  | nil =>
    rw [marked_all_nil]
    exact .ret []
  | cons e rest ih =>
    rw [marked_all_cons]
    obtain ⟨first, others⟩ := Rights.covers_append.1 covers
    exact .seq (R.eval t ht e first) fun _ => .seq (ih others) fun _ => .ret _

theorem evalKeywords (keywords : List (String × Expr))
    (covers : p.Covers (loopNamesKeywords keywords)) :
    Lockstep d p Eq (r.evalKeywords keywords)
      (r'.evalKeywords (markIf t trackKeywords keywords)) := by
  induction keywords with
  | nil =>
    rw [marked_keywords_nil]
    exact .ret []
  | cons keyword rest ih =>
    rw [marked_keywords_cons]
    obtain ⟨first, others⟩ := Rights.covers_append.1 covers
    exact .seq (R.eval t ht _ first) fun _ => .seq (ih others) fun _ => .ret _

theorem evalDefaults (params : List Param) (covers : p.Covers (loopNamesParams params)) :
    Lockstep d p Eq (r.evalDefaults params) (r'.evalDefaults (markIf t trackParams params)) := by
  induction params with
  | nil =>
    rw [marked_params_nil]
    exact .ret []
  | cons p rest ih =>
    obtain ⟨name, value⟩ := p
    rw [marked_params_cons]
    obtain ⟨first, others⟩ := Rights.covers_append.1 covers
    cases value with
    | none =>
      rw [marked_option_none]
      exact ih others
    | some e =>
      rw [marked_option_some]
      exact .seq (R.eval t ht e first) fun _ => .seq (ih others) fun _ => .ret _

theorem evalEntries (entries : DictObject) (es : List (Expr × Expr))
    (covers : p.Covers (loopNamesEntries es)) :
    Lockstep d p Eq (r.evalEntries entries es)
      (r'.evalEntries entries (markIf t trackEntries es)) := by
  induction es generalizing entries with
  | nil =>
    rw [marked_entries_nil]
    exact .ret entries
  | cons e rest ih =>
    rw [marked_entries_cons]
    obtain ⟨key, covers⟩ := Rights.covers_append.1 covers
    obtain ⟨value, others⟩ := Rights.covers_append.1 covers
    exact .seq (R.eval t ht _ key) fun _ => .seq (R.eval t ht _ value) fun _ =>
      .seq (.keyOf _) fun _ => ih _ others

theorem evalPieces (out : String) (parts : List FPart) (covers : p.Covers (loopNamesParts parts)) :
    Lockstep d p Eq (r.evalPieces out parts) (r'.evalPieces out (markIf t trackParts parts)) := by
  induction parts generalizing out with
  | nil =>
    rw [marked_parts_nil]
    exact .ret out
  | cons part rest ih =>
    cases part with
    | text s =>
      rw [marked_parts_text]
      exact ih _ covers
    | field e spec =>
      rw [marked_parts_field]
      obtain ⟨field, others⟩ := Rights.covers_append.1 covers
      refine .seq (R.eval t ht e field) fun v => ?_
      split
      · exact .seq (R.display v) fun _ => ih _ others
      · exact .seq (R.display v) fun _ => ih _ others
      · exact .onHeap fun _ _ H => .seq (.check (H.format ..)) fun _ => ih _ others

theorem withIndex {α : Type} (index : Expr) (covers : p.Covers index.loopNames)
    {slice slice' : SliceBounds → Run α} {item item' : Value → Run α}
    (hslice : ∀ b, Lockstep d p Eq (slice b) (slice' b))
    (hitem : ∀ v, Lockstep d p Eq (item v) (item' v)) :
    Lockstep d p Eq (r.withIndex index slice item)
      (r'.withIndex (index.marked t) slice' item') := by
  cases index with
  | slice l lower upper step =>
    rw [Expr.marked_slice]
    exact .seq (R.sliceBounds ht _ _ _ covers) hslice
  | _ => cases t <;> exact .seq (R.eval _ ht _ covers) hitem

set_option linter.unusedSectionVars false in
mutual

theorem assign (line : Nat) (target : Expr) (v : Value)
    (binds : ∀ name ∈ target.targetNames, p.Binds name) :
    Lockstep d p Eq (r.assign line target v) (r'.assign line (target.markedTarget t) v) := by
  cases target with
  | name l name => cases t <;> exact .op (.store name v (binds name List.mem_cons_self))
  | tuple l targets =>
    rw [Expr.markedTarget_tuple]
    refine .seq (R.collect v) fun values => ?_
    rw [marked_targets_length]
    exact .ite (fun _ => assignAll line targets _ binds) fun _ => .fault _
  | list l targets =>
    rw [Expr.markedTarget_list]
    refine .seq (R.collect v) fun values => ?_
    rw [marked_targets_length]
    exact .ite (fun _ => assignAll line targets _ binds) fun _ => .fault _
  | attr l object name =>
    rw [Expr.markedTarget_attr]
    exact .seq (R.eval t ht object (Rights.covers_of_binds binds)) fun _ => .setAttr ..
  | subscript l object index =>
    rw [Expr.markedTarget_subscript]
    obtain ⟨first, second⟩ := Rights.covers_append.1 (Rights.covers_of_binds binds)
    exact .seq (R.eval t ht object first) fun _ =>
      R.withIndex ht index second (fun _ => R.setSlice ..) fun _ => R.setItem ..
  | _ => cases t <;> exact .fault _

theorem assignAll (line : Nat) (targets : List Expr) (vs : List Value)
    (binds : ∀ name ∈ targetNamesAll targets, p.Binds name) :
    Lockstep d p Eq (r.assignAll line targets vs)
      (r'.assignAll line (markIf t trackTargets targets) vs) := by
  cases targets with
  | nil =>
    rw [marked_targets_nil]
    exact .ret _
  | cons target rest =>
    rw [marked_targets_cons]
    cases vs with
    | nil => exact .ret _
    | cons v vs =>
      obtain ⟨first, others⟩ := List.forall_mem_append.1 binds
      exact .seq (assign line target v first) fun _ => assignAll line rest vs others

end

theorem allHold (conditions : List Expr) (covers : p.Covers (loopNamesAll conditions)) :
    Lockstep d p Eq (r.allHold conditions) (r'.allHold (markIf t trackAll conditions)) := by
  induction conditions with
  | nil =>
    rw [marked_all_nil]
    exact .ret true
  | cons e rest ih =>
    rw [marked_all_cons]
    obtain ⟨first, others⟩ := Rights.covers_append.1 covers
    exact .seq (R.eval t ht e first) fun _ => .seq (R.truth _) fun
      | true => ih others
      | false => .ret false

theorem forClauses {σ : Type} {emit emit' : σ → Run σ}
    (hemit : ∀ acc, Lockstep d p.inLoop Eq (emit acc) (emit' acc)) (clauses : List Clause)
    (covers : p.Covers (loopNamesClauses clauses)) (acc : σ) :
    Lockstep d p.inLoop Eq (r.forClauses emit clauses acc)
      (r'.forClauses emit' (markIf t trackClauses clauses) acc) := by
  induction clauses generalizing acc with
  | nil =>
    rw [marked_clauses_nil]
    exact hemit acc
  | cons clause rest ih =>
    obtain ⟨target, iter, conditions⟩ := clause
    rw [marked_clauses_cons]
    obtain ⟨inIter, covers⟩ := Rights.covers_append.1 covers
    obtain ⟨inTarget, covers⟩ := Rights.covers_append.1 covers
    obtain ⟨inConditions, others⟩ := Rights.covers_append.1 covers
    refine .seq (R.eval t ht iter inIter.inLoop) fun _ => .seq (R.iteration _) fun it =>
      .forEach (fun v acc => ?_) R.fuel it acc
    rw [Expr.location_marked]
    exact .seq (assign R ht _ target v inTarget.binds) fun _ =>
      .seq (allHold R ht conditions inConditions.inLoop) fun
        | true => ih others _
        | false => .ret _

theorem compareChain (left : Value) (rest : List (CompareOp × Expr))
    (covers : p.Covers (loopNamesComparisons rest)) :
    Lockstep d p Eq (r.compareChain left rest)
      (r'.compareChain left (markIf t trackComparisons rest)) := by
  induction rest generalizing left with
  | nil =>
    rw [marked_comparisons_nil]
    exact .ret _
  | cons comparison rest ih =>
    rw [marked_comparisons_cons]
    obtain ⟨first, others⟩ := Rights.covers_append.1 covers
    exact .seq (R.eval t ht _ first) fun _ => .seq (R.compare ..) fun
      | true => ih _ others
      | false => .ret _

theorem makeFunction (name : String) (params : List Param) (body : FunctionBody)
    (code : body.hasGlobal ≤ d.globals) (line : Nat)
    (covers : p.Covers (loopNamesParams params)) :
    Lockstep d p Eq (r.makeFunction name params body line)
      (r'.makeFunction name (markIf t trackParams params) (body.marked t) line) := by
  refine .seq (R.evalDefaults ht params covers) fun _ => .seq (.op .enclosingScope) fun _ => ?_
  rw [marked_params_names]
  exact .op (.alloc (.definition ht _) code)

theorem evalExprBy {bodies bodies' : Bodies} (B : BodiesInStep d (bodies r) (bodies' r'))
    (e : Expr) (covers : p.Covers e.loopNames) :
    Lockstep d p Eq (r.evalExprBy bodies e) (r'.evalExprBy bodies' (e.marked t)) := by
  cases e with
  | none l | bool l _ | int l _ | float l _ | str l _ => cases t <;> exact .ret _
  | fstring l parts =>
    rw [Expr.marked_fstring]
    exact .seq (R.evalPieces ht _ parts covers) fun _ => .ret _
  | name l name => cases t <;> exact .op (.lookup name)
  | list l items =>
    -- The one place where the runs part: the list of a marked display is a tracked one.
    cases t with
    | false => exact .seq (R.evalAll ht _ items covers) fun _ => .alloc rfl
    | true => exact .seq (R.evalAll ht _ items covers) fun _ => .op (.allocMarked (ht rfl) _)
  | tracked l inner =>
    -- What has a mark before stays as it is, and so does all that is inside.
    have unmarked : false ≤ d.marks := Bool.false_le d.marks
    rw [Expr.marked_tracked]
    cases inner with
    | list l items =>
      exact .seq (R.evalAll unmarked #[] items covers) fun _ => .op (.allocTracked _)
    | _ => exact R.eval false unmarked _ covers
  | tuple l items =>
    rw [Expr.marked_tuple]
    exact .seq (R.evalAll ht _ items covers) fun _ => .alloc rfl
  | set l items =>
    rw [Expr.marked_set]
    exact .seq (R.evalAll ht _ items covers) fun _ => .seq (.setOf ..) fun _ => .alloc rfl
  | dict l entries =>
    rw [Expr.marked_dict]
    exact .seq (R.evalEntries ht _ entries covers) fun _ => .alloc rfl
  | listComp l element clauses =>
    rw [Expr.marked_listComp]
    obtain ⟨inElement, inClauses⟩ := Rights.covers_append.1 covers
    exact .seq (.inComprehension (R.forClauses ht
      (fun _ => .seq (R.eval t ht element inElement.inLoop) fun _ => .ret _) clauses inClauses _))
      fun _ => .alloc rfl
  | dictComp l key value clauses =>
    rw [Expr.marked_dictComp]
    obtain ⟨inKey, covers⟩ := Rights.covers_append.1 covers
    obtain ⟨inValue, inClauses⟩ := Rights.covers_append.1 covers
    exact .seq (.inComprehension (R.forClauses ht
      (fun _ => .seq (R.eval t ht key inKey.inLoop) fun _ =>
        .seq (R.eval t ht value inValue.inLoop) fun _ => .seq (.keyOf _) fun _ => .ret _)
      clauses inClauses _)) fun _ => .alloc rfl
  | binary l op left right =>
    rw [Expr.marked_binary]
    obtain ⟨inLeft, inRight⟩ := Rights.covers_append.1 covers
    exact .seq (R.eval t ht left inLeft) fun _ => .seq (R.eval t ht right inRight) fun _ =>
      R.binary ..
  | unary l op operand =>
    rw [Expr.marked_unary]
    exact .seq (R.eval t ht operand covers) fun _ => R.unary ..
  | boolOp l op left right =>
    rw [Expr.marked_boolOp]
    obtain ⟨inLeft, inRight⟩ := Rights.covers_append.1 covers
    refine .seq (R.eval t ht left inLeft) fun v => .seq (R.truth v) fun truth => ?_
    split
    · exact .ret v
    · exact .ret v
    · exact R.eval t ht right inRight
  | compare l left rest =>
    rw [Expr.marked_compare]
    obtain ⟨inLeft, inRest⟩ := Rights.covers_append.1 covers
    exact .seq (R.eval t ht left inLeft) fun _ => R.compareChain ht _ rest inRest
  | ifElse l condition yes no =>
    rw [Expr.marked_ifElse]
    obtain ⟨inCondition, covers⟩ := Rights.covers_append.1 covers
    obtain ⟨inYes, inNo⟩ := Rights.covers_append.1 covers
    exact .seq (R.eval t ht condition inCondition) fun _ => .seq (R.truth _) fun
      | true => R.eval t ht yes inYes
      | false => R.eval t ht no inNo
  | lambda l params body =>
    rw [Expr.marked_lambda]
    exact R.makeFunction ht _ params (.lambda body) (Bool.false_le _) _ covers
  | call l callee args keywords =>
    rw [Expr.marked_call]
    obtain ⟨inCallee, covers⟩ := Rights.covers_append.1 covers
    obtain ⟨inArgs, inKeywords⟩ := Rights.covers_append.1 covers
    cases callee with
    | attr l object name =>
      rw [Expr.marked_attr]
      exact .seq (R.eval t ht object inCallee) fun _ =>
        .seq (R.evalArguments ht args inArgs) fun _ =>
          .seq (R.evalKeywords ht keywords inKeywords) fun _ => R.callMethod ..
    | _ =>
      cases t <;> exact .seq (R.eval _ ht _ inCallee) fun _ =>
        .seq (R.evalArguments ht args inArgs) fun _ =>
          .seq (R.evalKeywords ht keywords inKeywords) fun _ => R.callValueBy B ..
  | attr l object name =>
    rw [Expr.marked_attr]
    exact .seq (R.eval t ht object covers) fun _ => .getAttr ..
  | subscript l object index =>
    rw [Expr.marked_subscript]
    obtain ⟨inObject, inIndex⟩ := Rights.covers_append.1 covers
    exact .seq (R.eval t ht object inObject) fun _ =>
      R.withIndex ht index inIndex (.getSlice _) (R.getItem _)
  | slice l lower upper step =>
    rw [Expr.marked_slice]
    exact .fault _

end Interp.InStep

end StepTrace
