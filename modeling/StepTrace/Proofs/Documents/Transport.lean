import Mathlib.Data.List.TakeWhile
import StepTrace.Proofs.Documents.Nesting
import StepTrace.Proofs.Documents.Reading
import StepTrace.Proofs.Outcome

/-!
Traces that are written and read back. Values are read back as what their documents describe, and
everything else as it was.
-/

set_option autoImplicit false

namespace StepTrace

/-! ### Names -/

namespace Json

-- Of a document itself: no name is given twice.
def Named : Json → Prop
  | obj members => (members.map Prod.fst).Nodup
  | _ => True

theorem mergedItems_eq_map (items : List Json) : mergedItems items = items.map merged :=
  eq_map_of_cons rfl (fun _ _ => rfl) items

theorem mergedMembers_eq_map (members : List (String × Json)) :
    mergedMembers members = members.map fun (k, j) => (k, j.merged) :=
  eq_map_of_cons rfl (fun _ _ => rfl) members

theorem merged_eq {j : Json} (h : j.All Named) : j.merged = j := by
  induction h with
  | @intro j here _ ih =>
    cases j with
    | arr items =>
      have same : items.map merged = items := (List.map_congr_left ih).trans items.map_id
      rw [merged, mergedItems_eq_map, same]
    | obj members =>
      have same : (members.map fun (k, j) => (k, j.merged)) = members := by
        apply (List.map_congr_left (g := id) fun member hmember => ?_).trans members.map_id
        simp [ih member.2 (List.mem_map_of_mem hmember)]
      rw [merged, mergedMembers_eq_map, same, Ordered.toList_ofList here]
    | _ => simp [merged]

end Json

namespace Snapshot

theorem named_str (s : String) : (Json.str s).All Json.Named := .leaf trivial rfl

theorem named_items {items : List Snapshot} (h : ∀ v ∈ items, v.toJson.All Json.Named) :
    (Json.arr (itemsToJson items)).All Json.Named := by
  apply Throughout.intro
  next => trivial
  next => simpa [Json.parts] using h

theorem named_fields {fields : List (String × Snapshot)} (distinct : (fields.map Prod.fst).Nodup)
    (h : ∀ v ∈ fields.map Prod.snd, v.toJson.All Json.Named) :
    (Json.obj (fieldsToJson fields)).All Json.Named := by
  have names : (fieldsToJson fields).map Prod.fst = fields.map Prod.fst := by simp
  apply Throughout.intro
  next => simpa only [Json.Named, names] using distinct
  next => simpa only [parts_fieldsToJson, List.forall_mem_map] using h

theorem named_toJson {v : Snapshot}
    (distinct : ∀ fields, v.fields? = some fields → (fields.map Prod.fst).Nodup)
    (inner : ∀ part ∈ v.parts, part.toJson.All Json.Named) : v.toJson.All Json.Named := by
  cases v with
  | none | bool | int | str =>
    rw [toJson]
    exact .leaf trivial rfl
  | float f =>
    rw [toJson]
    split <;> exact .leaf trivial rfl
  | plainList items =>
    rw [toJson]
    exact named_items inner
  | list _ items | tuple items | set items | deque items =>
    rw [toJson, tagged]
    apply Throughout.intro
    next => simp [Json.Named, tagName]
    next =>
      have inside : (Json.arr (itemsToJson items)).All Json.Named := named_items inner
      simpa [Json.parts, named_str] using inside
  | mapping entries =>
    rw [toJson]
    exact named_fields (distinct entries rfl) inner
  | object _ _ fields =>
    rw [toJson, tagged]
    apply Throughout.intro
    next => simp [Json.Named, tagName]
    next => simpa [Json.parts, named_str] using named_fields (distinct fields rfl) inner
  | cyclic =>
    rw [toJson, tagged]
    apply Throughout.intro
    next => simp [Json.Named, tagName]
    next => simp [Json.parts, named_str]

end Snapshot

namespace Heap

theorem captureObject_fields (h : Heap) (item : Value → Snapshot) (id : ObjId) (o : Object) :
    ∀ fields, (h.captureObject item id o).fields? = some fields → (fields.map Prod.fst).Nodup := by
  intro fields shown
  cases o with
  | list l =>
    by_cases tracked : l.tracker.isSome <;>
      simp [captureObject, Snapshot.fields?, tracked] at shown
  | dict d =>
    obtain rfl := Option.some.inj shown
    exact Ordered.keys_nodup _
  | «instance» i =>
    obtain rfl := Option.some.inj shown
    have distinct := Ordered.keys_nodup (i.fields.filter fun name _ => !name.startsWith "__")
    simpa [Ordered.keys, Function.comp_def] using distinct
  | _ => simp [captureObject, Snapshot.fields?] at shown

theorem captureWithin_fields (h : Heap) (room : Nat) (path : List ObjId) (v : Value) :
    ∀ fields, (h.captureWithin (room + 1) path v).fields? = some fields →
      (fields.map Prod.fst).Nodup := by
  rcases h.captureWithin_cases room path v with ⟨-, bare⟩ | ⟨id, o, object⟩
  · simp [bare]
  · rw [object]
    exact h.captureObject_fields _ id o

theorem named_captureWithin (h : Heap) (room : Nat) (path : List ObjId) (v : Value) :
    (h.captureWithin room path v).toJson.All Json.Named := by
  induction room generalizing path v with
  | zero => exact Snapshot.named_str "..."
  | succ room ih =>
    apply Snapshot.named_toJson (h.captureWithin_fields room path v)
    intro part here
    obtain ⟨path', w, rfl⟩ := h.captureWithin_parts room path v part here
    exact ih path' w

end Heap

/-! ### Records -/

def Binding.reread (b : Binding) : Binding := { b with value := .ofJson b.value.toJson }

/-- The step with every value read back from its document. -/
def Step.reread (s : Step) : Step := { s with bindings := s.bindings.mapValues Binding.reread }

theorem AccessKind.ofName?_name (kind : AccessKind) : ofName? kind.name = some kind := by
  cases kind <;> rfl

theorem Access.ofJson?_toJson {a : Access} (word : Number.FitsWord a.index) :
    Access.ofJson? a.toJson = some a := by
  have index : (Json.int a.index).word? = some (Int64.ofInt a.index) := by
    simp [Json.word?, Number.ofInt?, word]
  simp [Access.toJson, Access.ofJson?, Json.record?, AccessKind.ofJson?, AccessKind.ofName?_name,
    Json.str?, index, Number.toInt_ofInt_of_fits word]

theorem Binding.ofJson?_toJson {b : Binding} (named : b.value.toJson.All Json.Named) :
    Binding.ofJson? b.toJson = some b.reread := by
  obtain ⟨typeName, value, id⟩ := b
  have same : value.toJson.merged = value.toJson := Json.merged_eq named
  cases id <;> simp [Binding.toJson, Binding.ofJson?, Json.record?, Json.str?, same,
    Json.optional?, idOfJson?, Binding.reread]

theorem mapM_eq_some {α β : Type} {f : α → Option β} {g : α → β} {l : List α}
    (each : ∀ a ∈ l, f a = some (g a)) : l.mapM f = some (l.map g) := by
  induction l with
  | nil => rfl
  | cons a l ih =>
    obtain ⟨head, tail⟩ := List.forall_mem_cons.mp each
    simp [head, ih tail]

theorem Json.items?_map {α : Type} {read : Json → Option α} {write : α → Json} {g : α → α}
    {l : List α} (each : ∀ a ∈ l, read (write a) = some (g a)) :
    Json.items? read (.arr (l.map write)) = some (l.map g) := by
  have items : (l.map write).mapM read = some (l.map g) := by
    rw [List.mapM_map]
    exact mapM_eq_some each
  simpa only [Json.items?, Json.arr?, Option.bind_eq_bind, Option.bind_some] using items

theorem bindingsOfJson?_toJson {bindings : Ordered String Binding}
    (named : ∀ b ∈ bindings.values, b.value.toJson.All Json.Named) :
    bindingsOfJson? (.obj (bindings.toList.map fun (name, b) => (name, b.toJson))) =
      some (bindings.mapValues Binding.reread) := by
  have read : (bindings.toList.map fun (name, b) => (name, b.toJson)).mapM
      (fun (name, j) => do return (name, ← Binding.ofJson? j)) =
        some (bindings.mapValues Binding.reread).toList := by
    rw [List.mapM_map, Ordered.toList_mapValues]
    apply mapM_eq_some
    intro member here
    simp [Binding.ofJson?_toJson (named member.2 (List.mem_map_of_mem here))]
  rw [bindingsOfJson?, read, Option.bind_eq_bind, Option.bind_some, Ordered.ofList_toList]
  rfl

theorem Step.ofJson?_toJson {s : Step} (line : s.line < 0x10000000000000000)
    (words : ∀ a ∈ s.accesses, Number.FitsWord a.index)
    (named : ∀ b ∈ s.bindings.values, b.value.toJson.All Json.Named) :
    Step.ofJson? s.toJson = some s.reread := by
  have bindings := bindingsOfJson?_toJson named
  have accesses : Json.items? Access.ofJson? (.arr (s.accesses.map Access.toJson)) =
      some (s.accesses.map id) :=
    Json.items?_map fun a ha => Access.ofJson?_toJson (words a ha)
  have line : (Json.int s.line).nat? = some s.line := by
    simp [Json.nat?]
    omega
  simp [Step.toJson, Step.ofJson?, Json.record?, Json.optional?, Json.str?, line, accesses, bindings,
    Step.reread, -List.map_map]

theorem RawTrace.ofJson?_toJson {t : RawTrace}
    (lines : ∀ s ∈ t.steps, s.line < 0x10000000000000000)
    (words : ∀ s ∈ t.steps, ∀ a ∈ s.accesses, Number.FitsWord a.index)
    (named : ∀ s ∈ t.steps, ∀ b ∈ s.bindings.values, b.value.toJson.All Json.Named) :
    RawTrace.ofJson? t.toJson = some ⟨t.steps.map Step.reread, t.needsInput⟩ := by
  have steps : Json.items? Step.ofJson? (.arr (t.steps.map Step.toJson)) =
      some (t.steps.map Step.reread) :=
    Json.items?_map fun s hs => Step.ofJson?_toJson (lines s hs) (words s hs) (named s hs)
  simp [RawTrace.toJson, RawTrace.ofJson?, Json.record?, Json.optional?, Json.bool?, steps]

/-! ### Written documents -/

theorem Text.trimWhile_eq_nil_iff {p : Char → Bool} {cs : List Char} :
    trimWhile p cs = [] ↔ ∀ c ∈ cs, p c = true := by
  have start : ∀ c ∈ cs.takeWhile p, p c = true := List.all_eq_true.mp List.all_takeWhile
  constructor
  next =>
    intro none c here
    rw [trimWhile, dropEndWhile, List.reverse_eq_nil_iff, List.dropWhile_eq_nil_iff] at none
    rw [← List.takeWhile_append_dropWhile (p := p) (l := cs), List.mem_append] at here
    rcases here with before | inside
    · exact start c before
    · exact none c (List.mem_reverse.mpr inside)
  next =>
    intro all
    simp [trimWhile, dropEndWhile, List.dropWhile_eq_nil_iff.mpr all]

-- The bracket at the end of a document is not blank.
theorem RawTrace.document_shown (t : RawTrace) : (Text.trim t.toJson.write).isEmpty = false := by
  have last : '\x7d' ∈ t.toJson.write.toList := by
    simp [RawTrace.toJson, Json.write, Json.appendTo]
  rw [Bool.eq_false_iff]
  intro empty
  have none : Text.trimWhile Text.isBlank t.toJson.write.toList = [] := by
    simpa [Text.trim] using empty
  have blank := Text.trimWhile_eq_nil_iff.mp none _ last
  revert blank
  decide

theorem DocumentError.not_failure (e : DocumentError) {s : Step} (failed : s.isFailure = true) :
    s.explanation ≠ e.message := by
  intro same
  rw [Step.isFailure_iff, same] at failed
  have second : e.message.toList[1]? = some 'x' := by
    fun_cases DocumentError.message e
    case case1 | case2 => rw [String.toList_ofList]; rfl
    case case3 column => rw [String.toList_append, String.toList_ofList]; rfl
  obtain ⟨rest, split⟩ := failed
  rw [← split] at second
  cases second

/-! ### The letters of a document -/

namespace Json

def textLetters (s : String) : List Char :=
  '"' :: s.toList.flatMap (fun c =>
    if c.toNat < 32 || c == '"' || c == '\\' then escapedChar c else [c]) ++ ['"']

mutual

-- What is written of a document, letter by letter.
def letters : Json → List Char
  | null => "null".toList
  | bool b => (if b then "true" else "false").toList
  | int n => (toString n).toList
  | float f => (fractionStyle.write f).toList
  | str s => textLetters s
  | arr items => '[' :: itemLetters true items ++ [']']
  | obj members => '\x7b' :: memberLetters true members ++ ['\x7d']

def itemLetters (first : Bool) : List Json → List Char
  | [] => []
  | j :: rest => (if first then [] else [',']) ++ j.letters ++ itemLetters false rest

def memberLetters (first : Bool) : List (String × Json) → List Char
  | [] => []
  | (k, j) :: rest =>
    (if first then [] else [',']) ++ textLetters k ++ ':' :: j.letters ++ memberLetters false rest

end

theorem toList_foldl_push (out : String) (cs : List Char) :
    (cs.foldl String.push out).toList = out.toList ++ cs := by
  induction cs generalizing out with
  | nil => simp
  | cons c cs ih => simp [ih]

theorem toList_appendText (out s : String) :
    (appendText out s).toList = out.toList ++ textLetters s := by
  have body (cs : List Char) (out : String) :
      (cs.foldl (fun out c => if c.toNat < 32 || c == '"' || c == '\\' then
        (escapedChar c).foldl String.push out else out.push c) out).toList =
        out.toList ++ cs.flatMap fun c =>
          if c.toNat < 32 || c == '"' || c == '\\' then escapedChar c else [c] := by
    induction cs generalizing out with
    | nil => simp
    | cons c cs ih =>
      rw [List.foldl_cons, ih, List.flatMap_cons, ← List.append_assoc]
      split <;> simp [toList_foldl_push]
  rw [appendText, String.toList_push, body]
  simp [textLetters]

mutual

theorem toList_appendTo (out : String) (j : Json) :
    (appendTo out j).toList = out.toList ++ j.letters := by
  cases j with
  | str s => exact toList_appendText out s
  | arr items => simp [appendTo, letters, toList_appendItems _ _ items]
  | obj members => simp [appendTo, letters, toList_appendMembers _ _ members]
  | _ => simp [appendTo, letters]

theorem toList_appendItems (out : String) (first : Bool) (items : List Json) :
    (appendItems out first items).toList = out.toList ++ itemLetters first items := by
  cases items with
  | nil => simp [appendItems, itemLetters]
  | cons j rest =>
    rw [appendItems, itemLetters, toList_appendItems _ _ rest, toList_appendTo _ j]
    cases first <;> simp

theorem toList_appendMembers (out : String) (first : Bool) (members : List (String × Json)) :
    (appendMembers out first members).toList = out.toList ++ memberLetters first members := by
  match members with
  | [] => simp [appendMembers, memberLetters]
  | (k, j) :: rest =>
    rw [appendMembers, memberLetters, toList_appendMembers _ _ rest, toList_appendTo _ j]
    cases first <;> simp [toList_appendText]

end

theorem toList_write (j : Json) : j.write.toList = j.letters := by
  simp [write, toList_appendTo]

-- A document that is read back needs no text in between.
theorem read_write (j : Json) : read j.write = (do
    let (j', s) ← readLoop [] .value ⟨j.letters, 0⟩ (j.letters.length + 2)
    if (skipSpaces s.rest s.bytes).rest.isEmpty then return j' else throw .malformed) := by
  rw [read, toList_write]

end Json

/-! ### Reading back -/

theorem Step.isFailure_reread (s : Step) : s.reread.isFailure = s.isFailure := rfl

-- A trace falls into the steps of the program and at most a failure after them, read back or not.
theorem RawTrace.EndsAs.reread {t : RawTrace} {b : Nat} {o : Ending} (h : t.EndsAs b o)
    (least : 0 < b) :
    ∃ steps, ∃ failure : Option Step, t.steps = steps ++ failure.toList ∧
      (∀ s ∈ steps, s.isFailure = false) ∧ (∀ s ∈ failure, s.isFailure = true) ∧
      RawTrace.finalize ⟨t.steps.map Step.reread, t.needsInput⟩ =
        ⟨steps.map Step.reread, failure.map Step.explanation, t.needsInput⟩ := by
  have unfailing : (∀ s ∈ t.steps, s.isFailure = false) → t.steps ≠ [] ∨ t.needsInput = true →
      RawTrace.finalize ⟨t.steps.map Step.reread, t.needsInput⟩ =
        ⟨t.steps.map Step.reread, none, t.needsInput⟩ := by
    intro unfailed shown
    apply RawTrace.finalize_unfailed
    next => simpa [Step.isFailure_reread] using unfailed
    next => simpa using shown
  cases o with
  | failed =>
    obtain ⟨served, before, last, steps, failure, unfailed, -⟩ := h
    have back : RawTrace.finalize ⟨t.steps.map Step.reread, t.needsInput⟩ =
        ⟨before.map Step.reread, some last.reread.explanation, false⟩ :=
      RawTrace.finalize_failed (by simp [steps]) failure
    exact ⟨before, some last, steps, unfailed, by simpa using failure, by rw [back, served]; rfl⟩
  | waiting =>
    obtain ⟨waits, -, lines⟩ := h
    have unfailed : ∀ s ∈ t.steps, s.isFailure = false := fun s hs => (lines s hs).isFailure
    exact ⟨t.steps, none, by simp, unfailed, by simp, unfailing unfailed (.inr waits)⟩
  | finished =>
    obtain ⟨⟨before, last, steps, -⟩, unfailed, -⟩ := h
    exact ⟨t.steps, none, by simp, unfailed, by simp, unfailing unfailed (.inl (by simp [steps]))⟩
  | truncated =>
    obtain ⟨-, size, lines⟩ := h
    have unfailed : ∀ s ∈ t.steps, s.isFailure = false := fun s hs => (lines s hs).isFailure
    have nonempty : t.steps ≠ [] := by
      rintro empty
      simp [empty] at size
      omega
    exact ⟨t.steps, none, by simp, unfailed, by simp, unfailing unfailed (.inl nonempty)⟩

-- A line that is read back is a number of 64 bits.
theorem RawTrace.line_lt {t : RawTrace} (h : t.toJson.All Json.Sized) :
    ∀ s ∈ t.steps, s.line < 0x10000000000000000 := by
  intro s hs
  have steps : (Json.arr (t.steps.map Step.toJson)).All Json.Sized :=
    h.inside _ (by simp [RawTrace.toJson, Json.parts])
  have step : s.toJson.All Json.Sized := steps.inside _ (List.mem_map_of_mem hs)
  have line : (Json.int s.line).Sized := (step.inside _ (by simp [Step.toJson, Json.parts])).here
  have bound : (s.line : Int) < 0x10000000000000000 := line.2
  omega

theorem Traces.named {config : Config} {source : String} {inputs : List String} {t : RawTrace}
    (h : Traces config source inputs t) :
    ∀ s ∈ t.steps, ∀ b ∈ s.bindings.values, b.value.toJson.All Json.Named := by
  intro s hs b hb
  obtain ⟨heap, v, copied⟩ := h.captured s hs b hb
  rw [copied]
  exact heap.named_captureWithin (config.maxDepth + 1) [] v

/--
What a run leaves behind comes back from its document: the steps in their order with only their
values read anew, the failure at the end as the error, and the request for input. This takes a
reader that undoes the writing of the document, if it does not nest too deep, and accesses at places
that are 64-bit numbers, as they are in all lists that fit a memory.
-/
theorem transport_loses_nothing {q : TraceRequest} {config : Config} {t : RawTrace}
    (shallow : config.maxDepth ≤ 60)
    (traced : Traces { config with budget := q.budget } q.source q.inputs t)
    (words : ∀ s ∈ t.steps, ∀ a ∈ s.accesses, Number.FitsWord a.index)
    (inverts : t.toJson.nesting ≤ Json.maxNesting →
      Json.read t.toJson.write = .ok t.toJson) :
    t.toJson.nesting ≤ Json.maxNesting ∧
    ∃ steps, ∃ failure : Option Step, t.steps = steps ++ failure.toList ∧
      (∀ s ∈ steps, s.isFailure = false) ∧ (∀ s ∈ failure, s.isFailure = true) ∧
      let u : Trace := ⟨steps.map Step.reread, failure.map Step.explanation, t.needsInput⟩
      finalize t.toJson.write = .ok u ∧
      (∀ e : DocumentError, u.error ≠ some e.message) ∧
      ((trace? ampleFuel { config with budget := q.budget } q.source q.inputs).isSome = true →
        q.document config = t.toJson.write ∧ q.run config = u) := by
  have nesting : t.toJson.nesting ≤ Json.maxNesting := by
    have bound := traced.nesting
    dsimp only at bound
    unfold Json.maxNesting
    omega
  have back := inverts nesting
  have lines := RawTrace.line_lt (Json.sized_of_read back)
  have read := RawTrace.ofJson?_toJson lines words traced.named
  obtain ⟨o, ends⟩ := traced.endsAs
  have least := q.budget.least_le
  obtain ⟨steps, failure, split, unfailed, failed, finalized⟩ := ends.reread (by dsimp only; omega)
  have done : finalize t.toJson.write =
      .ok ⟨steps.map Step.reread, failure.map Step.explanation, t.needsInput⟩ := by
    simp [finalize, t.document_shown, back, read, finalized]
  refine ⟨nesting, steps, failure, split, unfailed, failed, done, ?_, ?_⟩
  · intro e same
    obtain ⟨s, hs, message⟩ := Option.map_eq_some_iff.mp same
    exact e.not_failure (failed s hs) message
  · intro ample
    have document : q.document config = t.toJson.write := by
      rw [TraceRequest.document, traced.trace_eq ample]
    exact ⟨document, by rw [TraceRequest.run, document, done]⟩

-- The failure of the program is the error that is read back.
theorem transport_loses_nothing_failing :
    let q : TraceRequest := ⟨"1 / 0", ⟨10, by decide⟩, []⟩
    ∃ t, Traces { budget := q.budget, maxDepth := 60 } q.source q.inputs t ∧
      t.toJson.nesting ≤ Json.maxNesting ∧
      ∃ u, finalize t.toJson.write = .ok u ∧
        u.error = some "Error: ZeroDivisionError: division by zero" ∧
        q.document { maxDepth := 60 } = t.toJson.write ∧ q.run { maxDepth := 60 } = u := by
  intro q
  have run : (trace? 30 { budget := q.budget, maxDepth := 60 } q.source q.inputs).any (fun t =>
      (∀ s ∈ t.steps, ∀ a ∈ s.accesses, Number.FitsWord a.index) ∧
        Json.read t.toJson.write = .ok t.toJson ∧
        t.steps.map Step.isFailure = [false, true] ∧
        t.steps.map Step.explanation =
          ["Line 1", "Error: ZeroDivisionError: division by zero"]) = true := by
    simp only [Json.read_write]
    decide +kernel
  obtain ⟨t, done, checked⟩ := (Option.any_eq_true _ _).mp run
  obtain ⟨words, inverts, failures, explained⟩ := of_decide_eq_true checked
  have ample : (trace? ampleFuel { budget := q.budget, maxDepth := 60 } q.source q.inputs).isSome =
      true :=
    Option.isSome_of_eq_some (trace?_mono (by decide) done)
  obtain ⟨nesting, steps, failure, split, unfailed, -, finalized, -, results⟩ :=
    @transport_loses_nothing q { maxDepth := 60 } t (by decide) ⟨30, done⟩ words
      fun _ => inverts
  obtain ⟨document, result⟩ := results ample
  refine ⟨t, ⟨30, done⟩, nesting, _, finalized, ?_, document, result⟩
  cases failure with
  | none =>
    have steps : t.steps = steps := by simpa using split
    have none : ∀ b ∈ t.steps.map Step.isFailure, b = false := by simpa [steps] using unfailed
    simp [failures] at none
  | some last =>
    have ended := congrArg List.getLast? explained
    simpa [split] using ended

end StepTrace
