import StepTrace.Proofs.Tracking.Parsing

/-!
Marks and the places of expressions. Marking changes the parts of a node by what they are there for,
and puts a mark around the node if it is a list display whose value is asked for.
-/

set_option autoImplicit false

namespace StepTrace

variable {role : Role} {e root : Expr}

namespace Expr

-- An expression with the displays in it marked, by what it is there for.
def trackAs : Role → Expr → Expr
  | .value => track
  | .target => trackTarget
  | .marked => id

def isList : Expr → Bool
  | .list .. => true
  | _ => false

-- What has the form of a target.
def isPattern : Expr → Bool
  | .name .. | .attr .. | .subscript .. | .list .. | .tuple .. => true
  | _ => false

end Expr

/-! ### Marking by parts -/

theorem trackAll_eq_map (es : List Expr) : trackAll es = es.map Expr.track :=
  eq_map_of_cons rfl (fun _ _ => rfl) es

theorem trackTargets_eq_map (es : List Expr) : trackTargets es = es.map Expr.trackTarget :=
  eq_map_of_cons rfl (fun _ _ => rfl) es

theorem trackOption_eq_map (e : Option Expr) : trackOption e = e.map Expr.track := by
  cases e <;> rfl

theorem trackEntries_eq_map (es : List (Expr × Expr)) :
    trackEntries es = es.map (Prod.map Expr.track Expr.track) :=
  eq_map_of_cons rfl (fun _ _ => rfl) es

theorem trackComparisons_eq_map (es : List (CompareOp × Expr)) :
    trackComparisons es = es.map (Prod.map id Expr.track) :=
  eq_map_of_cons rfl (fun _ _ => rfl) es

theorem trackKeywords_eq_map (es : List (String × Expr)) :
    trackKeywords es = es.map (Prod.map id Expr.track) :=
  eq_map_of_cons rfl (fun _ _ => rfl) es

theorem trackParts_eq_map (ps : List FPart) :
    trackParts ps = ps.map (FPart.mapParts Expr.trackAs) :=
  eq_map_of_cons rfl (fun p _ => by cases p <;> rfl) ps

theorem trackParams_eq_map (ps : List Param) :
    trackParams ps = ps.map (Param.mapParts Expr.trackAs) :=
  eq_map_of_cons rfl (fun ⟨_, _⟩ _ => by rw [trackParams, trackOption_eq_map]; rfl) ps

theorem trackClauses_eq_map (cs : List Clause) :
    trackClauses cs = cs.map (Clause.mapParts Expr.trackAs) :=
  eq_map_of_cons rfl (fun ⟨_, _, _⟩ _ => by rw [trackClauses, trackAll_eq_map]; rfl) cs

namespace Expr

theorem track_eq (unmarked : e.isTracked = false) (other : e.isList = false) :
    e.track = e.mapParts trackAs .value := by
  cases e with
  | tracked => cases unmarked
  | list => cases other
  | _ => simp only [track, mapParts, trackAs, Role.item, trackAll_eq_map, trackOption_eq_map,
      trackEntries_eq_map, trackComparisons_eq_map, trackKeywords_eq_map, trackParts_eq_map,
      trackParams_eq_map, trackClauses_eq_map]

theorem track_list (display : e.isList = true) :
    e.track = .tracked e.location (e.mapParts trackAs .value) := by
  cases e with
  | list => simp only [track, mapParts, trackAs, Role.item, trackAll_eq_map, location]
  | _ => cases display

theorem trackTarget_eq (pattern : e.isPattern = true) :
    e.trackTarget = e.mapParts trackAs .target := by
  cases e with
  | name | attr | subscript | list | tuple =>
    simp only [trackTarget, mapParts, trackAs, Role.item, trackTargets_eq_map]
  | _ => cases pattern

end Expr

/-! ### Taking marks away by parts -/

theorem untrackedAll_eq_map (es : List Expr) : untrackedAll es = es.map Expr.untracked :=
  eq_map_of_cons rfl (fun _ _ => rfl) es

theorem untrackedOption_eq_map (e : Option Expr) : untrackedOption e = e.map Expr.untracked := by
  cases e <;> rfl

theorem untrackedEntries_eq_map (es : List (Expr × Expr)) :
    untrackedEntries es = es.map (Prod.map Expr.untracked Expr.untracked) :=
  eq_map_of_cons rfl (fun _ _ => rfl) es

theorem untrackedComparisons_eq_map (es : List (CompareOp × Expr)) :
    untrackedComparisons es = es.map (Prod.map id Expr.untracked) :=
  eq_map_of_cons rfl (fun _ _ => rfl) es

theorem untrackedKeywords_eq_map (es : List (String × Expr)) :
    untrackedKeywords es = es.map (Prod.map id Expr.untracked) :=
  eq_map_of_cons rfl (fun _ _ => rfl) es

theorem untrackedParts_eq_map (ps : List FPart) :
    untrackedParts ps = ps.map (FPart.mapParts fun _ => Expr.untracked) :=
  eq_map_of_cons rfl (fun p _ => by cases p <;> rfl) ps

theorem untrackedParams_eq_map (ps : List Param) :
    untrackedParams ps = ps.map (Param.mapParts fun _ => Expr.untracked) :=
  eq_map_of_cons rfl (fun ⟨_, _⟩ _ => by rw [untrackedParams, untrackedOption_eq_map]; rfl) ps

theorem untrackedClauses_eq_map (cs : List Clause) :
    untrackedClauses cs = cs.map (Clause.mapParts fun _ => Expr.untracked) :=
  eq_map_of_cons rfl (fun ⟨_, _, _⟩ _ => by rw [untrackedClauses, untrackedAll_eq_map]; rfl) cs

namespace Expr

theorem untracked_eq (unmarked : e.isTracked = false) (role : Role) :
    e.untracked = e.mapParts (fun _ => untracked) role := by
  cases e with
  | tracked => cases unmarked
  | _ => simp only [untracked, mapParts, untrackedAll_eq_map, untrackedOption_eq_map,
      untrackedEntries_eq_map, untrackedComparisons_eq_map, untrackedKeywords_eq_map,
      untrackedParts_eq_map, untrackedParams_eq_map, untrackedClauses_eq_map]

/-! ### Forms -/

variable {f : Role → Expr → Expr}

theorem isTracked_mapParts (e : Expr) : (e.mapParts f role).isTracked = e.isTracked := by
  cases e <;> rfl

theorem mapParts_ne_tracked (unmarked : e.isTracked = false) (l : Location) (inner : Expr) :
    .tracked l inner ≠ e.mapParts f role := by
  intro same
  have marked := (congrArg isTracked same).trans (isTracked_mapParts e)
  cases marked.trans unmarked

theorem isList_mapParts (e : Expr) : (e.mapParts f role).isList = e.isList := by
  cases e <;> rfl

theorem isPattern_mapParts (e : Expr) : (e.mapParts f role).isPattern = e.isPattern := by
  cases e <;> rfl

theorem track_tracked (marked : e.isTracked = true) : e.track = e := by
  cases e with
  | tracked => rfl
  | _ => cases marked

theorem isTracked_of_isList (display : e.isList = true) : e.isTracked = false := by
  cases e <;> first | rfl | cases display

theorem isPattern_of_isAssignable (assignable : e.isAssignable = true) : e.isPattern = true := by
  cases e <;> first | rfl | cases assignable

theorem trackTarget_of_other (other : e.isPattern = false) : e.trackTarget = e := by
  cases e with
  | name | attr | subscript | list | tuple => cases other
  | _ => rfl

/-! ### Marking twice -/

theorem trackAs_trackAs (e : Expr) : ∀ role, trackAs role (trackAs role e) = trackAs role e := by
  induction e using induct with
  | step e ih =>
    have again (role : Role) :
        (e.mapParts trackAs role).mapParts trackAs role = e.mapParts trackAs role := by
      rw [mapParts_mapParts]
      exact mapParts_congr fun part here => ih role part here part.1
    intro role
    cases role with
    | marked => rfl
    | target =>
      change e.trackTarget.trackTarget = e.trackTarget
      cases pattern : e.isPattern with
      | false => rw [trackTarget_of_other pattern, trackTarget_of_other pattern]
      | true =>
        rw [trackTarget_eq pattern, trackTarget_eq ((isPattern_mapParts e).trans pattern), again]
    | value =>
      change e.track.track = e.track
      cases display : e.isList with
      | true => rw [track_list display, track_tracked rfl]
      | false =>
        cases marked : e.isTracked with
        | true => rw [track_tracked marked, track_tracked marked]
        | false =>
          rw [track_eq marked display, track_eq ((isTracked_mapParts e).trans marked)
            ((isList_mapParts e).trans display), again]

/-! ### Marking and taking the marks away -/

theorem untracked_trackAs (e : Expr) :
    ∀ role, e.Written role → (trackAs role e).untracked = e := by
  induction e using induct with
  | step e ih =>
    intro role written
    have unmarked := written.unmarked
    have back : (e.mapParts trackAs role).untracked = e := by
      rw [untracked_eq ((isTracked_mapParts e).trans unmarked) role, mapParts_mapParts]
      refine (mapParts_congr fun part here => ?_).trans e.mapParts_id
      exact ih role part here part.1 (written.part here)
    cases role with
    | marked => exact written.fits.elim
    | target =>
      have pattern := isPattern_of_isAssignable written.fits
      exact (congrArg untracked (trackTarget_eq pattern)).trans back
    | value =>
      cases display : e.isList with
      | true =>
        refine (congrArg untracked (track_list display)).trans ?_
        rw [untracked]
        exact back
      | false => exact (congrArg untracked (track_eq unmarked display)).trans back

/-! ### What occurs in a marked expression -/

-- What occurs in a marked expression: marked parts, and the displays that are children of marks.
def Marks (has : Role → Expr → Prop) (r : Role) (e : Expr) : Prop :=
  (∃ e₀, has r e₀ ∧ e = trackAs r e₀) ∨
    r = .marked ∧ ∃ e₀, has .value e₀ ∧ e₀.isList = true ∧ e = e₀.mapParts trackAs .value

theorem Marks.lift {has has' : Role → Expr → Prop} {r : Role} (h : Marks has r e)
    (all : ∀ r e, has r e → has' r e) : Marks has' r e := by
  refine h.imp ?_ ?_
  · rintro ⟨e₀, found, rfl⟩
    exact ⟨e₀, all _ _ found, rfl⟩
  · rintro ⟨rfl, e₀, found, display, rfl⟩
    exact ⟨rfl, e₀, all _ _ found, display, rfl⟩

-- A display whose value is asked for is marked.
theorem Marks.not_isList {has : Role → Expr → Prop} (h : Marks has .value e)
    (fits : ∀ e, has .value e → e.Fits .value) : e.isList = false := by
  rcases h with ⟨e₀, found, rfl⟩ | ⟨impossible, -⟩
  · change e₀.track.isList = false
    cases display : e₀.isList with
    | true =>
      rw [track_list display]
      rfl
    | false => rw [track_eq (fits e₀ found) display, isList_mapParts, display]
  · cases impossible

-- Only displays are marked, and only those whose values are asked for.
theorem Marks.of_tracked {has : Role → Expr → Prop} {r : Role} {l : Location}
    (h : Marks has r (.tracked l e)) (fits : ∀ r e, has r e → e.Fits r) :
    r = .value ∧ e.isList = true := by
  rcases h with ⟨e₀, found, same⟩ | ⟨-, e₀, found, display, same⟩
  · have fits := fits r e₀ found
    cases r with
    | marked => exact fits.elim
    | target =>
      have changed := same.trans (trackTarget_eq (isPattern_of_isAssignable fits))
      exact (mapParts_ne_tracked fits.unmarked l e changed).elim
    | value =>
      refine ⟨rfl, ?_⟩
      cases display : e₀.isList with
      | true =>
        cases same.trans (track_list display)
        rw [isList_mapParts, display]
      | false => exact (mapParts_ne_tracked fits l e (same.trans (track_eq fits display))).elim
  · exact (mapParts_ne_tracked (isTracked_of_isList display) l e same).elim

theorem marks_of_has {r : Role} (written : root.Written role)
    (h : (trackAs role root).Has role r e) : Marks (root.Has role) r e := by
  induction h with
  | root => exact .inl ⟨root, .root, rfl⟩
  | @part r r' e e' outer here ih =>
    -- The parts of a changed node are the changed parts of the node.
    have below {r₀ : Role} {e₀ : Expr} (found : root.Has role r₀ e₀)
        (here : (r', e') ∈ (e₀.mapParts trackAs r₀).parts r₀) : Marks (root.Has role) r' e' := by
      rw [parts_mapParts, List.mem_map] at here
      obtain ⟨⟨r₁, e₁⟩, inside, same⟩ := here
      cases same
      exact .inl ⟨e₁, .part found inside, rfl⟩
    rcases ih with ⟨e₀, found, rfl⟩ | ⟨rfl, e₀, found, display, rfl⟩
    · have fits := written _ _ found
      cases r with
      | marked => exact fits.elim
      | target =>
        refine below found ?_
        rw [← trackTarget_eq (isPattern_of_isAssignable fits)]
        exact here
      | value =>
        cases display : e₀.isList with
        | true =>
          rw [show trackAs .value e₀ = _ from track_list display] at here
          cases List.mem_singleton.1 here
          exact .inr ⟨rfl, e₀, found, display, rfl⟩
        | false =>
          refine below found ?_
          rw [← track_eq fits display]
          exact here
    · refine below found ?_
      cases e₀ with
      | list => exact here
      | _ => cases display

theorem has_of_has {r : Role} (written : root.Written role) (h : root.Has role r e) :
    (trackAs role root).Has role r (trackAs r e) := by
  induction h with
  | root => exact .root
  | @part r r' e e' outer here ih =>
    have fits := written _ _ outer
    have below : (r', trackAs r' e') ∈ (e.mapParts trackAs r).parts r := by
      rw [parts_mapParts]
      exact List.mem_map_of_mem (f := fun part => (part.1, trackAs part.1 part.2)) here
    cases r with
    | marked => exact fits.elim
    | target =>
      rw [← trackTarget_eq (isPattern_of_isAssignable fits)] at below
      exact .part ih below
    | value =>
      cases display : e.isList with
      | true =>
        have marked : (trackAs role root).Has role .marked (e.mapParts trackAs .value) := by
          refine .part ih ?_
          rw [show trackAs .value e = _ from track_list display]
          exact List.mem_singleton_self _
        refine .part marked ?_
        cases e with
        | list => exact below
        | _ => cases display
      | false =>
        rw [← track_eq fits display] at below
        exact .part ih below

end Expr

/-! ### Statements -/

theorem trackBlock_eq_map (p : Program) : trackBlock p = p.map Stmt.track :=
  eq_map_of_cons rfl (fun _ _ => rfl) p

theorem track_mem_trackBlock {p : Program} {s : Stmt} (here : s ∈ p) : s.track ∈ trackBlock p := by
  rw [trackBlock_eq_map]
  exact List.mem_map_of_mem here

theorem untrackedBlock_eq_map (p : Program) : untrackedBlock p = p.map Stmt.untracked :=
  eq_map_of_cons rfl (fun _ _ => rfl) p

namespace Stmt

theorem track_eq (s : Stmt) : s.track = s.mapParts Expr.trackAs track := by
  cases s <;> simp only [track, mapParts, Expr.trackAs, trackOption_eq_map, trackTargets_eq_map,
    trackParams_eq_map, trackBlock_eq_map]

theorem untracked_eq (s : Stmt) : s.untracked = s.mapParts (fun _ => Expr.untracked) untracked := by
  cases s <;> simp only [untracked, mapParts, untrackedOption_eq_map, untrackedAll_eq_map,
    untrackedParams_eq_map, untrackedBlock_eq_map]

theorem track_track (s : Stmt) : s.track.track = s.track := by
  induction s using induct with
  | step s ih =>
    rw [track_eq s, track_eq, mapParts_mapParts]
    exact mapParts_congr (fun part _ => Expr.trackAs_trackAs part.2 part.1) ih

theorem untracked_track (s : Stmt) : PartsWritten s.parts → s.inner.Written →
    s.track.untracked = s := by
  induction s using induct with
  | step s ih =>
    intro parts inner
    rw [track_eq, untracked_eq, mapParts_mapParts]
    refine (mapParts_congr (fun part here => ?_) fun s' here => ?_).trans s.mapParts_id
    · exact Expr.untracked_trackAs part.2 part.1 (parts part here)
    · exact ih s' here (inner.parts here) (inner.inner here)

end Stmt

namespace Program

variable {p : Program} {r : Role}

theorem trackBlock_trackBlock (p : Program) : trackBlock (trackBlock p) = trackBlock p := by
  rw [trackBlock_eq_map, trackBlock_eq_map, List.map_map]
  exact List.map_congr_left fun s _ => s.track_track

theorem untrackedBlock_trackBlock (written : p.Written) : untrackedBlock (trackBlock p) = p := by
  rw [untrackedBlock_eq_map, trackBlock_eq_map, List.map_map]
  refine (List.map_congr_left fun s here => ?_).trans (List.map_id p)
  exact s.untracked_track (written.parts here) (written.inner here)

theorem marks_of_has (written : p.Written) (h : Has (trackBlock p) r e) :
    Expr.Marks p.Has r e := by
  generalize same : trackBlock p = q at h
  induction h generalizing p with
  | @expr q s' part' r e here isPart inside =>
    rw [← same, trackBlock_eq_map, List.mem_map] at here
    obtain ⟨s, here, rfl⟩ := here
    rw [Stmt.track_eq, Stmt.parts_mapParts, List.mem_map] at isPart
    obtain ⟨part, isPart, rfl⟩ := isPart
    exact (Expr.marks_of_has (written.parts here _ isPart) inside).lift fun _ _ inside =>
      .expr here isPart inside
  | @block q s' r e here inside ih =>
    rw [← same, trackBlock_eq_map, List.mem_map] at here
    obtain ⟨s, here, rfl⟩ := here
    have inner : trackBlock s.inner = s.track.inner := by
      rw [Stmt.track_eq, Stmt.inner_mapParts, trackBlock_eq_map]
    exact (ih (written.inner here) inner).lift fun _ _ inside => .block here inside

theorem has_of_has (written : p.Written) (h : p.Has r e) :
    Has (trackBlock p) r (Expr.trackAs r e) := by
  induction h with
  | @expr p s part r e here isPart inside =>
    have isPart' : (part.1, Expr.trackAs part.1 part.2) ∈ s.track.parts := by
      rw [Stmt.track_eq, Stmt.parts_mapParts]
      exact List.mem_map_of_mem (f := fun part => (part.1, Expr.trackAs part.1 part.2)) isPart
    exact .expr (track_mem_trackBlock here) isPart' (Expr.has_of_has (written.parts here _ isPart) inside)
  | @block p s r e here inside ih =>
    refine .block (track_mem_trackBlock here) ?_
    rw [Stmt.track_eq, Stmt.inner_mapParts, ← trackBlock_eq_map]
    exact ih (written.inner here)

end Program

/--
A program as it is read from a text, and the same program marked. Taking the marks away gives the
program back, and marking it again changes nothing. Every list display that is evaluated, at any
depth, is the child of a mark; a mark has a list display as its child and stands where a value is
asked for. So the lists in the targets of assignments, loops, comprehensions and `del` stay as they
are, but for what is evaluated inside their subscripts and attributes.
-/
theorem tracking_marks_list_values (source : String) (p : Program)
    (parsed : parseProgram source = .ok p) :
    untrackedBlock (trackBlock p) = p ∧
    trackBlock (trackBlock p) = trackBlock p ∧
    (∀ l items, ¬ Program.Has (trackBlock p) .value (.list l items)) ∧
    (∀ r l e, Program.Has (trackBlock p) r (.tracked l e) →
      r = .value ∧ ∃ l' items, e = .list l' items) ∧
    (∀ l items, p.Has .value (.list l items) →
      Program.Has (trackBlock p) .value (.tracked l (.list l (trackAll items)))) ∧
    ∀ l items, p.Has .target (.list l items) →
      Program.Has (trackBlock p) .target (.list l (trackTargets items)) := by
  have written := parseProgram_written parsed
  refine ⟨Program.untrackedBlock_trackBlock written, p.trackBlock_trackBlock, ?_, ?_, ?_, ?_⟩
  · intro l items bare
    cases (Program.marks_of_has written bare).not_isList fun e => written .value e
  · intro r l e marked
    obtain ⟨rfl, display⟩ := (Program.marks_of_has written marked).of_tracked written
    cases e with
    | list l' items => exact ⟨rfl, l', items, rfl⟩
    | _ => cases display
  · exact fun l items found => Program.has_of_has written found
  · exact fun l items found => Program.has_of_has written found

-- An item of a name as a pattern, with a display as its place.
def Program.itemPattern? : Program → Option (List Location × String)
  | [.assign l [.list l₁ [.subscript l₂ (.name l₃ a) (.list l₄ [])]] (.list l₅ [])] =>
    some ([l, l₁, l₂, l₃, l₄, l₅], a)
  | _ => none

theorem Program.eq_of_itemPattern? {p : Program} {l l₁ l₂ l₃ l₄ l₅ : Location} {a : String}
    (h : p.itemPattern? = some ([l, l₁, l₂, l₃, l₄, l₅], a)) :
    p = [.assign l [.list l₁ [.subscript l₂ (.name l₃ a) (.list l₄ [])]] (.list l₅ [])] := by
  unfold itemPattern? at h
  split at h
  · cases h
    rfl
  · cases h

-- A pattern with a display in a subscript.
theorem tracking_marks_list_values_in_pattern :
    let p : Program := [.assign ⟨1, 1⟩
      [.list ⟨1, 1⟩ [.subscript ⟨1, 3⟩ (.name ⟨1, 2⟩ "a") (.list ⟨1, 4⟩ [])]] (.list ⟨1, 11⟩ [])]
    parseProgram "[a[[]]] = []\n" = .ok p ∧ untrackedBlock (trackBlock p) = p ∧
      trackBlock p = [.assign ⟨1, 1⟩
        [.list ⟨1, 1⟩ [.subscript ⟨1, 3⟩ (.name ⟨1, 2⟩ "a") (.tracked ⟨1, 4⟩ (.list ⟨1, 4⟩ []))]]
        (.tracked ⟨1, 11⟩ (.list ⟨1, 11⟩ []))] := by
  intro p
  have shape : (parseProgram "[a[[]]] = []\n").toOption.any (fun p => p.itemPattern? =
      some ([⟨1, 1⟩, ⟨1, 1⟩, ⟨1, 3⟩, ⟨1, 2⟩, ⟨1, 4⟩, ⟨1, 11⟩], "a")) = true := by
    rw [parseProgram_ofList]
    decide +kernel
  obtain ⟨_, parsed, same⟩ := Except.of_any shape
  obtain rfl := Program.eq_of_itemPattern? (of_decide_eq_true same)
  exact ⟨parsed, (tracking_marks_list_values _ p parsed).1, rfl⟩

end StepTrace
