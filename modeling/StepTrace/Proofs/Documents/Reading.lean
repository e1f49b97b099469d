import StepTrace.Proofs.Documents.Finite
import StepTrace.Proofs.Documents.RoundTrip
import StepTrace.Proofs.Runs

/-!
What documents are read. Whatever a text says, the integers that are read have 64 bits and the
fractions are finite, so a copy can be taken from the document and written again.
-/

set_option autoImplicit false

namespace StepTrace.Json

open Number

-- Of a document itself: an integer is signed or unsigned of 64 bits, a fraction is finite.
def Sized : Json → Prop
  | int n => -0x8000000000000000 ≤ n ∧ n < 0x10000000000000000
  | float f => f.isFinite = true
  | _ => True

theorem Sized.finite {j : Json} (h : j.Sized) : j.Finite := by
  intro f number
  cases j with
  | int n =>
    obtain ⟨low, high⟩ := h
    obtain rfl := Option.some.inj number
    exact isFinite_ofInt (by omega)
  | float g =>
    obtain rfl := Option.some.inj number
    exact h
  | _ => cases number

/-! ### Numerals -/

theorem significandFrom_le {acc : Nat} (h : acc ≤ maxSignificand) (cs : List Char) :
    (significandFrom acc cs).1 ≤ maxSignificand := by
  induction cs generalizing acc with
  | nil => exact h
  | cons c rest ih =>
    rw [significandFrom]
    split
    next => exact h
    next fits => exact ih (Nat.le_of_not_lt fits)

theorem sized_ofParts {negative : Bool} {significand : Nat} {e : Int} {j : Json}
    (h : significand ≤ maxSignificand)
    (found : (ofParts negative significand e).map float = some j) : j.All Sized := by
  obtain ⟨f, parts, rfl⟩ := Option.map_eq_some_iff.mp found
  exact .leaf (isFinite_ofParts h parts) rfl

theorem Numeral.sized {n : Numeral} {j : Json} (h : n.value? = some j) : j.All Sized := by
  have whole := significandFrom_le (Nat.zero_le maxSignificand) n.whole
  unfold Numeral.value? at h
  generalize significandFrom 0 n.whole = start at h whole
  obtain ⟨significand, dropped⟩ := start
  dsimp only at h whole
  split at h
  next =>
    split at h
    next => exact sized_ofParts whole h
    next =>
      split at h
      next =>
        split at h
        next =>
          obtain rfl := Option.some.inj h
          exact .leaf (isFinite_neg (isFinite_ofNat (Nat.lt_succ_of_le whole))) rfl
        next =>
          obtain rfl := Option.some.inj h
          apply Throughout.leaf _ rfl
          simp only [Sized]
          omega
      next =>
        obtain rfl := Option.some.inj h
        apply Throughout.leaf _ rfl
        simp only [Sized, maxSignificand] at whole ⊢
        omega
  next =>
    have all := significandFrom_le whole (n.places.getD [])
    generalize significandFrom significand (n.places.getD []) = ended at h all
    obtain ⟨significand, rest⟩ := ended
    dsimp only at h all
    split at h
    next => exact sized_ofParts all h
    next =>
      split at h
      next => exact sized_ofParts all h
      next =>
        split at h
        next => cases h
        next =>
          obtain rfl := Option.some.inj h
          have zeros : ∀ b : Bool, (if b then -0.0 else (0.0 : Float)).isFinite = true := by
            decide +kernel
          exact .leaf (zeros n.negative) rfl

/-! ### Steps of the reader -/

def Open.Sized : Open → Prop
  | .arr done => ∀ j ∈ done, j.All Json.Sized
  | .obj done _ => ∀ j ∈ done.map Prod.snd, j.All Json.Sized

def Expect.Sized : Expect → Prop
  | .after j => j.All Json.Sized
  | _ => True

theorem Open.Sized.add {o : Open} {j : Json} (ho : o.Sized) (hj : j.All Json.Sized) :
    (o.add j).Sized := by
  cases o with
  | arr done => exact List.forall_mem_cons.mpr ⟨hj, ho⟩
  | obj done name => exact List.forall_mem_cons.mpr ⟨hj, ho⟩

-- A value that has just been read goes into what is open, whose contents are handed on at its end.
theorem readStep_sized {outer outer' : List Open} {expect expect' : Expect} {s s' : Source}
    (ho : ∀ o ∈ outer, o.Sized) (he : expect.Sized)
    (h : readStep outer expect s = .ok (outer', expect', s')) :
    (∀ o ∈ outer', o.Sized) ∧ expect'.Sized := by
  unfold readStep at h
  dsimp only at h
  generalize skipSpaces s.rest s.bytes = s at h
  split at h
  case h_1 | h_7 | h_8 => cases h
  case h_2 j c rest _ =>
    split at h
    next => cases h
    next o outer =>
      obtain ⟨inner, others⟩ := List.forall_mem_cons.mp ho
      have added := inner.add he
      generalize o.add j = o at h added
      split at h
      case h_1 | h_3 =>
        cases h
        exact ⟨List.forall_mem_cons.mpr ⟨added, others⟩, trivial⟩
      case h_2 done _ =>
        cases h
        have parts : ∀ j ∈ done.reverse, j.All Sized := by simpa [Open.Sized] using added
        exact ⟨others, .intro trivial parts⟩
      case h_4 done _ _ =>
        cases h
        have parts : ∀ j ∈ done.reverse.map Prod.snd, j.All Sized := by
          simpa [Open.Sized] using added
        exact ⟨others, .intro trivial parts⟩
      case h_5 => cases h
  case h_3 | h_4 =>
    cases h
    exact ⟨fun o here => ho o (List.mem_of_mem_drop here), .leaf trivial rfl⟩
  case h_5 | h_6 =>
    split at h
    next done name outer =>
      obtain ⟨inner, others⟩ := List.forall_mem_cons.mp ho
      obtain ⟨⟨name, s⟩, _, done⟩ := Except.of_bind_ok h
      cases done
      exact ⟨List.forall_mem_cons.mpr ⟨inner, others⟩, trivial⟩
    next => cases h
  case h_9 | h_10 =>
    split at h
    case h_1 | h_2 =>
      split at h
      next =>
        cases h
        exact ⟨List.forall_mem_cons.mpr ⟨List.forall_mem_nil _, ho⟩, trivial⟩
      next => cases h
    case h_3 =>
      obtain ⟨_, _, done⟩ := Except.of_bind_ok h
      cases done
      exact ⟨ho, .leaf trivial rfl⟩
    case h_4 | h_5 | h_6 =>
      obtain ⟨_, _, done⟩ := Except.of_map_ok h
      cases done
      exact ⟨ho, .leaf trivial rfl⟩
    case h_7 =>
      split at h
      next => cases h
      next =>
        split at h
        next => cases h
        next value =>
          cases h
          exact ⟨ho, Numeral.sized value⟩

theorem readLoop_sized {outer : List Open} {expect : Expect} {s s' : Source} {fuel : Nat} {j : Json}
    (ho : ∀ o ∈ outer, o.Sized) (he : expect.Sized)
    (h : readLoop outer expect s fuel = .ok (j, s')) : j.All Sized := by
  induction fuel generalizing outer expect s with
  | zero => cases h
  | succ fuel ih =>
    rw [readLoop.eq_def] at h
    dsimp only at h
    split at h
    next =>
      cases h
      exact he
    next =>
      split at h
      next => cases h
      next outer' expect' s'' step =>
        obtain ⟨ho', he'⟩ := readStep_sized ho he step
        exact ih ho' he' h

/-- Every number that is read is one of 64 bits, as deep in the document as it may be. -/
theorem sized_of_read {text : String} {j : Json} (h : read text = .ok j) : j.All Sized := by
  unfold read at h
  obtain ⟨⟨j', s⟩, loop, rest⟩ := Except.of_bind_ok h
  dsimp only at rest
  split at rest
  next =>
    cases rest
    exact readLoop_sized (List.forall_mem_nil _) (show Expect.value.Sized from trivial) loop
  next => cases rest

/-- A copy read from a text, whatever the text says, comes back when it is written and reread. -/
theorem reread_of_read {text : String} {j : Json} (h : read text = .ok j) :
    Snapshot.ofJson (Snapshot.ofJson j).toJson = Snapshot.ofJson j := by
  have finite : j.All Finite := (sized_of_read h).mono fun _ => Sized.finite
  exact Snapshot.ofJson_toJson (Snapshot.readable_of_finite finite).1

end StepTrace.Json
