/-!
Integers of 64 bits whose arithmetic refuses a result that does not fit.
-/

set_option autoImplicit false

namespace StepTrace.Number

/-- Whether `n` lies in the range of 64-bit signed integers. -/
def FitsWord (n : Int) : Prop := -0x8000000000000000 ≤ n ∧ n < 0x8000000000000000

instance (n : Int) : Decidable (FitsWord n) := inferInstanceAs (Decidable (_ ∧ _))

/-- The 64-bit integer of value `n`, if there is one. -/
def ofInt? (n : Int) : Option Int64 :=
  if FitsWord n then some (Int64.ofInt n) else none

theorem toInt_ofInt_of_fits {n : Int} (h : FitsWord n) : (Int64.ofInt n).toInt = n :=
  Int64.toInt_ofInt_of_le h.1 h.2

theorem fits_toInt (w : Int64) : FitsWord w.toInt :=
  ⟨Int64.le_toInt w, Int64.toInt_lt w⟩

theorem ofInt?_eq_some_iff {n : Int} {w : Int64} : ofInt? n = some w ↔ w.toInt = n := by
  constructor
  · intro h
    unfold ofInt? at h
    split at h
    · next hn => cases h; exact toInt_ofInt_of_fits hn
    · cases h
  · rintro rfl
    simp [ofInt?, fits_toInt w]

theorem ofInt?_eq_none_iff {n : Int} : ofInt? n = none ↔ ¬FitsWord n := by
  simp [ofInt?]

@[simp] theorem ofInt?_toInt (w : Int64) : ofInt? w.toInt = some w :=
  ofInt?_eq_some_iff.2 rfl

/-- The 64-bit integer nearest to `n`. -/
def clampWord (n : Int) : Int64 :=
  Int64.ofInt (max (-0x8000000000000000) (min n (0x8000000000000000 - 1)))

theorem clampWord_toInt (n : Int) :
    (clampWord n).toInt = max (-0x8000000000000000) (min n (0x8000000000000000 - 1)) :=
  toInt_ofInt_of_fits ⟨by omega, by omega⟩

end StepTrace.Number
