import StepTrace.Number.Binary

/-!
Places for the nodes of a drawn graph.
-/

set_option autoImplicit false

namespace StepTrace

structure Point where
  x : Float
  y : Float

/-- Half a turn. -/
def pi : Float := 3.141592653589793

/--
Places for `count` nodes on a circle in the middle of a canvas. The first one is at the top; the
others follow clockwise, as `y` grows downward.
-/
def circularLayout (count : Nat) (width height : Float) : List Point :=
  let radius := Number.lesser width height / 3
  (List.range count).map fun i =>
    let angle := Float.ofNat i / Float.ofNat count * 2 * pi - pi / 2
    ⟨width / 2 + radius * angle.cos, height / 2 + radius * angle.sin⟩

end StepTrace
