import ForkReplay.Evm.Machine

/-!
# Runs

A run takes the machine to the end of its outermost frame. State that an access needs
and the overlay does not hold is looked up before the access is performed.
-/

namespace ForkReplay.Evm

/-- Runs the machine to the end of its outermost frame. Every instruction costs gas or
ends a frame, and leaves few accesses; the fuel counts both. -/
def run (env : Env) :
    Nat → Overlay → Step → Lookups (Except LookupFailure (Result × World) × Overlay)
  | 0, overlay, .next m | 0, overlay, .access _ m =>
      let outermost := m.waiting.getLast?.getD m.frame
      .done (.ok (.halted (.outOfGas .basic), outermost.saved), overlay)
  | _, overlay, .done result world => .done (.ok (result, world), overlay)
  | fuel + 1, overlay, .next m => run env fuel overlay (step env overlay m)
  | fuel + 1, overlay, .access access m =>
      match access.missing? overlay m with
      | none => run env fuel overlay (perform env overlay access m)
      | some _ =>
          (overlay.supply (fun overlay => access.missing? overlay m) 2).bind fun
            | (.ok (), overlay) => run env fuel overlay (perform env overlay access m)
            | (.error failure, overlay) => .done (.error failure, overlay)

/-- The fuel that a run with the given gas never uses up. -/
def fuelFor (gas : Nat) : Nat := 8 * (gas + 8)

end ForkReplay.Evm
