import StressAppTest.FineLock.Sweep
import StressAppTest.FineLock.Overflow
import StressAppTest.FineLock.Solo

/-!
# The final check

After the run has stopped, `CheckThread`s in phase `final_check` empty the queue: each takes a
valid page, hands it to `CrcCheckPage` and puts it back as empty, until a search fails
(`Sat::Run`). As no page becomes valid again, a search fails only when no valid page is left
(`Start.sweep_of_reachable`).
-/

namespace StressAppTest

open Threads Work Contract

namespace Sat

variable {sat : Sat}

end Sat

namespace FineLock

open FineLockPEQueue

/-- The `CheckThread`s of the final check, one for each `τ`. -/
@[reducible] def checkThreads (sat : Sat) (τ : Type) : Program τ Ctl World :=
  workers sat (fun _ => .check true) (fun w => w.checked = []) fun _ _ => False

end FineLock

end StressAppTest
