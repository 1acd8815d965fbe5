/-!
# Stop signals

A stop signal is raised once and stays up. Waiting for it ends at once if it is up.
-/

namespace WorldClock

/-- Whether a ticker has been asked to stop. -/
structure StopSignal where
  isRaised : Bool
deriving DecidableEq, Repr, Inhabited

namespace StopSignal

def lowered : StopSignal := ⟨false⟩

def raise (_ : StopSignal) : StopSignal := ⟨true⟩

/-- Whether a wait for the signal ends without anyone raising it from now on. -/
def waitEnds (s : StopSignal) : Bool := s.isRaised

end StopSignal

end WorldClock
