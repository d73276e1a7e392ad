import DBServer.Proof.Loop

/-!
# The listener winds up

The loop is left on a signal only, and what is behind it is done in one order: default
dispositions, sockets, paths. A signal that comes in between ends the process there, so what holds
of every moment is that a beginning of the sockets is closed and a beginning of the paths removed;
the whole of both holds of a thread that has returned.
-/

namespace DBServer.Proof

open DBServer Lib ListenLoop

variable {s₀ s : ListenLoop}

/-- Whether a signal has its default disposition back. -/
def defaultBack (s : ListenLoop) (sig : StopSignal) : Bool :=
  match s.stage with
  | .stopping point => restored point sig
  | .returned => true
  | _ => false

/-- A signal is handled until its default disposition is back. -/
theorem LoopCourse.handled (hinit : s₀.Init) (hc : LoopCourse s₀ s)
    (hefd : s₀.listener.shutdownEfd.isSome) (hcrashed : s.stage ≠ .crashed)
    (hkilled : s.stage ≠ .killed) (sig : StopSignal) : s.handled sig = !defaultBack s sig := by
  cases hc with
  | looping hloop hu =>
      have hback : defaultBack s sig = false := by
        rcases looping_cases hloop with hs | hs | ⟨es, hs⟩ <;> rw [defaultBack, hs]
      rw [hu.handled, hinit.handled, hefd, hback]
      rfl
  | stopping hs hw => rw [hw.handled, defaultBack, hs]
  | returned hs hw =>
      rw [hw.unhandled, defaultBack, hs]
      rfl
  | crashed h _ _ _ => exact absurd h hcrashed
  | killed h _ | unhandled h _ _ _ _ => exact absurd h hkilled

end DBServer.Proof
