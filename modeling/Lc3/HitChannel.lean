import Lc3.Machine.Run

/-!
# Hit channels

A queue that carries the hits of breakpoints to a receiver. It may have a capacity; a hit that
does not fit, or that nobody will receive, is dropped and the run goes on as if it had been sent.
-/

namespace Lc3

/-- A queue of hits. -/
structure HitChannel where
  /-- How many hits fit into the queue, if that is limited. -/
  capacity : Option Nat := none
  queue : List Hit := []
  /-- Whether there still is a receiver. -/
  connected : Bool := true
deriving DecidableEq

namespace HitChannel

/-- Append a hit, if it fits and there is a receiver. -/
def send (c : HitChannel) (h : Hit) : Except Refusal HitChannel :=
  if !c.connected then .error .disconnected
  else if c.capacity.any (· ≤ c.queue.length) then .error .full
  else .ok { c with queue := c.queue ++ [h] }

/-- The channel after its hits were received. -/
def drain (c : HitChannel) : HitChannel := { c with queue := [] }

/-- The channel without a receiver. The queued hits are lost. -/
def disconnect (c : HitChannel) : HitChannel := { c with queue := [], connected := false }

/-- Send the hits of a run. -/
def handler {δ : Type} : HitHandler δ HitChannel := fun m b c =>
  match c.send (Hit.of m b) with
  | .ok c => (c, [])
  | .error why => (c, [.hitDropped b why])

end HitChannel

end Lc3
