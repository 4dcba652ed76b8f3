import HartScope.Output
import HartScope.Simulator.Error

/-!
Replies: the answer to a request is the state afterwards, the result, and what left the simulator
on the way.
-/

namespace HartScope

structure Reply (σ α : Type) where
  state : σ
  result : Except SimulatorError α
  output : List Output := []

namespace Reply

variable {σ α β : Type}

/-- A reply that succeeds and leaves the state. -/
def note (state : σ) (output : List Output) : Reply σ Unit :=
  { state := state, result := .ok (), output := output }

def error (state : σ) (error : SimulatorError) : Reply σ α :=
  { state := state, result := .error error }

def map (f : α → β) (reply : Reply σ α) : Reply σ β :=
  { reply with result := reply.result.map f }

/-- Goes on with the state of a reply, unless it failed. -/
def andThen (reply : Reply σ Unit) (next : σ → Reply σ α) : Reply σ α :=
  match reply.result with
  | .error error => { reply with result := .error error }
  | .ok () =>
      let following := next reply.state
      { following with output := reply.output ++ following.output }

end Reply

end HartScope
