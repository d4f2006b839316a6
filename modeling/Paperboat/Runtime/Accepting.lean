import Mathlib

/-!
# The loop that accepts connections

`protocolListener.Accept` reads the first four bytes of a connection before it accepts the next one. A
connection that stays silent holds the loop until its read deadline, and with it every later connection.
-/

namespace Paperboat.Runtime

/-- A connection in the queue of the listener: when it came, its bytes with the times of their arrival,
and when the stream ends. -/
structure Client where
  arrives : ℕ
  sent : List (ℕ × UInt8)
  ends : Option ℕ

/-- What becomes of a connection. -/
inductive Target where
  | native | http | closed
  deriving DecidableEq

/-- When the loop is done with a connection, who gets it, and the bytes that are read from it. -/
structure Handover where
  time : ℕ
  target : Target
  stream : List UInt8
  deriving DecidableEq

namespace Client

variable (c : Client)

def bytes : List UInt8 := c.sent.map Prod.snd

/-- When the first four bytes have arrived. -/
def ready : Option ℕ :=
  if 4 ≤ c.sent.length then some ((c.sent.take 4).foldr (fun x t => max x.1 t) c.arrives) else none

/-- One turn of the loop in `Accept`, with the timeout `ReadHeaderTimeout`. `Serve` calls `Accept`
again at once, so that the turns of its calls follow each other. -/
def accept (timeout now : ℕ) : Handover :=
  let start := max now c.arrives
  let deadline := start + timeout
  -- `io.ReadFull` returns with the fourth byte, the end of the stream or the deadline
  let time := (c.ready.or c.ends).elim deadline fun t => max start (min t deadline)
  if c.ready.any fun t => t ≤ deadline then
    ⟨time, if c.bytes.take 4 = [80, 66, 84, 49] then .native else .http, c.bytes.take 4 ++ c.bytes.drop 4⟩
  else ⟨time, .closed, []⟩

end Client

/-- There is time for these connections before `x` if `k` of them may stay silent for a whole timeout.
The others have sent their first four bytes or ended by then, with the timeouts of the later ones still
to come; and no connection arrives too late for the timeouts from it on. -/
inductive Idle (timeout x : ℕ) : List Client → ℕ → Prop
  | nil : Idle timeout x [] 0
  | ended {c l k s} : Idle timeout x l k → s ∈ c.ready.or c.ends → max c.arrives s + k * timeout ≤ x →
      Idle timeout x (c :: l) k
  | expired {c l k} : Idle timeout x l k → c.arrives + (k + 1) * timeout ≤ x →
      Idle timeout x (c :: l) (k + 1)

variable {timeout now now' x t : ℕ} {l : List Client} {c : Client}

end Paperboat.Runtime
