/-!
# Join handles

A `JoinHandle` yields the output of its task once. Polled again after that it panics,
which ends the polling task.
-/

namespace WsIo.Async

/-- A join handle, by whether it has yielded the output of its task. -/
inductive JoinHandle
  | pending
  | consumed
  deriving DecidableEq, Repr

/-- What polling a future gives. -/
inductive Poll
  | pending
  | ready
  | panic
  deriving DecidableEq, Repr

/-- Poll a handle whose task has ended or not. -/
def JoinHandle.poll : JoinHandle → Bool → Poll
  | .consumed, _ => .panic
  | .pending, true => .ready
  | .pending, false => .pending

end WsIo.Async
