import CleanCtx.Library.Runs

/-!
The request dispatcher (`mcp/dispatcher.rs`), step by step.

A handler is named by a number. `spawn` takes two steps, since its counter is bumped
before the lock of the sender is taken; a worker leaves its loop one step before its
receiver is dropped. A relaxed load of the shutdown flag may still see the old value,
and never sees the flag set before it is.
-/
namespace CleanCtx
namespace Mcp

abbrev Handler := Nat

inductive DispatcherError
  | queueFull
  | shutdown
  deriving DecidableEq

/-- Where a worker stands: before the load of the flag, in `recv_timeout`, in a handler, past the
loop with its receiver still alive, or finished. -/
inductive Phase
  | checking
  | receiving
  | running (handler : Handler)
  | leaving
  | gone
  deriving DecidableEq

/-- A worker and its channel; `tx` says whether the dispatcher still has the sender. -/
structure Worker where
  tx : Bool
  queue : List Handler
  phase : Phase
  deriving DecidableEq

inductive WorkerEvent
  | check (seen : Bool)
  | receive
  | timeOut
  | disconnect
  | finish (panicked : Bool)
  | dropReceiver
  deriving DecidableEq

namespace Worker

def new : Worker where
  tx := true
  queue := []
  phase := .checking

/-- One step of the worker loop, and the handlers it completes. A panic is caught. -/
def step (shutdownFlag : Bool) (worker : Worker) : WorkerEvent → Option (Worker × List Handler)
  | .check seen =>
      match worker.phase, seen with
      | .checking, false => some ({ worker with phase := .receiving }, [])
      | .checking, true =>
          if shutdownFlag then some ({ worker with phase := .leaving }, []) else none
      | _, _ => none
  | .receive =>
      match worker.phase, worker.queue with
      | .receiving, handler :: queue =>
          some ({ worker with phase := .running handler, queue }, [])
      | _, _ => none
  | .timeOut =>
      match worker.phase, worker.queue, worker.tx with
      | .receiving, [], true => some ({ worker with phase := .checking }, [])
      | _, _, _ => none
  | .disconnect =>
      match worker.phase, worker.queue, worker.tx with
      | .receiving, [], false => some ({ worker with phase := .leaving }, [])
      | _, _, _ => none
  | .finish _ =>
      match worker.phase with
      | .running handler => some ({ worker with phase := .checking }, [handler])
      | _ => none
  | .dropReceiver =>
      match worker.phase with
      | .leaving => some ({ worker with phase := .gone }, [])
      | _ => none

/-- `try_send` under the lock of the sender. A channel without capacity hands a message over to a
receiver that waits for it. -/
def trySend (maxQueueDepth : Nat) (worker : Worker) (handler : Handler) :
    Except DispatcherError Worker :=
  if worker.tx = false then .error .shutdown
  else if worker.phase = .gone then .error .shutdown
  else if worker.queue.length < maxQueueDepth ∨
      (maxQueueDepth = 0 ∧ worker.phase = .receiving ∧ worker.queue = []) then
    .ok { worker with queue := worker.queue ++ [handler] }
  else .error .queueFull

end Worker

/-- `claimed` holds the calls of `spawn` that have their worker but not yet the lock; `accepted`
and `refused` those that returned, and `ran` the handlers that were run, the latest first. -/
structure Dispatcher where
  maxQueueDepth : Nat
  workers : List Worker
  rrCounter : UInt64
  shutdownFlag : Bool
  dropping : Bool
  returned : Bool
  claimed : List (Handler × Nat)
  accepted : List Handler
  refused : List (Handler × DispatcherError)
  ran : List Handler
  deriving DecidableEq

namespace Dispatcher

def withConfig (maxQueueDepth workerCount : Nat) : Dispatcher where
  maxQueueDepth
  workers := List.replicate workerCount .new
  rrCounter := 0
  shutdownFlag := false
  dropping := false
  returned := false
  claimed := []
  accepted := []
  refused := []
  ran := []

inductive Event
  | claim (handler : Handler)
  | send (handler : Handler)
  | worker (i : Nat) (event : WorkerEvent)
  | signal
  | close (i : Nat)
  | beginDrop
  | joined
  deriving DecidableEq

def known (d : Dispatcher) : List Handler :=
  d.claimed.map Prod.fst ++ d.accepted ++ d.refused.map Prod.fst

/-- One step of a caller of `spawn`, of a worker, of `shutdown` or of `drop`. No call can be under
way once the dispatcher is dropped. -/
def step (d : Dispatcher) : Event → Option Dispatcher
  | .claim handler =>
      if d.dropping || d.known.contains handler || d.workers.length = 0 then none
      else some { d with
        claimed := (handler, d.rrCounter.toNat % d.workers.length) :: d.claimed
        rrCounter := d.rrCounter + 1 }
  | .send handler => do
      let i ← d.claimed.lookup handler
      let worker ← d.workers[i]?
      let rest := d.claimed.filter fun claim => claim.1 ≠ handler
      match worker.trySend d.maxQueueDepth handler with
      | .ok worker => some { d with
          claimed := rest, workers := d.workers.set i worker, accepted := handler :: d.accepted }
      | .error e => some { d with claimed := rest, refused := (handler, e) :: d.refused }
  | .worker i event => do
      let worker ← d.workers[i]?
      let (worker, finished) ← worker.step d.shutdownFlag event
      some { d with workers := d.workers.set i worker, ran := finished ++ d.ran }
  | .signal => some { d with shutdownFlag := true }
  | .close i => do
      let worker ← d.workers[i]?
      if d.shutdownFlag then
        some { d with workers := d.workers.set i { worker with tx := false } }
      else none
  | .beginDrop =>
      if d.claimed = [] then some { d with dropping := true, shutdownFlag := true } else none
  | .joined =>
      if d.dropping && d.workers.all fun worker => !worker.tx && worker.phase = .gone then
        some { d with returned := true }
      else none

/-- Each accepted handler was run once by the time the dispatcher is dropped, and no refused one is
run at all. -/
def ExactlyOnce (d : Dispatcher) : Prop :=
  (d.returned = true → ∀ handler ∈ d.accepted, d.ran.count handler = 1) ∧
  ∀ refusal ∈ d.refused, refusal.1 ∉ d.ran ∧
    ∀ worker ∈ d.workers, worker.phase ≠ .running refusal.1

instance (d : Dispatcher) : Decidable d.ExactlyOnce :=
  inferInstanceAs (Decidable (_ ∧ _))

/-- A worker sees the flag and leaves handlers behind in its queue, or is given one after it saw
the flag and before its receiver is dropped. -/
def Strands (d : Dispatcher) : Event → Prop
  | .worker i (.check true) => ∃ worker, d.workers[i]? = some worker ∧ worker.queue ≠ []
  | .send handler => ∃ i worker next, d.claimed.lookup handler = some i ∧
      d.workers[i]? = some worker ∧ worker.phase = .leaving ∧
      worker.trySend d.maxQueueDepth handler = .ok next
  | _ => False

end Dispatcher
end Mcp
end CleanCtx
