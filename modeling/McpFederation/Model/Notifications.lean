/-
The notification broker.

`notifications.rs`.  A subscriber is a bounded tokio channel under a fresh id; `publish`
offers a notification to each of them in turn and drops from the roster those whose
receiver is gone.  The roster is behind a read-write lock: `publish` holds it for reading
over its whole loop, and everything that changes the roster needs it for writing.

`publish` is a program over the calls it makes on what is shared, so any number of
publishers can be interleaved with each other and with the subscribers.  `Broker.Does`
says what one call may answer and do.  It is a relation: a call that needs the lock cannot
be made while somebody else holds it, and a `HashMap` may be iterated in any order.  The
log lines are left out.
-/
import McpFederation.Lib.Program

namespace McpFederation

/-! ### Channels -/

/-- `CHANNEL_BUFFER`. -/
def channelBuffer : Nat := 64

/-- `mpsc::error::TrySendError`. -/
inductive TrySendError where
  | full
  | closed
deriving Repr, DecidableEq

/-- A bounded `mpsc` channel: what is queued, and whether the receiver is gone. -/
structure Channel (α : Type) where
  queue : List α := []
  closed : Bool := false

namespace Channel

variable {α : Type}

/-- `Sender::try_send`. -/
def trySend (ch : Channel α) (a : α) : Except TrySendError Unit × Channel α :=
  if ch.closed then (.error .closed, ch)
  else if ch.queue.length < channelBuffer then (.ok (), { ch with queue := ch.queue ++ [a] })
  else (.error .full, ch)

/-- `Receiver::recv`, when something is queued. -/
def recv (ch : Channel α) : Option (α × Channel α) :=
  match ch.queue with
  | [] => none
  | a :: rest => some (a, { ch with queue := rest })

/-- Drop the receiver, and with it what is queued. -/
def dropReceiver (_ : Channel α) : Channel α where
  closed := true

end Channel

/-! ### The broker -/

/-- `NotificationBroker`, with the channels its senders lead to and the number of tasks that
hold the lock for reading. -/
structure Broker (α : Type) where
  subscribers : List String := []
  channels : String → Channel α := fun _ => {}
  readers : Nat := 0

namespace Broker

variable {α : Type}

/-- `subscribe`, under the id it has drawn. -/
def subscribe (b : Broker α) (id : String) : Broker α :=
  { b with
    subscribers := b.subscribers ++ [id]
    channels := Function.update b.channels id {} }

/-- `unsubscribe`: whether the subscriber was there. -/
def unsubscribe (b : Broker α) (id : String) : Bool × Broker α :=
  (id ∈ b.subscribers, { b with subscribers := b.subscribers.filter (· ≠ id) })

end Broker

/-- What `publish` does on what is shared. -/
inductive BrokerCall (α : Type) where
  /-- Take the lock for reading, and look at the roster. -/
  | read
  | trySend (id : String) (a : α)
  /-- Give the lock back. -/
  | release
  /-- Take the lock for writing, and remove these subscribers. -/
  | remove (ids : List String)

@[reducible] def BrokerCall.Reply {α : Type} : BrokerCall α → Type
  | .read => List String
  | .trySend _ _ => Except TrySendError Unit
  | .release => Unit
  | .remove _ => Unit

/-- What a call may be answered with, and what it does. -/
inductive Broker.Does {α : Type} : (c : BrokerCall α) → Broker α → c.Reply → Broker α → Prop
  | read {b : Broker α} {ids : List String} (h : ids.Perm b.subscribers) :
      Does .read b ids { b with readers := b.readers + 1 }
  | trySend {b : Broker α} {id : String} {a : α} :
      Does (.trySend id a) b ((b.channels id).trySend a).1
        { b with channels := Function.update b.channels id ((b.channels id).trySend a).2 }
  | release {b : Broker α} : Does .release b () { b with readers := b.readers - 1 }
  | remove {b : Broker α} {ids : List String} (hlock : b.readers = 0) :
      Does (.remove ids) b () { b with subscribers := b.subscribers.filter (· ∉ ids) }

abbrev BrokerM (α β : Type) := Prog (BrokerCall α) BrokerCall.Reply β

namespace BrokerM

variable {α : Type}

/-- The loop of `publish`: how many queues took the notification, and which are closed. -/
def sendAll (a : α) : List String → Nat → List String → BrokerM α (Nat × List String)
  | [], delivered, toRemove => pure (delivered, toRemove)
  | id :: rest, delivered, toRemove => do
      match ← Prog.perform (BrokerCall.trySend id a) with
      | .ok () => sendAll a rest (delivered + 1) toRemove
      | .error .full => sendAll a rest delivered toRemove
      | .error .closed => sendAll a rest delivered (toRemove ++ [id])

/-- What `publish` does after its loop. -/
def finish (delivered : Nat) (toRemove : List String) : BrokerM α Nat := do
  Prog.perform BrokerCall.release
  if toRemove = [] then pure delivered
  else do
    Prog.perform (BrokerCall.remove toRemove)
    pure delivered

def publish (a : α) : BrokerM α Nat := do
  let ids ← Prog.perform BrokerCall.read
  let (delivered, toRemove) ← sendAll a ids 0 []
  finish delivered toRemove

end BrokerM

end McpFederation
