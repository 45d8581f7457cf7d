/-
Publishers and subscribers around the broker.

Any number of publishers, each publishing one notification after another, run against any
number of subscribers who come, read, fall behind, go away and are removed.  They meet at
single calls: one `try_send`, one taking of the lock.

To speak of a notification at all, each is tagged with its publisher and its number there,
and `Fanout` keeps a record beside the broker of what was sent where, and what was refused
and by which channel.  Nothing reads the record.

`Publishers` runs the publishers' code.  What is proved of it follows the five stages a
publisher can be in: `Stage.code` is the code left to run at a stage, and `pool_step_iff`
says that the steps of the code are the steps of `Turn`.
-/
import Mathlib.Logic.Relation
import McpFederation.Model.Json
import McpFederation.Model.Notifications

namespace McpFederation

open Relation (ReflTransGen)

/-! ### Publishers and subscribers -/

/-- The notification a publisher has published as number `index`. -/
structure Note (ι : Type) where
  publisher : ι
  index : Nat
  payload : Value

/-- The broker, and a record of what has happened. -/
structure Fanout (ι : Type) where
  broker : Broker (Note ι) := {}
  /-- The ids handed out so far. -/
  ids : List String := []
  received : String → List (Note ι) := fun _ => []
  /-- What has been put into the queue of each subscriber. -/
  sent : String → List (Note ι) := fun _ => []
  /-- What its channel has refused, and the channel as it was then. -/
  refused : String → List (Note ι × Channel (Note ι)) := fun _ => []
  /-- The notifications whose publishing has begun, with the roster at that time. -/
  begun : List (Note ι × List String) := []
  /-- Those whose loop is over. -/
  ended : List (Note ι) := []
  /-- Those whose `publish` has returned, with what it returned. -/
  returned : List (Note ι × Nat) := []

/-- What a publisher does: a call of `publish` for one notification, or something with the
number it has returned. -/
inductive PublisherCall (ι : Type) where
  | broker (note : Note ι) (c : BrokerCall (Note ι))
  | returned (note : Note ι) (delivered : Nat)

@[reducible] def PublisherCall.Reply {ι : Type} : PublisherCall ι → Type
  | .broker _ c => c.Reply
  | .returned _ _ => Unit

abbrev PublisherM (ι α : Type) := Prog (PublisherCall ι) PublisherCall.Reply α

/-- A publisher, from its notification number `index` on. -/
def publisher {ι : Type} (i : ι) : Nat → List Value → PublisherM ι Unit
  | _, [] => pure ()
  | index, payload :: rest => do
      let note : Note ι := ⟨i, index, payload⟩
      let delivered ← (BrokerM.publish note).interp fun c =>
        Prog.perform (PublisherCall.broker note c)
      Prog.perform (PublisherCall.returned note delivered)
      publisher i (index + 1) rest

namespace Fanout

variable {ι : Type}

/-- The record of a call of `publish`. -/
def record (s : Fanout ι) (note : Note ι) : (c : BrokerCall (Note ι)) → c.Reply → Fanout ι
  | .read, ids => { s with begun := s.begun ++ [(note, ids)] }
  | .trySend id a, .ok _ => { s with sent := Function.update s.sent id (s.sent id ++ [a]) }
  | .trySend id a, .error _ =>
      { s with
        refused := Function.update s.refused id (s.refused id ++ [(a, s.broker.channels id)]) }
  | .release, _ => { s with ended := s.ended ++ [note] }
  | .remove _, _ => s

/-- A call of a publisher. -/
inductive Does : ι → (c : PublisherCall ι) → Fanout ι → c.Reply → Fanout ι → Prop
  | broker {i : ι} {note : Note ι} {c : BrokerCall (Note ι)} {s : Fanout ι} {r : c.Reply}
      {b : Broker (Note ι)} (h : s.broker.Does c r b) :
      Does i (.broker note c) s r { s.record note c r with broker := b }
  | returned {i : ι} {note : Note ι} {delivered : Nat} {s : Fanout ι} :
      Does i (.returned note delivered) s ()
        { s with returned := s.returned ++ [(note, delivered)] }

def subscribe (s : Fanout ι) (id : String) : Fanout ι :=
  { s with broker := s.broker.subscribe id, ids := s.ids ++ [id] }

def unsubscribe (s : Fanout ι) (id : String) : Fanout ι :=
  { s with broker := (s.broker.unsubscribe id).2 }

/-- The channel of `id` becomes `ch`. -/
def setChannel (s : Fanout ι) (id : String) (ch : Channel (Note ι)) : Fanout ι :=
  { s with broker := { s.broker with channels := Function.update s.broker.channels id ch } }

def receive (s : Fanout ι) (id : String) (note : Note ι) (ch : Channel (Note ι)) : Fanout ι :=
  { s.setChannel id ch with received := Function.update s.received id (s.received id ++ [note]) }

/-- What subscribers do.  An id is never drawn twice. -/
inductive Outside : Fanout ι → Fanout ι → Prop
  | subscribe {s : Fanout ι} (id : String) (hid : id ∉ s.ids) (hlock : s.broker.readers = 0) :
      Outside s (s.subscribe id)
  | unsubscribe {s : Fanout ι} (id : String) (hlock : s.broker.readers = 0) :
      Outside s (s.unsubscribe id)
  | receive {s : Fanout ι} (id : String) {note : Note ι} {ch : Channel (Note ι)}
      (h : (s.broker.channels id).recv = some (note, ch)) : Outside s (s.receive id note ch)
  | dropReceiver {s : Fanout ι} (id : String) (hid : id ∈ s.ids) :
      Outside s (s.setChannel id (s.broker.channels id).dropReceiver)

end Fanout

/-- The publishers at work. -/
abbrev Publishers (ι : Type) := Pool ι (PublisherCall ι) PublisherCall.Reply Unit (Fanout ι)

namespace Publishers

variable {ι : Type} [DecidableEq ι]

/-- One call of a publisher, or one step of a subscriber. -/
abbrev Step : Publishers ι → Publishers ι → Prop := Pool.Moves Fanout.Does Fanout.Outside

/-- A new broker, and publishers about to begin. -/
def start (payloads : ι → List Value) : Publishers ι where
  shared := {}
  threads := fun i => publisher i 0 (payloads i)

/-- What can be reached from there. -/
def Reachable (payloads : ι → List Value) (p : Publishers ι) : Prop :=
  ReflTransGen Step (start payloads) p

end Publishers

/-! ### The stages of a publisher -/

/-- Where a publisher is with its notification `note`, and what it has still to publish. -/
inductive Stage (ι : Type) where
  | reading (note : Note ι) (rest : List Value)
  | sending (note : Note ι) (rest : List Value) (remaining : List String) (delivered : Nat)
      (toRemove : List String)
  | removing (note : Note ι) (rest : List Value) (delivered : Nat) (toRemove : List String)
  | reporting (note : Note ι) (rest : List Value) (delivered : Nat)
  | finished

namespace Stage

variable {ι : Type}

/-- The stage before the notification number `index`. -/
def start (i : ι) : Nat → List Value → Stage ι
  | _, [] => .finished
  | index, payload :: rest => .reading ⟨i, index, payload⟩ rest

/-- The code that is left, once `publish` has come to `p`. -/
def codeAfter (note : Note ι) (rest : List Value) (p : BrokerM (Note ι) Nat) :
    PublisherM ι Unit := do
  let delivered ← p.interp fun c => Prog.perform (PublisherCall.broker note c)
  Prog.perform (PublisherCall.returned note delivered)
  publisher note.publisher (note.index + 1) rest

/-- The code that is left at a stage. -/
def code : Stage ι → PublisherM ι Unit
  | .reading note rest => codeAfter note rest (BrokerM.publish note)
  | .sending note rest remaining delivered toRemove =>
      codeAfter note rest do
        let (delivered, toRemove) ← BrokerM.sendAll note remaining delivered toRemove
        BrokerM.finish delivered toRemove
  | .removing note rest delivered toRemove =>
      codeAfter note rest do
        Prog.perform (BrokerCall.remove toRemove)
        pure delivered
  | .reporting note rest delivered => codeAfter note rest (pure delivered)
  | .finished => pure ()

/-- The stage after the loop. -/
def afterLoop (note : Note ι) (rest : List Value) (delivered : Nat) (toRemove : List String) :
    Stage ι :=
  if toRemove = [] then .reporting note rest delivered
  else .removing note rest delivered toRemove

/-- After a `try_send` to `id`. -/
def afterSend (note : Note ι) (rest : List Value) (id : String) (remaining : List String)
    (delivered : Nat) (toRemove : List String) : Except TrySendError Unit → Stage ι
  | .ok _ => .sending note rest remaining (delivered + 1) toRemove
  | .error .full => .sending note rest remaining delivered toRemove
  | .error .closed => .sending note rest remaining delivered (toRemove ++ [id])

theorem code_start (i : ι) (index : Nat) (payloads : List Value) :
    (start i index payloads).code = publisher i index payloads := by
  cases payloads with
  | nil => rfl
  | cons payload rest => rfl

theorem code_reading (note : Note ι) (rest : List Value) :
    (Stage.reading note rest).code
      = .call (.broker note .read) fun ids => (Stage.sending note rest ids 0 []).code := rfl

theorem code_sending_cons (note : Note ι) (rest : List Value) (id : String)
    (remaining : List String) (delivered : Nat) (toRemove : List String) :
    (Stage.sending note rest (id :: remaining) delivered toRemove).code
      = .call (.broker note (.trySend id note)) fun r =>
          (afterSend note rest id remaining delivered toRemove r).code := by
  refine congrArg (Prog.call _) (funext fun r => ?_)
  cases r with
  | ok _ => rfl
  | error e => cases e <;> rfl

theorem code_sending_nil (note : Note ι) (rest : List Value) (delivered : Nat)
    (toRemove : List String) :
    (Stage.sending note rest [] delivered toRemove).code
      = .call (.broker note .release) fun _ => (afterLoop note rest delivered toRemove).code := by
  refine congrArg (Prog.call _) (funext fun _ => ?_)
  cases toRemove with
  | nil => rfl
  | cons id ids => rfl

theorem code_removing (note : Note ι) (rest : List Value) (delivered : Nat)
    (toRemove : List String) :
    (Stage.removing note rest delivered toRemove).code
      = .call (.broker note (.remove toRemove)) fun _ =>
          (Stage.reporting note rest delivered).code := rfl

theorem code_reporting (note : Note ι) (rest : List Value) (delivered : Nat) :
    (Stage.reporting note rest delivered).code
      = .call (.returned note delivered) fun _ =>
          (start note.publisher (note.index + 1) rest).code := by
  rw [code_start]
  rfl

/-- A publisher that comes to a notification is at the stage before it. -/
theorem eq_reading_of_code {st : Stage ι} {i : ι} {index : Nat} {payload : Value}
    {rest : List Value} (h : st.code = publisher i index (payload :: rest)) :
    ∃ rest', st = .reading ⟨i, index, payload⟩ rest' := by
  rw [← code_start] at h
  change st.code = Prog.call (.broker ⟨i, index, payload⟩ .read) _ at h
  cases st with
  | reading note rest' =>
      rw [code_reading] at h
      have hnote := (PublisherCall.broker.inj (Prog.call.inj h).1).1
      exact ⟨rest', by rw [hnote]⟩
  | sending note rest' remaining delivered toRemove =>
      cases remaining with
      | nil =>
          rw [code_sending_nil] at h
          cases h
      | cons id remaining =>
          rw [code_sending_cons] at h
          cases h
  | removing note rest' delivered toRemove =>
      rw [code_removing] at h
      cases h
  | reporting note rest' delivered =>
      rw [code_reporting] at h
      cases h
  | finished => cases h

end Stage

/-! ### Steps by stage -/

namespace Fanout

variable {ι : Type}

/-- `note` is about to be offered to `ids`. -/
def begin (s : Fanout ι) (note : Note ι) (ids : List String) : Fanout ι :=
  { s with
    broker := { s.broker with readers := s.broker.readers + 1 }
    begun := s.begun ++ [(note, ids)] }

/-- The channel of `id` takes `note`. -/
def put (s : Fanout ι) (id : String) (note : Note ι) : Fanout ι :=
  { s.setChannel id
      { s.broker.channels id with queue := (s.broker.channels id).queue ++ [note] } with
    sent := Function.update s.sent id (s.sent id ++ [note]) }

/-- The channel of `id` refuses `note`. -/
def refuse (s : Fanout ι) (id : String) (note : Note ι) : Fanout ι :=
  { s with
    refused := Function.update s.refused id (s.refused id ++ [(note, s.broker.channels id)]) }

/-- The loop for `note` is over. -/
def finish (s : Fanout ι) (note : Note ι) : Fanout ι :=
  { s with
    broker := { s.broker with readers := s.broker.readers - 1 }
    ended := s.ended ++ [note] }

def remove (s : Fanout ι) (ids : List String) : Fanout ι :=
  { s with
    broker := { s.broker with subscribers := s.broker.subscribers.filter (· ∉ ids) } }

def report (s : Fanout ι) (note : Note ι) (delivered : Nat) : Fanout ι :=
  { s with returned := s.returned ++ [(note, delivered)] }

end Fanout

/-- What a publisher can do next, at each stage. -/
inductive Turn {ι : Type} : Fanout ι → Stage ι → Fanout ι → Stage ι → Prop
  | read {s : Fanout ι} {note : Note ι} {rest : List Value} {ids : List String}
      (h : ids.Perm s.broker.subscribers) :
      Turn s (.reading note rest) (s.begin note ids) (.sending note rest ids 0 [])
  | sent {s : Fanout ι} {note : Note ι} {rest : List Value} {id : String}
      {remaining toRemove : List String} {delivered : Nat}
      (hopen : (s.broker.channels id).closed = false)
      (hroom : (s.broker.channels id).queue.length < channelBuffer) :
      Turn s (.sending note rest (id :: remaining) delivered toRemove) (s.put id note)
        (.sending note rest remaining (delivered + 1) toRemove)
  | full {s : Fanout ι} {note : Note ι} {rest : List Value} {id : String}
      {remaining toRemove : List String} {delivered : Nat}
      (hopen : (s.broker.channels id).closed = false)
      (hfull : ¬ (s.broker.channels id).queue.length < channelBuffer) :
      Turn s (.sending note rest (id :: remaining) delivered toRemove) (s.refuse id note)
        (.sending note rest remaining delivered toRemove)
  | closed {s : Fanout ι} {note : Note ι} {rest : List Value} {id : String}
      {remaining toRemove : List String} {delivered : Nat}
      (hclosed : (s.broker.channels id).closed = true) :
      Turn s (.sending note rest (id :: remaining) delivered toRemove) (s.refuse id note)
        (.sending note rest remaining delivered (toRemove ++ [id]))
  | release {s : Fanout ι} {note : Note ι} {rest : List Value} {toRemove : List String}
      {delivered : Nat} :
      Turn s (.sending note rest [] delivered toRemove) (s.finish note)
        (.afterLoop note rest delivered toRemove)
  | remove {s : Fanout ι} {note : Note ι} {rest : List Value} {toRemove : List String}
      {delivered : Nat} (hlock : s.broker.readers = 0) :
      Turn s (.removing note rest delivered toRemove) (s.remove toRemove)
        (.reporting note rest delivered)
  | report {s : Fanout ι} {note : Note ι} {rest : List Value} {delivered : Nat} :
      Turn s (.reporting note rest delivered) (s.report note delivered)
        (.start note.publisher (note.index + 1) rest)

section

variable {ι : Type} {i : ι} {s s' : Fanout ι} {st st' : Stage ι}

theorem Channel.trySend_closed {α : Type} {ch : Channel α} (h : ch.closed = true) (a : α) :
    ch.trySend a = (.error .closed, ch) := by
  simp [trySend, h]

theorem Channel.trySend_full {α : Type} {ch : Channel α} (h : ch.closed = false)
    (hfull : ¬ ch.queue.length < channelBuffer) (a : α) :
    ch.trySend a = (.error .full, ch) := by
  simp [trySend, h, hfull]

theorem Channel.trySend_ok {α : Type} {ch : Channel α} (h : ch.closed = false)
    (hroom : ch.queue.length < channelBuffer) (a : α) :
    ch.trySend a = (.ok (), { ch with queue := ch.queue ++ [a] }) := by
  simp [trySend, h, hroom]

/-- A `try_send`, by what becomes of it. -/
theorem turn_trySend (s : Fanout ι) (note : Note ι) (rest : List Value) (id : String)
    (remaining : List String) (delivered : Nat) (toRemove : List String) :
    Turn s (.sending note rest (id :: remaining) delivered toRemove)
      { s.record note (.trySend id note) ((s.broker.channels id).trySend note).1 with
        broker := { s.broker with
          channels := Function.update s.broker.channels id
            ((s.broker.channels id).trySend note).2 } }
      (.afterSend note rest id remaining delivered toRemove
        ((s.broker.channels id).trySend note).1) := by
  cases hclosed : (s.broker.channels id).closed with
  | true =>
      simp only [Channel.trySend_closed hclosed, Function.update_eq_self]
      exact .closed hclosed
  | false =>
      by_cases hroom : (s.broker.channels id).queue.length < channelBuffer
      · simp only [Channel.trySend_ok hclosed hroom]
        exact .sent hclosed hroom
      · simp only [Channel.trySend_full hclosed hroom, Function.update_eq_self]
        exact .full hclosed hroom

/-- A call of the code is a turn of its stage. -/
theorem turn_of_does {c : PublisherCall ι} {k : c.Reply → PublisherM ι Unit} {r : c.Reply}
    (hcode : st.code = .call c k) (h : Fanout.Does i c s r s') :
    ∃ st', k r = st'.code ∧ Turn s st s' st' := by
  cases st with
  | reading note rest =>
      rw [Stage.code_reading] at hcode
      cases hcode
      cases h with
      | broker h =>
          cases h with
          | read hids => exact ⟨_, rfl, .read hids⟩
  | sending note rest remaining delivered toRemove =>
      cases remaining with
      | nil =>
          rw [Stage.code_sending_nil] at hcode
          cases hcode
          cases h with
          | broker h =>
              cases h with
              | release => exact ⟨_, rfl, .release⟩
      | cons id remaining =>
          rw [Stage.code_sending_cons] at hcode
          cases hcode
          cases h with
          | broker h =>
              cases h with
              | trySend => exact ⟨_, rfl, turn_trySend s note rest id remaining delivered toRemove⟩
  | removing note rest delivered toRemove =>
      rw [Stage.code_removing] at hcode
      cases hcode
      cases h with
      | broker h =>
          cases h with
          | remove hlock => exact ⟨_, rfl, .remove hlock⟩
  | reporting note rest delivered =>
      rw [Stage.code_reporting] at hcode
      cases hcode
      cases h with
      | returned => exact ⟨_, rfl, .report⟩
  | finished => cases hcode

theorem does_trySend (i : ι) {note : Note ι} {id : String} {r : Except TrySendError Unit}
    {ch : Channel (Note ι)} (h : (s.broker.channels id).trySend note = (r, ch)) :
    Fanout.Does i (.broker note (.trySend id note)) s r
      { s.record note (.trySend id note) r with
        broker := { s.broker with channels := Function.update s.broker.channels id ch } } := by
  have hdoes : s.broker.Does (.trySend id note) r
      { s.broker with channels := Function.update s.broker.channels id ch } := by
    have hcall : s.broker.Does (.trySend id note) ((s.broker.channels id).trySend note).1
        { s.broker with
          channels := Function.update s.broker.channels id
            ((s.broker.channels id).trySend note).2 } := .trySend
    rw [h] at hcall
    exact hcall
  exact .broker hdoes

theorem does_refuse (i : ι) {note : Note ι} {id : String} {e : TrySendError}
    (h : (s.broker.channels id).trySend note = (.error e, s.broker.channels id)) :
    Fanout.Does i (.broker note (.trySend id note)) s (.error e) (s.refuse id note) := by
  have hdoes := does_trySend i h
  rw [Function.update_eq_self] at hdoes
  exact hdoes

/-- And every turn of a stage is a call of its code. -/
theorem does_of_turn (i : ι) (h : Turn s st s' st') :
    ∃ (c : PublisherCall ι) (k : c.Reply → PublisherM ι Unit) (r : c.Reply),
      st.code = .call c k ∧ Fanout.Does i c s r s' ∧ k r = st'.code := by
  cases h with
  | read hids => exact ⟨_, _, _, Stage.code_reading .., .broker (.read hids), rfl⟩
  | sent hopen hroom =>
      exact ⟨_, _, Except.ok (), Stage.code_sending_cons ..,
        does_trySend i (Channel.trySend_ok hopen hroom _), rfl⟩
  | full hopen hfull =>
      exact ⟨_, _, Except.error .full, Stage.code_sending_cons ..,
        does_refuse i (Channel.trySend_full hopen hfull _), rfl⟩
  | closed hclosed =>
      exact ⟨_, _, Except.error .closed, Stage.code_sending_cons ..,
        does_refuse i (Channel.trySend_closed hclosed _), rfl⟩
  | release => exact ⟨_, _, (), Stage.code_sending_nil .., .broker .release, rfl⟩
  | remove hlock => exact ⟨_, _, (), Stage.code_removing .., .broker (.remove hlock), rfl⟩
  | report => exact ⟨_, _, (), Stage.code_reporting .., .returned, rfl⟩

end

/-- The publishers by their stages. -/
structure Staged (ι : Type) where
  shared : Fanout ι
  stages : ι → Stage ι

namespace Staged

variable {ι : Type}

def pool (s : Staged ι) : Publishers ι where
  shared := s.shared
  threads := fun i => (s.stages i).code

def start (payloads : ι → List Value) : Staged ι where
  shared := {}
  stages := fun i => .start i 0 (payloads i)

theorem pool_start (payloads : ι → List Value) :
    (start payloads).pool = Publishers.start payloads := by
  unfold pool start Publishers.start
  congr 1
  exact funext fun i => Stage.code_start i 0 (payloads i)

variable [DecidableEq ι]

inductive Step : Staged ι → Staged ι → Prop
  | turn {s : Staged ι} (i : ι) {shared : Fanout ι} {st : Stage ι}
      (h : Turn s.shared (s.stages i) shared st) :
      Step s { shared := shared, stages := Function.update s.stages i st }
  | outside {s : Staged ι} {shared : Fanout ι} (h : Fanout.Outside s.shared shared) :
      Step s { s with shared := shared }

theorem pool_update (s : Staged ι) (shared : Fanout ι) (i : ι) (st : Stage ι) :
    ({ shared := shared, stages := Function.update s.stages i st } : Staged ι).pool
      = { shared := shared, threads := Function.update s.pool.threads i st.code } := by
  refine congrArg (Pool.mk shared) (funext fun j => ?_)
  exact Function.apply_update (fun _ => Stage.code) s.stages i st j

/-- **The steps of the code are the steps of its stages.** -/
theorem pool_step_iff {s : Staged ι} {q : Publishers ι} :
    Publishers.Step s.pool q ↔ ∃ s', q = s'.pool ∧ s.Step s' := by
  refine ⟨?_, ?_⟩
  · intro h
    cases h with
    | turn i r shared hi hdoes =>
        obtain ⟨st, hst, hturn⟩ := turn_of_does hi hdoes
        refine ⟨_, ?_, .turn i hturn⟩
        rw [pool_update, hst]
    | outside shared hout => exact ⟨{ s with shared := shared }, rfl, .outside hout⟩
  · intro h
    obtain ⟨s', rfl, hstep⟩ := h
    cases hstep with
    | turn i hturn =>
        obtain ⟨c, k, r, hcode, hdoes, hk⟩ := does_of_turn i hturn
        rw [pool_update, ← hk]
        exact .turn i r _ hcode hdoes
    | outside hout => exact .outside _ hout

theorem pool_run {s s' : Staged ι} (h : ReflTransGen Step s s') :
    ReflTransGen Publishers.Step s.pool s'.pool := by
  induction h with
  | refl => exact .refl
  | tail _ hstep ih => exact ih.tail (pool_step_iff.mpr ⟨_, rfl, hstep⟩)

theorem exists_run {s : Staged ι} {q : Publishers ι} (h : ReflTransGen Publishers.Step s.pool q) :
    ∃ s', q = s'.pool ∧ ReflTransGen Step s s' := by
  induction h with
  | refl => exact ⟨s, rfl, .refl⟩
  | tail _ hstep ih =>
      obtain ⟨s', rfl, hrun⟩ := ih
      obtain ⟨s'', rfl, hstep'⟩ := pool_step_iff.mp hstep
      exact ⟨s'', rfl, hrun.tail hstep'⟩

end Staged

end McpFederation
