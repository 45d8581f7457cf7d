/-
Every notification stream has its subscription, and no subscription is left behind.

`get_mcp` of `server.rs`.  A client's stream is a subscription of the broker: it is made when
the stream is opened, and when the client goes away the stream is dropped, first its receiver
and then its guard, which spawns a task that unsubscribes.  That task may run at any time, and
meanwhile a `publish` may come across the closed channel and remove it from the roster as
well.  `streams_matched` says that through all this, with any number of publishers, the
roster has every open stream, and nothing else but streams that such a task is still about to
remove.
-/
import McpFederation.Proofs.Fanout

namespace McpFederation

open Relation (ReflTransGen)

/-! ### Streams -/

/-- The publishers with their broker; the streams that are open, by the ids of their
subscriptions; and the ids that a task has been spawned to unsubscribe. -/
structure Streams (ι : Type) where
  publishers : Publishers ι
  opened : List String := []
  dropped : List String := []

namespace Streams

variable {ι : Type} [DecidableEq ι]

/-- The same with another state of the broker. -/
def withShared (t : Streams ι) (shared : Fanout ι) : Streams ι :=
  { t with publishers := { t.publishers with shared := shared } }

def broker (t : Streams ι) : Broker (Note ι) := t.publishers.shared.broker

inductive Step : Streams ι → Streams ι → Prop
  | publish {t : Streams ι} {publishers : Publishers ι}
      (h : Pool.Moves Fanout.Does (fun _ _ => False) t.publishers publishers) :
      Step t { t with publishers := publishers }
  /-- `get_mcp` has let a client in. -/
  | connect {t : Streams ι} (id : String) (hid : id ∉ t.publishers.shared.ids)
      (hlock : t.broker.readers = 0) :
      Step t { t.withShared (t.publishers.shared.subscribe id) with opened := t.opened ++ [id] }
  | deliver {t : Streams ι} {id : String} (hopen : id ∈ t.opened) {note : Note ι}
      {ch : Channel (Note ι)} (h : (t.broker.channels id).recv = some (note, ch)) :
      Step t (t.withShared (t.publishers.shared.receive id note ch))
  /-- The client has gone: the stream is dropped, and its guard with it. -/
  | disconnect {t : Streams ι} {id : String} (hopen : id ∈ t.opened) :
      Step t
        { t.withShared (t.publishers.shared.setChannel id (t.broker.channels id).dropReceiver) with
          opened := t.opened.filter (· ≠ id)
          dropped := t.dropped ++ [id] }
  /-- The task that the guard has spawned. -/
  | unsubscribe {t : Streams ι} {id : String} (hdropped : id ∈ t.dropped)
      (hlock : t.broker.readers = 0) :
      Step t { t.withShared (t.publishers.shared.unsubscribe id) with
        dropped := t.dropped.filter (· ≠ id) }

/-- A server that has just started, with these notifications to come. -/
def start (payloads : ι → List Value) : Streams ι where
  publishers := Publishers.start payloads

/-- What holds at every point. -/
structure Matched (t : Streams ι) : Prop where
  known : ∀ id, id ∈ t.opened ∨ id ∈ t.dropped → id ∈ t.publishers.shared.ids
  apart : ∀ id ∈ t.dropped, id ∉ t.opened
  listed : ∀ id ∈ t.opened, id ∈ t.broker.subscribers
  unclosed : ∀ id ∈ t.opened, (t.broker.channels id).closed = false
  owned : ∀ id ∈ t.broker.subscribers, id ∈ t.opened ∨ id ∈ t.dropped

end Streams

/-! ### One step -/

section

variable {ι : Type} {i : ι} {s s' : Fanout ι} {st st' : Stage ι} {payloads : List Value}

/-- What a publisher leaves to the streams: it closes no channel, adds nobody to the roster, and
removes nobody whose channel is open. -/
structure Fanout.Spares (s s' : Fanout ι) : Prop where
  ids : s'.ids = s.ids
  closed : ∀ id, (s'.broker.channels id).closed = (s.broker.channels id).closed
  fewer : ∀ id ∈ s'.broker.subscribers, id ∈ s.broker.subscribers
  stays : ∀ id ∈ s.broker.subscribers, (s.broker.channels id).closed = false →
    id ∈ s'.broker.subscribers

theorem Fanout.spares_of_same (hids : s'.ids = s.ids)
    (hchannels : s'.broker.channels = s.broker.channels)
    (hsubscribers : s'.broker.subscribers = s.broker.subscribers) : s.Spares s' where
  ids := hids
  closed := fun id => by rw [hchannels]
  fewer := fun id hid => hsubscribers ▸ hid
  stays := fun id hid _ => hsubscribers ▸ hid

theorem closed_update {channels : String → Channel (Note ι)} {id : String} {ch : Channel (Note ι)}
    (h : ch.closed = (channels id).closed) (other : String) :
    (Function.update channels id ch other).closed = (channels other).closed := by
  by_cases hother : other = id
  · subst hother
    rw [Function.update_self, h]
  · rw [Function.update_of_ne hother]

theorem Turn.spares (h : Turn s st s' st') (hfits : st.Fits s i payloads) : s.Spares s' := by
  cases h with
  | read hids => exact Fanout.spares_of_same rfl rfl rfl
  | sent hopen hroom => exact ⟨rfl, closed_update rfl, fun _ hid => hid, fun _ hid _ => hid⟩
  | full hopen hfull => exact Fanout.spares_of_same rfl rfl rfl
  | closed hclosed => exact Fanout.spares_of_same rfl rfl rfl
  | release => exact Fanout.spares_of_same rfl rfl rfl
  | @remove note rest toRemove delivered hlock =>
      refine ⟨rfl, fun _ => rfl, fun _ hid => (List.mem_filter.mp hid).1, ?_⟩
      intro id hid hopen
      refine List.mem_filter.mpr ⟨hid, decide_eq_true fun hremove => ?_⟩
      rw [(hfits.2.1 id hremove).2] at hopen
      cases hopen
  | report => exact Fanout.spares_of_same rfl rfl rfl

end

namespace Streams

variable {ι : Type} {payloads : ι → List Value} {t t' : Streams ι}

/-- What publishers do. -/
theorem Matched.publish (h : t.Matched) {publishers : Publishers ι}
    (hspares : t.publishers.shared.Spares publishers.shared) :
    Matched { t with publishers := publishers } where
  known := fun id hid => hspares.ids ▸ h.known id hid
  apart := h.apart
  listed := fun id hid => hspares.stays id (h.listed id hid) (h.unclosed id hid)
  unclosed := fun id hid => (hspares.closed id).trans (h.unclosed id hid)
  owned := fun id hid => h.owned id (hspares.fewer id hid)

theorem Matched.connect (h : t.Matched) {id : String} (hid : id ∉ t.publishers.shared.ids) :
    Matched { t.withShared (t.publishers.shared.subscribe id) with
      opened := t.opened ++ [id] } := by
  have hne : ∀ other, other ∈ t.opened ∨ other ∈ t.dropped → other ≠ id := fun other hother heq =>
    hid (heq ▸ h.known other hother)
  refine ⟨?_, ?_, ?_, ?_, ?_⟩
  · intro other hother
    rw [List.mem_append, or_right_comm] at hother
    rcases hother with hother | hother
    · exact List.mem_append_left _ (h.known other hother)
    · exact List.mem_append_right _ hother
  · intro other hother hopen
    rcases List.mem_append.mp hopen with hopen | hopen
    · exact h.apart other hother hopen
    · exact hne other (Or.inr hother) (List.mem_singleton.mp hopen)
  · intro other hother
    rcases List.mem_append.mp hother with hother | hother
    · exact List.mem_append_left _ (h.listed other hother)
    · exact List.mem_append_right _ hother
  · intro other hother
    show (Function.update t.broker.channels id {} other).closed = false
    rcases List.mem_append.mp hother with hother | hother
    · rw [Function.update_of_ne (hne other (Or.inl hother))]
      exact h.unclosed other hother
    · rw [List.mem_singleton.mp hother, Function.update_self]
  · intro other hother
    rcases List.mem_append.mp hother with hother | hother
    · exact (h.owned other hother).imp_left (List.mem_append_left _)
    · exact Or.inl (List.mem_append_right _ hother)

theorem Matched.disconnect (h : t.Matched) {id : String} (hopen : id ∈ t.opened) :
    Matched { t.withShared (t.publishers.shared.setChannel id
        (t.broker.channels id).dropReceiver) with
      opened := t.opened.filter (· ≠ id)
      dropped := t.dropped ++ [id] } := by
  refine ⟨?_, ?_, ?_, ?_, ?_⟩
  · intro other hother
    rcases hother with hother | hother
    · exact h.known other (Or.inl (List.mem_filter.mp hother).1)
    · rcases List.mem_append.mp hother with hother | hother
      · exact h.known other (Or.inr hother)
      · exact h.known other (Or.inl (List.mem_singleton.mp hother ▸ hopen))
  · intro other hother hstill
    obtain ⟨hmem, hne⟩ := List.mem_filter.mp hstill
    rcases List.mem_append.mp hother with hother | hother
    · exact h.apart other hother hmem
    · exact of_decide_eq_true hne (List.mem_singleton.mp hother)
  · intro other hother
    exact h.listed other (List.mem_filter.mp hother).1
  · intro other hother
    obtain ⟨hmem, hne⟩ := List.mem_filter.mp hother
    show (Function.update t.broker.channels id _ other).closed = false
    rw [Function.update_of_ne (of_decide_eq_true hne)]
    exact h.unclosed other hmem
  · intro other hother
    by_cases heq : other = id
    · exact Or.inr (List.mem_append_right _ (List.mem_singleton.mpr heq))
    · refine (h.owned other hother).imp (fun hmem => ?_) (List.mem_append_left _)
      exact List.mem_filter.mpr ⟨hmem, decide_eq_true heq⟩

theorem Matched.unsubscribe (h : t.Matched) {id : String} (hdropped : id ∈ t.dropped) :
    Matched { t.withShared (t.publishers.shared.unsubscribe id) with
      dropped := t.dropped.filter (· ≠ id) } := by
  refine ⟨?_, ?_, ?_, h.unclosed, ?_⟩
  · intro other hother
    exact h.known other (hother.imp_right fun hmem => (List.mem_filter.mp hmem).1)
  · intro other hother
    exact h.apart other (List.mem_filter.mp hother).1
  · intro other hother
    have hne : other ≠ id := fun heq => h.apart id hdropped (heq ▸ hother)
    exact List.mem_filter.mpr ⟨h.listed other hother, decide_eq_true hne⟩
  · intro other hother
    obtain ⟨hmem, hne⟩ := List.mem_filter.mp hother
    exact (h.owned other hmem).imp_right fun hmem' => List.mem_filter.mpr ⟨hmem', hne⟩

variable [DecidableEq ι]

/-- A step of the streams is one of the broker. -/
theorem Matched.publishers_step (h : t.Matched) (hstep : t.Step t') :
    Publishers.Step t.publishers t'.publishers := by
  cases hstep with
  | publish hmove =>
      cases hmove with
      | turn i r s hi hdoes => exact .turn i r s hi hdoes
      | outside s hfalse => exact hfalse.elim
  | connect id hid hlock => exact .outside _ (.subscribe id hid hlock)
  | deliver hopen hrecv => exact .outside _ (.receive _ hrecv)
  | disconnect hopen => exact .outside _ (.dropReceiver _ (h.known _ (Or.inl hopen)))
  | unsubscribe hdropped hlock => exact .outside _ (.unsubscribe _ hlock)

/-- **Every step keeps the streams and the roster in line.** -/
theorem Matched.step (h : t.Matched) (hreach : Publishers.Reachable payloads t.publishers)
    (hstep : t.Step t') : t'.Matched := by
  cases hstep with
  | @publish publishers hmove =>
      obtain ⟨s, hs, -, hsound⟩ := hreach.staged
      refine h.publish ?_
      rw [hs] at hmove ⊢
      cases hmove with
      | turn i r shared hi hdoes =>
          obtain ⟨st, -, hturn⟩ := turn_of_does hi hdoes
          exact hturn.spares (hsound.fits i)
      | outside s hfalse => exact hfalse.elim
  | connect id hid hlock => exact h.connect hid
  | @deliver id hopen note ch hrecv =>
      refine ⟨h.known, h.apart, h.listed, ?_, h.owned⟩
      intro other hother
      show (Function.update t.broker.channels id ch other).closed = false
      rw [closed_update (Channel.closed_recv hrecv)]
      exact h.unclosed other hother
  | disconnect hopen => exact h.disconnect hopen
  | unsubscribe hdropped hlock => exact h.unsubscribe hdropped

/-- The same for whole runs. -/
theorem matched_run (hrun : ReflTransGen Step (start payloads) t) :
    t.Matched ∧ Publishers.Reachable payloads t.publishers := by
  induction hrun with
  | refl =>
      refine ⟨⟨?_, ?_, ?_, ?_, ?_⟩, .refl⟩
      · intro id hid
        rcases hid with hid | hid
        · cases hid
        · cases hid
      · intro id hid
        cases hid
      · intro id hid
        cases hid
      · intro id hid
        cases hid
      · intro id hid
        cases hid
  | tail _ hstep ih =>
      obtain ⟨hmatched, hreach⟩ := ih
      exact ⟨hmatched.step hreach hstep, hreach.tail (hmatched.publishers_step hstep)⟩

/--
**Streams and subscriptions.**  Whatever the publishers do and whenever clients come and go, the
roster has every open stream, with its channel open; everybody else on it has a task that will
take them off it; and when all these have run, the roster is the open streams.
-/
theorem streams_matched {payloads : ι → List Value} {t : Streams ι}
    (hrun : ReflTransGen Step (start payloads) t) :
    (∀ id ∈ t.opened, id ∈ t.broker.subscribers ∧ (t.broker.channels id).closed = false) ∧
      (∀ id ∈ t.broker.subscribers, id ∈ t.opened ∨ id ∈ t.dropped) ∧
      (t.dropped = [] → ∀ id, id ∈ t.broker.subscribers ↔ id ∈ t.opened) := by
  obtain ⟨h, -⟩ := matched_run hrun
  refine ⟨fun id hid => ⟨h.listed id hid, h.unclosed id hid⟩, h.owned, ?_⟩
  intro hdropped id
  refine ⟨fun hid => ?_, h.listed id⟩
  rcases h.owned id hid with hopen | hleft
  · exact hopen
  · rw [hdropped] at hleft
    cases hleft

/-! ### A client that goes while something is published -/

/-- A broker with a single publisher, at this stage. -/
def single (shared : Fanout Unit) (stage : Stage Unit) (opened dropped : List String) :
    Streams Unit :=
  ⟨Staged.pool ⟨shared, fun _ => stage⟩, opened, dropped⟩

theorem step_of_turn {s s' : Fanout Unit} {st st' : Stage Unit} (h : Turn s st s' st')
    (opened dropped : List String) :
    (single s st opened dropped).Step (single s' st' opened dropped) := by
  obtain ⟨c, k, r, hcode, hdoes, hk⟩ := does_of_turn () h
  have hthreads : (fun _ => st'.code) = Function.update (fun _ : Unit => st.code) () (k r) := by
    funext i
    rw [hk, Function.update_self]
  unfold single Staged.pool
  rw [hthreads]
  exact .publish (.turn () r s' hcode hdoes)

def changed : Note Unit := ⟨(), 0, .obj [("method", .string "notifications/tools/list_changed")]⟩

/-- Two clients have come. -/
def bothIn : Fanout Unit := (({} : Fanout Unit).subscribe "a").subscribe "b"

/-- A notification is being published, and the first one goes. -/
def firstGone : Fanout Unit := (bothIn.begin changed ["a", "b"]).setChannel "a" { closed := true }

/-- It has been refused by the one and is in the queue of the other. -/
def offered : Fanout Unit := (firstGone.refuse "a" changed).put "b" changed

def published : Fanout Unit := ((offered.finish changed).remove ["a"]).report changed 1

theorem published_run :
    ReflTransGen Step (start fun _ => [changed.payload])
      (single published .finished ["b"] ["a"]) := by
  have hin : ReflTransGen Step (start fun _ => [changed.payload])
      (single bothIn (.reading changed []) ["a", "b"] []) := by
    refine .tail (.tail .refl (.connect "a" List.not_mem_nil rfl)) (.connect "b" ?_ rfl)
    exact by decide
  have hread : Turn bothIn (.reading changed []) (bothIn.begin changed ["a", "b"])
      (.sending changed [] ["a", "b"] 0 []) := .read (List.Perm.refl _)
  have hgone : (single (bothIn.begin changed ["a", "b"]) (.sending changed [] ["a", "b"] 0 [])
      ["a", "b"] []).Step (single firstGone (.sending changed [] ["a", "b"] 0 []) ["b"] ["a"]) :=
    .disconnect List.mem_cons_self
  have hclosed : Turn firstGone (.sending changed [] ["a", "b"] 0 [])
      (firstGone.refuse "a" changed) (.sending changed [] ["b"] 0 ["a"]) := .closed rfl
  have hsent : Turn (firstGone.refuse "a" changed) (.sending changed [] ["b"] 0 ["a"]) offered
      (.sending changed [] [] 1 ["a"]) := .sent rfl (by decide)
  have hrelease : Turn offered (.sending changed [] [] 1 ["a"]) (offered.finish changed)
      (.removing changed [] 1 ["a"]) := .release
  have hremove : Turn (offered.finish changed) (.removing changed [] 1 ["a"])
      ((offered.finish changed).remove ["a"]) (.reporting changed [] 1) := .remove rfl
  have hreport : Turn ((offered.finish changed).remove ["a"]) (.reporting changed [] 1)
      published .finished := .report
  have hbefore := (hin.tail (step_of_turn hread _ _)).tail hgone
  have hloop := ((hbefore.tail (step_of_turn hclosed _ _)).tail (step_of_turn hsent _ _)).tail
    (step_of_turn hrelease _ _)
  exact (hloop.tail (step_of_turn hremove _ _)).tail (step_of_turn hreport _ _)

/-- Once its task has run, there is the second client, which has the notification. -/
theorem second_client_left :
    ∃ t : Streams Unit, ReflTransGen Step (start fun _ => [changed.payload]) t ∧
      t.opened = ["b"] ∧ (t.broker.channels "b").queue = [changed] ∧
      ∀ id, id ∈ t.broker.subscribers ↔ id ∈ ["b"] := by
  have hrun := published_run.tail (.unsubscribe List.mem_cons_self rfl)
  exact ⟨_, hrun, rfl, rfl, (streams_matched hrun).2.2 rfl⟩

end Streams

end McpFederation
