/-
Who gets which notification.

`FansOut` is what holds in all runs of publishers and subscribers, and `fansOut` says that
it does.  All but one of its parts are read off the invariant of `Deliveries`.

That nobody notices a subscriber who is full or gone is a simulation.  `Without x` relates
a run to the same run in which `x` has never subscribed: the turns at `x` are left out, and
a publisher that has only `x` to remove goes on without taking the lock.
-/
import McpFederation.Proofs.Deliveries

namespace McpFederation

open Relation (ReflTransGen)

/-! ### Without one of the subscribers -/

section

variable {ι : Type} {x : String}

/-- `s'` is `s` without the subscriber `x`. -/
structure Fanout.Without (x : String) (s s' : Fanout ι) : Prop where
  subscribers : s'.broker.subscribers = s.broker.subscribers.filter (· ≠ x)
  readers : s'.broker.readers = s.broker.readers
  ids : s'.ids = s.ids.filter (· ≠ x)
  channels : ∀ id, id ≠ x → s'.broker.channels id = s.broker.channels id
  received : ∀ id, id ≠ x → s'.received id = s.received id
  sent : ∀ id, id ≠ x → s'.sent id = s.sent id
  refused : ∀ id, id ≠ x → s'.refused id = s.refused id
  ended : s'.ended = s.ended
  returned : s'.returned.map Prod.fst = s.returned.map Prod.fst

/-- A stage without `x`: it is neither tried nor removed, and may not have been counted. -/
inductive Stage.Without (x : String) : Stage ι → Stage ι → Prop
  | reading {note : Note ι} {rest : List Value} :
      Without x (.reading note rest) (.reading note rest)
  | sending {note : Note ι} {rest : List Value} {remaining toRemove : List String} {d d' : Nat} :
      Without x (.sending note rest remaining d toRemove)
        (.sending note rest (remaining.filter (· ≠ x)) d' (toRemove.filter (· ≠ x)))
  | removing {note : Note ι} {rest : List Value} {toRemove : List String} {d d' : Nat} :
      Without x (.removing note rest d toRemove)
        (.afterLoop note rest d' (toRemove.filter (· ≠ x)))
  | reporting {note : Note ι} {rest : List Value} {d d' : Nat} :
      Without x (.reporting note rest d) (.reporting note rest d')
  | finished : Without x .finished .finished

/-- Two maps that agree but at `x` still do when both change alike, or the first at `x`. -/
theorem agree_update {β : Type} {f g : String → β} (h : ∀ id, id ≠ x → g id = f id)
    (id : String) (b : β) :
    ∀ id', id' ≠ x → Function.update g id b id' = Function.update f id b id' := by
  intro id' hid'
  by_cases hne : id' = id
  · rw [hne, Function.update_self, Function.update_self]
  · rw [Function.update_of_ne hne, Function.update_of_ne hne]
    exact h id' hid'

theorem agree_update_self {β : Type} {f g : String → β} (h : ∀ id, id ≠ x → g id = f id)
    (b : β) : ∀ id, id ≠ x → g id = Function.update f x b id := by
  intro id hid
  rw [Function.update_of_ne hid]
  exact h id hid

namespace Fanout.Without

variable {s s' : Fanout ι} {id : String} {note : Note ι} {ch : Channel (Note ι)}

theorem setChannel_self (h : s.Without x s') (ch : Channel (Note ι)) :
    (s.setChannel x ch).Without x s' :=
  ⟨h.subscribers, h.readers, h.ids, agree_update_self h.channels ch, h.received, h.sent,
    h.refused, h.ended, h.returned⟩

theorem setChannel (h : s.Without x s') (id : String) (ch : Channel (Note ι)) :
    (s.setChannel id ch).Without x (s'.setChannel id ch) :=
  ⟨h.subscribers, h.readers, h.ids, agree_update h.channels id ch, h.received, h.sent,
    h.refused, h.ended, h.returned⟩

theorem receive_self (h : s.Without x s') (note : Note ι) (ch : Channel (Note ι)) :
    (s.receive x note ch).Without x s' :=
  ⟨h.subscribers, h.readers, h.ids, agree_update_self h.channels ch,
    agree_update_self h.received _, h.sent, h.refused, h.ended, h.returned⟩

theorem receive (h : s.Without x s') (hid : id ≠ x) (note : Note ι) (ch : Channel (Note ι)) :
    (s.receive id note ch).Without x (s'.receive id note ch) := by
  refine ⟨h.subscribers, h.readers, h.ids, agree_update h.channels id ch, ?_, h.sent, h.refused,
    h.ended, h.returned⟩
  show ∀ id', id' ≠ x → Function.update s'.received id (s'.received id ++ [note]) id' = _
  rw [h.received id hid]
  exact agree_update h.received id _

theorem put_self (h : s.Without x s') (note : Note ι) : (s.put x note).Without x s' :=
  ⟨h.subscribers, h.readers, h.ids, agree_update_self h.channels _, h.received,
    agree_update_self h.sent _, h.refused, h.ended, h.returned⟩

theorem put (h : s.Without x s') (hid : id ≠ x) (note : Note ι) :
    (s.put id note).Without x (s'.put id note) := by
  refine ⟨h.subscribers, h.readers, h.ids, ?_, h.received, ?_, h.refused, h.ended, h.returned⟩
  · show ∀ id', id' ≠ x → Function.update s'.broker.channels id
      { s'.broker.channels id with queue := (s'.broker.channels id).queue ++ [note] } id' = _
    rw [h.channels id hid]
    exact agree_update h.channels id _
  · show ∀ id', id' ≠ x → Function.update s'.sent id (s'.sent id ++ [note]) id' = _
    rw [h.sent id hid]
    exact agree_update h.sent id _

theorem refuse_self (h : s.Without x s') (note : Note ι) : (s.refuse x note).Without x s' :=
  ⟨h.subscribers, h.readers, h.ids, h.channels, h.received, h.sent,
    agree_update_self h.refused _, h.ended, h.returned⟩

theorem refuse (h : s.Without x s') (hid : id ≠ x) (note : Note ι) :
    (s.refuse id note).Without x (s'.refuse id note) := by
  refine ⟨h.subscribers, h.readers, h.ids, h.channels, h.received, h.sent, ?_, h.ended,
    h.returned⟩
  show ∀ id', id' ≠ x → Function.update s'.refused id
    (s'.refused id ++ [(note, s'.broker.channels id)]) id' = _
  rw [h.refused id hid, h.channels id hid]
  exact agree_update h.refused id _

theorem begin (h : s.Without x s') (note : Note ι) (ids ids' : List String) :
    (s.begin note ids).Without x (s'.begin note ids') :=
  ⟨h.subscribers, congrArg (· + 1) h.readers, h.ids, h.channels, h.received, h.sent, h.refused,
    h.ended, h.returned⟩

theorem finish (h : s.Without x s') (note : Note ι) :
    (s.finish note).Without x (s'.finish note) :=
  ⟨h.subscribers, congrArg (· - 1) h.readers, h.ids, h.channels, h.received, h.sent, h.refused,
    congrArg (· ++ [note]) h.ended, h.returned⟩

theorem report (h : s.Without x s') (note : Note ι) (d d' : Nat) :
    (s.report note d).Without x (s'.report note d') := by
  refine ⟨h.subscribers, h.readers, h.ids, h.channels, h.received, h.sent, h.refused, h.ended, ?_⟩
  show (s'.returned ++ [(note, d')]).map Prod.fst = (s.returned ++ [(note, d)]).map Prod.fst
  rw [List.map_append, List.map_append, h.returned]
  rfl

/-- Removing nobody but `x`. -/
theorem remove_self (h : s.Without x s') {ids : List String} (hids : ids.filter (· ≠ x) = []) :
    (s.remove ids).Without x s' := by
  refine ⟨?_, h.readers, h.ids, h.channels, h.received, h.sent, h.refused, h.ended, h.returned⟩
  have hnot : ∀ id, id ≠ x → id ∉ ids := by
    intro id hid hmem
    have hnil : id ∈ ids.filter (· ≠ x) := List.mem_filter.mpr ⟨hmem, decide_eq_true hid⟩
    rw [hids] at hnil
    cases hnil
  show s'.broker.subscribers = (s.broker.subscribers.filter (· ∉ ids)).filter (· ≠ x)
  rw [h.subscribers, List.filter_filter]
  refine List.filter_congr fun id _ => ?_
  by_cases hid : id = x
  · simp [hid]
  · simp [hid, hnot id hid]

theorem remove (h : s.Without x s') (ids : List String) :
    (s.remove ids).Without x (s'.remove (ids.filter (· ≠ x))) := by
  refine ⟨?_, h.readers, h.ids, h.channels, h.received, h.sent, h.refused, h.ended, h.returned⟩
  show s'.broker.subscribers.filter (· ∉ ids.filter (· ≠ x))
    = (s.broker.subscribers.filter (· ∉ ids)).filter (· ≠ x)
  rw [h.subscribers, List.filter_filter, List.filter_filter]
  refine List.filter_congr fun id _ => ?_
  by_cases hid : id = x <;> simp [hid]

theorem filter_append_self (l : List String) :
    (l ++ [x]).filter (· ≠ x) = l.filter (· ≠ x) := by
  rw [List.filter_append]
  simp

theorem filter_append_of_ne (l : List String) (hid : id ≠ x) :
    (l ++ [id]).filter (· ≠ x) = l.filter (· ≠ x) ++ [id] := by
  rw [List.filter_append]
  simp [hid]

theorem subscribe_self (h : s.Without x s') : (s.subscribe x).Without x s' :=
  ⟨h.subscribers.trans (filter_append_self _).symm, h.readers,
    h.ids.trans (filter_append_self _).symm, agree_update_self h.channels _, h.received, h.sent,
    h.refused, h.ended, h.returned⟩

theorem subscribe (h : s.Without x s') (hid : id ≠ x) :
    (s.subscribe id).Without x (s'.subscribe id) :=
  ⟨(congrArg (· ++ [id]) h.subscribers).trans (filter_append_of_ne _ hid).symm, h.readers,
    (congrArg (· ++ [id]) h.ids).trans (filter_append_of_ne _ hid).symm,
    agree_update h.channels id _, h.received, h.sent, h.refused, h.ended, h.returned⟩

theorem unsubscribe (h : s.Without x s') (id : String) :
    (s.unsubscribe id).Without x (s'.unsubscribe id) := by
  refine ⟨?_, h.readers, h.ids, h.channels, h.received, h.sent, h.refused, h.ended, h.returned⟩
  show s'.broker.subscribers.filter (· ≠ id)
    = (s.broker.subscribers.filter (· ≠ id)).filter (· ≠ x)
  rw [h.subscribers, List.filter_filter, List.filter_filter]
  simp [Bool.and_comm]

end Fanout.Without

/-- What a subscriber does in the run, it does without `x`, or it is `x`. -/
theorem Fanout.Outside.without {s s' t : Fanout ι} (h : s.Without x s') (hout : s.Outside t) :
    ∃ t', (t' = s' ∨ s'.Outside t') ∧ t.Without x t' := by
  cases hout with
  | subscribe id hid hlock =>
      by_cases hx : id = x
      · subst hx
        exact ⟨s', Or.inl rfl, h.subscribe_self⟩
      · refine ⟨_, Or.inr (.subscribe id ?_ ?_), h.subscribe hx⟩
        · rw [h.ids]
          exact fun hmem => hid (List.mem_filter.mp hmem).1
        · rw [h.readers]
          exact hlock
  | unsubscribe id hlock =>
      refine ⟨_, Or.inr (.unsubscribe id ?_), h.unsubscribe id⟩
      rw [h.readers]
      exact hlock
  | receive id hrecv =>
      by_cases hx : id = x
      · subst hx
        exact ⟨s', Or.inl rfl, h.receive_self _ _⟩
      · refine ⟨_, Or.inr (.receive id ?_), h.receive hx _ _⟩
        rw [h.channels id hx]
        exact hrecv
  | dropReceiver id hid =>
      by_cases hx : id = x
      · subst hx
        exact ⟨s', Or.inl rfl, h.setChannel_self _⟩
      · refine ⟨_, Or.inr (.dropReceiver id ?_), ?_⟩
        · rw [h.ids]
          exact List.mem_filter.mpr ⟨hid, decide_eq_true hx⟩
        · rw [h.channels id hx]
          exact h.setChannel id _

theorem Stage.without_start (i : ι) (index : Nat) (rest : List Value) :
    (Stage.start i index rest).Without x (Stage.start i index rest) := by
  cases rest with
  | nil => exact .finished
  | cons payload rest => exact .reading

theorem Stage.without_afterLoop (note : Note ι) (rest : List Value) (d d' : Nat)
    (toRemove : List String) :
    (Stage.afterLoop note rest d toRemove).Without x
      (.afterLoop note rest d' (toRemove.filter (· ≠ x))) := by
  by_cases h : toRemove = []
  · subst h
    exact .reporting
  · rw [Stage.afterLoop, if_neg h]
    exact .removing

/-- A turn at `x` itself leaves the stage without `x` as it is. -/
theorem Stage.without_sending_self {note : Note ι} {rest : List Value}
    {remaining toRemove toRemove' : List String} {d d' : Nat}
    (h : toRemove'.filter (· ≠ x) = toRemove.filter (· ≠ x)) :
    (Stage.sending note rest remaining d toRemove').Without x
      (.sending note rest ((x :: remaining).filter (· ≠ x)) d' (toRemove.filter (· ≠ x))) := by
  have hremaining : (x :: remaining).filter (· ≠ x) = remaining.filter (· ≠ x) := by simp
  rw [hremaining, ← h]
  exact .sending

theorem filter_cons_ne {id : String} (hid : id ≠ x) (remaining : List String) :
    (id :: remaining).filter (· ≠ x) = id :: remaining.filter (· ≠ x) := by
  simp [hid]

/-- And so with the publishers. -/
theorem Turn.without {s s' t : Fanout ι} {st st' u : Stage ι} (h : s.Without x s')
    (hst : st.Without x st') (hturn : Turn s st t u) :
    ∃ t' u', (t' = s' ∧ u' = st' ∨ Turn s' st' t' u') ∧ t.Without x t' ∧ u.Without x u' := by
  cases hturn with
  | read hids =>
      cases hst
      refine ⟨_, _, Or.inr (.read ?_), h.begin _ _ _, .sending⟩
      rw [h.subscribers]
      exact hids.filter _
  | @sent note rest id remaining toRemove delivered hopen hroom =>
      cases hst
      by_cases hx : id = x
      · subst hx
        exact ⟨_, _, Or.inl ⟨rfl, rfl⟩, h.put_self _, Stage.without_sending_self rfl⟩
      · rw [filter_cons_ne hx]
        rw [← h.channels id hx] at hopen hroom
        exact ⟨_, _, Or.inr (.sent hopen hroom), h.put hx _, .sending⟩
  | @full note rest id remaining toRemove delivered hopen hfull =>
      cases hst
      by_cases hx : id = x
      · subst hx
        exact ⟨_, _, Or.inl ⟨rfl, rfl⟩, h.refuse_self _, Stage.without_sending_self rfl⟩
      · rw [filter_cons_ne hx]
        rw [← h.channels id hx] at hopen hfull
        exact ⟨_, _, Or.inr (.full hopen hfull), h.refuse hx _, .sending⟩
  | @closed note rest id remaining toRemove delivered hclosed =>
      cases hst
      by_cases hx : id = x
      · subst hx
        refine ⟨_, _, Or.inl ⟨rfl, rfl⟩, h.refuse_self _, Stage.without_sending_self ?_⟩
        exact Fanout.Without.filter_append_self _
      · rw [filter_cons_ne hx]
        rw [← h.channels id hx] at hclosed
        refine ⟨_, _, Or.inr (.closed hclosed), h.refuse hx _, ?_⟩
        rw [← Fanout.Without.filter_append_of_ne _ hx]
        exact .sending
  | release =>
      cases hst
      exact ⟨_, _, Or.inr .release, h.finish _, Stage.without_afterLoop ..⟩
  | @remove note rest toRemove delivered hlock =>
      cases hst
      rw [← h.readers] at hlock
      by_cases hnil : toRemove.filter (· ≠ x) = []
      · refine ⟨_, _, Or.inl ⟨rfl, rfl⟩, h.remove_self hnil, ?_⟩
        rw [Stage.afterLoop, if_pos hnil]
        exact .reporting
      · rw [Stage.afterLoop, if_neg hnil]
        exact ⟨_, _, Or.inr (.remove hlock), h.remove _, .reporting⟩
  | report =>
      cases hst
      exact ⟨_, _, Or.inr .report, h.report _ _ _, Stage.without_start ..⟩

namespace Staged

/-- The same publishers, and the same subscribers but for `x`. -/
structure Without (x : String) (s s' : Staged ι) : Prop where
  shared : s.shared.Without x s'.shared
  stages : ∀ i, (s.stages i).Without x (s'.stages i)

theorem without_start (x : String) (payloads : ι → List Value) :
    (start payloads).Without x (start payloads) where
  shared :=
    ⟨rfl, rfl, rfl, fun _ _ => rfl, fun _ _ => rfl, fun _ _ => rfl, fun _ _ => rfl, rfl, rfl⟩
  stages := fun i => Stage.without_start i 0 (payloads i)

variable [DecidableEq ι] {s s' t : Staged ι}

theorem Step.without (h : s.Without x s') (hstep : s.Step t) :
    ∃ t', ReflTransGen Step s' t' ∧ t.Without x t' := by
  cases hstep with
  | turn i hturn =>
      obtain ⟨shared, u, hor, hshared, hu⟩ := hturn.without h.shared (h.stages i)
      refine ⟨{ shared := shared, stages := Function.update s'.stages i u }, ?_, hshared, ?_⟩
      · rcases hor with ⟨rfl, rfl⟩ | hturn'
        · rw [Function.update_eq_self]
        · exact .single (.turn i hturn')
      · intro j
        show (Function.update s.stages i _ j).Without x (Function.update s'.stages i u j)
        by_cases hj : j = i
        · subst hj
          rw [Function.update_self, Function.update_self]
          exact hu
        · rw [Function.update_of_ne hj, Function.update_of_ne hj]
          exact h.stages j
  | outside hout =>
      obtain ⟨shared, hor, hshared⟩ := hout.without h.shared
      refine ⟨{ s' with shared := shared }, ?_, hshared, h.stages⟩
      rcases hor with rfl | hout'
      · exact .refl
      · exact .single (.outside hout')

theorem Without.run (h : s.Without x s') (hrun : ReflTransGen Step s t) :
    ∃ t', ReflTransGen Step s' t' ∧ t.Without x t' := by
  induction hrun with
  | refl => exact ⟨s', .refl, h⟩
  | tail _ hstep ih =>
      obtain ⟨t', hrun', hwithout⟩ := ih
      obtain ⟨u', hstep', hwithout'⟩ := hstep.without hwithout
      exact ⟨u', hrun'.trans hstep', hwithout'⟩

end Staged

end

/-! ### Everybody gets everything -/

namespace Publishers

variable {ι : Type} [DecidableEq ι]

/-- What the broker promises of publishers with these notifications. -/
structure FansOut (payloads : ι → List Value) : Prop where
  /-- What a subscriber receives of one publisher are its notifications, in its order and
  each at most once. -/
  ordered : ∀ p, Reachable payloads p → ∀ id,
    (p.shared.received id).Pairwise (fun a b => a.publisher = b.publisher → a.index < b.index) ∧
      ∀ n ∈ p.shared.received id, (payloads n.publisher)[n.index]? = some n.payload
  /-- While its receiver is there, it has received or will receive all that was put into
  its queue. -/
  queued : ∀ p, Reachable payloads p → ∀ id, (p.shared.broker.channels id).closed = false →
    p.shared.sent id = p.shared.received id ++ (p.shared.broker.channels id).queue
  /-- A notification whose publishing begins at `p` and is over at `q` is missing at a
  subscriber of then only if the channel was full or closed when it was offered there. -/
  lost : ∀ p p' q n ids, Reachable payloads p → Step p p' →
    p'.shared.begun = p.shared.begun ++ [(n, ids)] → ReflTransGen Step p' q →
    n ∈ q.shared.ended → ∀ id ∈ p.shared.broker.subscribers, n ∉ q.shared.sent id →
      ∃ ch, (n, ch) ∈ q.shared.refused id ∧
        (ch.closed = true ∨ ch.queue.length = channelBuffer)
  /-- A notification that is published entirely while a subscriber is registered, from the point
  `p` where its publisher comes to it to a point `q` where `publish` has returned, is missing
  there only if the channel was full or closed when it was offered. -/
  missed : ∀ p q n d rest id, Reachable payloads p →
    p.threads n.publisher = publisher n.publisher n.index (n.payload :: rest) →
    id ∈ p.shared.broker.subscribers →
    ReflTransGen (fun p q => Step p q ∧ id ∈ q.shared.broker.subscribers) p q →
    (n, d) ∈ q.shared.returned → n ∉ q.shared.sent id →
      ∃ ch, (n, ch) ∈ q.shared.refused id ∧
        (ch.closed = true ∨ ch.queue.length = channelBuffer)
  /-- `publish` returns for a notification of its publisher that it has offered to the roster of
  some moment, to the last one on it. -/
  offered : ∀ p n d, Reachable payloads p → (n, d) ∈ p.shared.returned →
    (payloads n.publisher)[n.index]? = some n.payload ∧
      (∃ ids, (n, ids) ∈ p.shared.begun) ∧ n ∈ p.shared.ended
  /-- All that happens to the others also happens if `x` never subscribes. -/
  isolated : ∀ p x, Reachable payloads p → ∃ q, Reachable payloads q ∧ x ∉ q.shared.ids ∧
    q.shared.ended = p.shared.ended ∧
    q.shared.returned.map Prod.fst = p.shared.returned.map Prod.fst ∧
    ∀ id, id ≠ x →
      (id ∈ q.shared.broker.subscribers ↔ id ∈ p.shared.broker.subscribers) ∧
        q.shared.broker.channels id = p.shared.broker.channels id ∧
        q.shared.received id = p.shared.received id ∧ q.shared.sent id = p.shared.sent id ∧
        q.shared.refused id = p.shared.refused id
  /-- Who is removed while its receiver is there has unsubscribed. -/
  removed : ∀ p q id, Reachable payloads p → Step p q → id ∈ p.shared.broker.subscribers →
    id ∉ q.shared.broker.subscribers → (p.shared.broker.channels id).closed = false →
      q = { p with shared := p.shared.unsubscribe id }
  /-- `publish` returns the number of queues that took the notification. -/
  counted : ∀ p n d, Reachable payloads p → (n, d) ∈ p.shared.returned →
    {id | n ∈ p.shared.sent id}.encard = d

/-- A point of a run, by the stages of its publishers. -/
theorem Reachable.staged {payloads : ι → List Value} {p : Publishers ι}
    (h : Reachable payloads p) :
    ∃ s : Staged ι, p = s.pool ∧ ReflTransGen Staged.Step (.start payloads) s ∧
      s.Sound payloads := by
  unfold Reachable at h
  rw [← Staged.pool_start] at h
  obtain ⟨s, rfl, hrun⟩ := Staged.exists_run h
  exact ⟨s, rfl, hrun, (Staged.sound_start payloads).run hrun⟩

end Publishers

namespace Staged

variable {ι : Type} {payloads : ι → List Value} {s s' : Staged ι}

/-- What a publisher has been through with was tried at everybody on its roster. -/
theorem Sound.refused (h : s.Sound payloads) {n : Note ι} {ids : List String} {id : String}
    (hn : (n, ids) ∈ s.shared.begun) (hended : n ∈ s.shared.ended) (hid : id ∈ ids)
    (hmissing : n ∉ s.shared.sent id) :
    ∃ ch, (n, ch) ∈ s.shared.refused id ∧ (ch.closed = true ∨ ch.queue.length = channelBuffer) := by
  rcases h.tried n ids hn id hid (h.ended n hended id) with hsent | ⟨ch, hch⟩
  · exact absurd hsent hmissing
  · exact ⟨ch, hch, h.kept.refused id n ch hch⟩

/-- The same, once its `publish` has returned. -/
theorem Sound.refused_of_returned (h : s.Sound payloads) {n : Note ι} {d : Nat}
    {ids : List String} {id : String} (hn : (n, ids) ∈ s.shared.begun)
    (hreturned : (n, d) ∈ s.shared.returned) (hid : id ∈ ids)
    (hmissing : n ∉ s.shared.sent id) :
    ∃ ch, (n, ch) ∈ s.shared.refused id ∧ (ch.closed = true ∨ ch.queue.length = channelBuffer) := by
  have hleft := ((h.returned n d hreturned).1).left id
  rcases h.tried n ids hn id hid hleft with hsent | ⟨ch, hch⟩
  · exact absurd hsent hmissing
  · exact ⟨ch, hch, h.kept.refused id n ch hch⟩

variable [DecidableEq ι]

/-- The record of what has begun grows, and by the roster of the moment. -/
theorem Step.begun_eq (h : s.Step s') :
    s'.shared.begun = s.shared.begun ∨ ∃ n ids, ids.Perm s.shared.broker.subscribers ∧
      s'.shared.begun = s.shared.begun ++ [(n, ids)] := by
  cases h with
  | turn i hturn =>
      rcases hturn.begun_eq with hsame | ⟨note, rest, ids, -, -, hids, hnew⟩
      · exact Or.inl hsame
      · exact Or.inr ⟨note, ids, hids, hnew⟩
  | outside hout => exact Or.inl hout.begun_eq

theorem mem_begun_run (h : ReflTransGen Step s s') {n : Note ι} {ids : List String}
    (hn : (n, ids) ∈ s.shared.begun) : (n, ids) ∈ s'.shared.begun := by
  induction h with
  | refl => exact hn
  | tail _ hstep ih =>
      rcases hstep.begun_eq with hsame | ⟨note, ids', -, hnew⟩
      · rw [hsame]
        exact ih
      · rw [hnew]
        exact List.mem_append_left _ ih

/-- A subscriber that stays on the roster is on the one that its notification is offered to. -/
theorem exists_roster {n : Note ι} {rest : List Value} {id : String} {q : Publishers ι}
    (hid : id ∈ s.shared.broker.subscribers) (hst : s.stages n.publisher = .reading n rest)
    (h : ReflTransGen
      (fun p q => Publishers.Step p q ∧ id ∈ q.shared.broker.subscribers) s.pool q) :
    ∃ t, q = t.pool ∧ ReflTransGen Step s t ∧ id ∈ t.shared.broker.subscribers ∧
      (t.stages n.publisher = .reading n rest ∨ ∃ ids, (n, ids) ∈ t.shared.begun ∧ id ∈ ids) := by
  induction h with
  | refl => exact ⟨s, rfl, .refl, hid, Or.inl hst⟩
  | tail _ hstep ih =>
      obtain ⟨t, rfl, hrun, hroster, hor⟩ := ih
      obtain ⟨t', rfl, hstep'⟩ := pool_step_iff.mp hstep.1
      refine ⟨t', rfl, hrun.tail hstep', hstep.2, ?_⟩
      rcases hor with hreading | ⟨ids, hbegun, hmem⟩
      · cases hstep' with
        | outside hout => exact Or.inl hreading
        | @turn j shared st hturn =>
            by_cases hj : n.publisher = j
            · subst hj
              rw [hreading] at hturn
              cases hturn with
              | @read _ _ ids hids =>
                  exact Or.inr ⟨ids, List.mem_append_right _ (List.mem_singleton.mpr rfl),
                    hids.mem_iff.mpr hroster⟩
            · exact Or.inl ((Function.update_of_ne hj ..).trans hreading)
      · exact Or.inr ⟨ids, mem_begun_run (.single hstep') hbegun, hmem⟩

/-- Only a closed channel is removed, unless by its own id. -/
theorem Sound.removed (h : s.Sound payloads) (hstep : s.Step s') {id : String}
    (hid : id ∈ s.shared.broker.subscribers) (hid' : id ∉ s'.shared.broker.subscribers)
    (hopen : (s.shared.broker.channels id).closed = false) :
    s' = { s with shared := s.shared.unsubscribe id } := by
  cases hstep with
  | turn i hturn =>
      have hfits := h.fits i
      generalize s.stages i = st at hturn hfits
      cases hturn with
      | @remove note rest toRemove delivered hlock =>
          -- The channels to be removed are closed, and this one is not.
          have hremove : id ∈ toRemove := by
            by_contra hnot
            exact hid' (List.mem_filter.mpr ⟨hid, decide_eq_true hnot⟩)
          rw [(hfits.2.1 id hremove).2] at hopen
          cases hopen
      | read hids => exact absurd hid hid'
      | sent hopen' hroom => exact absurd hid hid'
      | full hopen' hfull => exact absurd hid hid'
      | closed hclosed => exact absurd hid hid'
      | release => exact absurd hid hid'
      | report => exact absurd hid hid'
  | outside hout =>
      cases hout with
      | subscribe a ha hlock => exact absurd (List.mem_append_left _ hid) hid'
      | unsubscribe a hlock =>
          have ha : id = a := by
            by_contra hne
            exact hid' (List.mem_filter.mpr ⟨hid, decide_eq_true hne⟩)
          rw [ha]
      | receive a hrecv => exact absurd hid hid'
      | dropReceiver a ha => exact absurd hid hid'

end Staged

/-- **Notifications are fanned out**, in every run of any publishers and subscribers. -/
theorem Publishers.fansOut {ι : Type} [DecidableEq ι] (payloads : ι → List Value) :
    Publishers.FansOut payloads where
  ordered := by
    intro p hp id
    obtain ⟨s, rfl, -, hsound⟩ := hp.staged
    have hhanded := (hsound.kept.flows id).handed
    refine ⟨(hsound.ordered id).sublist hhanded.sublist, fun n hn => ?_⟩
    exact hsound.published id n (hhanded.subset hn)
  queued := by
    intro p hp id hopen
    obtain ⟨s, rfl, -, hsound⟩ := hp.staged
    exact (hsound.kept.flows id).queued hopen
  lost := by
    intro p p' q n ids hp hstep hbegun hrun hended id hid hmissing
    obtain ⟨s, rfl, -, hsound⟩ := hp.staged
    obtain ⟨s', rfl, hstep'⟩ := Staged.pool_step_iff.mp hstep
    obtain ⟨t, rfl, hrun'⟩ := Staged.exists_run hrun
    change s'.shared.begun = s.shared.begun ++ [(n, ids)] at hbegun
    have hids : ids.Perm s.shared.broker.subscribers := by
      rcases hstep'.begun_eq with hsame | ⟨note, ids', hids', hnew⟩
      · rw [hsame] at hbegun
        exact absurd (List.self_eq_append_right.mp hbegun) (List.cons_ne_nil _ _)
      · rw [hnew, List.append_cancel_left_eq] at hbegun
        cases hbegun
        exact hids'
    have hn : (n, ids) ∈ t.shared.begun := by
      refine Staged.mem_begun_run hrun' ?_
      rw [hbegun]
      exact List.mem_append_right _ (List.mem_singleton.mpr rfl)
    exact ((hsound.step hstep').run hrun').refused hn hended (hids.mem_iff.mpr hid) hmissing
  missed := by
    intro p q n d rest id hp hthread hid hrun hreturned hmissing
    obtain ⟨s, rfl, -, hsound⟩ := hp.staged
    obtain ⟨rest', hst⟩ := Stage.eq_reading_of_code hthread
    obtain ⟨t, rfl, hrun', -, hor⟩ := Staged.exists_roster hid hst hrun
    have hsound' := hsound.run hrun'
    rcases hor with hreading | ⟨ids, hbegun, hmem⟩
    · -- A notification that is still to be published has not been returned for.
      have hover := (hsound'.returned n d hreturned).1
      rw [hreading] at hover
      exact absurd hover (Nat.lt_irrefl _)
    · exact hsound'.refused_of_returned hbegun hreturned hmem hmissing
  offered := by
    intro p n d hp hn
    obtain ⟨s, rfl, hrun, -⟩ := hp.staged
    exact ((Staged.logged_start payloads).run hrun).returned n d hn
  isolated := by
    intro p x hp
    obtain ⟨s, rfl, hrun, -⟩ := hp.staged
    obtain ⟨s', hrun', hwithout⟩ := (Staged.without_start x payloads).run hrun
    have hshared := hwithout.shared
    refine ⟨s'.pool, ?_, ?_, hshared.ended, hshared.returned, fun id hid => ?_⟩
    · have hpool := Staged.pool_run hrun'
      rw [Staged.pool_start] at hpool
      exact hpool
    · show x ∉ s'.shared.ids
      rw [hshared.ids, List.mem_filter]
      simp
    · refine ⟨?_, hshared.channels id hid, hshared.received id hid, hshared.sent id hid,
        hshared.refused id hid⟩
      show id ∈ s'.shared.broker.subscribers ↔ _
      rw [hshared.subscribers, List.mem_filter]
      exact and_iff_left (decide_eq_true hid)
  removed := by
    intro p q id hp hstep hid hid' hopen
    obtain ⟨s, rfl, -, hsound⟩ := hp.staged
    obtain ⟨s', rfl, hstep'⟩ := Staged.pool_step_iff.mp hstep
    rw [hsound.removed hstep' hid hid' hopen]
    rfl
  counted := by
    intro p n d hp hn
    obtain ⟨s, rfl, -, hsound⟩ := hp.staged
    exact (hsound.returned n d hn).2

end McpFederation
