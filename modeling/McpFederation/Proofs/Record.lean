/-
What the record says of one turn.

Three things are kept here for the invariant of `Deliveries`.  How far a publisher has come
with a notification is read off its stage, and no turn takes it back.  The record agrees
with the broker: what a subscriber was sent is what it has received and what is queued for
it.  And `Turn` has seven cases, each of which adds little to the record; `sent_eq`,
`begun_eq`, `mem_ended` and `mem_returned` say what.
-/
import Mathlib.Data.List.Nodup
import McpFederation.Proofs.Publishers

namespace McpFederation

/-! ### How far a publisher has come -/

namespace Stage

variable {ι : Type}

/-- The publisher has begun with `n`. -/
def Started (n : Note ι) : Stage ι → Prop
  | .reading note _ => n.index < note.index
  | .sending note _ _ _ _ | .removing note _ _ _ | .reporting note _ _ =>
      n.index < note.index ∨ n = note
  | .finished => True

/-- It has offered `n` to `id`, or will not. -/
def Left (n : Note ι) (id : String) : Stage ι → Prop
  | .reading note _ => n.index < note.index
  | .sending note _ remaining _ _ => n.index < note.index ∨ n = note ∧ id ∉ remaining
  | .removing note _ _ _ | .reporting note _ _ => n.index < note.index ∨ n = note
  | .finished => True

/-- It is through with `n`. -/
def Over (n : Note ι) : Stage ι → Prop
  | .reading note _ | .sending note _ _ _ _ | .removing note _ _ _ | .reporting note _ _ =>
      n.index < note.index
  | .finished => True

variable {n note : Note ι} {id : String} {rest : List Value} {delivered : Nat}
  {toRemove : List String}

theorem started_afterLoop (h : n.index < note.index ∨ n = note) :
    (afterLoop note rest delivered toRemove).Started n := by
  unfold afterLoop
  split <;> exact h

theorem left_afterLoop (h : n.index < note.index ∨ n = note) :
    (afterLoop note rest delivered toRemove).Left n id := by
  unfold afterLoop
  split <;> exact h

theorem over_afterLoop (h : n.index < note.index) :
    (afterLoop note rest delivered toRemove).Over n := by
  unfold afterLoop
  split <;> exact h

/-- Before the next notification, everything up to this one is over. -/
theorem over_start (i : ι) (h : n.index < note.index ∨ n = note) :
    (start i (note.index + 1) rest).Over n := by
  have hlt : n.index < note.index + 1 := by
    rcases h with hlt | rfl
    · exact Nat.lt_succ_of_lt hlt
    · exact Nat.lt_succ_self _
  cases rest with
  | nil => trivial
  | cons payload rest => exact hlt

theorem Over.left {st : Stage ι} (h : st.Over n) (id : String) : st.Left n id := by
  cases st with
  | reading note rest => exact h
  | sending note rest remaining delivered toRemove => exact Or.inl h
  | removing note rest delivered toRemove => exact Or.inl h
  | reporting note rest delivered => exact Or.inl h
  | finished => trivial

theorem Over.started {st : Stage ι} (h : st.Over n) : st.Started n := by
  cases st with
  | reading note rest => exact h
  | sending note rest remaining delivered toRemove => exact Or.inl h
  | removing note rest delivered toRemove => exact Or.inl h
  | reporting note rest delivered => exact Or.inl h
  | finished => trivial

end Stage

section

variable {ι : Type} {s s' : Fanout ι} {st st' : Stage ι} {n : Note ι}

theorem Turn.started (h : Turn s st s' st') (hn : st.Started n) : st'.Started n := by
  cases h with
  | read hids => exact Or.inl hn
  | sent hopen hroom => exact hn
  | full hopen hfull => exact hn
  | closed hclosed => exact hn
  | release => exact Stage.started_afterLoop hn
  | remove hlock => exact hn
  | report => exact (Stage.over_start _ hn).started

theorem Turn.left (h : Turn s st s' st') {id : String} (hn : st.Left n id) : st'.Left n id := by
  have hrest : ∀ {a : String} {remaining : List String}, id ∉ a :: remaining → id ∉ remaining :=
    fun hid hmem => hid (List.mem_cons_of_mem _ hmem)
  cases h with
  | read hids => exact Or.inl hn
  | sent hopen hroom => exact hn.imp_right fun h => ⟨h.1, hrest h.2⟩
  | full hopen hfull => exact hn.imp_right fun h => ⟨h.1, hrest h.2⟩
  | closed hclosed => exact hn.imp_right fun h => ⟨h.1, hrest h.2⟩
  | release => exact Stage.left_afterLoop (hn.imp_right And.left)
  | remove hlock => exact hn
  | report => exact (Stage.over_start _ hn).left id

theorem Turn.over (h : Turn s st s' st') (hn : st.Over n) : st'.Over n := by
  cases h with
  | read hids => exact hn
  | sent hopen hroom => exact hn
  | full hopen hfull => exact hn
  | closed hclosed => exact hn
  | release => exact Stage.over_afterLoop hn
  | remove hlock => exact hn
  | report => exact Stage.over_start _ (Or.inl hn)

end

/-! ### The record agrees with the broker -/

namespace Fanout

variable {ι : Type} {s : Fanout ι} {id : String}

/-- What one subscriber was sent is what it has received and what is queued for it; when
its receiver is gone, it may not have received it all. -/
structure Flows (sent received : List (Note ι)) (ch : Channel (Note ι)) : Prop where
  queued : ch.closed = false → sent = received ++ ch.queue
  dropped : ch.closed = true → ch.queue = []
  handed : received <+: sent
  room : ch.queue.length ≤ channelBuffer

structure Kept (s : Fanout ι) : Prop where
  nodup : s.broker.subscribers.Nodup
  known : ∀ id ∈ s.broker.subscribers, id ∈ s.ids
  unknown : ∀ id, id ∉ s.ids → s.sent id = [] ∧ s.received id = []
  flows : ∀ id, Flows (s.sent id) (s.received id) (s.broker.channels id)
  refused : ∀ id n ch, (n, ch) ∈ s.refused id →
    ch.closed = true ∨ ch.queue.length = channelBuffer

theorem kept_init : Kept ({} : Fanout ι) where
  nodup := List.nodup_nil
  known := fun _ h => by cases h
  unknown := fun _ _ => ⟨rfl, rfl⟩
  flows := fun _ => ⟨fun _ => rfl, fun _ => rfl, List.prefix_rfl, Nat.zero_le _⟩
  refused := fun _ _ _ h => by cases h

theorem Flows.put {sent received : List (Note ι)} {ch : Channel (Note ι)}
    (h : Flows sent received ch) (hopen : ch.closed = false)
    (hroom : ch.queue.length < channelBuffer) (note : Note ι) :
    Flows (sent ++ [note]) received { ch with queue := ch.queue ++ [note] } where
  queued := by
    intro _
    rw [h.queued hopen, List.append_assoc]
  dropped := fun hclosed => by rw [hopen] at hclosed; cases hclosed
  handed := h.handed.trans (List.prefix_append _ _)
  room := by
    rw [List.length_append, List.length_singleton]
    exact hroom

theorem Flows.receive {sent received : List (Note ι)} {ch ch' : Channel (Note ι)}
    (h : Flows sent received ch) {note : Note ι} (hrecv : ch.recv = some (note, ch')) :
    Flows sent (received ++ [note]) ch' := by
  unfold Channel.recv at hrecv
  split at hrecv
  · cases hrecv
  · next a rest hqueue =>
      cases hrecv
      have hopen : ch.closed = false := by
        cases hclosed : ch.closed with
        | false => rfl
        | true =>
            have hnil := h.dropped hclosed
            rw [hqueue] at hnil
            cases hnil
      have hsent : sent = (received ++ [note]) ++ rest := by
        rw [h.queued hopen, hqueue, List.append_assoc]
        rfl
      refine ⟨fun _ => hsent, fun hclosed => ?_, hsent ▸ List.prefix_append _ _, ?_⟩
      · change ch.closed = true at hclosed
        rw [hopen] at hclosed
        cases hclosed
      · have hroom := h.room
        rw [hqueue] at hroom
        exact Nat.le_of_succ_le hroom

theorem Flows.dropReceiver {sent received : List (Note ι)} {ch : Channel (Note ι)}
    (h : Flows sent received ch) : Flows sent received ch.dropReceiver :=
  ⟨fun hopen => (by cases hopen), fun _ => rfl, h.handed, Nat.zero_le _⟩

/-- What one subscriber does is its own affair. -/
theorem flows_update {sent received : String → List (Note ι)}
    {channels : String → Channel (Note ι)} (h : ∀ id, Flows (sent id) (received id) (channels id))
    (id : String) {a r : List (Note ι)} {ch : Channel (Note ι)} (hid : Flows a r ch)
    (id' : String) :
    Flows (Function.update sent id a id') (Function.update received id r id')
      (Function.update channels id ch id') := by
  by_cases hne : id' = id
  · subst hne
    simpa using hid
  · simpa [Function.update_of_ne hne] using h id'

theorem Kept.put (h : s.Kept) (hid : id ∈ s.ids) (hopen : (s.broker.channels id).closed = false)
    (hroom : (s.broker.channels id).queue.length < channelBuffer) (note : Note ι) :
    (s.put id note).Kept where
  nodup := h.nodup
  known := h.known
  unknown := by
    intro id' hid'
    have hne : id' ≠ id := fun heq => hid' (heq ▸ hid)
    exact ⟨(Function.update_of_ne hne ..).trans (h.unknown id' hid').1, (h.unknown id' hid').2⟩
  flows := by
    intro id'
    have hflows := flows_update h.flows id ((h.flows id).put hopen hroom note) id'
    rw [Function.update_eq_self] at hflows
    exact hflows
  refused := h.refused

theorem Kept.refuse (h : s.Kept) (note : Note ι)
    (hfull : (s.broker.channels id).closed = true ∨
      ¬ (s.broker.channels id).queue.length < channelBuffer) : (s.refuse id note).Kept where
  nodup := h.nodup
  known := h.known
  unknown := h.unknown
  flows := h.flows
  refused := by
    intro id' n ch hmem
    change (n, ch) ∈ Function.update s.refused id _ id' at hmem
    by_cases hne : id' = id
    · subst hne
      rw [Function.update_self, List.mem_append, List.mem_singleton] at hmem
      rcases hmem with hold | hnew
      · exact h.refused id' n ch hold
      · cases hnew
        exact hfull.imp_right fun hlt =>
          Nat.le_antisymm (h.flows id').room (Nat.le_of_not_lt hlt)
    · rw [Function.update_of_ne hne] at hmem
      exact h.refused id' n ch hmem

theorem Kept.remove (h : s.Kept) (ids : List String) : (s.remove ids).Kept where
  nodup := h.nodup.filter _
  known := fun id hmem => h.known id (List.mem_filter.mp hmem).1
  unknown := h.unknown
  flows := h.flows
  refused := h.refused

theorem Kept.unsubscribe (h : s.Kept) (id : String) : (s.unsubscribe id).Kept where
  nodup := h.nodup.filter _
  known := fun id' hmem => h.known id' (List.mem_filter.mp hmem).1
  unknown := h.unknown
  flows := h.flows
  refused := h.refused

theorem Kept.subscribe (h : s.Kept) (hid : id ∉ s.ids) : (s.subscribe id).Kept where
  nodup := by
    refine List.nodup_append.mpr ⟨h.nodup, List.nodup_singleton id, ?_⟩
    intro a ha b hb heq
    rw [List.mem_singleton] at hb
    subst hb heq
    exact hid (h.known a ha)
  known := by
    intro id' hmem
    rcases List.mem_append.mp hmem with hold | hnew
    · exact List.mem_append_left _ (h.known id' hold)
    · exact List.mem_append_right _ hnew
  unknown := fun id' hid' => h.unknown id' fun hmem => hid' (List.mem_append_left _ hmem)
  flows := by
    intro id'
    have hnew : Flows (s.sent id) (s.received id) ({} : Channel (Note ι)) := by
      rw [(h.unknown id hid).1, (h.unknown id hid).2]
      exact ⟨fun _ => rfl, fun _ => rfl, List.prefix_rfl, Nat.zero_le _⟩
    have hflows := flows_update h.flows id hnew id'
    rw [Function.update_eq_self, Function.update_eq_self] at hflows
    exact hflows
  refused := h.refused

theorem Kept.receive (h : s.Kept) {note : Note ι} {ch : Channel (Note ι)}
    (hrecv : (s.broker.channels id).recv = some (note, ch)) : (s.receive id note ch).Kept where
  nodup := h.nodup
  known := h.known
  unknown := by
    intro id' hid'
    have hne : id' ≠ id := by
      intro heq
      subst heq
      have hhanded := ((h.flows id').receive hrecv).handed
      rw [(h.unknown id' hid').1, List.prefix_nil] at hhanded
      exact List.append_ne_nil_of_right_ne_nil _ (List.cons_ne_nil _ _) hhanded
    exact ⟨(h.unknown id' hid').1, (Function.update_of_ne hne ..).trans (h.unknown id' hid').2⟩
  flows := by
    intro id'
    have hflows := flows_update h.flows id ((h.flows id).receive hrecv) id'
    rw [Function.update_eq_self] at hflows
    exact hflows
  refused := h.refused

theorem Kept.dropReceiver (h : s.Kept) (id : String) :
    (s.setChannel id (s.broker.channels id).dropReceiver).Kept where
  nodup := h.nodup
  known := h.known
  unknown := h.unknown
  flows := by
    intro id'
    have hflows := flows_update h.flows id (h.flows id).dropReceiver id'
    rw [Function.update_eq_self, Function.update_eq_self] at hflows
    exact hflows
  refused := h.refused

end Fanout

/-! ### What one turn adds to the record -/

namespace Fanout

variable {ι : Type}

/-- `n` was put into the queue of `id`, or refused there. -/
def Tried (s : Fanout ι) (n : Note ι) (id : String) : Prop :=
  n ∈ s.sent id ∨ ∃ ch, (n, ch) ∈ s.refused id

theorem mem_sent_put {s : Fanout ι} {note n : Note ι} {id id' : String} :
    n ∈ (s.put id note).sent id' ↔ n ∈ s.sent id' ∨ n = note ∧ id' = id := by
  show n ∈ Function.update s.sent id (s.sent id ++ [note]) id' ↔ _
  by_cases hne : id' = id
  · subst hne
    simp
  · simp [hne]

theorem mem_refused_refuse {s : Fanout ι} {note n : Note ι} {id id' : String}
    {ch : Channel (Note ι)} :
    (n, ch) ∈ (s.refuse id note).refused id' ↔
      (n, ch) ∈ s.refused id' ∨ (n = note ∧ ch = s.broker.channels id) ∧ id' = id := by
  show (n, ch) ∈ Function.update s.refused id (s.refused id ++ [_]) id' ↔ _
  by_cases hne : id' = id
  · subst hne
    simp
  · simp [hne]

theorem Tried.put {s : Fanout ι} {n : Note ι} {id' : String} (h : s.Tried n id') (id : String)
    (note : Note ι) : (s.put id note).Tried n id' :=
  h.imp_left fun hmem => mem_sent_put.mpr (Or.inl hmem)

theorem Tried.refuse {s : Fanout ι} {n : Note ι} {id' : String} (h : s.Tried n id') (id : String)
    (note : Note ι) : (s.refuse id note).Tried n id' :=
  h.imp_right fun ⟨ch, hmem⟩ => ⟨ch, mem_refused_refuse.mpr (Or.inl hmem)⟩

end Fanout

section

variable {ι : Type} {s s' : Fanout ι} {st st' : Stage ι} {n : Note ι} {id : String}

/-- At most one queue gets longer, by the notification that is being sent. -/
theorem Turn.sent_eq (h : Turn s st s' st') (id : String) :
    s'.sent id = s.sent id ∨ ∃ note rest remaining delivered toRemove,
      st = .sending note rest (id :: remaining) delivered toRemove ∧
        st' = .sending note rest remaining (delivered + 1) toRemove ∧
          s'.sent id = s.sent id ++ [note] := by
  cases h with
  | @sent _ _ id' _ _ _ hopen hroom =>
      by_cases hid : id = id'
      · subst hid
        exact Or.inr ⟨_, _, _, _, _, rfl, rfl, Function.update_self ..⟩
      · exact Or.inl (Function.update_of_ne hid ..)
  | read hids => exact Or.inl rfl
  | full hopen hfull => exact Or.inl rfl
  | closed hclosed => exact Or.inl rfl
  | release => exact Or.inl rfl
  | remove hlock => exact Or.inl rfl
  | report => exact Or.inl rfl

theorem Turn.tried (h : Turn s st s' st') (hn : s.Tried n id) : s'.Tried n id := by
  cases h with
  | sent hopen hroom => exact hn.put _ _
  | full hopen hfull => exact hn.refuse _ _
  | closed hclosed => exact hn.refuse _ _
  | read hids => exact hn
  | release => exact hn
  | remove hlock => exact hn
  | report => exact hn

theorem Turn.begun_eq (h : Turn s st s' st') :
    s'.begun = s.begun ∨ ∃ note rest ids, st = .reading note rest ∧
      st' = .sending note rest ids 0 [] ∧ ids.Perm s.broker.subscribers ∧
        s'.begun = s.begun ++ [(note, ids)] := by
  cases h with
  | read hids => exact Or.inr ⟨_, _, _, rfl, rfl, hids, rfl⟩
  | sent hopen hroom => exact Or.inl rfl
  | full hopen hfull => exact Or.inl rfl
  | closed hclosed => exact Or.inl rfl
  | release => exact Or.inl rfl
  | remove hlock => exact Or.inl rfl
  | report => exact Or.inl rfl

theorem Fanout.Outside.begun_eq (h : s.Outside s') : s'.begun = s.begun := by
  cases h with
  | subscribe id hid hlock => rfl
  | unsubscribe id hlock => rfl
  | receive id hrecv => rfl
  | dropReceiver id hid => rfl

theorem Turn.mem_begun {ids : List String} (h : Turn s st s' st') (hn : (n, ids) ∈ s'.begun) :
    (n, ids) ∈ s.begun ∨ ∃ rest, st = .reading n rest ∧ st' = .sending n rest ids 0 [] := by
  rcases h.begun_eq with hsame | ⟨note, rest, ids', hst, hst', -, hnew⟩
  · rw [hsame] at hn
    exact Or.inl hn
  · rw [hnew, List.mem_append, List.mem_singleton] at hn
    rcases hn with hold | heq
    · exact Or.inl hold
    · cases heq
      exact Or.inr ⟨rest, hst, hst'⟩

theorem Turn.mem_ended (h : Turn s st s' st') (hn : n ∈ s'.ended) :
    n ∈ s.ended ∨ ∃ rest delivered toRemove, st = .sending n rest [] delivered toRemove := by
  cases h with
  | release =>
      rcases List.mem_append.mp hn with hold | hnew
      · exact Or.inl hold
      · cases List.mem_singleton.mp hnew
        exact Or.inr ⟨_, _, _, rfl⟩
  | read hids => exact Or.inl hn
  | sent hopen hroom => exact Or.inl hn
  | full hopen hfull => exact Or.inl hn
  | closed hclosed => exact Or.inl hn
  | remove hlock => exact Or.inl hn
  | report => exact Or.inl hn

theorem Turn.mem_returned {d : Nat} (h : Turn s st s' st') (hn : (n, d) ∈ s'.returned) :
    (n, d) ∈ s.returned ∨ ∃ rest, st = .reporting n rest d ∧
      st' = .start n.publisher (n.index + 1) rest ∧ s'.sent = s.sent := by
  cases h with
  | report =>
      rcases List.mem_append.mp hn with hold | hnew
      · exact Or.inl hold
      · cases List.mem_singleton.mp hnew
        exact Or.inr ⟨_, rfl, rfl, rfl⟩
  | read hids => exact Or.inl hn
  | sent hopen hroom => exact Or.inl hn
  | full hopen hfull => exact Or.inl hn
  | closed hclosed => exact Or.inl hn
  | release => exact Or.inl hn
  | remove hlock => exact Or.inl hn

/-- A notification is left at a subscriber when it has been tried there, and not before. -/
theorem Turn.tried_of_left (h : Turn s st s' st') (hn : st.Started n) (hleft : st'.Left n id) :
    st.Left n id ∨ s'.Tried n id := by
  -- The head of the list is tried in this turn; the others are as they were.
  have hcons : ∀ {a : String} {note : Note ι} {remaining : List String},
      n.index < note.index ∨ n = note ∧ id ∉ remaining →
      (n.index < note.index ∨ n = note ∧ id ∉ a :: remaining) ∨ n = note ∧ id = a := by
    intro a note remaining h
    rcases h with hlt | ⟨hnote, hmem⟩
    · exact Or.inl (Or.inl hlt)
    · by_cases ha : id = a
      · exact Or.inr ⟨hnote, ha⟩
      · exact Or.inl (Or.inr ⟨hnote, List.not_mem_cons_of_ne_of_not_mem ha hmem⟩)
  have hrefuse : ∀ {a : String} {note : Note ι}, n = note ∧ id = a → (s.refuse a note).Tried n id :=
    fun h => Or.inr ⟨_, Fanout.mem_refused_refuse.mpr (Or.inr ⟨⟨h.1, rfl⟩, h.2⟩)⟩
  cases h with
  | read hids => exact Or.inl hn
  | sent hopen hroom =>
      exact (hcons hleft).imp_right fun h => Or.inl (Fanout.mem_sent_put.mpr (Or.inr h))
  | full hopen hfull => exact (hcons hleft).imp_right hrefuse
  | closed hclosed => exact (hcons hleft).imp_right hrefuse
  | release => exact Or.inl (hn.imp_right fun h => ⟨h, List.not_mem_nil⟩)
  | remove hlock => exact Or.inl hn
  | report => exact Or.inl hn

end

end McpFederation
