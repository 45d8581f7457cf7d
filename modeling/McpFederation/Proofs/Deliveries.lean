/-
What holds at every point of a run.

`Staged.Sound` is the one invariant behind the broker's promises.  Most of it is about how
far a publisher has come: a notification is in a queue only if its publisher has left it
there, and once the publisher has left it somewhere, it was either taken or refused.  Since
a publisher passes each subscriber once and in turn, the order of its notifications in a
queue and their number follow.
-/
import Mathlib.Data.Set.Card
import McpFederation.Proofs.Record

namespace McpFederation

open Relation (ReflTransGen)

/-! ### The invariant -/

section

variable {ι : Type}

/-- `note` is what publisher `i` publishes as its number `note.index`, and `rest` follows. -/
structure Note.Own (i : ι) (payloads : List Value) (note : Note ι) (rest : List Value) : Prop where
  publisher : note.publisher = i
  next : payloads.drop note.index = note.payload :: rest

namespace Fanout

def AllClosed (s : Fanout ι) (ids : List String) : Prop :=
  ∀ id ∈ ids, id ∈ s.ids ∧ (s.broker.channels id).closed = true

/-- `n` is in as many queues. -/
def Counts (s : Fanout ι) (n : Note ι) (delivered : Nat) : Prop :=
  {id | n ∈ s.sent id}.encard = delivered

/-- For publisher `i`, nothing is undone: ids stay known, closed channels stay closed, and
its own notifications stay where they are. -/
structure Frames (i : ι) (s s' : Fanout ι) : Prop where
  ids : ∀ id ∈ s.ids, id ∈ s'.ids
  closed : ∀ id ∈ s.ids, (s.broker.channels id).closed = true →
    (s'.broker.channels id).closed = true
  sent : ∀ n id, n.publisher = i → (n ∈ s'.sent id ↔ n ∈ s.sent id)

variable {i : ι} {s s' : Fanout ι}

theorem Frames.allClosed (h : Frames i s s') {ids : List String} (hids : s.AllClosed ids) :
    s'.AllClosed ids :=
  fun id hid => ⟨h.ids id (hids id hid).1, h.closed id (hids id hid).1 (hids id hid).2⟩

theorem Frames.counts (h : Frames i s s') {n : Note ι} {d : Nat} (hn : n.publisher = i)
    (hd : s.Counts n d) : s'.Counts n d := by
  have hset : {id | n ∈ s'.sent id} = {id | n ∈ s.sent id} :=
    Set.ext fun id => h.sent n id hn
  rw [Counts, hset]
  exact hd

end Fanout

/-- What a stage promises. -/
def Stage.Fits (s : Fanout ι) (i : ι) (payloads : List Value) : Stage ι → Prop
  | .reading note rest => note.Own i payloads rest
  | .sending note rest remaining delivered toRemove =>
      note.Own i payloads rest ∧ remaining.Nodup ∧ (∀ id ∈ remaining, id ∈ s.ids) ∧
        s.AllClosed toRemove ∧ s.Counts note delivered
  | .removing note rest delivered toRemove =>
      note.Own i payloads rest ∧ s.AllClosed toRemove ∧ s.Counts note delivered
  | .reporting note rest delivered => note.Own i payloads rest ∧ s.Counts note delivered
  | .finished => True

theorem Stage.Fits.frames {i : ι} {s s' : Fanout ι} {payloads : List Value} {st : Stage ι}
    (h : st.Fits s i payloads) (hs : Fanout.Frames i s s') : st.Fits s' i payloads := by
  cases st with
  | reading note rest => exact h
  | sending note rest remaining delivered toRemove =>
      obtain ⟨hown, hnodup, hids, hclosed, hcounts⟩ := h
      exact ⟨hown, hnodup, fun id hid => hs.ids id (hids id hid), hs.allClosed hclosed,
        hs.counts hown.publisher hcounts⟩
  | removing note rest delivered toRemove =>
      obtain ⟨hown, hclosed, hcounts⟩ := h
      exact ⟨hown, hs.allClosed hclosed, hs.counts hown.publisher hcounts⟩
  | reporting note rest delivered => exact ⟨h.1, hs.counts h.1.publisher h.2⟩
  | finished => trivial

theorem Stage.fits_start {i : ι} {s : Fanout ι} {payloads : List Value} :
    ∀ (index : Nat) (rest : List Value), payloads.drop index = rest →
      (Stage.start i index rest).Fits s i payloads := by
  intro index rest h
  cases rest with
  | nil => trivial
  | cons payload rest => exact ⟨rfl, h⟩

namespace Staged

/-- What holds at every point of a run. -/
structure Sound (payloads : ι → List Value) (s : Staged ι) : Prop where
  kept : s.shared.Kept
  fits : ∀ i, (s.stages i).Fits s.shared i (payloads i)
  /-- What is in a queue has been left there by its publisher. -/
  left : ∀ id, ∀ n ∈ s.shared.sent id, (s.stages n.publisher).Left n id
  published : ∀ id, ∀ n ∈ s.shared.sent id, (payloads n.publisher)[n.index]? = some n.payload
  ordered : ∀ id, (s.shared.sent id).Pairwise fun a b =>
    a.publisher = b.publisher → a.index < b.index
  begun : ∀ n ids, (n, ids) ∈ s.shared.begun → (s.stages n.publisher).Started n
  tried : ∀ n ids, (n, ids) ∈ s.shared.begun → ∀ id ∈ ids,
    (s.stages n.publisher).Left n id → s.shared.Tried n id
  ended : ∀ n ∈ s.shared.ended, ∀ id, (s.stages n.publisher).Left n id
  returned : ∀ n d, (n, d) ∈ s.shared.returned →
    (s.stages n.publisher).Over n ∧ s.shared.Counts n d

theorem sound_start (payloads : ι → List Value) : (start payloads).Sound payloads where
  kept := Fanout.kept_init
  fits := fun i => Stage.fits_start 0 (payloads i) rfl
  left := fun _ _ h => by cases h
  published := fun _ _ h => by cases h
  ordered := fun _ => List.Pairwise.nil
  begun := fun _ _ h => by cases h
  tried := fun _ _ h => by cases h
  ended := fun _ h => by cases h
  returned := fun _ _ h => by cases h

end Staged

end

/-! ### Every step keeps it -/

section

variable {ι : Type} {i j : ι} {s s' : Fanout ι} {st st' : Stage ι} {payloads : List Value}

theorem Channel.closed_recv {α : Type} {ch ch' : Channel α} {a : α}
    (h : ch.recv = some (a, ch')) : ch'.closed = ch.closed := by
  unfold Channel.recv at h
  split at h
  · cases h
  · cases h
    rfl

namespace Fanout

/-- A channel that is set stays closed if it was. -/
theorem closed_update {id id' : String} {ch : Channel (Note ι)}
    (hch : (s.broker.channels id).closed = true → ch.closed = true)
    (h : (s.broker.channels id').closed = true) :
    (Function.update s.broker.channels id ch id').closed = true := by
  by_cases hne : id' = id
  · subst hne
    rw [Function.update_self]
    exact hch h
  · rw [Function.update_of_ne hne]
    exact h

theorem Outside.frames (h : Outside s s') (i : ι) : Frames i s s' := by
  cases h with
  | subscribe id hid hlock =>
      refine ⟨fun id' hid' => List.mem_append_left _ hid', ?_, fun _ _ _ => Iff.rfl⟩
      intro id' hid' hclosed
      have hne : id' ≠ id := fun heq => hid (heq ▸ hid')
      show (Function.update s.broker.channels id {} id').closed = true
      rw [Function.update_of_ne hne]
      exact hclosed
  | unsubscribe id hlock => exact ⟨fun _ h => h, fun _ _ h => h, fun _ _ _ => Iff.rfl⟩
  | receive id hrecv =>
      refine ⟨fun _ h => h, fun id' _ hclosed => ?_, fun _ _ _ => Iff.rfl⟩
      exact closed_update (fun h => (Channel.closed_recv hrecv).trans h) hclosed
  | dropReceiver id hid =>
      exact ⟨fun _ h => h, fun _ _ hclosed => closed_update (fun _ => rfl) hclosed,
        fun _ _ _ => Iff.rfl⟩

theorem Outside.kept (h : Outside s s') (hs : s.Kept) : s'.Kept := by
  cases h with
  | subscribe id hid hlock => exact hs.subscribe hid
  | unsubscribe id hlock => exact hs.unsubscribe id
  | receive id hrecv => exact hs.receive hrecv
  | dropReceiver id hid => exact hs.dropReceiver id

end Fanout

theorem Turn.frames (h : Turn s st s' st') (hst : st.Fits s i payloads) (hj : j ≠ i) :
    Fanout.Frames j s s' := by
  cases h with
  | sent hopen hroom =>
      refine ⟨fun _ h => h, fun id _ hclosed => ?_, fun n id hn => ?_⟩
      · exact Fanout.closed_update (fun h => h) hclosed
      · rw [Fanout.mem_sent_put, or_iff_left]
        intro h
        obtain ⟨rfl, -⟩ := h
        exact hj (hn.symm.trans hst.1.publisher)
  | read hids => exact ⟨fun _ h => h, fun _ _ h => h, fun _ _ _ => Iff.rfl⟩
  | full hopen hfull => exact ⟨fun _ h => h, fun _ _ h => h, fun _ _ _ => Iff.rfl⟩
  | closed hclosed => exact ⟨fun _ h => h, fun _ _ h => h, fun _ _ _ => Iff.rfl⟩
  | release => exact ⟨fun _ h => h, fun _ _ h => h, fun _ _ _ => Iff.rfl⟩
  | remove hlock => exact ⟨fun _ h => h, fun _ _ h => h, fun _ _ _ => Iff.rfl⟩
  | report => exact ⟨fun _ h => h, fun _ _ h => h, fun _ _ _ => Iff.rfl⟩

theorem Turn.kept (h : Turn s st s' st') (hst : st.Fits s i payloads) (hs : s.Kept) :
    s'.Kept := by
  cases h with
  | read hids => exact ⟨hs.nodup, hs.known, hs.unknown, hs.flows, hs.refused⟩
  | sent hopen hroom =>
      exact hs.put (hst.2.2.1 _ List.mem_cons_self) hopen hroom _
  | full hopen hfull => exact hs.refuse _ (Or.inr hfull)
  | closed hclosed => exact hs.refuse _ (Or.inl hclosed)
  | release => exact ⟨hs.nodup, hs.known, hs.unknown, hs.flows, hs.refused⟩
  | remove hlock => exact hs.remove _
  | report => exact ⟨hs.nodup, hs.known, hs.unknown, hs.flows, hs.refused⟩

theorem Fanout.counts_zero {note : Note ι} (h : ∀ id, note ∉ s.sent id) : s.Counts note 0 := by
  have hempty : {id | note ∈ s.sent id} = ∅ := Set.eq_empty_of_forall_notMem h
  rw [Counts, hempty, Set.encard_empty]
  rfl

/-- One more queue has the notification. -/
theorem Fanout.Counts.put {note : Note ι} {id : String} {d : Nat} (h : s.Counts note d)
    (hnew : note ∉ s.sent id) : (s.put id note).Counts note (d + 1) := by
  have hset : {id' | note ∈ (s.put id note).sent id'} = insert id {id' | note ∈ s.sent id'} := by
    refine Set.ext fun id' => Fanout.mem_sent_put.trans (or_comm.trans ?_)
    exact or_congr (and_iff_right rfl) Iff.rfl
  have hnotmem : id ∉ {id' | note ∈ s.sent id'} := hnew
  unfold Counts at h ⊢
  rw [hset, Set.encard_insert_of_notMem hnotmem, h, Nat.cast_succ]

/-- A turn keeps what its own stage promises. -/
theorem Turn.fits (h : Turn s st s' st') (hst : st.Fits s i payloads) (hs : s.Kept)
    (hleft : ∀ id, ∀ n ∈ s.sent id, n.publisher = i → st.Left n id) :
    st'.Fits s' i payloads := by
  cases h with
  | read hids =>
      refine ⟨hst, hids.nodup_iff.mpr hs.nodup, fun id hid => hs.known id (hids.mem_iff.mp hid),
        fun _ h => (by cases h), Fanout.counts_zero fun id hid => ?_⟩
      exact absurd (hleft id _ hid hst.publisher) (Nat.lt_irrefl _)
  | sent hopen hroom =>
      obtain ⟨hown, hnodup, hids, hclosed, hcounts⟩ := hst
      refine ⟨hown, (List.nodup_cons.mp hnodup).2,
        fun id hid => hids id (List.mem_cons_of_mem _ hid), ?_, hcounts.put ?_⟩
      · intro id hid
        exact ⟨(hclosed id hid).1, Fanout.closed_update (fun h => h) (hclosed id hid).2⟩
      · intro hmem
        rcases hleft _ _ hmem hown.publisher with hlt | ⟨-, hnot⟩
        · exact Nat.lt_irrefl _ hlt
        · exact hnot List.mem_cons_self
  | full hopen hfull =>
      obtain ⟨hown, hnodup, hids, hclosed, hcounts⟩ := hst
      exact ⟨hown, (List.nodup_cons.mp hnodup).2,
        fun id hid => hids id (List.mem_cons_of_mem _ hid), hclosed, hcounts⟩
  | closed hclosed' =>
      obtain ⟨hown, hnodup, hids, hclosed, hcounts⟩ := hst
      refine ⟨hown, (List.nodup_cons.mp hnodup).2,
        fun id hid => hids id (List.mem_cons_of_mem _ hid), ?_, hcounts⟩
      intro id hid
      rcases List.mem_append.mp hid with hold | hnew
      · exact hclosed id hold
      · cases List.mem_singleton.mp hnew
        exact ⟨hids _ List.mem_cons_self, hclosed'⟩
  | release =>
      obtain ⟨hown, -, -, hclosed, hcounts⟩ := hst
      unfold Stage.afterLoop
      split
      · exact ⟨hown, hcounts⟩
      · exact ⟨hown, hclosed, hcounts⟩
  | remove hlock => exact ⟨hst.1, hst.2.2⟩
  | report =>
      obtain ⟨⟨rfl, hnext⟩, -⟩ := hst
      refine Stage.fits_start _ _ ?_
      rw [← List.tail_drop, hnext]
      rfl

end

namespace Staged

variable {ι : Type} {payloads : ι → List Value} {s s' : Staged ι}

theorem Sound.outside (h : s.Sound payloads) {shared : Fanout ι}
    (hout : Fanout.Outside s.shared shared) :
    ({ s with shared := shared } : Staged ι).Sound payloads := by
  have hkept := hout.kept h.kept
  have hfits := fun i => (h.fits i).frames (hout.frames i)
  cases hout with
  | subscribe id hid hlock =>
      exact ⟨hkept, hfits, h.left, h.published, h.ordered, h.begun, h.tried, h.ended, h.returned⟩
  | unsubscribe id hlock =>
      exact ⟨hkept, hfits, h.left, h.published, h.ordered, h.begun, h.tried, h.ended, h.returned⟩
  | receive id hrecv =>
      exact ⟨hkept, hfits, h.left, h.published, h.ordered, h.begun, h.tried, h.ended, h.returned⟩
  | dropReceiver id hid =>
      exact ⟨hkept, hfits, h.left, h.published, h.ordered, h.begun, h.tried, h.ended, h.returned⟩

variable {i : ι} {shared : Fanout ι} {st : Stage ι}

/-- A turn of `i` does not count a notification that is over. -/
theorem Sound.counts_turn (h : s.Sound payloads)
    (hturn : Turn s.shared (s.stages i) shared st) {n : Note ι} {d : Nat}
    (hover : (s.stages n.publisher).Over n) (hd : s.shared.Counts n d) : shared.Counts n d := by
  have hset : {id | n ∈ shared.sent id} = {id | n ∈ s.shared.sent id} := by
    refine Set.ext fun id => ?_
    rcases hturn.sent_eq id with hsame | ⟨note, rest, remaining, delivered, toRemove, hst, -, hnew⟩
    · show n ∈ shared.sent id ↔ n ∈ s.shared.sent id
      rw [hsame]
    · have hne : n ≠ note := by
        intro heq
        subst heq
        have hfits := h.fits i
        rw [hst] at hfits
        rw [hfits.1.publisher, hst] at hover
        exact Nat.lt_irrefl _ hover
      show n ∈ shared.sent id ↔ n ∈ s.shared.sent id
      rw [hnew, List.mem_append, List.mem_singleton, or_iff_left hne]
  rw [Fanout.Counts, hset]
  exact hd

theorem Sound.ordered_turn (h : s.Sound payloads)
    (hturn : Turn s.shared (s.stages i) shared st) (id : String) :
    (shared.sent id).Pairwise fun a b => a.publisher = b.publisher → a.index < b.index := by
  have hfits := h.fits i
  rcases hturn.sent_eq id with hsame | ⟨note, rest, remaining, delivered, toRemove, hst, -, hnew⟩
  · rw [hsame]
    exact h.ordered id
  · rw [hst] at hfits
    rw [hnew, List.pairwise_append]
    refine ⟨h.ordered id, List.pairwise_singleton _ _, fun a ha b hb hpublisher => ?_⟩
    cases List.mem_singleton.mp hb
    -- The subscriber is still on the list, so nothing as late as `note` has been left there.
    have hleft := h.left id a ha
    rw [hpublisher, hfits.1.publisher, hst] at hleft
    rcases hleft with hlt | ⟨-, hnot⟩
    · exact hlt
    · exact absurd List.mem_cons_self hnot

variable [DecidableEq ι]

/-- What a turn of `i` keeps of its own stage is kept of all. -/
theorem stage_update (R : Stage ι → Prop) (hR : R (s.stages i) → R st) {j : ι}
    (hj : R (s.stages j)) : R (Function.update s.stages i st j) := by
  by_cases hi : j = i
  · subst hi
    rw [Function.update_self]
    exact hR hj
  · rw [Function.update_of_ne hi]
    exact hj

/-- The notification in hand is `i`'s own, so its stage is the new one. -/
theorem stage_update_self (R : Stage ι → Prop) {n : Note ι} (hn : n.publisher = i) (hR : R st) :
    R (Function.update s.stages i st n.publisher) := by
  rw [hn, Function.update_self]
  exact hR

section

variable (h : s.Sound payloads) (hturn : Turn s.shared (s.stages i) shared st)

include h hturn

theorem Sound.fits_turn (j : ι) :
    (Function.update s.stages i st j).Fits shared j (payloads j) := by
  by_cases hj : j = i
  · subst hj
    rw [Function.update_self]
    refine hturn.fits (h.fits j) h.kept fun id n hn hpublisher => ?_
    have hleft := h.left id n hn
    rw [hpublisher] at hleft
    exact hleft
  · rw [Function.update_of_ne hj]
    exact (h.fits j).frames (hturn.frames (h.fits i) hj)

/-- What is in a queue after a turn was there before, or was sent in the turn. -/
theorem Sound.left_turn (id : String) {n : Note ι} (hn : n ∈ shared.sent id) :
    (Function.update s.stages i st n.publisher).Left n id ∧
      (payloads n.publisher)[n.index]? = some n.payload := by
  have hold : n ∈ s.shared.sent id → (Function.update s.stages i st n.publisher).Left n id ∧
      (payloads n.publisher)[n.index]? = some n.payload := fun hmem =>
    ⟨stage_update (Stage.Left n id) hturn.left (h.left id n hmem), h.published id n hmem⟩
  have hfits := h.fits i
  rcases hturn.sent_eq id with hsame | ⟨note, rest, remaining, delivered, toRemove, hst, rfl, hnew⟩
  · rw [hsame] at hn
    exact hold hn
  · rw [hnew, List.mem_append, List.mem_singleton] at hn
    rcases hn with hmem | rfl
    · exact hold hmem
    · rw [hst] at hfits
      obtain ⟨hown, hnodup, -⟩ := hfits
      refine ⟨stage_update_self (Stage.Left n id) hown.publisher (Or.inr ⟨rfl, ?_⟩), ?_⟩
      · exact (List.nodup_cons.mp hnodup).1
      · rw [hown.publisher, ← List.head?_drop, hown.next]
        rfl

theorem Sound.begun_turn {n : Note ι} {ids : List String} (hn : (n, ids) ∈ shared.begun) :
    (Function.update s.stages i st n.publisher).Started n := by
  have hfits := h.fits i
  rcases hturn.mem_begun hn with hold | ⟨rest, hst, rfl⟩
  · exact stage_update (Stage.Started n) hturn.started (h.begun n ids hold)
  · rw [hst] at hfits
    exact stage_update_self (Stage.Started n) hfits.publisher (Or.inr rfl)

theorem Sound.tried_turn {n : Note ι} {ids : List String} (hn : (n, ids) ∈ shared.begun)
    {id : String} (hid : id ∈ ids)
    (hleft : (Function.update s.stages i st n.publisher).Left n id) : shared.Tried n id := by
  have hfits := h.fits i
  rcases hturn.mem_begun hn with hold | ⟨rest, hst, rfl⟩
  · have hstarted := h.begun n ids hold
    have htried := h.tried n ids hold id hid
    by_cases hi : n.publisher = i
    · rw [hi, Function.update_self] at hleft
      rw [hi] at hstarted htried
      rcases hturn.tried_of_left hstarted hleft with hleft' | hnow
      · exact hturn.tried (htried hleft')
      · exact hnow
    · rw [Function.update_of_ne hi] at hleft
      exact hturn.tried (htried hleft)
  · rw [hst] at hfits
    rw [hfits.publisher, Function.update_self] at hleft
    rcases hleft with hlt | ⟨-, hnot⟩
    · exact absurd hlt (Nat.lt_irrefl _)
    · exact absurd hid hnot

theorem Sound.ended_turn {n : Note ι} (hn : n ∈ shared.ended) (id : String) :
    (Function.update s.stages i st n.publisher).Left n id := by
  have hfits := h.fits i
  refine stage_update (Stage.Left n id) hturn.left ?_
  rcases hturn.mem_ended hn with hold | ⟨rest, delivered, toRemove, hst⟩
  · exact h.ended n hold id
  · rw [hst] at hfits
    rw [hfits.1.publisher, hst]
    exact Or.inr ⟨rfl, List.not_mem_nil⟩

theorem Sound.returned_turn {n : Note ι} {d : Nat} (hn : (n, d) ∈ shared.returned) :
    (Function.update s.stages i st n.publisher).Over n ∧ shared.Counts n d := by
  have hfits := h.fits i
  rcases hturn.mem_returned hn with hold | ⟨rest, hst, rfl, hsent⟩
  · obtain ⟨hover, hcounts⟩ := h.returned n d hold
    exact ⟨stage_update (Stage.Over n) hturn.over hover, h.counts_turn hturn hover hcounts⟩
  · rw [hst] at hfits
    refine ⟨stage_update_self (Stage.Over n) hfits.1.publisher ?_, ?_⟩
    · exact Stage.over_start _ (Or.inr rfl)
    · unfold Fanout.Counts
      rw [hsent]
      exact hfits.2

theorem Sound.turn :
    ({ shared := shared, stages := Function.update s.stages i st } : Staged ι).Sound payloads where
  kept := hturn.kept (h.fits i) h.kept
  fits := h.fits_turn hturn
  left := fun id _ hn => (h.left_turn hturn id hn).1
  published := fun id _ hn => (h.left_turn hturn id hn).2
  ordered := h.ordered_turn hturn
  begun := fun _ _ hn => h.begun_turn hturn hn
  tried := fun _ _ hn _ hid hleft => h.tried_turn hturn hn hid hleft
  ended := fun _ hn id => h.ended_turn hturn hn id
  returned := fun _ _ hn => h.returned_turn hturn hn

end

theorem Sound.step (h : s.Sound payloads) (hstep : s.Step s') : s'.Sound payloads := by
  cases hstep with
  | turn i hturn => exact h.turn hturn
  | outside hout => exact h.outside hout

theorem Sound.run (h : s.Sound payloads) (hrun : ReflTransGen Step s s') :
    s'.Sound payloads := by
  induction hrun with
  | refl => exact h
  | tail _ hstep ih => exact ih.step hstep

end Staged

/-! ### What is on record of a notification -/

section

variable {ι : Type}

/-- The record of what has begun and ended only grows. -/
structure Fanout.Grows (s s' : Fanout ι) : Prop where
  begun : ∀ e ∈ s.begun, e ∈ s'.begun
  ended : ∀ n ∈ s.ended, n ∈ s'.ended

theorem Fanout.Outside.grows {s s' : Fanout ι} (h : s.Outside s') : s.Grows s' := by
  cases h with
  | subscribe id hid hlock => exact ⟨fun _ h => h, fun _ h => h⟩
  | unsubscribe id hlock => exact ⟨fun _ h => h, fun _ h => h⟩
  | receive id hrecv => exact ⟨fun _ h => h, fun _ h => h⟩
  | dropReceiver id hid => exact ⟨fun _ h => h, fun _ h => h⟩

theorem Turn.grows {s s' : Fanout ι} {st st' : Stage ι} (h : Turn s st s' st') :
    s.Grows s' := by
  cases h with
  | read hids => exact ⟨fun _ h => List.mem_append_left _ h, fun _ h => h⟩
  | release => exact ⟨fun _ h => h, fun _ h => List.mem_append_left _ h⟩
  | sent hopen hroom => exact ⟨fun _ h => h, fun _ h => h⟩
  | full hopen hfull => exact ⟨fun _ h => h, fun _ h => h⟩
  | closed hclosed => exact ⟨fun _ h => h, fun _ h => h⟩
  | remove hlock => exact ⟨fun _ h => h, fun _ h => h⟩
  | report => exact ⟨fun _ h => h, fun _ h => h⟩

/-- A notification whose loop is over has been offered to a roster. -/
def Fanout.Offered (s : Fanout ι) (n : Note ι) : Prop :=
  (∃ ids, (n, ids) ∈ s.begun) ∧ n ∈ s.ended

/-- What is on record of the notification in hand. -/
def Stage.OnRecord (s : Fanout ι) : Stage ι → Prop
  | .reading _ _ => True
  | .sending note _ _ _ _ => ∃ ids, (note, ids) ∈ s.begun
  | .removing note _ _ _ => s.Offered note
  | .reporting note _ _ => s.Offered note
  | .finished => True

variable {s s' : Fanout ι} {st st' : Stage ι}

theorem Fanout.Grows.begun_of {n : Note ι} (h : s.Grows s') (hn : ∃ ids, (n, ids) ∈ s.begun) :
    ∃ ids, (n, ids) ∈ s'.begun :=
  hn.imp fun _ hmem => h.begun _ hmem

theorem Fanout.Offered.grows {n : Note ι} (h : s.Offered n) (hs : s.Grows s') : s'.Offered n :=
  ⟨hs.begun_of h.1, hs.ended n h.2⟩

theorem Stage.OnRecord.grows (h : st.OnRecord s) (hs : s.Grows s') : st.OnRecord s' := by
  cases st with
  | reading note rest => trivial
  | sending note rest remaining delivered toRemove => exact hs.begun_of h
  | removing note rest delivered toRemove => exact Fanout.Offered.grows h hs
  | reporting note rest delivered => exact Fanout.Offered.grows h hs
  | finished => trivial

theorem Turn.onRecord (h : Turn s st s' st') (hst : st.OnRecord s) : st'.OnRecord s' := by
  cases h with
  | read hids => exact ⟨_, List.mem_append_right _ (List.mem_singleton.mpr rfl)⟩
  | release =>
      have hoffered : ∀ {note : Note ι}, (∃ ids, (note, ids) ∈ s.begun) →
          (s.finish note).Offered note := fun hbegun =>
        ⟨hbegun, List.mem_append_right _ (List.mem_singleton.mpr rfl)⟩
      unfold Stage.afterLoop
      split
      · exact hoffered hst
      · exact hoffered hst
  | sent hopen hroom => exact hst
  | full hopen hfull => exact hst
  | closed hclosed => exact hst
  | remove hlock => exact hst
  | @report note rest delivered => cases rest <;> trivial

/-- What is returned for is on record, and is a notification of its publisher. -/
structure Staged.Logged (payloads : ι → List Value) (s : Staged ι) : Prop where
  sound : s.Sound payloads
  inHand : ∀ i, (s.stages i).OnRecord s.shared
  returned : ∀ n d, (n, d) ∈ s.shared.returned →
    (payloads n.publisher)[n.index]? = some n.payload ∧ s.shared.Offered n

theorem Staged.logged_start (payloads : ι → List Value) : (start payloads).Logged payloads where
  sound := sound_start payloads
  inHand := by
    intro i
    show (Stage.start i 0 (payloads i)).OnRecord {}
    cases payloads i <;> trivial
  returned := fun _ _ h => by cases h

theorem Staged.Logged.step [DecidableEq ι] {payloads : ι → List Value} {s s' : Staged ι}
    (h : s.Logged payloads) (hstep : s.Step s') : s'.Logged payloads := by
  have hsound := h.sound.step hstep
  cases hstep with
  | outside hout =>
      refine ⟨hsound, fun i => (h.inHand i).grows hout.grows, fun n d hn => ?_⟩
      have hold : (n, d) ∈ s.shared.returned := by
        cases hout <;> exact hn
      obtain ⟨hpayload, hoffered⟩ := h.returned n d hold
      exact ⟨hpayload, hoffered.grows hout.grows⟩
  | @turn i shared st hturn =>
      refine ⟨hsound, fun j => ?_, fun n d hn => ?_⟩
      · show (Function.update s.stages i st j).OnRecord shared
        by_cases hj : j = i
        · subst hj
          rw [Function.update_self]
          exact hturn.onRecord (h.inHand j)
        · rw [Function.update_of_ne hj]
          exact (h.inHand j).grows hturn.grows
      · rcases hturn.mem_returned hn with hold | ⟨rest, hst, -, -⟩
        · obtain ⟨hpayload, hoffered⟩ := h.returned n d hold
          exact ⟨hpayload, hoffered.grows hturn.grows⟩
        · have hfits := h.sound.fits i
          have honRecord := h.inHand i
          rw [hst] at hfits honRecord
          refine ⟨?_, Fanout.Offered.grows honRecord hturn.grows⟩
          rw [hfits.1.publisher, ← List.head?_drop, hfits.1.next]
          rfl

theorem Staged.Logged.run [DecidableEq ι] {payloads : ι → List Value} {s s' : Staged ι}
    (h : s.Logged payloads) (hrun : ReflTransGen Step s s') : s'.Logged payloads := by
  induction hrun with
  | refl => exact h
  | tail _ hstep ih => exact ih.step hstep

end

end McpFederation
