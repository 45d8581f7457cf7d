/-
No leaf is left behind.

The controller puts its finalizer on an object before it registers a leaf for it, so that the
object cannot disappear before the leaf has been removed.  That its store lags behind makes
this less plain than it sounds: it may register a leaf for an object that is long being
deleted, and its patches meet other versions than the one they were made for, perhaps those
of a new object with the same name.  `no_orphans` says that it works all the same: as long as
a leaf is registered, the API server has its object with the finalizer on it; and once the
object is being deleted, a reconcile that is up to date and whose patch gets through takes
the leaf and the finalizer away.

The versions that the store has yet to see come in two shapes.  As long as no finalizer has
been taken off, each version has it once one before it did.  When one has been, the store is
at versions that are being deleted, and nothing after these has a finalizer without being
deleted too.
-/
import McpFederation.Lib.Runs
import McpFederation.Model.Cluster

namespace McpFederation

/-! ### Versions -/

/-- The version has the finalizer. -/
def held (version : Option McpServer) : Bool := version.any (finalizer ∈ ·.finalizers)

/-- The version is on its way out. -/
def leaving (version : Option McpServer) : Bool := version.any (·.deletionTimestamp)

/-- No finalizer has been taken off. -/
def Holding (versions : List (Option McpServer)) : Prop :=
  versions.Pairwise fun u v => held u = true → held v = true ∧ (leaving u = true → leaving v = true)

/-- One has, or none is on a version that stays. -/
def Releasing (versions : List (Option McpServer)) : Prop :=
  (∀ u ∈ versions, held u = true → leaving u = true) ∧
    versions.Pairwise fun u v => held v = true → held u = true

/-- What others may do to an object: create one without the finalizer, edit it but for the
finalizer and with no way back from a deletion, and see it go when the finalizer is not on it. -/
inductive Outside : Option McpServer → Option McpServer → Prop
  | create {obj : McpServer} (h : finalizer ∉ obj.finalizers) : Outside none (some obj)
  | edit {old new : McpServer} (hheld : finalizer ∈ new.finalizers ↔ finalizer ∈ old.finalizers)
      (hleaving : old.deletionTimestamp = true → new.deletionTimestamp = true) :
      Outside (some old) (some new)
  | vanish {old : McpServer} (h : finalizer ∉ old.finalizers) : Outside (some old) none

theorem Outside.held_eq {u v : Option McpServer} (h : Outside u v) : held v = held u := by
  cases h with
  | create h => simpa [held] using h
  | edit hheld _ => simp [held, hheld]
  | vanish h => simpa [held] using h

theorem Outside.leaving_of_held {u v : Option McpServer} (h : Outside u v) (hheld : held u = true)
    (hleaving : leaving u = true) : leaving v = true := by
  cases h with
  | create h => cases hheld
  | edit _ hkept => exact hkept hleaving
  | vanish h => exact absurd (by simpa [held] using hheld) h

/-! ### The last version -/

namespace Watched

variable {o : Watched}

theorem current_mem (o : Watched) : o.current ∈ o.versions := List.getLastD_mem_cons

@[simp] theorem current_push (o : Watched) (version : Option McpServer) :
    (o.push version).current = version := List.getLastD_concat

theorem versions_push (o : Watched) (version : Option McpServer) :
    (o.push version).versions = o.versions ++ [version] := rfl

theorem versions_eq (o : Watched) : ∃ before, o.versions = before ++ [o.current] := by
  have hne : o.versions ≠ [] := List.cons_ne_nil _ _
  refine ⟨o.versions.dropLast, ?_⟩
  have hlast : o.versions.getLast hne = o.current := List.getLast_eq_getLastD hne
  rw [← hlast, List.dropLast_append_getLast]

end Watched

theorem mem_of_pairwise_last {α : Type} {R : α → α → Prop} (hrefl : ∀ a, R a a) {l : List α}
    {last : α} (h : (l ++ [last]).Pairwise R) : ∀ a ∈ l ++ [last], R a last := by
  intro a ha
  rcases List.mem_append.mp ha with ha | ha
  · exact (List.pairwise_append.mp h).2.2 a ha last (List.mem_singleton.mpr rfl)
  · rw [List.mem_singleton.mp ha]
    exact hrefl last

/-- The current version has the finalizer if any did, as long as none was taken off. -/
theorem Holding.current {o : Watched} (h : Holding o.versions) {u : Option McpServer}
    (hu : u ∈ o.versions) (hheld : held u = true) :
    held o.current = true ∧ (leaving u = true → leaving o.current = true) := by
  obtain ⟨before, hbefore⟩ := o.versions_eq
  unfold Holding at h
  rw [hbefore] at h hu
  exact mem_of_pairwise_last (fun a ha => ⟨ha, id⟩) h u hu hheld

theorem Releasing.current {o : Watched} (h : Releasing o.versions) {u : Option McpServer}
    (hu : u ∈ o.versions) (hheld : held o.current = true) : held u = true := by
  obtain ⟨before, hbefore⟩ := o.versions_eq
  have hpairwise := h.2
  rw [hbefore] at hpairwise hu
  exact mem_of_pairwise_last (fun a ha => ha) hpairwise u hu hheld

/-! ### One more version -/

theorem Holding.push {o : Watched} (h : Holding o.versions) {v : Option McpServer}
    (hv : held o.current = true → held v = true ∧ (leaving o.current = true → leaving v = true)) :
    Holding (o.push v).versions := by
  rw [Watched.versions_push]
  refine List.pairwise_append.mpr ⟨h, List.pairwise_singleton _ _, ?_⟩
  intro u hu w hw hheld
  obtain rfl := List.mem_singleton.mp hw
  obtain ⟨hcurrent, hleaving⟩ := h.current hu hheld
  obtain ⟨hnew, hkept⟩ := hv hcurrent
  exact ⟨hnew, fun hl => hkept (hleaving hl)⟩

theorem Releasing.push {o : Watched} (h : Releasing o.versions) {v : Option McpServer}
    (hv : held v = true → held o.current = true ∧ leaving v = true) :
    Releasing (o.push v).versions := by
  rw [Watched.versions_push]
  refine ⟨?_, List.pairwise_append.mpr ⟨h.2, List.pairwise_singleton _ _, ?_⟩⟩
  · intro u hu hheld
    rcases List.mem_append.mp hu with hu | hu
    · exact h.1 u hu hheld
    · obtain rfl := List.mem_singleton.mp hu
      exact (hv hheld).2
  · intro u hu w hw hheld
    obtain rfl := List.mem_singleton.mp hw
    exact h.current hu (hv hheld).1

/-! ### What a store and the API server have of one object -/

/-- What holds of an object.  While a patch puts the finalizer on none has been taken off, and
while one takes it off nothing that stays has it. -/
structure Watched.Sound (n : ObjectRef) (o : Watched) : Prop where
  named : ∀ obj, some obj ∈ o.versions → obj.objectRef = n
  idle : o.patch = none → Holding o.versions ∨ Releasing o.versions
  adding : ∀ finalizers, o.patch = some finalizers → finalizer ∈ finalizers → Holding o.versions
  removing : ∀ finalizers, o.patch = some finalizers → finalizer ∉ finalizers →
    Releasing o.versions

section

variable {n : ObjectRef} {o : Watched}

/-- A patch that is over leaves one of the two shapes. -/
theorem Watched.Sound.shape (h : o.Sound n) : Holding o.versions ∨ Releasing o.versions := by
  cases hpatch : o.patch with
  | none => exact h.idle hpatch
  | some finalizers =>
      by_cases hmem : finalizer ∈ finalizers
      · exact Or.inl (h.adding finalizers hpatch hmem)
      · exact Or.inr (h.removing finalizers hpatch hmem)

theorem Watched.Sound.forget (h : o.Sound n) : ({ o with patch := none } : Watched).Sound n where
  named := h.named
  idle := fun _ => h.shape
  adding := fun _ hpatch => by cases hpatch
  removing := fun _ hpatch => by cases hpatch

/-- Others keep to what they may do. -/
theorem Watched.Sound.push (h : o.Sound n) {v : Option McpServer} (hout : Outside o.current v)
    (hname : ∀ obj, v = some obj → obj.objectRef = n) : (o.push v).Sound n := by
  have hholding : Holding o.versions → Holding (o.push v).versions := by
    intro hh
    refine hh.push fun hheld => ⟨hout.held_eq.trans hheld, hout.leaving_of_held hheld⟩
  have hreleasing : Releasing o.versions → Releasing (o.push v).versions := by
    intro hr
    refine hr.push fun hheld => ?_
    have hcurrent : held o.current = true := hout.held_eq.symm.trans hheld
    exact ⟨hcurrent, hout.leaving_of_held hcurrent (hr.1 _ o.current_mem hcurrent)⟩
  refine ⟨?_, ?_, ?_, ?_⟩
  · intro obj hobj
    rw [Watched.versions_push, List.mem_append, List.mem_singleton] at hobj
    rcases hobj with hobj | hobj
    · exact h.named obj hobj
    · exact hname obj hobj.symm
  · intro hpatch
    exact (h.idle hpatch).imp hholding hreleasing
  · intro finalizers hpatch hmem
    exact hholding (h.adding finalizers hpatch hmem)
  · intro finalizers hpatch hmem
    exact hreleasing (h.removing finalizers hpatch hmem)

theorem Watched.watch_cases (o : Watched) :
    o.watch = o ∨ ∃ v rest, o.later = v :: rest ∧ o.watch = { o with view := v, later := rest } := by
  unfold Watched.watch
  cases hlater : o.later with
  | nil => exact Or.inl rfl
  | cons v rest => exact Or.inr ⟨v, rest, rfl, rfl⟩

@[simp] theorem Watched.current_watch (o : Watched) : o.watch.current = o.current := by
  rcases o.watch_cases with h | ⟨v, rest, hlater, h⟩
  · rw [h]
  · rw [h, Watched.current, Watched.current, hlater]
    exact List.getLastD_cons.symm

@[simp] theorem Watched.patch_watch (o : Watched) : o.watch.patch = o.patch := by
  rcases o.watch_cases with h | ⟨v, rest, -, h⟩
  · rw [h]
  · rw [h]

theorem Watched.versions_watch (o : Watched) : o.watch.versions.Sublist o.versions := by
  rcases o.watch_cases with h | ⟨v, rest, hlater, h⟩
  · rw [h]
  · rw [h]
    show (v :: rest).Sublist (o.view :: o.later)
    rw [hlater]
    exact List.sublist_cons_self _ _

/-- A store that moves on keeps either shape. -/
theorem Watched.Sound.watch (h : o.Sound n) : o.watch.Sound n := by
  have hsub := o.versions_watch
  have hholding : Holding o.versions → Holding o.watch.versions := List.Pairwise.sublist hsub
  have hreleasing : Releasing o.versions → Releasing o.watch.versions := fun hr =>
    ⟨fun u hu => hr.1 u (hsub.subset hu), hr.2.sublist hsub⟩
  refine ⟨fun obj hobj => h.named obj (hsub.subset hobj), ?_, ?_, ?_⟩
  · intro hpatch
    rw [Watched.patch_watch] at hpatch
    exact (h.idle hpatch).imp hholding hreleasing
  · intro finalizers hpatch hmem
    rw [Watched.patch_watch] at hpatch
    exact hholding (h.adding finalizers hpatch hmem)
  · intro finalizers hpatch hmem
    rw [Watched.patch_watch] at hpatch
    exact hreleasing (h.removing finalizers hpatch hmem)

/-- Behind a view that has the finalizer and is on its way out, everything is. -/
theorem releasing_of_view (h : Holding o.versions ∨ Releasing o.versions)
    (hheld : held o.view = true) (hleaving : leaving o.view = true) : Releasing o.versions := by
  rcases h with h | h
  · obtain ⟨hview, hlater⟩ := List.pairwise_cons.mp h
    have hall : ∀ u ∈ o.versions, held u = true ∧ leaving u = true := by
      intro u hu
      rcases List.mem_cons.mp hu with rfl | hu
      · exact ⟨hheld, hleaving⟩
      · exact ⟨(hview u hu hheld).1, (hview u hu hheld).2 hleaving⟩
    refine ⟨fun u hu _ => (hall u hu).2, ?_⟩
    exact List.pairwise_of_forall_mem_list fun u hu _ _ _ => (hall u hu).1
  · exact h

/-- Behind a view that has no finalizer, none has been taken off. -/
theorem holding_of_view (h : Holding o.versions ∨ Releasing o.versions)
    (hheld : held o.view = false) : Holding o.versions := by
  rcases h with h | h
  · exact h
  · obtain ⟨hview, -⟩ := List.pairwise_cons.mp h.2
    have hnone : ∀ u ∈ o.versions, held u = false := by
      intro u hu
      rcases List.mem_cons.mp hu with rfl | hu
      · exact hheld
      · by_contra hc
        rw [hview u hu (Bool.not_eq_false _ ▸ hc)] at hheld
        cases hheld
    refine List.pairwise_of_forall_mem_list fun u hu _ _ hc => ?_
    rw [hnone u hu] at hc
    cases hc

/-- What `reconcile` asks for, by what it sees. -/
theorem McpServer.patch_cases (obj : McpServer) :
    (held (some obj) = true ∧ leaving (some obj) = true ∧
        ∃ finalizers, obj.patch = some finalizers ∧ finalizer ∉ finalizers) ∨
      (held (some obj) = false ∧ leaving (some obj) = false ∧
        ∃ finalizers, obj.patch = some finalizers ∧ finalizer ∈ finalizers) ∨
      held (some obj) ≠ leaving (some obj) ∧ obj.patch = none := by
  unfold McpServer.patch held leaving
  by_cases hdeleted : obj.deletionTimestamp = true
  · by_cases hmem : finalizer ∈ obj.finalizers
    · refine Or.inl ⟨by simpa using hmem, by simpa using hdeleted, ?_⟩
      exact ⟨_, by rw [if_pos hdeleted, if_pos hmem], by simp⟩
    · refine Or.inr (Or.inr ⟨by simp [hdeleted, hmem], ?_⟩)
      rw [if_pos hdeleted, if_neg hmem]
  · by_cases hmem : finalizer ∈ obj.finalizers
    · refine Or.inr (Or.inr ⟨by simp [hdeleted, hmem], ?_⟩)
      rw [if_neg hdeleted, if_neg (not_not_intro hmem)]
    · refine Or.inr (Or.inl ⟨by simpa using hmem, by simpa using hdeleted, ?_⟩)
      exact ⟨_, by rw [if_neg hdeleted, if_pos hmem], by simp⟩

/-- A reconcile starts its patch from one of the two shapes. -/
theorem Watched.Sound.start (h : o.Sound n) {obj : McpServer} (hview : o.view = some obj) :
    ({ o with patch := obj.patch } : Watched).Sound n := by
  have hshape := h.shape
  rcases obj.patch_cases with ⟨hheld, hleaving, finalizers, hpatch, hmem⟩ |
    ⟨hheld, hleaving, finalizers, hpatch, hmem⟩ | ⟨-, hpatch⟩
  · rw [← hview] at hheld hleaving
    refine ⟨h.named, fun hnone => ?_, fun fs hsome hin => ?_, fun _ _ _ => ?_⟩
    · cases hnone.symm.trans hpatch
    · cases hsome.symm.trans hpatch
      exact absurd hin hmem
    · exact releasing_of_view hshape hheld hleaving
  · rw [← hview] at hheld
    refine ⟨h.named, fun hnone => ?_, fun _ _ _ => ?_, fun fs hsome hout => ?_⟩
    · cases hnone.symm.trans hpatch
    · exact holding_of_view hshape hheld
    · cases hsome.symm.trans hpatch
      exact absurd hmem hout
  · rw [hpatch]
    exact h.forget

/-- A patch that is applied. -/
theorem Watched.Sound.applied (h : o.Sound n) {finalizers : List String} {obj : McpServer}
    (hpatch : o.patch = some finalizers) (hcurrent : o.current = some obj) :
    ({ o.push (obj.patched finalizers) with patch := none } : Watched).Sound n := by
  have hname : obj.objectRef = n := h.named obj (hcurrent ▸ o.current_mem)
  have hnamed : ∀ obj', some obj' ∈ (o.push (obj.patched finalizers)).versions →
      obj'.objectRef = n := by
    intro obj' hobj'
    rw [Watched.versions_push, List.mem_append, List.mem_singleton] at hobj'
    rcases hobj' with hobj' | hobj'
    · exact h.named obj' hobj'
    · unfold McpServer.patched at hobj'
      split at hobj'
      · cases hobj'
      · cases hobj'
        exact hname
  refine ⟨hnamed, fun _ => ?_, fun _ hc => (by cases hc), fun _ hc => (by cases hc)⟩
  by_cases hmem : finalizer ∈ finalizers
  · have hne : finalizers ≠ [] := List.ne_nil_of_mem hmem
    have hnew : obj.patched finalizers = some { obj with finalizers := finalizers } :=
      if_neg fun hc => hne hc.2
    refine Or.inl ((h.adding finalizers hpatch hmem).push fun _ => ?_)
    rw [hnew, hcurrent]
    exact ⟨by simpa [held] using hmem, id⟩
  · refine Or.inr ((h.removing finalizers hpatch hmem).push fun hheld => ?_)
    unfold McpServer.patched at hheld
    split at hheld
    · cases hheld
    · exact absurd (by simpa [held] using hheld) hmem

theorem Watched.settle_cases (o : Watched) (applied : Bool) :
    o.settle applied = { o with patch := none } ∨
      ∃ finalizers obj, o.patch = some finalizers ∧ o.current = some obj ∧
        o.settle applied = { o.push (obj.patched finalizers) with patch := none } := by
  unfold Watched.settle
  cases hpatch : o.patch with
  | none => exact Or.inl rfl
  | some finalizers =>
      cases hcurrent : o.current with
      | none => exact Or.inl rfl
      | some obj =>
          cases applied with
          | true => exact Or.inr ⟨finalizers, obj, rfl, rfl, rfl⟩
          | false => exact Or.inl rfl

theorem Watched.Sound.settle (h : o.Sound n) (applied : Bool) : (o.settle applied).Sound n := by
  rcases o.settle_cases applied with heq | ⟨finalizers, obj, hpatch, hcurrent, heq⟩
  · rw [heq]
    exact h.forget
  · rw [heq]
    exact h.applied hpatch hcurrent

end

/-! ### The registry -/

/-- **What `reconcile` does, by what it sees.**  The finalizer and a deletion: it removes the
leaf.  The finalizer alone: it sends no patch, and registers a leaf if it can.  No finalizer: it
leaves the registry alone, and may ask for the finalizer. -/
theorem crdReconcile_spec (obj : McpServer) (patch : Except String Unit) (r : Registry) :
    (held (some obj) = true ∧ leaving (some obj) = true ∧
        ((crdReconcile obj patch).run Registry.exec r).2 = r.removeLeaf obj.aliasName) ∨
      (held (some obj) = true ∧ leaving (some obj) = false ∧ obj.patch = none ∧
        (((crdReconcile obj patch).run Registry.exec r).2 = r ∨
          ∃ config, ((crdReconcile obj patch).run Registry.exec r).2
            = r.addLeaf obj.aliasName config)) ∨
      (held (some obj) = false ∧ ((crdReconcile obj patch).run Registry.exec r).2 = r ∧
        ∀ finalizers, obj.patch = some finalizers → finalizer ∈ finalizers) := by
  unfold crdReconcile McpServer.patch held leaving
  by_cases hdeleted : obj.deletionTimestamp = true
  · rw [if_pos hdeleted, if_pos hdeleted]
    by_cases hmem : finalizer ∈ obj.finalizers
    · rw [if_pos hmem]
      exact Or.inl ⟨by simpa using hmem, by simpa using hdeleted, rfl⟩
    · rw [if_neg hmem, if_neg hmem]
      exact Or.inr (Or.inr ⟨by simpa using hmem, rfl, fun _ hc => by cases hc⟩)
  · rw [if_neg hdeleted, if_neg hdeleted]
    by_cases hmem : finalizer ∈ obj.finalizers
    · rw [if_neg (not_not_intro hmem), if_neg (not_not_intro hmem)]
      refine Or.inr (Or.inl ⟨by simpa using hmem, by simpa using hdeleted, rfl, ?_⟩)
      cases parseTransport obj.spec.transport with
      | error e => exact Or.inl rfl
      | ok transport => exact Or.inr ⟨_, rfl⟩
    · rw [if_pos hmem, if_pos hmem]
      refine Or.inr (Or.inr ⟨by simpa using hmem, rfl, ?_⟩)
      intro finalizers hpatch
      cases hpatch
      exact List.mem_append_right _ (List.mem_singleton.mpr rfl)

/-! ### Runs -/

section

variable (P : ObjectRef → Prop)

/-- What the run promises.  Only the objects `P` are touched, others keep to what they may do,
and the other parts of the program register nothing under the aliases of these objects. -/
def ClusterEvent.Proper (s : Cluster) : ClusterEvent → Prop
  | .kube n version =>
      P n ∧ Outside (s.objects n).current version ∧
        ∀ obj, version = some obj → obj.objectRef = n
  | .watch n => P n
  | .reconcile n => P n
  | .settle n _ => P n
  | .elsewhere r =>
      ∀ n, P n → s.registry.getLeaf n.aliasName = none → r.getLeaf n.aliasName = none
  | .restart r => ∀ n, P n → r.getLeaf n.aliasName = none

/-- A leaf is registered only while its object has the finalizer, and no patch is on its way to
take it off. -/
structure Cluster.Guarded (s : Cluster) (n : ObjectRef) : Prop where
  held : held (s.objects n).current = true
  patch : ∀ finalizers, (s.objects n).patch = some finalizers → finalizer ∈ finalizers

structure Cluster.Inv (s : Cluster) : Prop where
  sound : ∀ n, P n → (s.objects n).Sound n
  guarded : ∀ n, P n → s.registry.getLeaf n.aliasName ≠ none → s.Guarded n

/-- A process that has just started. -/
structure Cluster.Fresh (s : Cluster) : Prop where
  leafless : ∀ n, P n → s.registry.getLeaf n.aliasName = none
  latest : ∀ n, P n → (s.objects n).later = [] ∧ (s.objects n).patch = none
  named : ∀ n, P n → ∀ obj, (s.objects n).view = some obj → obj.objectRef = n

variable {P}

theorem Watched.sound_latest {n : ObjectRef} {o : Watched} (hlater : o.later = [])
    (hpatch : o.patch = none) (hname : ∀ obj, o.view = some obj → obj.objectRef = n) :
    o.Sound n := by
  have hversions : o.versions = [o.view] := by rw [Watched.versions, hlater]
  refine ⟨fun obj hobj => ?_, fun _ => Or.inl ?_, fun _ hc => ?_, fun _ hc => ?_⟩
  · rw [hversions, List.mem_singleton] at hobj
    exact hname obj hobj.symm
  · rw [hversions]
    exact List.pairwise_singleton _ _
  · cases hc.symm.trans hpatch
  · cases hc.symm.trans hpatch

theorem Cluster.Fresh.inv {s : Cluster} (h : s.Fresh P) : s.Inv P where
  sound := fun n hn => Watched.sound_latest (h.latest n hn).1 (h.latest n hn).2 (h.named n hn)
  guarded := fun n hn hleaf => absurd (h.leafless n hn) hleaf

namespace Cluster

variable {s : Cluster} {n : ObjectRef}

/-- A step that changes one object and not the registry. -/
theorem Inv.update (h : s.Inv P) {o : Watched} (hsound : P n → o.Sound n)
    (hguard : P n → s.registry.getLeaf n.aliasName ≠ none → (s.update n o).Guarded n) :
    (s.update n o).Inv P := by
  have hother : ∀ m, m ≠ n → (s.update n o).objects m = s.objects m := fun m hm =>
    Function.update_of_ne hm _ _
  refine ⟨fun m hm => ?_, fun m hm hleaf => ?_⟩
  · by_cases hmn : m = n
    · subst hmn
      show (Function.update s.objects m o m).Sound m
      rw [Function.update_self]
      exact hsound hm
    · rw [hother m hmn]
      exact h.sound m hm
  · by_cases hmn : m = n
    · subst hmn
      exact hguard hm hleaf
    · obtain ⟨hheld, hpatch⟩ := h.guarded m hm hleaf
      refine ⟨?_, ?_⟩
      · rw [hother m hmn]
        exact hheld
      · rw [hother m hmn]
        exact hpatch

theorem objects_update_self (s : Cluster) (n : ObjectRef) (o : Watched) :
    (s.update n o).objects n = o := Function.update_self _ _ _

theorem Inv.kube (h : s.Inv P) (hn : P n) {v : Option McpServer}
    (hout : Outside (s.objects n).current v) (hname : ∀ obj, v = some obj → obj.objectRef = n) :
    (s.update n ((s.objects n).push v)).Inv P := by
  refine h.update (fun _ => (h.sound n hn).push hout hname) fun _ hleaf => ?_
  obtain ⟨hheld, hpatch⟩ := h.guarded n hn hleaf
  refine ⟨?_, ?_⟩
  · rw [objects_update_self, Watched.current_push, hout.held_eq]
    exact hheld
  · rw [objects_update_self]
    exact hpatch

theorem Inv.watch (h : s.Inv P) (hn : P n) : (s.update n (s.objects n).watch).Inv P := by
  refine h.update (fun _ => (h.sound n hn).watch) fun _ hleaf => ?_
  obtain ⟨hheld, hpatch⟩ := h.guarded n hn hleaf
  refine ⟨?_, ?_⟩
  · rw [objects_update_self, Watched.current_watch]
    exact hheld
  · rw [objects_update_self, Watched.patch_watch]
    exact hpatch

theorem Inv.settle (h : s.Inv P) (hn : P n) (applied : Bool) :
    (s.update n ((s.objects n).settle applied)).Inv P := by
  refine h.update (fun _ => (h.sound n hn).settle applied) fun _ hleaf => ?_
  obtain ⟨hheld, hpatch⟩ := h.guarded n hn hleaf
  rcases (s.objects n).settle_cases applied with heq | ⟨finalizers, obj, hsome, -, heq⟩
  · rw [heq]
    refine ⟨?_, ?_⟩
    · rw [objects_update_self]
      exact hheld
    · rw [objects_update_self]
      intro finalizers hc
      cases hc
  · -- A patch that is under way while there is a leaf puts the finalizer on.
    have hmem := hpatch finalizers hsome
    have hne : finalizers ≠ [] := List.ne_nil_of_mem hmem
    rw [heq]
    refine ⟨?_, ?_⟩
    · rw [objects_update_self]
      show McpFederation.held (Watched.current ((s.objects n).push _)) = true
      rw [Watched.current_push, McpServer.patched, if_neg fun hc => hne hc.2]
      simpa [McpFederation.held] using hmem
    · rw [objects_update_self]
      intro finalizers hc
      cases hc

theorem reconcile_cases (s : Cluster) (n : ObjectRef) :
    s.reconcile n = s ∨ ∃ obj, (s.objects n).view = some obj ∧ (s.objects n).patch = none ∧
      s.reconcile n
        = { (s.update n { s.objects n with patch := obj.patch }) with
            registry := ((crdReconcile obj (.ok ())).run Registry.exec s.registry).2 } := by
  unfold Cluster.reconcile
  cases hview : (s.objects n).view with
  | none => exact Or.inl rfl
  | some obj =>
      cases hpatch : (s.objects n).patch with
      | some finalizers => exact Or.inl rfl
      | none => exact Or.inr ⟨obj, rfl, rfl, rfl⟩

/-- A reconcile registers a leaf only for an object whose finalizer is on, and takes the leaf
away before it takes the finalizer off. -/
theorem Inv.guarded_reconcile (h : s.Inv P) (hn : P n) {obj : McpServer}
    (hview : (s.objects n).view = some obj)
    (hleaf : ((crdReconcile obj (.ok ())).run Registry.exec s.registry).2.getLeaf obj.aliasName
      ≠ none) (hname : obj.aliasName = n.aliasName) :
    McpFederation.held (s.objects n).current = true ∧
      ∀ finalizers, obj.patch = some finalizers → finalizer ∈ finalizers := by
  rcases crdReconcile_spec obj (.ok ()) s.registry with ⟨-, -, hr⟩ |
    ⟨hheld, hleaving, hpatch, -⟩ | ⟨-, hr, hpatch⟩
  · rw [hr, Registry.getLeaf_removeLeaf_self] at hleaf
    exact absurd rfl hleaf
  · have hholding : Holding (s.objects n).versions := by
      rcases (h.sound n hn).shape with hh | hr
      · exact hh
      · have hbad := hr.1 _ List.mem_cons_self
        rw [hview, hleaving] at hbad
        exact absurd (hbad hheld) Bool.false_ne_true
    refine ⟨(hholding.current List.mem_cons_self ?_).1, fun _ hc => ?_⟩
    · rw [hview]
      exact hheld
    · cases hc.symm.trans hpatch
  · rw [hr, hname] at hleaf
    exact ⟨(h.guarded n hn hleaf).held, hpatch⟩

/-- Under other aliases a reconcile changes nothing. -/
theorem getLeaf_crdReconcile_ne (obj : McpServer) (patch : Except String Unit) (r : Registry)
    {a : String} (ha : a ≠ obj.aliasName) :
    ((crdReconcile obj patch).run Registry.exec r).2.getLeaf a = r.getLeaf a := by
  rcases crdReconcile_spec obj patch r with ⟨-, -, hr⟩ | ⟨-, -, -, hr | ⟨config, hr⟩⟩ | ⟨-, hr, -⟩
  · rw [hr, Registry.getLeaf_removeLeaf_ne _ ha]
  · rw [hr]
  · rw [hr, Registry.getLeaf_addLeaf_ne _ _ ha]
  · rw [hr]

theorem Inv.reconcile (hdistinct : ∀ m n, P m → P n → m.aliasName = n.aliasName → m = n)
    (h : s.Inv P) (hn : P n) : (s.reconcile n).Inv P := by
  rcases s.reconcile_cases n with heq | ⟨obj, hview, -, heq⟩
  · rw [heq]
    exact h
  have hname : obj.aliasName = n.aliasName :=
    congrArg ObjectRef.aliasName ((h.sound n hn).named obj (hview ▸ List.mem_cons_self))
  rw [heq]
  refine ⟨fun m hm => ?_, fun m hm hleaf => ?_⟩
  · show (Function.update s.objects n _ m).Sound m
    by_cases hmn : m = n
    · subst hmn
      rw [Function.update_self]
      exact (h.sound m hm).start hview
    · rw [Function.update_of_ne hmn]
      exact h.sound m hm
  · by_cases hmn : m = n
    · subst hmn
      rw [← hname] at hleaf
      obtain ⟨hheld, hpatch⟩ := h.guarded_reconcile hm hview hleaf hname
      refine ⟨?_, ?_⟩
      · show McpFederation.held (Function.update s.objects m _ m).current = true
        rw [Function.update_self]
        exact hheld
      · show ∀ finalizers, (Function.update s.objects m _ m).patch = some finalizers → _
        rw [Function.update_self]
        exact hpatch
    · have halias : m.aliasName ≠ obj.aliasName := fun hc =>
        hmn (hdistinct m n hm hn (hc.trans hname))
      have hsame := getLeaf_crdReconcile_ne obj (.ok ()) s.registry halias
      obtain ⟨hheld, hpatch⟩ := h.guarded m hm (hsame ▸ hleaf)
      refine ⟨?_, ?_⟩
      · show McpFederation.held (Function.update s.objects n _ m).current = true
        rw [Function.update_of_ne hmn]
        exact hheld
      · show ∀ finalizers, (Function.update s.objects n _ m).patch = some finalizers → _
        rw [Function.update_of_ne hmn]
        exact hpatch

/-- **Every step keeps the invariant.** -/
theorem Inv.step (hdistinct : ∀ m n, P m → P n → m.aliasName = n.aliasName → m = n)
    (h : s.Inv P) (e : ClusterEvent) (hproper : e.Proper P s) : (s.step e).Inv P := by
  cases e with
  | kube n version =>
      obtain ⟨hn, hout, hname⟩ := hproper
      exact h.kube hn hout hname
  | watch n => exact h.watch hproper
  | reconcile n => exact h.reconcile hdistinct hproper
  | settle n applied => exact h.settle hproper applied
  | elsewhere r =>
      refine ⟨h.sound, fun n hn hleaf => ?_⟩
      obtain ⟨hheld, hpatch⟩ := h.guarded n hn fun hnone => hleaf (hproper n hn hnone)
      exact ⟨hheld, hpatch⟩
  | restart r =>
      refine ⟨fun n hn => Watched.sound_latest rfl rfl fun obj hobj => ?_, fun n hn hleaf => ?_⟩
      · have hmem : some obj ∈ (s.objects n).versions := hobj ▸ (s.objects n).current_mem
        exact (h.sound n hn).named obj hmem
      · exact absurd (hproper n hn) hleaf

/-! ### Catching up -/

/-- The events of a reconcile that is up to date and whose patch gets through: whatever patch is
under way fails, the store sees the `k` versions that it has not seen, and `reconcile` runs. -/
def cleanUp (n : ObjectRef) (k : Nat) : List ClusterEvent :=
  .settle n false :: (List.replicate k (.watch n) ++ [.reconcile n, .settle n true])

theorem settle_false (o : Watched) : o.settle false = { o with patch := none } := by
  unfold Watched.settle
  cases o.patch with
  | none => rfl
  | some finalizers => cases o.current <;> rfl

/-- A store that has seen every version. -/
theorem run_watch (n : ObjectRef) : ∀ (later : List (Option McpServer)) (s : Cluster),
    (s.objects n).later = later →
      Runs.run Cluster.step s (List.replicate later.length (.watch n))
        = s.update n { s.objects n with view := (s.objects n).current, later := [] } := by
  intro later
  induction later with
  | nil =>
      intro s hlater
      have hself : ({ s.objects n with view := (s.objects n).current, later := [] } : Watched)
          = s.objects n := by
        rw [Watched.current, hlater, List.getLastD_nil]
        cases ho : s.objects n
        rw [ho] at hlater
        cases hlater
        rfl
      rw [hself]
      show s = Cluster.mk s.registry (Function.update s.objects n (s.objects n))
      rw [Function.update_eq_self]
  | cons v rest ih =>
      intro s hlater
      have hwatch : (s.objects n).watch = { s.objects n with view := v, later := rest } := by
        rw [Watched.watch, hlater]
      have hstep : s.step (.watch n) = s.update n { s.objects n with view := v, later := rest } := by
        show s.update n (s.objects n).watch = _
        rw [hwatch]
      have hcurrent : Watched.current { s.objects n with view := v, later := rest }
          = (s.objects n).current := by
        rw [Watched.current, Watched.current, hlater, List.getLastD_cons]
      rw [List.length_cons, List.replicate_succ, Runs.run_cons, hstep, ih _ (by
        rw [objects_update_self]), objects_update_self, hcurrent]
      show Cluster.mk s.registry (Function.update (Function.update s.objects n _) n _) = _
      rw [Function.update_idem]
      rfl

theorem update_update (s : Cluster) (n : ObjectRef) (o o' : Watched) :
    (s.update n o).update n o' = s.update n o' := by
  show Cluster.mk s.registry (Function.update (Function.update s.objects n o) n o') = _
  rw [Function.update_idem]
  rfl

/-- The state in which the reconcile finds things. -/
theorem run_cleanUp (s : Cluster) (n : ObjectRef) :
    Runs.run Cluster.step s (cleanUp n (s.objects n).later.length)
      = ((s.update n { view := (s.objects n).current }).reconcile n).step (.settle n true) := by
  have hsettle : s.step (.settle n false) = s.update n { s.objects n with patch := none } := by
    show s.update n ((s.objects n).settle false) = _
    rw [settle_false]
  have hlater : ((s.update n { s.objects n with patch := none }).objects n).later
      = (s.objects n).later := by
    rw [objects_update_self]
  unfold cleanUp
  rw [Runs.run_cons, hsettle, Runs.run_append, run_watch n _ _ hlater, objects_update_self,
    update_update]
  rfl

/-- The last steps of it. -/
theorem reconcile_settle (s : Cluster) (n : ObjectRef) (obj : McpServer) :
    ((s.update n { view := some obj }).reconcile n).step (.settle n true)
      = { registry := ((crdReconcile obj (.ok ())).run Registry.exec s.registry).2
          objects := Function.update s.objects n
            (Watched.settle { view := some obj, patch := obj.patch } true) } := by
  have hreconcile : (s.update n { view := some obj }).reconcile n
      = { registry := ((crdReconcile obj (.ok ())).run Registry.exec s.registry).2
          objects := Function.update s.objects n { view := some obj, patch := obj.patch } } := by
    unfold Cluster.reconcile
    rw [objects_update_self]
    show Cluster.mk _ (Function.update (Function.update s.objects n _) n _) = _
    rw [Function.update_idem]
    rfl
  rw [hreconcile]
  show Cluster.mk _ (Function.update (Function.update s.objects n _) n
    ((Function.update s.objects n _ n).settle true)) = _
  rw [Function.update_idem, Function.update_self]

/-- A patch that takes the finalizer off leaves none. -/
theorem held_settle_removing {obj : McpServer} (hdeleted : obj.deletionTimestamp = true) :
    McpFederation.held (Watched.settle { view := some obj, patch := obj.patch } true).current
      = false := by
  unfold McpServer.patch
  rw [if_pos hdeleted]
  by_cases hmem : finalizer ∈ obj.finalizers
  · rw [if_pos hmem]
    show McpFederation.held (obj.patched _) = false
    unfold McpServer.patched
    split
    · rfl
    · simp [McpFederation.held]
  · rw [if_neg hmem]
    show McpFederation.held (some obj) = false
    simpa [McpFederation.held] using hmem

/-- Such a reconcile leaves neither a leaf nor a finalizer. -/
theorem Inv.cleanUp (h : s.Inv P) (hn : P n) {obj : McpServer}
    (hcurrent : (s.objects n).current = some obj) (hdeleted : obj.deletionTimestamp = true) :
    (Runs.run Cluster.step s (Cluster.cleanUp n (s.objects n).later.length)).registry.getLeaf
        n.aliasName = none ∧
      McpFederation.held ((Runs.run Cluster.step s
        (Cluster.cleanUp n (s.objects n).later.length)).objects n).current = false := by
  have hname : obj.aliasName = n.aliasName :=
    congrArg ObjectRef.aliasName ((h.sound n hn).named obj (hcurrent ▸ (s.objects n).current_mem))
  rw [run_cleanUp, hcurrent, reconcile_settle]
  refine ⟨?_, ?_⟩
  · show ((crdReconcile obj (.ok ())).run Registry.exec s.registry).2.getLeaf n.aliasName = none
    rcases crdReconcile_spec obj (.ok ()) s.registry with ⟨-, -, hr⟩ | ⟨-, hstays, -⟩ |
      ⟨hheld, hr, -⟩
    · rw [hr, hname, Registry.getLeaf_removeLeaf_self]
    · exact absurd (hstays.symm.trans hdeleted) Bool.false_ne_true
    · rw [hr]
      by_contra hleaf
      have hbad := (h.guarded n hn hleaf).held
      rw [hcurrent, hheld] at hbad
      exact Bool.false_ne_true hbad
  · show McpFederation.held (Function.update s.objects n _ n).current = false
    rw [Function.update_self]
    exact held_settle_removing hdeleted

end Cluster

/--
**No leaf is left behind.**  The controller starts with no leaf of its objects, and then
everything happens in any order, with a store that lags behind, patches that meet other
versions of the object or fail, and restarts.  A leaf that is registered in the end has its
object in the API server with the finalizer on it.  If the object is being deleted, a
reconcile that is up to date removes the leaf and the finalizer.
-/
theorem no_orphans (hdistinct : ∀ m n, P m → P n → m.aliasName = n.aliasName → m = n)
    {start : Cluster} (hstart : start.Fresh P) (events : List ClusterEvent)
    (hevents : Runs.Along Cluster.step (fun s e => e.Proper P s) start events)
    (n : ObjectRef) (hn : P n) :
    let s := Runs.run Cluster.step start events
    let cleaned := Runs.run Cluster.step s (Cluster.cleanUp n (s.objects n).later.length)
    (s.registry.getLeaf n.aliasName ≠ none →
        ∃ obj, (s.objects n).current = some obj ∧ finalizer ∈ obj.finalizers) ∧
      (∀ obj, (s.objects n).current = some obj → obj.deletionTimestamp = true →
        cleaned.registry.getLeaf n.aliasName = none ∧
          ∀ left, (cleaned.objects n).current = some left → finalizer ∉ left.finalizers) := by
  intro s cleaned
  have hinv : s.Inv P :=
    Runs.inv_run (fun _ e h hproper => h.step hdistinct e hproper) events start hstart.inv hevents
  refine ⟨?_, ?_⟩
  · intro hleaf
    have hheld := (hinv.guarded n hn hleaf).held
    cases hcurrent : (s.objects n).current with
    | none =>
        rw [hcurrent] at hheld
        cases hheld
    | some obj =>
        rw [hcurrent] at hheld
        exact ⟨obj, rfl, by simpa [held] using hheld⟩
  · intro obj hcurrent hdeleted
    obtain ⟨hleaf, hheld⟩ := hinv.cleanUp hn hcurrent hdeleted
    refine ⟨hleaf, fun left hleft => ?_⟩
    rw [hleft] at hheld
    simpa [held] using hheld

def wikiRef : ObjectRef := ⟨"prod", "wiki"⟩

def wikiObject (finalizers : List String) (deleted : Bool) : McpServer where
  «namespace» := "prod"
  name := "wiki"
  deletionTimestamp := deleted
  finalizers := finalizers
  spec := { url := "http://wiki/mcp" }

/-- The object is deleted between the patch that put the finalizer on and the reconcile that
registers the leaf, and the store has not seen that. -/
def lateRegistration : List ClusterEvent :=
  [.kube wikiRef (some (wikiObject [] false)), .watch wikiRef, .reconcile wikiRef,
    .settle wikiRef true, .watch wikiRef, .kube wikiRef (some (wikiObject [finalizer] true)),
    .reconcile wikiRef]

def noObjects : Cluster := { registry := Registry.empty, objects := fun _ => {} }

theorem late_registration_cleaned :
    let s := Runs.run Cluster.step noObjects lateRegistration
    let cleaned := Runs.run Cluster.step s
      (Cluster.cleanUp wikiRef (s.objects wikiRef).later.length)
    (s.registry.getLeaf wikiRef.aliasName).isSome = true ∧
      (s.objects wikiRef).current = some (wikiObject [finalizer] true) ∧
      cleaned.registry.getLeaf wikiRef.aliasName = none ∧
      ∀ left, (cleaned.objects wikiRef).current = some left → finalizer ∉ left.finalizers := by
  have hproper : Runs.Along Cluster.step (fun s e => e.Proper (· = wikiRef) s) noObjects
      lateRegistration := by
    refine ⟨⟨rfl, .create (by simp [wikiObject]), ?_⟩, rfl, rfl, rfl, rfl, ⟨rfl, ?_, ?_⟩, rfl,
      trivial⟩
    · intro obj hobj
      cases hobj
      rfl
    · exact .edit (Iff.of_eq rfl) (fun _ => rfl)
    · intro obj hobj
      cases hobj
      rfl
  have hfresh : noObjects.Fresh (· = wikiRef) :=
    ⟨fun _ _ => rfl, fun _ _ => ⟨rfl, rfl⟩, fun _ _ _ hc => by cases hc⟩
  obtain ⟨-, hcleaned⟩ := no_orphans (fun m n hm hn _ => hm.trans hn.symm) hfresh
    lateRegistration hproper wikiRef rfl
  exact ⟨by decide, rfl, hcleaned _ rfl rfl⟩

end

end McpFederation
