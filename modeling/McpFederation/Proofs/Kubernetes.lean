/-
The aliases of Kubernetes objects.

An `MCPServer` object in the namespace `ns` with the name `n` is registered under
`crd-ns-n`, so that its leaf stays apart from all others and can be pruned safely.  But a
hyphen may stand in both parts: `a/b-c` and `a-b/c` share the alias `crd-a-b-c`, and the
deletion of the one takes the other's leaf away.  `crdAlias_eq_iff` says which names share
an alias, and `respected_iff` that these are the only ones that get in each other's way.
-/
import McpFederation.Model.System

namespace McpFederation

/-! ### Legal names -/

/-- A character of a name: a lowercase letter, a digit or a hyphen. -/
def isLabelChar (c : Char) : Bool :=
  ('a' ≤ c && c ≤ 'z') || ('0' ≤ c && c ≤ '9') || c = '-'

/-- A part of a name: such characters, with no hyphen at either end. -/
def isLabel (cs : List Char) : Bool :=
  cs ≠ [] && cs.all isLabelChar && cs.head? ≠ some '-' && cs.getLast? ≠ some '-'

/-- A namespace is one label, of at most 63 characters. -/
def LegalNamespace (s : String) : Prop := isLabel s.toList = true ∧ s.toList.length ≤ 63

/-- An object's name is a sequence of labels with dots between, of at most 253 characters. -/
def LegalName (s : String) : Prop :=
  (Text.splitOn '.' s.toList).all isLabel = true ∧ s.toList.length ≤ 253

instance (s : String) : Decidable (LegalNamespace s) :=
  inferInstanceAs (Decidable (_ = true ∧ _ ≤ 63))

instance (s : String) : Decidable (LegalName s) :=
  inferInstanceAs (Decidable (_ = true ∧ _ ≤ 253))

/-- What identifies an object. -/
structure ObjectName where
  ns : String
  name : String
deriving DecidableEq

def ObjectName.Legal (n : ObjectName) : Prop := LegalNamespace n.ns ∧ LegalName n.name

def McpServer.objectName (obj : McpServer) : ObjectName := ⟨obj.namespace, obj.name⟩

/-! ### Who shares an alias -/

/-- The namespace of the second is that of the first and a part `m` of its name, which goes
on with the name of the second. -/
def ObjectName.Overlaps (n n' : ObjectName) : Prop :=
  ∃ m, n'.ns = n.ns ++ "-" ++ m ∧ n.name = m ++ "-" ++ n'.name

theorem overlaps_iff {n n' : ObjectName} :
    n.Overlaps n' ↔ ∃ m, n'.ns.toList = n.ns.toList ++ '-' :: m ∧
      n.name.toList = m ++ '-' :: n'.name.toList := by
  refine ⟨?_, ?_⟩
  · intro h
    obtain ⟨m, hns, hname⟩ := h
    exact ⟨m.toList, by simp [hns], by simp [hname]⟩
  · intro h
    obtain ⟨m, hns, hname⟩ := h
    refine ⟨String.ofList m, ?_, ?_⟩
    · rw [← String.toList_inj, hns]
      simp
    · rw [← String.toList_inj, hname]
      simp

/-- **Who shares an alias.**  Two objects do exactly when they are one, or one's namespace
reaches into the other's name. -/
theorem crdAlias_eq_iff {n n' : ObjectName} :
    crdAlias n.ns n.name = crdAlias n'.ns n'.name ↔
      n = n' ∨ n.Overlaps n' ∨ n'.Overlaps n := by
  have hlists : crdAlias n.ns n.name = crdAlias n'.ns n'.name ↔
      n.ns.toList ++ '-' :: n.name.toList = n'.ns.toList ++ '-' :: n'.name.toList := by
    simp only [crdAlias, String.append_assoc, String.append_right_inj]
    rw [← String.toList_inj]
    simp
  have hsame : n = n' ↔ n.ns.toList = n'.ns.toList ∧ n.name.toList = n'.name.toList := by
    rw [String.toList_inj, String.toList_inj]
    refine ⟨fun h => h ▸ ⟨rfl, rfl⟩, fun h => ?_⟩
    cases n
    cases n'
    simp_all
  rw [hlists, Text.append_cons_eq_append_cons, hsame, overlaps_iff, overlaps_iff]

/-! ### Reconciling -/

/-- One call of `reconcile`: the object as the controller found it, and what the API server
said to the patch. -/
structure Reconcile where
  obj : McpServer
  patch : Except String Unit

/-- A registry, and the entries created in it for each object so far. -/
structure Controlled where
  registry : Registry
  created : ObjectName → List LeafEntry

namespace Controlled

/-- The registry that the controller starts with. -/
def start (r : Registry) : Controlled := ⟨r, fun _ => []⟩

/-- After one call.  A call makes at most one registry call of its own, so calls that run
side by side take effect one after the other. -/
def step (s : Controlled) (e : Reconcile) : Controlled where
  registry := ((crdReconcile e.obj e.patch).run Registry.exec s.registry).2
  created := Function.update s.created e.obj.objectName
    (((crdReconcile e.obj e.patch).run Registry.exec s.registry).1.spawned
      ++ s.created e.obj.objectName)

/-- The call leaves every entry that was created for another object where it is. -/
def Respects (s : Controlled) (e : Reconcile) : Prop :=
  ∀ n, n ≠ e.obj.objectName → ∀ leaf ∈ s.created n, ∀ a, s.registry.getLeaf a = some leaf →
    (s.step e).registry.getLeaf a = some leaf

end Controlled

/-- What a call does: nothing, or remove the object's alias, or insert under it. -/
theorem crdReconcile_cases (obj : McpServer) (patch : Except String Unit) (r : Registry) :
    (((crdReconcile obj patch).run Registry.exec r).2 = r ∧
        ((crdReconcile obj patch).run Registry.exec r).1.spawned = []) ∨
      (((crdReconcile obj patch).run Registry.exec r).2 = r.removeLeaf obj.aliasName ∧
        ((crdReconcile obj patch).run Registry.exec r).1.spawned = []) ∨
      ∃ transport,
        ((crdReconcile obj patch).run Registry.exec r).2
            = r.addLeaf obj.aliasName (crdServerConfig obj transport) ∧
          ((crdReconcile obj patch).run Registry.exec r).1.spawned
            = [r.alloc (crdServerConfig obj transport)] := by
  have hpatch : ∀ action, (afterPatch patch action).spawned = [] := by
    intro action
    unfold afterPatch
    split <;> rfl
  unfold crdReconcile
  split
  · split
    · exact Or.inr (Or.inl ⟨rfl, hpatch _⟩)
    · exact Or.inl ⟨rfl, rfl⟩
  · split
    · exact Or.inl ⟨rfl, hpatch _⟩
    · cases parseTransport obj.spec.transport with
      | error e => exact Or.inl ⟨rfl, rfl⟩
      | ok transport => exact Or.inr (Or.inr ⟨transport, rfl, rfl⟩)

namespace Controlled

/-- Nothing happens under another alias. -/
theorem getLeaf_step_ne (s : Controlled) (e : Reconcile) {a : String}
    (ha : a ≠ e.obj.aliasName) : (s.step e).registry.getLeaf a = s.registry.getLeaf a := by
  show Registry.getLeaf (Prod.snd _) a = _
  rcases crdReconcile_cases e.obj e.patch s.registry with ⟨h, -⟩ | ⟨h, -⟩ | ⟨transport, h, -⟩
  · rw [h]
  · rw [h, Registry.getLeaf_removeLeaf_ne _ ha]
  · rw [h, Registry.getLeaf_addLeaf_ne _ _ ha]

/-- Entries are created for the objects `P`, each under the alias of its object. -/
structure Inv (P : ObjectName → Prop) (s : Controlled) : Prop where
  wf : s.registry.WF
  created : ∀ n, ∀ leaf ∈ s.created n, P n ∧ leaf.config.aliasName = crdAlias n.ns n.name

theorem inv_start (P : ObjectName → Prop) {r : Registry} (h : r.WF) : (start r).Inv P :=
  ⟨h, fun n leaf hleaf => by simp [start] at hleaf⟩

theorem Inv.step {P : ObjectName → Prop} {s : Controlled} (h : s.Inv P) {e : Reconcile}
    (he : P e.obj.objectName) : (s.step e).Inv P := by
  refine ⟨?_, ?_⟩
  · show Registry.WF (Prod.snd _)
    rcases crdReconcile_cases e.obj e.patch s.registry with ⟨hr, -⟩ | ⟨hr, -⟩ | ⟨transport, hr, -⟩
    · rw [hr]
      exact h.wf
    · rw [hr]
      exact h.wf.removeLeaf _
    · rw [hr]
      exact h.wf.addLeaf rfl
  · intro n leaf hleaf
    by_cases hn : n = e.obj.objectName
    · subst hn
      simp only [Controlled.step, Function.update_self, List.mem_append] at hleaf
      rcases hleaf with hnew | hold
      · refine ⟨he, ?_⟩
        rcases crdReconcile_cases e.obj e.patch s.registry with
          ⟨-, hs⟩ | ⟨-, hs⟩ | ⟨transport, -, hs⟩
        · rw [hs] at hnew
          simp at hnew
        · rw [hs] at hnew
          simp at hnew
        · rw [hs, List.mem_singleton] at hnew
          rw [hnew]
          rfl
      · exact h.created _ leaf hold
    · simp only [Controlled.step, Function.update_of_ne hn] at hleaf
      exact h.created n leaf hleaf

/-- Objects with different aliases leave each other alone. -/
theorem Inv.respects {P : ObjectName → Prop} {s : Controlled} (h : s.Inv P) {e : Reconcile}
    (hdiff : ∀ n, P n → n ≠ e.obj.objectName → crdAlias n.ns n.name ≠ e.obj.aliasName) :
    s.Respects e := by
  intro n hn leaf hleaf a ha
  obtain ⟨hP, halias⟩ := h.created n leaf hleaf
  rw [getLeaf_step_ne s e, ha]
  rw [← h.wf.key a leaf ha, halias]
  exact hdiff n hP hn

/-- The object, registered by the controller. -/
def registering (n : ObjectName) : Reconcile :=
  ⟨{ «namespace» := n.ns, name := n.name, finalizers := [finalizer],
     spec := { url := "http://leaf/mcp" } }, .ok ()⟩

/-- The object, on its way out. -/
def deleting (n : ObjectName) : Reconcile :=
  ⟨{ «namespace» := n.ns, name := n.name, deletionTimestamp := true, finalizers := [finalizer],
     spec := { url := "http://leaf/mcp" } }, .ok ()⟩

/-- If two objects share an alias, deleting the one removes the other's entry. -/
theorem not_respects_deleting {n n' : ObjectName} (hne : n ≠ n')
    (halias : crdAlias n.ns n.name = crdAlias n'.ns n'.name) :
    ¬ ((start Registry.empty).step (registering n)).Respects (deleting n') := by
  intro h
  have hregistered : ((start Registry.empty).step (registering n)).registry.getLeaf
      (crdAlias n.ns n.name)
        = some ⟨0, crdServerConfig (registering n).obj .httpPost⟩ :=
    Registry.getLeaf_addLeaf_self Registry.empty _ _
  have hcreated : (⟨0, crdServerConfig (registering n).obj .httpPost⟩ : LeafEntry)
      ∈ ((start Registry.empty).step (registering n)).created n := by
    simp only [step]
    rw [show (registering n).obj.objectName = n from rfl, Function.update_self]
    exact List.mem_append_left _ (List.mem_singleton.mpr rfl)
  have hkept := h n hne _ hcreated _ hregistered
  have hremoved : (((start Registry.empty).step (registering n)).step
      (deleting n')).registry.getLeaf (crdAlias n'.ns n'.name) = none :=
    Registry.getLeaf_removeLeaf_self _ _
  rw [halias, hremoved] at hkept
  simp at hkept

end Controlled

/--
**Which objects are kept apart.**  Take two objects that differ in namespace or name, any
registry, and any sequence of reconciles of the two, in whatever state each finds its
object.  No reconcile of the one replaces or removes an entry that was created for the
other, exactly when neither one's namespace reaches into the other's name.
-/
theorem respected_iff (n n' : ObjectName) (hne : n ≠ n') :
    (∀ r : Registry, r.WF → ∀ events : List Reconcile,
        (∀ e ∈ events, e.obj.objectName = n ∨ e.obj.objectName = n') →
        Runs.Along Controlled.step Controlled.Respects (Controlled.start r) events) ↔
      ¬ n.Overlaps n' ∧ ¬ n'.Overlaps n := by
  have hshare : crdAlias n.ns n.name = crdAlias n'.ns n'.name ↔
      ¬ (¬ n.Overlaps n' ∧ ¬ n'.Overlaps n) := by
    rw [crdAlias_eq_iff, or_iff_right hne, not_and_or, not_not, not_not]
  refine ⟨?_, ?_⟩
  · intro h
    by_contra hc
    have hrun := h Registry.empty Registry.wf_empty
      [Controlled.registering n, Controlled.deleting n'] (by
        intro e he
        rcases List.mem_pair.mp he with rfl | rfl
        · exact Or.inl rfl
        · exact Or.inr rfl)
    exact Controlled.not_respects_deleting hne (hshare.mpr hc) hrun.2.1
  · intro hapart r hwf events hevents
    have hdiff : crdAlias n.ns n.name ≠ crdAlias n'.ns n'.name :=
      fun hc => hshare.mp hc hapart
    have key : ∀ (events : List Reconcile),
        (∀ e ∈ events, e.obj.objectName = n ∨ e.obj.objectName = n') →
        ∀ s : Controlled, s.Inv (fun m => m = n ∨ m = n') →
          Runs.Along Controlled.step Controlled.Respects s events := by
      intro events
      induction events with
      | nil => intro _ s _; trivial
      | cons e rest ih =>
          intro hall s hs
          have he := hall e List.mem_cons_self
          refine ⟨hs.respects ?_, ih (fun f hf => hall f (List.mem_cons_of_mem _ hf)) _
            (hs.step he)⟩
          intro m hm hme
          show _ ≠ crdAlias e.obj.objectName.ns e.obj.objectName.name
          rcases hm with rfl | rfl <;> rcases he with he | he
          · exact absurd he.symm hme
          · rw [he]
            exact hdiff
          · rw [he]
            exact hdiff.symm
          · exact absurd he.symm hme
    exact key events hevents _ (Controlled.inv_start _ hwf)

/-- Two objects of one namespace never meet. -/
theorem same_namespace_respected :
    ObjectName.mk "prod" "wiki" ≠ ⟨"prod", "docs"⟩ ∧
      ∀ r : Registry, r.WF → ∀ events : List Reconcile,
        (∀ e ∈ events,
          e.obj.objectName = ⟨"prod", "wiki"⟩ ∨ e.obj.objectName = ⟨"prod", "docs"⟩) →
        Runs.Along Controlled.step Controlled.Respects (Controlled.start r) events := by
  refine ⟨by decide,
    (respected_iff ⟨"prod", "wiki"⟩ ⟨"prod", "docs"⟩ (by decide)).mpr ⟨?_, ?_⟩⟩
  all_goals
    intro h
    obtain ⟨m, hns, -⟩ := overlaps_iff.mp h
    have hlength := congrArg List.length hns
    simp at hlength

/-- `a/b-c` and `a-b/c` are legal names of two objects, and the deletion of the second takes
the first one's leaf away. -/
theorem hyphens_not_respected :
    ObjectName.Legal ⟨"a", "b-c"⟩ ∧ ObjectName.Legal ⟨"a-b", "c"⟩ ∧
      crdAlias "a" "b-c" = crdAlias "a-b" "c" ∧
      ¬ Runs.Along Controlled.step Controlled.Respects (Controlled.start Registry.empty)
        [Controlled.registering ⟨"a", "b-c"⟩, Controlled.deleting ⟨"a-b", "c"⟩] := by
  refine ⟨⟨by decide, by decide⟩, ⟨by decide, by decide⟩, by decide, fun h => ?_⟩
  exact Controlled.not_respects_deleting (by decide) (by decide) h.2.1

end McpFederation
