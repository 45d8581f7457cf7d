/-
The controller and the API server.

`crd_discovery.rs`.  The controller does not see an `MCPServer` object as it is but as its
store has it, which follows the API server's versions of the object one by one and at its
own pace.  `reconcile` reads the object from the store, makes its call on the registry, and
may send a merge patch with a new list of finalizers; the patch meets whatever version the
API server has by then, under that name, and its answer may get lost.  There is one
`reconcile` per object at a time, and everything else happens in any order: others edit,
delete and create objects, other parts of the program use the registry, and the program may
restart, which leaves the objects and forgets the leaves.
-/
import McpFederation.Model.Registry
import McpFederation.Model.Discovery

namespace McpFederation

/-- `ObjectRef`: what the controller's store is keyed by. -/
structure ObjectRef where
  «namespace» : String
  name : String
deriving DecidableEq

def McpServer.objectRef (obj : McpServer) : ObjectRef := ⟨obj.namespace, obj.name⟩

def ObjectRef.aliasName (n : ObjectRef) : String := crdAlias n.namespace n.name

/-- The finalizers that `reconcile` asks for, if it sends a patch. -/
def McpServer.patch (obj : McpServer) : Option (List String) :=
  if obj.deletionTimestamp then
    if finalizer ∈ obj.finalizers then some (obj.finalizers.filter (· ≠ finalizer)) else none
  else if finalizer ∉ obj.finalizers then some (obj.finalizers ++ [finalizer])
  else none

/-- A merge patch of the finalizers.  An object on its way out is gone without them. -/
def McpServer.patched (obj : McpServer) (finalizers : List String) : Option McpServer :=
  if obj.deletionTimestamp ∧ finalizers = [] then none
  else some { obj with finalizers := finalizers }

/-- One object: what the store has of it, the versions that it has not seen yet, oldest first,
and the finalizers of a patch under way. -/
structure Watched where
  view : Option McpServer := none
  later : List (Option McpServer) := []
  patch : Option (List String) := none

namespace Watched

def versions (o : Watched) : List (Option McpServer) := o.view :: o.later

/-- The object as the API server has it. -/
def current (o : Watched) : Option McpServer := o.later.getLastD o.view

/-- The API server has a new version. -/
def push (o : Watched) (version : Option McpServer) : Watched :=
  { o with later := o.later ++ [version] }

/-- The store sees one more version. -/
def watch (o : Watched) : Watched :=
  match o.later with
  | [] => o
  | version :: rest => { o with view := version, later := rest }

/-- The patch under way is done: it has been applied or not.  There is nothing to apply it to if
the object is gone. -/
def settle (o : Watched) (applied : Bool) : Watched :=
  match o.patch, o.current with
  | some finalizers, some obj =>
      if applied then { o.push (obj.patched finalizers) with patch := none }
      else { o with patch := none }
  | _, _ => { o with patch := none }

end Watched

/-- The registry and the objects. -/
structure Cluster where
  registry : Registry
  objects : ObjectRef → Watched

inductive ClusterEvent where
  /-- Somebody else changes an object. -/
  | kube (n : ObjectRef) (version : Option McpServer)
  | watch (n : ObjectRef)
  | reconcile (n : ObjectRef)
  | settle (n : ObjectRef) (applied : Bool)
  /-- Another part of the program has used the registry. -/
  | elsewhere (r : Registry)
  /-- A new process with this registry, and with a store that is up to date. -/
  | restart (r : Registry)

namespace Cluster

def update (s : Cluster) (n : ObjectRef) (o : Watched) : Cluster :=
  { s with objects := Function.update s.objects n o }

/-- `reconcile` up to its patch.  It is not called for an object that is gone, nor while another
call for the object is waiting for its patch. -/
def reconcile (s : Cluster) (n : ObjectRef) : Cluster :=
  match (s.objects n).view, (s.objects n).patch with
  | some obj, none =>
      { registry := ((crdReconcile obj (.ok ())).run Registry.exec s.registry).2
        objects := Function.update s.objects n { s.objects n with patch := obj.patch } }
  | _, _ => s

def step (s : Cluster) : ClusterEvent → Cluster
  | .kube n version => s.update n ((s.objects n).push version)
  | .watch n => s.update n (s.objects n).watch
  | .reconcile n => s.reconcile n
  | .settle n applied => s.update n ((s.objects n).settle applied)
  | .elsewhere r => { s with registry := r }
  | .restart r =>
      { registry := r
        objects := fun n => { view := (s.objects n).current } }

end Cluster

end McpFederation
