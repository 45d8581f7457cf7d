/-
Where a notification comes from.

`dispatch_event` writes the alias of the leaf into `params._leaf` of what it publishes, so
that a subscriber to the broker can tell the leaves apart.  The writing is nested in tests on
the shape of the value, and the publishing is not.  A leaf may send no `params`, a `params`
that is no object, or a `_leaf` of its own: all that is put right.  What is not put right is
a value that is no object at all, a batch for example: it is published as it came.
`marks_iff` says that there is no other case.
-/
import McpFederation.Model.Listener

namespace McpFederation

/-- `published` is `value` with the alias in it, and otherwise unchanged. -/
structure Marked (a : String) (value published : Value) : Prop where
  object : ∃ m, published = .object m
  leaf : (published.get? "params").bind (·.get? "_leaf") = some (.string a)
  members : ∀ key, key ≠ "params" → published.get? key = value.get? key
  params : ∀ m, value.get? "params" = some (.object m) → ∀ key, key ≠ "_leaf" →
    (published.get? "params").bind (·.get? key) = Members.get? m key

/-- What is published for a payload is marked. -/
def ListenerCall.Marks (env : ClientEnv) (cl : LeafClient) (payload : String) :
    ListenerCall → Prop
  | .publish published =>
      ∃ value, env.jsonFromSlice payload.toUTF8 = some value ∧
        Marked cl.aliasName value published
  | _ => True

/-! ### Writing the alias -/

theorem get?_markParams (a : String) (params : Option Value) (key : String) :
    (markParams a params).get? key
      = if "_leaf" = key then some (.string a) else params.bind (·.get? key) := by
  unfold markParams
  show Members.get? (Members.insert _ "_leaf" (.string a)) key = _
  rw [Members.get?_insert]
  split
  · rfl
  · cases params with
    | none => rfl
    | some v => cases v <;> rfl

theorem get?_markLeaf (a : String) (m : List (String × Value)) (key : String) :
    (markLeaf a (.object m)).get? key
      = if "params" = key then some (markParams a (Members.get? m "params"))
        else Members.get? m key :=
  Members.get?_insert ..

theorem marked_object (a : String) (m : List (String × Value)) :
    Marked a (.object m) (markLeaf a (.object m)) where
  object := ⟨_, rfl⟩
  leaf := by
    rw [get?_markLeaf, if_pos rfl, Option.bind_some, get?_markParams, if_pos rfl]
  members := by
    intro key hkey
    rw [get?_markLeaf, if_neg (Ne.symm hkey)]
    rfl
  params := by
    intro params hparams key hkey
    have hget : Members.get? m "params" = some (.object params) := hparams
    rw [get?_markLeaf, if_pos rfl, Option.bind_some, get?_markParams, if_neg (Ne.symm hkey), hget]
    rfl

/-- **When the alias is written**: exactly into objects. -/
theorem marked_iff (a : String) (value : Value) :
    Marked a value (markLeaf a value) ↔ ∃ m, value = .object m := by
  refine ⟨?_, ?_⟩
  · intro h
    obtain ⟨m, hm⟩ := h.object
    cases value with
    | object m => exact ⟨m, rfl⟩
    | null => cases hm
    | bool b => cases hm
    | number n => cases hm
    | string s => cases hm
    | array items => cases hm
  · intro h
    obtain ⟨m, rfl⟩ := h
    exact marked_object a m

/--
**When a notification says where it comes from.**  What `dispatch_event` publishes for a
payload is the payload's object with the alias as its `params._leaf`, and otherwise
unchanged, if and only if the payload is a JSON object, or no JSON, and then nothing is
published.
-/
theorem marks_iff (env : ClientEnv) (cl : LeafClient) (payload : String) :
    (cl.dispatchEvent env payload).Makes (ListenerCall.Marks env cl payload) ↔
      ∀ value, env.jsonFromSlice payload.toUTF8 = some value → ∃ m, value = .object m := by
  unfold LeafClient.dispatchEvent
  cases hvalue : env.jsonFromSlice payload.toUTF8 with
  | none => exact iff_of_true trivial fun value h => by cases h
  | some value =>
      have hcall : ((do
            let _ ← Prog.perform (ListenerCall.publish (markLeaf cl.aliasName value)) :
            ListenerM Unit).Makes (ListenerCall.Marks env cl payload)) ↔
          Marked cl.aliasName value (markLeaf cl.aliasName value) := by
        refine ⟨?_, fun h => ⟨⟨value, hvalue, h⟩, fun _ => trivial⟩⟩
        intro h
        obtain ⟨⟨value', hvalue', hmarked⟩, -⟩ := h
        obtain rfl := Option.some.inj (hvalue.symm.trans hvalue')
        exact hmarked
      refine hcall.trans ((marked_iff cl.aliasName value).trans ?_)
      exact ⟨fun h v hv => Option.some.inj hv ▸ h, fun h => h value rfl⟩

/-- A client's environment that decodes the empty batch. -/
def batchEnv : ClientEnv where
  readFile := fun path => .error path
  jsonFromSlice := fun bytes => if bytes.data = #[91, 93] then some (.array []) else none
  statusText := fun _ => "200 OK"

/-- A streamable-http leaf. -/
def batchClient : LeafClient :=
  LeafClient.new { aliasName := "docs", url := "http://docs/mcp", transport := .streamableHttp }

/-- The empty batch is published as it came. -/
theorem batch_unmarked :
    batchClient.dispatchEvent batchEnv "[]" = .call (.publish (.array [])) (fun _ => .ret ()) ∧
      ¬ (batchClient.dispatchEvent batchEnv "[]").Makes
        (ListenerCall.Marks batchEnv batchClient "[]") := by
  have hbytes : "[]".toUTF8.data = #[91, 93] := by decide
  have hvalue : batchEnv.jsonFromSlice "[]".toUTF8 = some (.array []) := by
    show (if "[]".toUTF8.data = #[91, 93] then some (Value.array []) else none) = _
    rw [if_pos hbytes]
  have hdispatch : batchClient.dispatchEvent batchEnv "[]"
      = .call (.publish (.array [])) (fun _ => .ret ()) := by
    rw [LeafClient.dispatchEvent, hvalue]
    rfl
  refine ⟨hdispatch, ?_⟩
  rw [hdispatch]
  intro h
  obtain ⟨⟨value, -, hmarked⟩, -⟩ := h
  obtain ⟨m, hm⟩ := hmarked.object
  cases hm

/-! ### The whole listener -/

/-- A decoded payload, with the alias written into it if it is an object. -/
def ListenerCall.Decoded (env : ClientEnv) (cl : LeafClient) : ListenerCall → Prop
  | .publish published =>
      ∃ payload value, env.jsonFromSlice payload = some value ∧
        published = markLeaf cl.aliasName value
  | _ => True

/-- A listener publishes nothing else, whatever the leaf answers and however its stream is
cut or breaks off. -/
theorem makes_runNotificationStream (env : ClientEnv) (cl : LeafClient) :
    (cl.runNotificationStream env).Makes (ListenerCall.Decoded env cl) := by
  have hdispatch : ∀ payload, (cl.dispatchEvent env payload).Makes
      (ListenerCall.Decoded env cl) := by
    intro payload
    unfold LeafClient.dispatchEvent
    cases hvalue : env.jsonFromSlice payload.toUTF8 with
    | none => trivial
    | some value => exact ⟨⟨_, value, hvalue, rfl⟩, fun _ => trivial⟩
  refine ⟨trivial, fun sessionId => ⟨trivial, fun reply => ?_⟩⟩
  cases reply with
  | error e => trivial
  | ok reply =>
      show (cl.readReply env reply).Makes _
      unfold LeafClient.readReply
      split
      · refine Prog.makes_bind (Prog.makes_interp hdispatch _) fun r => ?_
        cases r <;> trivial
      · trivial

end McpFederation
