/-
Notifications, from federation to federation.

A subscriber of a federation is a queue that a stream of server-sent events is made from,
and the federation above listens to that stream and publishes what it reads there.
`listener_relays` is about one such hop, with the connection breaking at any byte: what is
published is every notification whose event arrived whole, in order and once, and never a
part of one.  `comes_up` is about any number of hops, where in addition a queue may have been
opened late, or may have run full and dropped notifications: what arrives at the top is a part
of what was published at the bottom, in the same order, unchanged but for the `_leaf` of the
last hop.  This is the path of one leaf: what other leaves of a federation on the way publish
there is not part of it.
-/
import McpFederation.Model.Notifications
import McpFederation.Proofs.JsonFormat
import McpFederation.Proofs.Marking

namespace McpFederation

theorem SseM.handing_ret {α β : Type} {f : α → SseM β} {a : α} {b : β} (h : f a = .ret b)
    (ps : List String) : (handing ps a >>= f) = handing ps b := by
  have hbind := handing_bind (show f a = handing [] b from h) ps
  rwa [List.append_nil] at hbind

/-! ### Bytes of one event -/

/-- The bytes of an event with this payload. -/
def frameOf (text : List Char) : List UInt8 := Utf8.encode (dataLine text ++ ['\n', '\n'])

theorem encode_sseEvent {text : String} (hplain : Text.Plain text.toList) :
    (sseEvent text).toUTF8.data.toList = frameOf text.toList := by
  rw [Utf8.toUTF8_eq]
  simp [sseEvent, splitOn_of_not_mem hplain.2, dataLine, frameOf]

section

variable {text : List Char}

theorem lf_notMem_encode {line : List Char} (h : '\n' ∉ line) : 10 ∉ Utf8.encode line := by
  intro hmem
  obtain ⟨c, hc, hbyte⟩ := List.mem_flatMap.mp hmem
  have heq := Utf8.eq_of_mem_encodeChar (c := '\n') (by decide) hbyte
  exact h (heq ▸ hc)

theorem plain_dataLine (h : Text.Plain text) : Text.Plain (dataLine text) := by
  obtain ⟨hcr, hlf⟩ := h
  exact ⟨by simp [dataLine, hcr], by simp [dataLine, hlf]⟩

theorem frameOf_eq (text : List Char) :
    frameOf text = Utf8.encode (dataLine text) ++ [10, 10] := by
  rw [frameOf, Utf8.encode_append]
  rfl

/-- A `data:` line and its ending fill the data buffer. -/
theorem readBytes_dataLine (hplain : Text.Plain text) :
    readBytes (Utf8.encode (dataLine text) ++ [10]) {} = .ret { dataBuf := text } := by
  have hline := plain_dataLine hplain
  rw [readBytes_append, readBytes_of_not_mem (lf_notMem_encode hline.2), Prog.ret_bind,
    List.nil_append]
  have hne : dataLine text ≠ [] := by simp [dataLine]
  have hcomplete : completeLine (Utf8.encode (dataLine text)) = dataLine text := by
    rw [completeLine_encode, Text.stripCr_of_getLast?]
    intro hlast
    exact hline.1 (List.mem_of_getLast? hlast)
  show (handleSseLine (completeLine (Utf8.encode (dataLine text))) [] >>= fun dataBuf =>
    readBytes [] { dataBuf := dataBuf }) = _
  rw [hcomplete, handleSseLine_of_ne hne, Prog.ret_bind, addLine, payloadOf_dataLine]
  rfl

/-- An event that arrives whole is handed over, and leaves the buffers empty. -/
theorem readBytes_frame (hne : text ≠ []) (hplain : Text.Plain text) :
    readBytes (frameOf text) {} = SseM.handing [String.ofList text] {} := by
  have hbytes : frameOf text = (Utf8.encode (dataLine text) ++ [10]) ++ [10] := by
    rw [frameOf_eq, List.append_assoc]
    rfl
  rw [hbytes, readBytes_append, readBytes_dataLine hplain, Prog.ret_bind]
  show (handleSseLine [] text >>= fun dataBuf => readBytes [] { dataBuf := dataBuf }) = _
  rw [handleSseLine_blank, flushed, if_neg hne]
  rfl

/-- Of an event that does not, nothing is. -/
theorem readBytes_partial (hplain : Text.Plain text) {bytes : List UInt8}
    (hstart : bytes <+: frameOf text) (hproper : bytes ≠ frameOf text) :
    ∃ buf, readBytes bytes {} = .ret buf := by
  rw [frameOf_eq] at hstart hproper
  have hline := lf_notMem_encode (plain_dataLine hplain).2
  generalize hdata : Utf8.encode (dataLine text) = data at hstart hproper hline
  have hcases : bytes <+: data ∨ bytes = data ++ [10] := by
    have hinit : data ++ [10, 10] = (data ++ [10]) ++ [10] := by simp
    rw [hinit] at hstart hproper
    rcases List.prefix_concat_iff.mp hstart with h | h
    · exact absurd h hproper
    · rcases List.prefix_concat_iff.mp h with h | h
      · exact Or.inr h
      · exact Or.inl h
  rcases hcases with h | h
  · exact ⟨_, readBytes_of_not_mem (fun hmem => hline (h.subset hmem)) {}⟩
  · refine ⟨{ dataBuf := text }, ?_⟩
    rw [h, ← hdata]
    exact readBytes_dataLine hplain

end

/-! ### Bytes of a stream -/

/-- A stream is cut: so many frames arrive whole, and of the next one a part. -/
structure Cut (frames : List (List UInt8)) (bytes : List UInt8) (k : Nat) : Prop where
  bound : k ≤ frames.length
  split : ∃ rest, bytes = (frames.take k).flatten ++ rest ∧
    (rest = [] ∨ ∃ frame, frames[k]? = some frame ∧ rest <+: frame ∧ rest ≠ frame)

/-- Wherever the bytes end, it is a cut. -/
theorem exists_cut (frames : List (List UInt8)) : ∀ {bytes : List UInt8},
    bytes <+: frames.flatten → ∃ k, Cut frames bytes k := by
  induction frames with
  | nil =>
      intro bytes h
      obtain rfl := List.prefix_nil.mp h
      exact ⟨0, le_refl _, [], rfl, Or.inl rfl⟩
  | cons frame frames ih =>
      intro bytes h
      rw [List.flatten_cons] at h
      by_cases hwhole : frame <+: bytes
      · obtain ⟨more, rfl⟩ := hwhole
        obtain ⟨k, hk, rest, hrest, hcut⟩ := ih ((List.prefix_append_right_inj frame).mp h)
        refine ⟨k + 1, Nat.succ_le_succ hk, rest, ?_, hcut⟩
        rw [hrest, List.take_succ_cons, List.flatten_cons, List.append_assoc]
      · have hshort : bytes <+: frame := by
          rcases List.prefix_or_prefix_of_prefix h (List.prefix_append frame frames.flatten)
            with hbytes | hframe
          · exact hbytes
          · exact absurd hframe hwhole
        refine ⟨0, Nat.zero_le _, bytes, rfl, Or.inr ⟨frame, rfl, hshort, ?_⟩⟩
        intro heq
        exact hwhole (heq ▸ List.prefix_rfl)

/-- Payloads that can be sent: not empty, and without line breaks. -/
def Texts (texts : List (List Char)) : Prop := ∀ text ∈ texts, text ≠ [] ∧ Text.Plain text

theorem readBytes_frames {texts : List (List Char)} (h : Texts texts) :
    readBytes (texts.map frameOf).flatten {} = SseM.handing (texts.map String.ofList) {} := by
  induction texts with
  | nil => rfl
  | cons text texts ih =>
      obtain ⟨hne, hplain⟩ := h text List.mem_cons_self
      rw [List.map_cons, List.flatten_cons, readBytes_append, readBytes_frame hne hplain]
      exact SseM.handing_bind (ih fun t ht => h t (List.mem_cons_of_mem _ ht)) _

/-- **What is read of a stream that is cut**: the payloads of the frames that are whole. -/
theorem readBytes_cut {texts : List (List Char)} (h : Texts texts) {bytes : List UInt8} {k : Nat}
    (hcut : Cut (texts.map frameOf) bytes k) :
    ∃ buf, readBytes bytes {} = SseM.handing ((texts.take k).map String.ofList) buf := by
  obtain ⟨-, rest, rfl, hrest⟩ := hcut
  have htake : Texts (texts.take k) := fun t ht => h t (List.mem_of_mem_take ht)
  have hwhole := readBytes_frames htake
  rw [List.map_take] at hwhole
  have hpartial : ∃ buf, readBytes rest {} = SseM.handing [] buf := by
    rcases hrest with rfl | ⟨frame, hframe, hstart, hproper⟩
    · exact ⟨_, rfl⟩
    · rw [List.getElem?_map] at hframe
      obtain ⟨text, htext, rfl⟩ := Option.map_eq_some_iff.mp hframe
      exact readBytes_partial (h text (List.mem_of_getElem? htext)).2 hstart hproper
  obtain ⟨buf, hbuf⟩ := hpartial
  refine ⟨buf, ?_⟩
  rw [readBytes_append, hwhole, SseM.handing_bind hbuf, List.append_nil]

/-- A connection that fails gives what was read until then. -/
theorem readChunks_error (chunks : List ByteArray) (e : String) : ∀ buf : SseBuffers,
    readChunks (chunks.map .ok ++ [.error e]) buf
      = (readBytes (chunks.flatMap (·.data.toList)) buf >>= fun _ => pure (.error e)) := by
  induction chunks with
  | nil => intro buf; rfl
  | cons bytes rest ih =>
      intro buf
      rw [List.flatMap_cons, readBytes_append]
      simp only [List.map_cons, List.cons_append, readChunks, bind_assoc]
      exact congrArg _ (funext fun buf => ih buf)

/-! ### One hop -/

/-- The bytes of the stream that a subscriber is sent for these notifications. -/
def streamBytes (json : JsonText) (ns : List Value) : List UInt8 :=
  ns.flatMap fun v => (sseEvent (json.value v)).toUTF8.data.toList

/-- How a listener fares: the session id it reads, and the reply to its GET; what it publishes
is kept. -/
def listening (session : Option String) (reply : Except String StreamReply) :
    (c : ListenerCall) → List Value → c.Reply × List Value
  | .readSession, published => (session, published)
  | .get _, published => (reply, published)
  | .publish v, published => (0, published ++ [v])

/-- What the listener of a leaf comes to, and what it publishes. -/
def LeafClient.listen (cenv : ClientEnv) (cl : LeafClient) (session : Option String)
    (chunks : List (Except String ByteArray)) : Except FederationError Unit × List Value :=
  (cl.runNotificationStream cenv).run (listening session (.ok ⟨200, chunks⟩)) []

section

variable {json : JsonText} {cenv : ClientEnv} {cl : LeafClient} {session : Option String}

theorem run_dispatchAll (h : json.Lawful cenv) {reply : Except String StreamReply}
    (ns : List Value) : (∀ v ∈ ns, v.Exact) → ∀ published,
      (cl.dispatchAll cenv (ns.map json.value)).run (listening session reply) published
        = ((), published ++ ns.map (markLeaf cl.aliasName)) := by
  induction ns with
  | nil =>
      intro _ published
      rw [List.map_nil, List.map_nil, List.append_nil]
      rfl
  | cons v ns ih =>
      intro hexact published
      have hevent : (cl.dispatchEvent cenv (json.value v)).run (listening session reply) published
          = ((), published ++ [markLeaf cl.aliasName v]) := by
        unfold LeafClient.dispatchEvent
        rw [h.value v (hexact v List.mem_cons_self)]
        rfl
      rw [List.map_cons, LeafClient.dispatchAll, Prog.run_bind, hevent,
        ih fun w hw => hexact w (List.mem_cons_of_mem _ hw)]
      rw [List.append_assoc]
      rfl

/-- A listener whose reader hands over these payloads. -/
theorem listen_of_handing (h : json.Lawful cenv) {chunks : List (Except String ByteArray)}
    {ns : List Value} (hexact : ∀ v ∈ ns, v.Exact) {result : Except String Unit}
    (hread : readChunks chunks {} = SseM.handing (ns.map json.value) result) :
    cl.listen cenv session chunks
      = (result.mapError (.leafUnreachable cl.aliasName), ns.map (markLeaf cl.aliasName)) := by
  have hreply : cl.readReply cenv ⟨200, chunks⟩
      = (cl.dispatchAll cenv (ns.map json.value) >>= fun _ =>
          pure (result.mapError (.leafUnreachable cl.aliasName))) := by
    rw [LeafClient.readReply, if_pos (show isSuccess 200 = true by decide), hread,
      LeafClient.interp_handing, bind_assoc]
    cases result <;> rfl
  show (cl.readReply cenv ⟨200, chunks⟩).run _ [] = _
  rw [hreply, Prog.run_bind, run_dispatchAll h ns hexact, List.nil_append]
  rfl

theorem JsonText.Lawful.texts (h : json.Lawful cenv) (ns : List Value) :
    Texts (ns.map fun v => (json.value v).toList) := by
  intro text htext
  obtain ⟨v, -, rfl⟩ := List.mem_map.mp htext
  exact h.value_text v

theorem JsonText.Lawful.streamBytes_eq (h : json.Lawful cenv) (ns : List Value) :
    streamBytes json ns
      = ((ns.map fun v => (json.value v).toList).map frameOf).flatten := by
  unfold streamBytes
  rw [List.flatMap_def, List.map_map]
  refine congrArg List.flatten (List.map_congr_left fun v _ => ?_)
  exact encode_sseEvent (h.value_text v).2

theorem map_ofList_toList (ns : List Value) :
    (ns.map fun v => (json.value v).toList).map String.ofList = ns.map json.value := by
  rw [List.map_map]
  exact List.map_congr_left fun v _ => String.ofList_toList

theorem JsonText.Lawful.frames_eq (h : json.Lawful cenv) (ns : List Value) :
    (ns.map fun v => (json.value v).toList).map frameOf
      = ns.map fun v => (sseEvent (json.value v)).toUTF8.data.toList := by
  rw [List.map_map]
  exact List.map_congr_left fun v _ => (encode_sseEvent (h.value_text v).2).symm

/-- A stream that ends has been relayed. -/
theorem listen_ended (h : json.Lawful cenv) {ns : List Value} (hexact : ∀ v ∈ ns, v.Exact)
    {chunks : List ByteArray} (hbytes : chunks.flatMap (·.data.toList) = streamBytes json ns) :
    cl.listen cenv session (chunks.map .ok) = (.ok (), ns.map (markLeaf cl.aliasName)) := by
  rw [h.streamBytes_eq] at hbytes
  have hread : readChunks (chunks.map .ok) {} = SseM.handing (ns.map json.value) (.ok ()) := by
    rw [readChunks_ok, hbytes, readBytes_frames (h.texts ns), map_ofList_toList, bind_assoc]
    refine SseM.handing_ret ?_ _
    rfl
  exact listen_of_handing h hexact hread

/-- A stream that breaks has been relayed so far. -/
theorem listen_broke (h : json.Lawful cenv) {ns : List Value} (hexact : ∀ v ∈ ns, v.Exact)
    {chunks : List ByteArray} (hstart : chunks.flatMap (·.data.toList) <+: streamBytes json ns)
    (cl : LeafClient) (session : Option String) (e : String) :
    ∃ k, Cut (ns.map fun v => (sseEvent (json.value v)).toUTF8.data.toList)
        (chunks.flatMap (·.data.toList)) k ∧
      cl.listen cenv session (chunks.map .ok ++ [.error e])
        = (.error (.leafUnreachable cl.aliasName e),
            (ns.take k).map (markLeaf cl.aliasName)) := by
  rw [h.streamBytes_eq] at hstart
  obtain ⟨k, hcut⟩ := exists_cut _ hstart
  obtain ⟨buf, hbuf⟩ := readBytes_cut (h.texts ns) hcut
  rw [h.frames_eq] at hcut
  refine ⟨k, hcut, ?_⟩
  have hread : readChunks (chunks.map .ok ++ [.error e]) {}
      = SseM.handing ((ns.take k).map json.value) (.error e) := by
    rw [readChunks_error, hbuf, ← List.map_take, map_ofList_toList]
    refine SseM.handing_ret ?_ _
    rfl
  exact listen_of_handing h (fun v hv => hexact v (List.mem_of_mem_take hv)) hread

/--
**One hop relays every notification that arrives whole.**  If the stream ends, all of them are
published, in order, once, each with the leaf's alias in it.  If the connection breaks, at
whatever byte, those are whose events had arrived, and nothing of the one that had not.
-/
theorem listener_relays (h : json.Lawful cenv) (ns : List Value) (hexact : ∀ v ∈ ns, v.Exact)
    (cl : LeafClient) (session : Option String) (chunks : List ByteArray) :
    (chunks.flatMap (·.data.toList) = streamBytes json ns →
      cl.listen cenv session (chunks.map .ok) = (.ok (), ns.map (markLeaf cl.aliasName))) ∧
    ∀ e, chunks.flatMap (·.data.toList) <+: streamBytes json ns →
      ∃ k, Cut (ns.map fun v => (sseEvent (json.value v)).toUTF8.data.toList)
          (chunks.flatMap (·.data.toList)) k ∧
        cl.listen cenv session (chunks.map .ok ++ [.error e])
          = (.error (.leafUnreachable cl.aliasName e),
              (ns.take k).map (markLeaf cl.aliasName)) :=
  ⟨listen_ended h hexact, fun e hstart => listen_broke h hexact hstart cl session e⟩

end

/-! ### Queues and marks -/

/-- What is taken out of a channel while notifications are offered to it: `some a` is a
`try_send`, `none` a `recv`. -/
def Channel.received {α : Type} : Channel α → List (Option α) → List α
  | _, [] => []
  | ch, some a :: ops => received (ch.trySend a).2 ops
  | ch, none :: ops =>
      match ch.recv with
      | none => received ch ops
      | some (a, ch') => a :: received ch' ops

/-- A queue gives what it was offered, in order, or drops it. -/
theorem Channel.received_sublist {α : Type} (ops : List (Option α)) : ∀ ch : Channel α,
    (ch.received ops).Sublist (ch.queue ++ ops.filterMap id) := by
  induction ops with
  | nil => intro ch; exact List.nil_sublist _
  | cons op ops ih =>
      intro ch
      cases op with
      | some a =>
          refine (ih (ch.trySend a).2).trans ?_
          rw [List.filterMap_cons_some (show id (some a) = some a from rfl)]
          unfold Channel.trySend
          split
          · exact List.Sublist.append_left (List.sublist_cons_self _ _) _
          · split
            · show (ch.queue ++ [a] ++ _).Sublist _
              rw [List.append_assoc]
              exact List.Sublist.refl _
            · exact List.Sublist.append_left (List.sublist_cons_self _ _) _
      | none =>
          unfold Channel.received Channel.recv
          cases hqueue : ch.queue with
          | nil =>
              have hrest := ih ch
              rw [hqueue] at hrest
              exact hrest
          | cons a rest => exact (ih { ch with queue := rest }).cons_cons a

theorem Members.insert_insert (m : List (String × Value)) (key : String) (v w : Value) :
    Members.insert (Members.insert m key v) key w = Members.insert m key w := by
  induction m with
  | nil => simp [Members.insert]
  | cons kv rest ih =>
      obtain ⟨k, x⟩ := kv
      by_cases hkey : k = key
      · simp [Members.insert, hkey]
      · by_cases hlt : key < k
        · simp [Members.insert, hkey, hlt]
        · simp only [Members.insert, hkey, hlt, if_false]
          rw [ih]

theorem Members.mem_of_get? {m : List (String × Value)} {key : String} {v : Value}
    (h : Members.get? m key = some v) : ∃ member ∈ m, member.2 = v := by
  induction m with
  | nil => cases h
  | cons kv rest ih =>
      unfold Members.get? at h
      split at h
      · cases h
        exact ⟨kv, List.mem_cons_self, rfl⟩
      · obtain ⟨member, hmember, hvalue⟩ := ih h
        exact ⟨member, List.mem_cons_of_mem _ hmember, hvalue⟩

/-- Only the last mark stays. -/
theorem markLeaf_markLeaf (a b : String) (v : Value) :
    markLeaf b (markLeaf a v) = markLeaf b v := by
  cases v with
  | object m =>
      show Value.object (Members.insert (Members.insert m "params" _) "params" _) = _
      rw [Members.insert_insert]
      have hparams : markParams b (Members.get? (Members.insert m "params"
          (markParams a (Members.get? m "params"))) "params")
          = markParams b (Members.get? m "params") := by
        rw [Members.get?_insert, if_pos rfl]
        unfold markParams
        dsimp only
        rw [Members.insert_insert]
      rw [hparams]
      rfl
  | null => rfl
  | bool b => rfl
  | number n => rfl
  | string s => rfl
  | array items => rfl

theorem exact_markLeaf {v : Value} (h : v.Exact) (a : String) : (markLeaf a v).Exact := by
  cases h with
  | object hkeys hall =>
      refine .object (Members.sorted_insert hkeys _ _) fun member hmem => ?_
      rcases Members.mem_insert hmem with heq | hmem
      · rw [heq]
        unfold markParams
        dsimp only
        split
        · next m hparams =>
            obtain ⟨member, hmember, hvalue⟩ := Members.mem_of_get? hparams
            have hexact := hall member hmember
            rw [hvalue] at hexact
            cases hexact with
            | object hkeys hall =>
                refine .object (Members.sorted_insert hkeys _ _) fun member hmem => ?_
                rcases Members.mem_insert hmem with heq | hmem
                · rw [heq]
                  exact .string _
                · exact hall member hmem
        · refine .object (List.pairwise_singleton _ _) fun member hmem => ?_
          obtain rfl := List.mem_singleton.mp hmem
          exact .string _
      · exact hall member hmem
  | null => exact .null
  | bool b => exact .bool b
  | posInt n => exact .posInt n
  | negInt h => exact .negInt h
  | string s => exact .string s
  | array h => exact .array h

/-! ### Any number of hops -/

/-- What of a stream with these notifications arrives: all of it, or what comes before the
connection breaks. -/
inductive Arrives (json : JsonText) (ns : List Value) : List (Except String ByteArray) → Prop
  | ended {chunks : List ByteArray} (h : chunks.flatMap (·.data.toList) = streamBytes json ns) :
      Arrives json ns (chunks.map .ok)
  | broke {chunks : List ByteArray} {e : String}
      (h : chunks.flatMap (·.data.toList) <+: streamBytes json ns) :
      Arrives json ns (chunks.map .ok ++ [.error e])

/-- `ns` is published at the bottom, and `out` in the federation at the top of the path.  In
each federation on the way the listener above has a queue, from which its stream is made while
notifications are offered to it: some or all of those that are published, in their order. -/
inductive Comes (json : JsonText) (ns : List Value) : List String → List Value → Prop
  | here : Comes json ns [] ns
  | hop {path : List String} {out : List Value} {cenv : ClientEnv} {cl : LeafClient}
      {session : Option String} {ops : List (Option Value)}
      {chunks : List (Except String ByteArray)} (h : Comes json ns path out)
      (hlawful : json.Lawful cenv) (hoffered : (ops.filterMap id).Sublist out)
      (harrives : Arrives json (Channel.received {} ops) chunks) :
      Comes json ns (cl.aliasName :: path) (cl.listen cenv session chunks).2

/-- The marks that are left after a path: the last one. -/
def lastMark : List String → Value → Value
  | [], v => v
  | a :: _, v => markLeaf a v

theorem markLeaf_lastMark (a : String) (path : List String) (v : Value) :
    markLeaf a (lastMark path v) = markLeaf a v := by
  cases path with
  | nil => rfl
  | cons b path => exact markLeaf_markLeaf b a v

theorem listen_arrives {json : JsonText} {cenv : ClientEnv} (h : json.Lawful cenv)
    {ns : List Value} (hexact : ∀ v ∈ ns, v.Exact) {chunks : List (Except String ByteArray)}
    (harrives : Arrives json ns chunks) (cl : LeafClient) (session : Option String) :
    ∃ k, (cl.listen cenv session chunks).2 = (ns.take k).map (markLeaf cl.aliasName) := by
  cases harrives with
  | ended hbytes =>
      refine ⟨ns.length, ?_⟩
      rw [listen_ended h hexact hbytes, List.take_length]
  | @broke chunks e hstart =>
      obtain ⟨k, -, hlisten⟩ := listen_broke h hexact hstart cl session e
      exact ⟨k, congrArg Prod.snd hlisten⟩

/--
**Notifications come up in order, whole, and at most once.**  Through any number of
federations, with connections breaking and queues running full on the way, what is published at
the top is a part of what was published at the bottom, in the same order; each notification is
the one that was sent, with the alias of the last hop as its `_leaf`, and no trace of the hops
below.
-/
theorem comes_up {json : JsonText} {ns : List Value} (hexact : ∀ v ∈ ns, v.Exact)
    {path : List String} {out : List Value} (h : Comes json ns path out) :
    out.Sublist (ns.map (lastMark path)) ∧ ∀ v ∈ out, v.Exact := by
  induction h with
  | here =>
      refine ⟨?_, hexact⟩
      show ns.Sublist (ns.map id)
      rw [List.map_id]
  | @hop path out cenv cl session ops chunks _ hlawful hoffered harrives ih =>
      obtain ⟨hsub, hout⟩ := ih
      have hreceived : (Channel.received {} ops).Sublist out :=
        (Channel.received_sublist ops {}).trans hoffered
      obtain ⟨k, hk⟩ := listen_arrives hlawful
        (fun v hv => hout v (hreceived.subset hv)) harrives cl session
      have htaken : ((Channel.received {} ops).take k).Sublist out :=
        (List.take_sublist k _).trans hreceived
      rw [hk]
      refine ⟨?_, ?_⟩
      · have hmapped := (htaken.trans hsub).map (markLeaf cl.aliasName)
        rw [List.map_map] at hmapped
        have hmarks : markLeaf cl.aliasName ∘ lastMark path = lastMark (cl.aliasName :: path) :=
          funext fun v => markLeaf_lastMark cl.aliasName path v
        rwa [hmarks] at hmapped
      · intro v hv
        obtain ⟨w, hw, rfl⟩ := List.mem_map.mp hv
        exact exact_markLeaf (hout w (htaken.subset hw)) _

/-! ### A notification through two federations -/

def toolsChanged : Value := .obj [("method", .string "notifications/tools/list_changed")]

theorem toolsChanged_exact : ∀ v ∈ [toolsChanged], v.Exact := by
  intro v hv
  obtain rfl := List.mem_singleton.mp hv
  refine Value.exact_obj fun member hmem => ?_
  obtain rfl := List.mem_singleton.mp hmem
  exact .string _

/-- The whole stream in one chunk. -/
def wholeStream (ns : List Value) : List ByteArray := [⟨(streamBytes compactJson ns).toArray⟩]

theorem wholeStream_carries (ns : List Value) :
    (wholeStream ns).flatMap (·.data.toList) = streamBytes compactJson ns := by
  simp [wholeStream]

/-- A stream with one notification is relayed. -/
theorem toolsChanged_relayed :
    accentClient.listen compactEnv none ((wholeStream [toolsChanged]).map .ok)
      = (.ok (), [markLeaf "docs" toolsChanged]) :=
  (listener_relays compactJson_lawful [toolsChanged] toolsChanged_exact accentClient none
    (wholeStream [toolsChanged])).1 (wholeStream_carries _)

/-- One hop for one notification, which the queue takes. -/
theorem Comes.whole {ns : List Value} {path : List String} {v : Value}
    (h : Comes compactJson ns path [v]) (cl : LeafClient) :
    Comes compactJson ns (cl.aliasName :: path)
      (cl.listen compactEnv none ((wholeStream [v]).map .ok)).2 := by
  have hoffered : ([some v, none].filterMap id).Sublist [v] := List.Sublist.refl _
  have harrives : Arrives compactJson (Channel.received {} [some v, none])
      ((wholeStream [v]).map .ok) := .ended (wholeStream_carries _)
  exact .hop h compactJson_lawful hoffered harrives

/-- Two hops: what comes out is the notification with the upper alias, or nothing. -/
theorem toolsChanged_comes_up :
    (accentClient.listen compactEnv none ((wholeStream [markLeaf "docs" toolsChanged]).map
      .ok)).2.Sublist [markLeaf "docs" toolsChanged] := by
  have hhere : Comes compactJson [toolsChanged] [] [toolsChanged] := .here
  have hfirst := hhere.whole accentClient
  rw [listen_ended compactJson_lawful toolsChanged_exact (wholeStream_carries _)] at hfirst
  exact (comes_up toolsChanged_exact (hfirst.whole accentClient)).1

end McpFederation
