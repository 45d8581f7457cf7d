/-
Standard input is the HTTP endpoint without its sessions.

Whatever arrives on standard input, `stdio_as_http` says what `run_stdio` itself prints, byte
for byte: one line for every line that is not blank, in order.  The lines that are no request
are answered as such and leave no trace, and the others are answered with the bodies that a
server with the same leaves, no tokens, no limits and no origins to check gives to the same
requests as POSTs without a session.  The two servers forward the same to their leaves and end
with the same leaves.  The lines of the log, which `main` sends to standard output as well, are
not part of this.

The two have different sessions all along, since an `initialize` over HTTP opens one; that
does not matter because `dispatch` without a session id does not look at them.
-/
import McpFederation.Lib.Runs
import McpFederation.Model.Stdio
import McpFederation.Proofs.Auth
import McpFederation.Proofs.Outages

namespace McpFederation

/-! ### Lines of bytes -/

theorem readUntilLf_append_lf {piece : List UInt8} (h : (10 : UInt8) ∉ piece)
    (rest : List UInt8) :
    readUntilLf (piece ++ 10 :: rest) = (piece ++ [10]) :: readUntilLf rest := by
  induction piece with
  | nil => simp [readUntilLf]
  | cons b piece ih =>
      obtain ⟨hb, hpiece⟩ := not_or.mp (mt List.mem_cons.mpr h)
      rw [List.cons_append, readUntilLf, if_neg (Ne.symm hb), ih hpiece]
      rfl

/-- A text without line breaks is read back. -/
theorem lineOf_encode {text : List Char} (h : Text.Plain text) :
    lineOf (Utf8.encode (text ++ ['\n'])) = some (String.ofList text) := by
  have hcr : text.getLast? ≠ some '\r' := fun hc => h.1 (List.mem_of_getLast? hc)
  have hpop : popLineEnd (text ++ ['\n']) = text := by
    rw [popLineEnd, Text.stripLast, if_pos List.getLast?_concat, List.dropLast_concat]
    exact Text.stripCr_of_getLast? hcr
  rw [lineOf, Utf8.fromUTF8_encode, Option.map_some, String.toList_ofList, hpop]

theorem encode_lf (text rest : List Char) :
    Utf8.encode (text ++ '\n' :: rest) = Utf8.encode text ++ 10 :: Utf8.encode rest := by
  rw [Utf8.encode_append]
  rfl

theorem lf_not_mem_encode {text : List Char} (h : '\n' ∉ text) :
    (10 : UInt8) ∉ Utf8.encode text := by
  intro hmem
  obtain ⟨c, hc, hb⟩ := List.mem_flatMap.mp hmem
  have hlf : c = '\n' := Utf8.eq_of_mem_encodeChar (by decide) hb
  exact h (hlf ▸ hc)

/-- One line of a stream, and what follows it. -/
theorem lines_cons {text : List Char} (h : Text.Plain text) (rest : List Char) :
    Stdin.lines { bytes := Utf8.encode (text ++ '\n' :: rest) }
      = String.ofList text :: Stdin.lines { bytes := Utf8.encode rest } := by
  have hsplit : readUntilLf (Utf8.encode (text ++ '\n' :: rest))
      = Utf8.encode (text ++ ['\n']) :: readUntilLf (Utf8.encode rest) := by
    rw [encode_lf, readUntilLf_append_lf (lf_not_mem_encode h.2), encode_lf]
    rfl
  show untilError ((readUntilLf _).map lineOf) = _
  rw [hsplit, List.map_cons, lineOf_encode h]
  rfl

/-! ### Without a session -/

/-- A request in no session is handled without a look at the sessions, the limiter or the
origins. -/
theorem dispatch_sessionless (env : ServerEnv) {s t : FederationState}
    (h : t.leaves = s.leaves) (request : JsonRpcRequest) (ctx : RequestContext) :
    (dispatch env t request none ctx).response = (dispatch env s request none ctx).response ∧
      (dispatch env t request none ctx).forwarded = (dispatch env s request none ctx).forwarded ∧
      (dispatch env t request none ctx).state.leaves
        = (dispatch env s request none ctx).state.leaves := by
  obtain ⟨leaves, mgr, origins, limiter⟩ := s
  obtain ⟨_, mgr', origins', limiter'⟩ := t
  cases h
  unfold dispatch
  split
  case h_4 =>
    unfold handleToolsCall
    simp only
    split
    · split <;> exact ⟨rfl, rfl, rfl⟩
    · exact ⟨rfl, rfl, rfl⟩
  case h_9 =>
    unfold handleLoggingSetLevel
    simp only
    split
    · exact ⟨rfl, rfl, rfl⟩
    · split <;> exact ⟨rfl, rfl, rfl⟩
  all_goals exact ⟨rfl, rfl, rfl⟩

/-- It changes nothing but the leaves. -/
theorem dispatch_sessionless_state (env : ServerEnv) (s : FederationState)
    (request : JsonRpcRequest) (ctx : RequestContext) :
    (dispatch env s request none ctx).state
      = { s with leaves := (dispatch env s request none ctx).state.leaves } := by
  rw [dispatch_state]
  rfl

/-! ### The two servers -/

section

variable {host : Host} {s t : Hosted}

/-- A server on standard input and one behind HTTP that have come to the same.  The sessions of
the two may differ. -/
structure Alike (s t : Hosted) : Prop where
  leaves : t.state.leaves = s.state.leaves
  exchanges : t.exchanges = s.exchanges
  forwarded : t.forwarded = s.forwarded
  unrestricted : t.state.Open

/-- A POST of the request without a session, and without any header. -/
def Host.post (host : Host) (t : Hosted) (request : JsonRpcRequest) : HttpResponse × Hosted :=
  host.handle { endpoint := .postMcp (some request), headers := [] } t

theorem post_eq (hauth : ∀ n, host.auth.resolveToken (host.tokenFile n) = none) (t : Hosted)
    (request : JsonRpcRequest) :
    host.post t request
      = ((handleMcp (host.env t.exchanges) t.state [] (some .anonymous) request).response,
          { state := (handleMcp (host.env t.exchanges) t.state [] (some .anonymous) request).state
            exchanges := t.exchanges + 1
            forwarded := t.forwarded
              ++ (handleMcp (host.env t.exchanges) t.state [] (some .anonymous)
                request).forwarded }) := by
  have hmid : authMiddleware host.auth (host.tokenFile t.exchanges) "/mcp" []
      = .next (some .anonymous) := authMiddleware_of_no_token [] (hauth _) (by decide)
  have hserve : serve (host.env t.exchanges) host.auth (host.tokenFile t.exchanges) t.state
      { endpoint := .postMcp (some request), headers := [] }
        = handleMcp (host.env t.exchanges) t.state [] (some .anonymous) request := by
    unfold serve
    rw [show Endpoint.path (.postMcp (some request)) = "/mcp" from rfl, hmid]
    rfl
  unfold Host.post Host.handle
  rw [hserve]

/-- Such a POST is answered with what the request is dispatched to. -/
theorem handleMcp_sessionless (h : t.state.Open) (env : HttpEnv) (request : JsonRpcRequest) :
    (handleMcp env t.state [] (some .anonymous) request).response.body
        = .rpc (dispatch env.server t.state request none .anonymous).response false ∧
      (handleMcp env t.state [] (some .anonymous) request).forwarded
        = (dispatch env.server t.state request none .anonymous).forwarded ∧
      (handleMcp env t.state [] (some .anonymous) request).state.leaves
        = (dispatch env.server t.state request none .anonymous).state.leaves ∧
      (handleMcp env t.state [] (some .anonymous) request).state.Open := by
  by_cases hmethod : request.method = "initialize"
  · rw [handleMcp_handshake h hmethod, dispatch_initialize_eq _ _ _ _ hmethod]
    exact ⟨rfl, rfl, rfl, h.withSessions _⟩
  · rw [handleMcp_admitted h hmethod rfl, handleAdmitted_of_ne h hmethod]
    exact ⟨rfl, rfl, rfl, h.dispatch _ _ _ _⟩

/-- **One request on either side.** -/
theorem Alike.post (hauth : ∀ n, host.auth.resolveToken (host.tokenFile n) = none)
    (h : Alike s t) {line : String} {request : JsonRpcRequest} (hblank : blank line = false)
    (hline : host.json.request line = .ok request) :
    ∃ response leaves, (host.post t request).1.body = .rpc response false ∧
      (host.stdioLine line s).1 = some (host.json.response response) ∧
      Alike (host.stdioLine line s).2 (host.post t request).2 ∧
      (host.stdioLine line s).2.state = { s.state with leaves := leaves } := by
  obtain ⟨hbody, hforwarded, hleaves, hopen⟩ :=
    handleMcp_sessionless h.unrestricted (host.env s.exchanges) request
  obtain ⟨hsame, hsame', hsame''⟩ :=
    dispatch_sessionless (host.env s.exchanges).server h.leaves request .anonymous
  have hdispatched : host.stdioLine line s
      = (some (host.json.response
          (dispatch (host.env s.exchanges).server s.state request none .anonymous).response),
          { state := (dispatch (host.env s.exchanges).server s.state request none .anonymous).state
            exchanges := s.exchanges + 1
            forwarded := s.forwarded
              ++ (dispatch (host.env s.exchanges).server s.state request none
                .anonymous).forwarded }) := by
    simp only [Host.stdioLine, hblank, Bool.false_eq_true, if_false, hline]
  rw [hdispatched, post_eq hauth, h.exchanges]
  refine ⟨_, _, hbody, ?_, ⟨?_, rfl, ?_, hopen⟩, dispatch_sessionless_state _ _ _ _⟩
  · rw [hsame]
  · exact hleaves.trans hsame''
  · show t.forwarded ++ _ = _
    rw [hforwarded, hsame', h.forwarded]

/-! ### Whole runs -/

/-- The requests among the lines. -/
def Host.requests (host : Host) (lines : List String) : List JsonRpcRequest :=
  lines.filterMap fun line => (host.json.request line).toOption

theorem requests_of_error {line e : String} (hline : host.json.request line = .error e)
    (lines : List String) : host.requests (line :: lines) = host.requests lines := by
  unfold Host.requests
  rw [List.filterMap_cons_none (by rw [hline]; rfl)]

theorem requests_of_ok {line : String} {request : JsonRpcRequest}
    (hline : host.json.request line = .ok request) (lines : List String) :
    host.requests (line :: lines) = request :: host.requests lines := by
  unfold Host.requests
  rw [List.filterMap_cons_some (by rw [hline]; rfl)]

/-- `texts` are the answers to `lines`, and the requests among these are answered as over HTTP
from `t` on. -/
structure Transcript (host : Host) (t : Hosted) (lines texts : List String) : Prop where
  length : texts.length = lines.length
  failed : ∀ p ∈ lines.zip texts, ∀ e, host.json.request p.1 = .error e →
    p.2 = host.json.value (parseError e)
  posted :
    ((lines.zip texts).filter fun p => (host.json.request p.1).toOption.isSome).map Prod.snd
      = (Runs.outputs host.post t (host.requests lines)).map fun o =>
          (o.2.body.encoded host.json).2

theorem Transcript.nil (t : Hosted) : Transcript host t [] [] where
  length := rfl
  failed := fun _ hp => absurd hp List.not_mem_nil
  posted := rfl

theorem Transcript.fail {lines texts : List String} (h : Transcript host t lines texts)
    {line e : String} (hline : host.json.request line = .error e) :
    Transcript host t (line :: lines) (host.json.value (parseError e) :: texts) := by
  refine ⟨congrArg Nat.succ h.length, ?_, ?_⟩
  · intro p hp e' he'
    rcases List.mem_cons.mp hp with rfl | hp
    · cases hline.symm.trans he'
      rfl
    · exact h.failed p hp e' he'
  · rw [requests_of_error hline, ← h.posted, List.zip_cons_cons, List.filter_cons_of_neg (by
      rw [hline]; exact Bool.false_ne_true)]

theorem Transcript.request {lines texts : List String} {line : String}
    {request : JsonRpcRequest} (h : Transcript host (host.post t request).2 lines texts)
    (hline : host.json.request line = .ok request) :
    Transcript host t (line :: lines)
      (((host.post t request).1.body.encoded host.json).2 :: texts) := by
  refine ⟨congrArg Nat.succ h.length, ?_, ?_⟩
  · intro p hp e he
    rcases List.mem_cons.mp hp with rfl | hp
    · cases hline.symm.trans he
    · exact h.failed p hp e he
  · rw [requests_of_ok hline, Runs.outputs_cons, List.map_cons, ← h.posted, List.zip_cons_cons,
      List.filter_cons_of_pos (by rw [hline]; rfl)]
    rfl

/-- The lines that are answered. -/
def answered (lines : List String) : List String := lines.filter fun line => !blank line

/-- What `run_stdio` prints, read line by line. -/
def Host.stdoutLines (host : Host) (lines : List String) (s : Hosted) : List String :=
  Stdin.lines { bytes := (host.runStdio lines s).1.toUTF8.data.toList }

theorem stdoutLines_eq (lines : List String) (s : Hosted) :
    host.stdoutLines lines s
      = Stdin.lines { bytes := Utf8.encode (host.runStdio lines s).1.toList } := by
  rw [Host.stdoutLines, Utf8.toUTF8_eq]

theorem runStdio_silent {line : String} (hblank : blank line = true) (lines : List String)
    (s : Hosted) : host.runStdio (line :: lines) s = host.runStdio lines s := by
  have hline : host.stdioLine line s = (none, s) := if_pos hblank
  rw [Host.runStdio, hline]

theorem runStdio_answer {line text : String} {s s' : Hosted}
    (hline : host.stdioLine line s = (some text, s')) (lines : List String) :
    host.runStdio (line :: lines) s
      = (text ++ "\n" ++ (host.runStdio lines s').1, (host.runStdio lines s').2) := by
  rw [Host.runStdio, hline]

/-- A line that was printed is read first. -/
theorem stdoutLines_answer {line text : String} {s s' : Hosted}
    (hline : host.stdioLine line s = (some text, s')) (hplain : Text.Plain text.toList)
    (lines : List String) :
    host.stdoutLines (line :: lines) s = text :: host.stdoutLines lines s' := by
  rw [stdoutLines_eq, stdoutLines_eq, runStdio_answer hline lines]
  have htext : (text ++ "\n" ++ (host.runStdio lines s').1).toList
      = text.toList ++ '\n' :: (host.runStdio lines s').1.toList := by
    rw [String.toList_append, String.toList_append, List.append_assoc]
    rfl
  rw [htext, lines_cons hplain, String.ofList_toList]

theorem run_transcript {cenv : ClientEnv} (hjson : host.json.Lawful cenv)
    (hauth : ∀ n, host.auth.resolveToken (host.tokenFile n) = none) (lines : List String) :
    ∀ s t : Hosted, Alike s t →
      Transcript host t (answered lines) (host.stdoutLines lines s) ∧
        Alike (host.runStdio lines s).2
          (Runs.run (fun t r => (host.post t r).2) t (host.requests (answered lines))) ∧
        ∃ leaves, (host.runStdio lines s).2.state = { s.state with leaves := leaves } := by
  induction lines with
  | nil =>
      intro s t h
      exact ⟨.nil t, h, s.state.leaves, rfl⟩
  | cons line lines ih =>
      intro s t h
      cases hblank : blank line with
      | true =>
          have hanswered : answered (line :: lines) = answered lines :=
            List.filter_cons_of_neg (by rw [hblank]; exact Bool.false_ne_true)
          have hstdout : host.stdoutLines (line :: lines) s = host.stdoutLines lines s := by
            rw [Host.stdoutLines, Host.stdoutLines, runStdio_silent hblank]
          rw [hanswered, hstdout, runStdio_silent hblank]
          exact ih s t h
      | false =>
          have hanswered : answered (line :: lines) = line :: answered lines :=
            List.filter_cons_of_pos (by rw [hblank]; rfl)
          rw [hanswered]
          cases hrequest : host.json.request line with
          | error e =>
              have hline : host.stdioLine line s
                  = (some (host.json.value (parseError e)), s) := by
                simp only [Host.stdioLine, hblank, Bool.false_eq_true, if_false, hrequest]
              obtain ⟨htranscript, hrest⟩ := ih s t h
              rw [stdoutLines_answer hline (hjson.value_text _).2, requests_of_error hrequest,
                runStdio_answer hline]
              exact ⟨htranscript.fail hrequest, hrest⟩
          | ok request =>
              obtain ⟨response, leaves, hbody, htext, halike, hleaves⟩ :=
                h.post hauth hblank hrequest
              have hencoded : ((host.post t request).1.body.encoded host.json).2
                  = host.json.response response := by
                rw [hbody]
                rfl
              have hline : host.stdioLine line s
                  = (some (host.json.response response), (host.stdioLine line s).2) :=
                Prod.ext htext rfl
              obtain ⟨htranscript, hend, leaves', hleaves'⟩ := ih _ _ halike
              rw [stdoutLines_answer hline (hjson.response_text _).2, requests_of_ok hrequest,
                runStdio_answer hline, ← hencoded]
              refine ⟨htranscript.request hrequest, hend, leaves', ?_⟩
              rw [hleaves', hleaves]

/--
**Standard input is the endpoint without its sessions.**  Take a server on standard input, and
one behind HTTP that has the same leaves and lets everybody in.  Whatever arrives on standard
input, what `run_stdio` prints of its own is, read by lines, one for each line that is not
blank: an error for those that are no request, and for the k-th request the body
that the other server gives to the k-th of these requests as a POST.  Both have forwarded the
same to their leaves, and of the first one's state only the leaves have changed, as those of
the other.
-/
theorem stdio_as_http {cenv : ClientEnv} (hjson : host.json.Lawful cenv)
    (hauth : ∀ n, host.auth.resolveToken (host.tokenFile n) = none) (h : Alike s t)
    (stdin : Stdin) :
    let lines := answered stdin.lines
    let read := (host.runStdio stdin.lines s).2
    let posted := Runs.run (fun t r => (host.post t r).2) t (host.requests lines)
    Transcript host t lines (host.stdoutLines stdin.lines s) ∧
      read.forwarded = posted.forwarded ∧
      read.state = { s.state with leaves := posted.state.leaves } := by
  intro lines read posted
  obtain ⟨htranscript, halike, leaves, hleaves⟩ := run_transcript hjson hauth stdin.lines s t h
  refine ⟨htranscript, halike.forwarded.symm, ?_⟩
  have hsame : posted.state.leaves = leaves := halike.leaves.trans (by rw [hleaves])
  rw [hsame]
  exact hleaves

/-- A line that is no request, a blank one, and a request. -/
def garbageFirst : Stdin where
  bytes := Utf8.encode (['o', 'o', 'p', 's'] ++ '\n' :: ([] ++ '\n'
    :: ((compactJson.value listResources).toList ++ '\n' :: [])))

theorem not_blank {c : Char} (hc : Text.isWhitespace c = false) (rest : List Char) :
    blank (String.ofList (c :: rest)) = false := by
  have hne : (c :: rest).rdropWhile Text.isWhitespace ≠ [] := by
    rw [Ne, List.rdropWhile_eq_nil_iff]
    intro hall
    have hbad := hall c List.mem_cons_self
    rw [hc] at hbad
    exact Bool.false_ne_true hbad
  unfold blank Text.trim
  rw [String.toList_ofList, List.dropWhile_cons_of_neg (by rw [hc]; exact Bool.false_ne_true),
    decide_eq_false_iff_not]
  intro htrim
  exact hne (by rw [← String.toList_ofList (l := List.rdropWhile _ _), htrim]; rfl)

theorem listed_after_garbage :
    garbageFirst.lines = ["oops", "", compactJson.value listResources] ∧
      (freeHost offline).requests (answered garbageFirst.lines)
        = [{ id := some (.ofNat 1), method := "resources/list", params := .obj [] }] ∧
      Transcript (freeHost offline) (restarted noLeaves [1] 0)
        ["oops", compactJson.value listResources]
        ((freeHost offline).stdoutLines garbageFirst.lines (restarted noLeaves [0] 0)) := by
  have hlines : garbageFirst.lines = ["oops", "", compactJson.value listResources] := by
    unfold garbageFirst
    rw [lines_cons (by decide), lines_cons (by decide),
      lines_cons (compactJson_lawful.value_text listResources).2, String.ofList_toList]
    rfl
  have hrequest : (freeHost offline).json.request (compactJson.value listResources)
      = .ok { id := some (.ofNat 1), method := "resources/list", params := .obj [] } := by
    rw [show (freeHost offline).json = compactJson from rfl]
    exact compactJson_lawful.request _ _ (exact_rpcRequest 1 "resources/list" exact_emptyObj)
      (requestOf_rpcRequest 1 "resources/list" (.obj []))
  have hblank : blank (compactJson.value listResources) = false := not_blank (by decide) _
  have hanswered : answered garbageFirst.lines = ["oops", compactJson.value listResources] := by
    rw [hlines, answered, List.filter_cons_of_pos (by decide), List.filter_cons_of_neg (by decide),
      List.filter_cons_of_pos (by rw [hblank]; rfl), List.filter_nil]
  have halike : Alike (restarted noLeaves [0] 0) (restarted noLeaves [1] 0) :=
    ⟨rfl, rfl, rfl, rfl, rfl⟩
  have hauth : ∀ n, (freeHost offline).auth.resolveToken ((freeHost offline).tokenFile n) = none :=
    fun _ => rfl
  have hjson : (freeHost offline).json.Lawful compactEnv := compactJson_lawful
  have htranscript := (stdio_as_http hjson hauth halike garbageFirst).1
  rw [hanswered] at htranscript
  have hoops : (freeHost offline).json.request "oops"
      = .error "expected value at line 1 column 1" := rfl
  have hrequests : (freeHost offline).requests ["oops", compactJson.value listResources]
      = [{ id := some (.ofNat 1), method := "resources/list", params := .obj [] }] := by
    rw [requests_of_error hoops, requests_of_ok hrequest]
    rfl
  refine ⟨hlines, ?_, htranscript⟩
  rw [hanswered]
  exact hrequests

end

end McpFederation
