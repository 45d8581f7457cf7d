/-
What is made of a reply to `tools/list`.

A task that refreshes the tools of a leaf stores what it reads in the last reply to its
`tools/list`: the last, since a leaf that has lost the session is asked twice.
`Prog.Outline` carries that reply along, call by call, whatever the answers are.
`ends_listTools` says what `list_tools` gives for it, and the lemmas on the tasks say that
they store that and touch the tools in no other way.  Nothing is assumed of the leaf, or of
the order in which the calls of several tasks are made.
-/
import McpFederation.Proofs.WarmUp

namespace McpFederation

/-! ### Replies to `tools/list` -/

/-- What a POST is answered with. -/
abbrev PostReply := Except String HttpReply

/-- The last reply to a `tools/list`, after one more call. -/
def ClientCall.listing : (c : ClientCall) → c.Reply → Option PostReply → Option PostReply
  | .post p, r, last => if methodOf p.body = "tools/list" then some r else last
  | _, _, last => last

def LeafCall.listing : (c : LeafCall) → c.Reply → Option PostReply → Option PostReply
  | .client c, r, last => c.listing r last
  | _, _, last => last

namespace PostReply

variable (env : ClientEnv)

/-- Status and decoded body, if the exchange and the reading of the body succeeded. -/
def parsed : PostReply → Option (Nat × Value)
  | .error _ => none
  | .ok reply =>
      match reply.body with
      | .error _ => none
      | .ok bytes => some (reply.status, LeafClient.decodeBody env reply.contentType bytes)

/-- The decoded body of a reply with a success status. -/
def response (r : PostReply) : Option Value :=
  (parsed env r).bind fun sv => if isSuccess sv.1 then some sv.2 else none

theorem response_of_parsed {env : ClientEnv} {r : PostReply} {status : Nat} {value : Value}
    (h : parsed env r = some (status, value)) :
    response env r = if isSuccess status then some value else none := by
  rw [response, h]
  rfl

theorem response_of_parsed_none {env : ClientEnv} {r : PostReply} (h : parsed env r = none) :
    response env r = none := by
  rw [response, h]
  rfl

/-- `result.tools`, if it is an array. -/
def toolsArray (response : Value) : Option (List Value) :=
  ((response.get? "result").bind (·.get? "tools")).bind Value.asArray

/-- What `list_tools` makes of a reply. -/
def toolsRead (r : PostReply) : Option (List Value) :=
  (response env r).map fun v => (toolsArray v).getD []

/-- The tools of a success whose result contains a `tools` array. -/
def toolsListed (r : PostReply) : Option (List Value) :=
  (response env r).bind fun v => if (v.get? "error").isSome then none else toolsArray v

/-- A body that arrived under a success status, with an `error` in it or no `tools` array. -/
def Blank (r : PostReply) : Prop :=
  ∃ v, response env r = some v ∧ ((v.get? "error").isSome = true ∨ toolsArray v = none)

/-- Every other reply is read for what it says. -/
theorem toolsRead_eq_toolsListed {env : ClientEnv} {r : PostReply} (h : ¬ Blank env r) :
    toolsRead env r = toolsListed env r := by
  unfold toolsRead toolsListed
  cases hv : response env r with
  | none => rfl
  | some v =>
      have herror : ¬ (v.get? "error").isSome = true := fun he => h ⟨v, hv, Or.inl he⟩
      obtain ⟨tools, htools⟩ : ∃ tools, toolsArray v = some tools :=
        Option.ne_none_iff_exists'.mp fun hn => h ⟨v, hv, Or.inr hn⟩
      simp [herror, htools]

end PostReply

/-! ### Client code and the last reply -/

/-- Whatever the answers, client code begun at `last` ends with `Q`. -/
def ClientM.Ends {α : Type} (p : ClientM α)
    (Q : Option PostReply → Except FederationError α → Prop) (last : Option PostReply) : Prop :=
  p.run.Outline ClientCall.listing (fun _ _ => True) Q last

/-- Client code that asks for no tools, and so keeps the last reply. -/
def ClientM.Quiet {α : Type} (p : ClientM α) : Prop :=
  ∀ last, p.Ends (fun last' _ => last' = last) last

/-- Quiet code that cannot fail. -/
def ClientM.Plain {α : Type} (p : ClientM α) : Prop :=
  ∀ last, p.Ends (fun last' r => last' = last ∧ ∃ a, r = .ok a) last

section

variable {α β : Type} {last : Option PostReply}
  {T : Option PostReply → Except FederationError β → Prop}

theorem ends_bind {p : ClientM α} {f : α → ClientM β}
    {Q : Option PostReply → Except FederationError α → Prop} (hp : p.Ends Q last)
    (hok : ∀ last a, Q last (.ok a) → (f a).Ends T last)
    (herror : ∀ last e, Q last (.error e) → T last (.error e)) : (p >>= f).Ends T last := by
  show (p.run >>= ExceptT.bindCont f).Outline _ _ T last
  refine Prog.Outline.bind hp fun last' r hr => ?_
  cases r with
  | ok a => exact hok last' a hr
  | error e => exact herror last' e hr

theorem ClientM.Plain.bind {p : ClientM α} {f : α → ClientM β} (hp : p.Plain)
    (hf : ∀ a, (f a).Ends T last) : (p >>= f).Ends T last := by
  refine ends_bind (hp last) ?_ ?_
  · intro last' a h
    obtain ⟨rfl, -⟩ := h
    exact hf a
  · intro last' e h
    obtain ⟨-, a, ha⟩ := h
    cases ha

theorem ClientM.Quiet.bind {p : ClientM α} {f : α → ClientM β} (hp : p.Quiet)
    (hf : ∀ a, (f a).Ends T last) (herror : ∀ e, T last (.error e)) : (p >>= f).Ends T last := by
  refine ends_bind (hp last) ?_ ?_
  · intro last' a h
    subst h
    exact hf a
  · intro last' e h
    subst h
    exact herror e

theorem plain_pure (a : α) : (pure a : ClientM α).Plain := fun _ => ⟨rfl, a, rfl⟩

theorem plain_perform {c : ClientCall} (h : ∀ r last, c.listing r last = last) :
    (ClientM.perform c).Plain := fun last => ⟨trivial, fun r => ⟨h r last, r, rfl⟩⟩

/-- A failure that is only looked at is not one of the code around it. -/
theorem plain_lift {p : ClientM α} (hp : p.Quiet) :
    ClientM.Plain (ExceptT.lift p.run) := by
  intro last
  show (p.run >>= fun r => Prog.ret (Except.ok r)).Outline _ _ _ last
  exact Prog.Outline.bind (hp last) fun last' r h => ⟨h, r, rfl⟩

theorem quiet_pure (a : α) : (pure a : ClientM α).Quiet := fun _ => rfl

theorem quiet_throw (e : FederationError) : (throw e : ClientM α).Quiet := fun _ => rfl

end

namespace LeafClient

variable (env : ClientEnv) (cl : LeafClient)

theorem plain_sessionForPost : cl.sessionForPost.Plain := by
  unfold sessionForPost
  split
  · exact plain_perform fun _ _ => rfl
  · exact plain_pure _

theorem plain_captureSession (reply : HttpReply) : (cl.captureSession reply).Plain := by
  unfold captureSession
  split
  · exact plain_perform fun _ _ => rfl
  · exact plain_pure _

theorem plain_clearSession : cl.clearSession.Plain := by
  unfold clearSession
  split
  · exact plain_perform fun _ _ => rfl
  · exact plain_pure _

/-- `send_once` gives what its reply says, and the reply counts if it is to a `tools/list`. -/
theorem ends_sendOnce (body : Value) (last : Option PostReply) :
    (cl.sendOnce env body).Ends
      (fun last' r => ∃ reply : PostReply,
        last' = (if methodOf body = "tools/list" then some reply else last) ∧
          r.toOption = PostReply.parsed env reply) last := by
  unfold sendOnce
  refine (plain_sessionForPost cl).bind fun sessionId => ?_
  refine ⟨trivial, fun reply => ?_⟩
  cases reply with
  | error e => exact ⟨.error e, rfl, rfl⟩
  | ok reply =>
      refine (plain_captureSession cl reply).bind fun _ => ?_
      refine (?_ : ClientM.Ends (cl.finishReply env reply) _ _)
      unfold finishReply
      cases hbody : reply.body with
      | error e =>
          refine ⟨.ok reply, rfl, ?_⟩
          simp only [PostReply.parsed, hbody]
          rfl
      | ok bytes =>
          refine ⟨.ok reply, rfl, ?_⟩
          simp only [PostReply.parsed, hbody]
          rfl

theorem ends_sendOnce_listing {body : Value} (h : methodOf body = "tools/list")
    (last : Option PostReply) :
    (cl.sendOnce env body).Ends
      (fun last' r => ∃ reply : PostReply, last' = some reply ∧
        r.toOption = PostReply.parsed env reply) last := by
  have hsend := ends_sendOnce env cl body last
  simp only [if_pos h] at hsend
  exact hsend

theorem quiet_sendOnce {body : Value} (h : methodOf body ≠ "tools/list") :
    (cl.sendOnce env body).Quiet := by
  intro last
  refine Prog.Outline.imp (fun last' r hr => ?_) (ends_sendOnce env cl body last)
  obtain ⟨reply, hlast, -⟩ := hr
  rw [hlast, if_neg h]

theorem plain_notifyInitialized : (cl.notifyInitialized env).Plain := by
  have hquiet : (cl.sendOnce env initializedNotification).Quiet :=
    quiet_sendOnce env cl (by decide)
  intro last
  exact (plain_lift hquiet).bind fun _ => plain_pure () last

theorem quiet_initializeLeaf : (cl.initializeLeaf env).Quiet := by
  intro last
  unfold initializeLeaf
  refine (plain_clearSession cl).bind fun _ => ?_
  refine (plain_perform fun _ _ => rfl).bind fun id => ?_
  have hmethod : methodOf (rpcRequest id "initialize" initializeParams) ≠ "tools/list" := by
    rw [methodOf_rpcRequest]
    decide
  refine (quiet_sendOnce env cl hmethod).bind (fun sr => ?_) fun _ => rfl
  unfold finishInitialize
  simp only
  split
  · refine (plain_notifyInitialized env cl).bind fun _ => ?_
    cases sr.2.get? "result" with
    | some result => exact quiet_pure result last
    | none => exact quiet_throw _ last
  · exact quiet_throw _ last

/-- Only a 404 or a 400 is tried again. -/
theorem ends_needsRetry (status : Nat) (last : Option PostReply) :
    (cl.needsRetry status).Ends
      (fun last' r => last' = last ∧ ∃ b, r = .ok b ∧ (b = true → isSuccess status = false))
      last := by
  unfold needsRetry
  split
  · split
    · next h => exact ⟨rfl, true, rfl, fun _ => by rw [h]; rfl⟩
    · split
      · next h =>
          subst h
          exact ⟨trivial, fun r => ⟨rfl, r.isNone, rfl, fun _ => rfl⟩⟩
      · exact ⟨rfl, false, rfl, fun h => by cases h⟩
  · exact ⟨rfl, false, rfl, fun h => by cases h⟩

/-- What a request ends in when its own reply is the last one. -/
theorem ends_byStatus {reply : PostReply} {status : Nat} {value : Value} (e : FederationError)
    (h : PostReply.parsed env reply = some (status, value)) :
    ClientM.Ends (if isSuccess status then pure value else throw e)
      (fun last r => r.toOption = last.bind (PostReply.response env)) (some reply) := by
  have hresponse := PostReply.response_of_parsed h
  split
  · next hok => exact (hresponse.trans (if_pos hok)).symm
  · next hok => exact (hresponse.trans (if_neg hok)).symm

/-- `send_request` gives the body of the last reply, if that is a success. -/
theorem ends_sendRequest {body : Value} (hbody : methodOf body = "tools/list")
    (last : Option PostReply) :
    (cl.sendRequest env body).Ends
      (fun last' r => r.toOption = last'.bind (PostReply.response env)) last := by
  unfold sendRequest
  refine ends_bind (ends_sendOnce_listing env cl hbody last) ?_ ?_
  · intro last' sr h
    obtain ⟨reply, rfl, hparsed⟩ := h
    refine ends_bind (ends_needsRetry cl sr.1 (some reply)) ?_ ?_
    · intro last' b h
      obtain ⟨rfl, b', hb, hretry⟩ := h
      cases hb
      cases b with
      | false => exact ends_byStatus env _ hparsed.symm
      | true =>
          -- The reply that made the client try again stays the last one if the handshake fails.
          have hnone : PostReply.response env reply = none := by
            rw [PostReply.response_of_parsed hparsed.symm, hretry rfl]
            rfl
          refine (quiet_initializeLeaf env cl).bind (fun _ => ?_) fun e => hnone.symm
          refine ends_bind (ends_sendOnce_listing env cl hbody (some reply)) ?_ ?_
          · intro last' sr' h
            obtain ⟨reply', rfl, hparsed'⟩ := h
            exact ends_byStatus env _ hparsed'.symm
          · intro last' e h
            obtain ⟨reply', rfl, hparsed'⟩ := h
            exact (PostReply.response_of_parsed_none hparsed'.symm).symm
    · intro last' e h
      obtain ⟨-, b, hb, -⟩ := h
      cases hb
  · intro last' e h
    obtain ⟨reply, rfl, hparsed⟩ := h
    exact (PostReply.response_of_parsed_none hparsed.symm).symm

/-- **What `list_tools` gives**: the tools read from the last reply, or an error. -/
theorem ends_listTools (last : Option PostReply) :
    (cl.listTools env).Ends
      (fun last' r => r.toOption = last'.bind (PostReply.toolsRead env)) last := by
  have hread : ∀ last : Option PostReply, last.bind (PostReply.toolsRead env)
      = (last.bind (PostReply.response env)).map fun v => (PostReply.toolsArray v).getD [] := by
    intro last
    cases last <;> rfl
  unfold listTools listItems
  refine (plain_perform fun _ _ => rfl).bind fun id => ?_
  refine ends_bind (ends_sendRequest env cl (methodOf_rpcRequest id _ _) last) ?_ ?_
  · intro last' response h
    show some _ = last'.bind (PostReply.toolsRead env)
    rw [hread, ← h]
    rfl
  · intro last' e h
    show none = last'.bind (PostReply.toolsRead env)
    rw [hread, ← h]
    rfl

end LeafClient

/-! ### Tasks and the last reply -/

/-- What a task has come to: the last reply to a `tools/list`, and the cells, if nobody
else writes them. -/
structure Progress where
  last : Option PostReply
  cells : LeafCells

def LeafCall.progress : (c : LeafCall) → c.Reply → Progress → Progress
  | .client c, r, g => { g with last := c.listing r g.last }
  | .updateCells f, _, g => { g with cells := f g.cells }
  | _, _, g => g

/-- The cached tools and the time of their refresh are the same. -/
def LeafCells.SameTools (before after : LeafCells) : Prop :=
  after.cachedTools = before.cachedTools ∧ after.lastToolRefresh = before.lastToolRefresh

/-- A task writes the tools of the last reply, or else leaves the tools alone. -/
def Progress.Writes (env : ClientEnv) (g : Progress) : LeafCall → Prop
  | .updateCells f =>
      (∀ cells : LeafCells, cells.SameTools (f cells)) ∨
        ∃ t tools, f = LeafCells.setTools t tools ∧
          g.last.bind (PostReply.toolsRead env) = some tools
  | _ => True

/-- The cells hold the tools of the last reply, or what they held before if it had none. -/
def Progress.Follows (env : ClientEnv) (before : LeafCells) (g : Progress) : Prop :=
  match g.last.bind (PostReply.toolsRead env) with
  | none => before.SameTools g.cells
  | some tools => g.cells.cachedTools = tools

/-- A task begun at `g` keeps to `Writes`, and ends with `T`. -/
def LeafM.Ends {α : Type} (env : ClientEnv) (p : LeafM α) (T : Progress → α → Prop)
    (g : Progress) : Prop :=
  p.Outline LeafCall.progress (Progress.Writes env) T g

section

variable {α β : Type} {env : ClientEnv} {T : Progress → β → Prop} {g : Progress}

theorem LeafM.Ends.bind {p : LeafM α} {f : α → LeafM β} {Q : Progress → α → Prop}
    (hp : p.Ends env Q g) (hf : ∀ g a, Q g a → (f a).Ends env T g) : (p >>= f).Ends env T g :=
  Prog.Outline.bind hp hf

theorem ends_now {k : Nat → LeafM β} (h : ∀ t, (k t).Ends env T g) :
    (LeafM.now >>= k).Ends env T g := ⟨trivial, h⟩

theorem ends_readCells {k : LeafCells → LeafM β} (h : ∀ cells, (k cells).Ends env T g) :
    (LeafM.readCells >>= k).Ends env T g := ⟨trivial, h⟩

theorem ends_updateCells {f : LeafCells → LeafCells} {T : Progress → Unit → Prop}
    (hwrites : g.Writes env (.updateCells f)) (h : T { g with cells := f g.cells } ()) :
    (LeafM.updateCells f).Ends env T g := ⟨hwrites, fun _ => h⟩

/-- Asking for the tools, and then what follows on the answer. -/
theorem ends_ask_listTools {cl : LeafClient} {k : Except FederationError (List Value) → LeafM β}
    (h : ∀ g' r, g'.cells = g.cells → r.toOption = g'.last.bind (PostReply.toolsRead env) →
      (k r).Ends env T g') : (LeafM.ask (cl.listTools env) >>= k).Ends env T g := by
  have hask : (LeafM.ask (cl.listTools env)).Ends env
      (fun g' r => r.toOption = g'.last.bind (PostReply.toolsRead env) ∧ g'.cells = g.cells) g := by
    refine Prog.Outline.interp Progress.last (fun g' => g'.cells = g.cells) ?_ rfl
      (LeafClient.ends_listTools env cl g.last)
    intro c g' hg' _
    exact ⟨trivial, fun r => ⟨rfl, hg'⟩⟩
  exact hask.bind fun g' r hr => h g' r hr.2 hr.1

end

section

variable (env : ClientEnv) (cl : LeafClient) (g : Progress)

/-- Storing the tools that were read. -/
theorem ends_setTools {before : LeafCells} {g : Progress} {tools : List Value}
    (h : some tools = g.last.bind (PostReply.toolsRead env)) (t : Nat) :
    (LeafM.updateCells (LeafCells.setTools t tools)).Ends env
      (fun g' _ => g'.Follows env before ∧
        g'.last.bind (PostReply.toolsRead env) = some tools) g := by
  refine ends_updateCells (Or.inr ⟨t, tools, rfl, h.symm⟩) ⟨?_, h.symm⟩
  rw [Progress.Follows, ← h]
  rfl

/-- A reply without tools, and so nothing to store. -/
theorem Progress.follows_of_none {before : LeafCells} {g : Progress}
    (h : g.last.bind (PostReply.toolsRead env) = none) (hsame : before.SameTools g.cells) :
    g.Follows env before := by
  rw [Follows, h]
  exact hsame

theorem ends_fetchTools :
    (fetchTools env cl).Ends env (fun g' _ => g'.Follows env g.cells) g := by
  refine ends_ask_listTools fun g' r hcells hr => ?_
  cases r with
  | ok tools =>
      refine ends_now fun t => ?_
      exact Prog.Outline.imp (fun _ _ h => h.1) (ends_setTools env hr t)
  | error e =>
      refine Progress.follows_of_none env hr.symm ?_
      rw [hcells]
      exact ⟨rfl, rfl⟩

/-- `refresh_tools` reports the number of tools it has read, and else an error. -/
theorem ends_refreshTask :
    (refreshTask env cl).Ends env
      (fun g' r => g'.Follows env g.cells ∧
        r.toOption = (g'.last.bind (PostReply.toolsRead env)).map List.length) g := by
  refine ends_ask_listTools fun g' r hcells hr => ?_
  cases r with
  | ok tools =>
      refine ends_now fun t => ?_
      refine (ends_setTools env hr t).bind fun g'' _ h => ⟨h.1, ?_⟩
      rw [h.2]
      rfl
  | error e =>
      refine ⟨Progress.follows_of_none env hr.symm ?_, ?_⟩
      · rw [hcells]
        exact ⟨rfl, rfl⟩
      · rw [← hr]
        rfl

/-! #### The monitor -/

/-- No reply has come in, and the tools are as they were. -/
def Progress.Untouched (before after : Progress) : Prop :=
  after.last = before.last ∧ before.cells.SameTools after.cells

theorem ends_write {f : LeafCells → LeafCells}
    (h : ∀ cells : LeafCells, cells.SameTools (f cells)) :
    (LeafM.updateCells f).Ends env (fun g' _ => g.Untouched g') g :=
  ends_updateCells (Or.inl h) ⟨rfl, h g.cells⟩

theorem ends_markHealthy : LeafM.markHealthy.Ends env (fun g' _ => g.Untouched g') g :=
  ends_now fun _ => ends_write env g fun _ => ⟨rfl, rfl⟩

theorem ends_recordFailure : LeafM.recordFailure.Ends env (fun g' _ => g.Untouched g') g :=
  ends_now fun _ => ⟨Or.inl fun _ => ⟨rfl, rfl⟩, fun _ => ⟨rfl, rfl, rfl⟩⟩

theorem ends_healthCheck : cl.healthCheck.Ends env (fun g' _ => g' = g) g := by
  refine ⟨trivial, fun r => ?_⟩
  cases r <;> rfl

theorem Progress.Follows.mono {before between : LeafCells} {g : Progress}
    (h : g.Follows env between) (hsame : before.SameTools between) : g.Follows env before := by
  unfold Follows at h ⊢
  split at h
  · exact ⟨h.1.trans hsame.1, h.2.trans hsame.2⟩
  · exact h

/-- The monitor touches the tools of a leaf only by fetching them. -/
theorem ends_monitorRound (config : HealthCheckConfig) (cells : LeafCells) :
    (monitorRound env cl config).Ends env (fun g' _ => g'.Follows env cells) ⟨none, cells⟩ := by
  have huntouched : ∀ g' : Progress, Progress.Untouched ⟨none, cells⟩ g' →
      g'.Follows env cells := fun g' h =>
    Progress.follows_of_none env (by rw [h.1]; rfl) h.2
  refine (ends_healthCheck env cl _).bind fun g' r hg' => ?_
  subst hg'
  cases r with
  | ok _ =>
      refine ends_readCells fun seen => ?_
      refine (ends_markHealthy env _).bind fun g' _ hg' => ?_
      split
      · exact Prog.Outline.imp (fun _ _ h => h.mono env hg'.2) (ends_fetchTools env cl g')
      · exact huntouched g' hg'
  | error e =>
      refine (ends_recordFailure env _).bind fun g' failures hg' => ?_
      split
      · refine Prog.Outline.imp (fun g'' _ h => huntouched g'' ?_)
          (ends_write env g' fun _ => ⟨rfl, rfl⟩)
        exact ⟨h.1.trans hg'.1, h.2.1.trans hg'.2.1, h.2.2.trans hg'.2.2⟩
      · exact huntouched g' hg'

end

end McpFederation
