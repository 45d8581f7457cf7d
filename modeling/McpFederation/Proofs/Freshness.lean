/-
Refreshes of one leaf that overlap.

The leaf changes its tools as it likes; `version` counts the changes, and `lists` says
what each version is.  Any number of refreshes of the leaf are under way at once, of any
of the three kinds, and each of them asks for the tools and then stores what it got.  The
reply to a `tools/list` carries some version between the one at its request and the one at
its arrival.

Nothing orders the stores: there is no version in the cache and no refresh waits for
another.  So a refresh that was asked early and stores late brings an old list back, and
`slow_refresh_brings_back` is such a run.  What can be said of every run is when it
happens.  `overwritten_by_older` says that the list it replaces was stored while it was
under way; a refresh that no other store falls into never makes the cache older.

The exchange of a refresh is taken to begin at its last step before the reply.  Whatever
the network does in between belongs to it.
-/
import Mathlib.Logic.Relation
import McpFederation.Proofs.Replies

namespace McpFederation

open Relation (ReflTransGen)

/-! ### The refreshes of a leaf -/

/-- The refreshes that may run at any time. -/
inductive Refresh where
  /-- `federation__refresh`, for one leaf or for all. -/
  | onDemand
  /-- The one `aggregated_tools` spawns when the TTL has passed. -/
  | background
  /-- A round of the monitor, which refreshes a leaf it finds up again. -/
  | recovery (config : HealthCheckConfig)

def Refresh.task (env : ClientEnv) (cl : LeafClient) : Refresh → LeafM Unit
  | .onDemand => do let _ ← refreshTask env cl
  | .background => backgroundRefresh env cl
  | .recovery config => monitorRound env cl config

/-- A point in time: the leaf's version, and how often a list has been stored. -/
structure Moment where
  version : Nat
  stores : Nat

/-- The entry of the leaf, the leaf's version, and what is known of each refresh. -/
structure Refreshing (ι : Type) where
  cells : LeafCells
  version : Nat
  /-- The version of the cached list, if it is the leaf's. -/
  held : Option Nat
  stores : Nat
  /-- The last step of each refresh. -/
  since : ι → Moment
  /-- The reply each refresh has got, with the version it carries and the number of stores
  when it was asked for. -/
  heard : ι → Option (PostReply × Moment)

namespace Refreshing

variable {ι : Type} [DecidableEq ι] (i : ι) (s : Refreshing ι)

def moment : Moment := ⟨s.version, s.stores⟩

/-- The leaf changes its tools. -/
def change : Refreshing ι := { s with version := s.version + 1 }

/-- Refresh `i` has taken a step. -/
def stamp : Refreshing ι := { s with since := Function.update s.since i s.moment }

/-- It gets a reply that carries version `v`. -/
def hear (reply : PostReply) (v : Nat) : Refreshing ι :=
  { s with heard := Function.update s.heard i (some (reply, ⟨v, (s.since i).stores⟩)) }

/-- It stores the list of its reply. -/
def store (t : Nat) (tools : List Value) : Refreshing ι :=
  { s with
    cells := s.cells.setTools t tools
    held := (s.heard i).map (·.2.version)
    stores := s.stores + 1 }

def write (f : LeafCells → LeafCells) : Refreshing ι := { s with cells := f s.cells }

/-- Calls that neither ask for tools nor look at the cells. -/
def Silent : LeafCall → Prop
  | .client (.post p) => methodOf p.body ≠ "tools/list"
  | .readCells | .updateCells _ => False
  | _ => True

/-- How a call of refresh `i` may be answered, and what it does.  Whatever `list_tools`
reads as a list of tools is the leaf's list at some time during the exchange. -/
inductive Answers (env : ClientEnv) (lists : Nat → List Value) (i : ι) :
    (c : LeafCall) → Refreshing ι → c.Reply → Refreshing ι → Prop
  | silent {c : LeafCall} {s : Refreshing ι} {r : c.Reply} (hc : Silent c) :
      Answers env lists i c s r (s.stamp i)
  | listed {p : HttpPost} {s : Refreshing ι} {r : PostReply} {v : Nat}
      (hp : methodOf p.body = "tools/list") (hsince : (s.since i).version ≤ v)
      (hnow : v ≤ s.version)
      (hcarries : ∀ tools, r.toolsRead env = some tools → tools = lists v) :
      Answers env lists i (.client (.post p)) s r ((s.hear i r v).stamp i)
  | read {s : Refreshing ι} : Answers env lists i .readCells s s.cells (s.stamp i)
  | stored {s : Refreshing ι} {t : Nat} {tools : List Value} :
      Answers env lists i (.updateCells (LeafCells.setTools t tools)) s
        (s.cells.setTools t tools) ((s.store i t tools).stamp i)
  | written {s : Refreshing ι} {f : LeafCells → LeafCells}
      (hf : ∀ t tools, f ≠ LeafCells.setTools t tools) :
      Answers env lists i (.updateCells f) s (f s.cells) ((s.write f).stamp i)

end Refreshing

/-- The refreshes under way, over the entry of their leaf. -/
abbrev Refreshes (ι : Type) := Pool ι LeafCall LeafCall.Reply Unit (Refreshing ι)

section

variable {ι : Type} [DecidableEq ι]

/-- One step: of a refresh, or of the leaf. -/
abbrev Refreshes.Step (env : ClientEnv) (lists : Nat → List Value) :
    Refreshes ι → Refreshes ι → Prop :=
  Pool.Moves (Refreshing.Answers env lists) fun s s' => s' = s.change

/-- The refreshes are about to begin.  The cache may hold a list of the leaf's, or none. -/
structure Refreshes.Starts (env : ClientEnv) (cl : LeafClient) (lists : Nat → List Value)
    (kinds : ι → Refresh) (p : Refreshes ι) : Prop where
  threads : ∀ i, p.threads i = (kinds i).task env cl
  held : ∀ v, p.shared.held = some v → v ≤ p.shared.version ∧ p.shared.cells.cachedTools = lists v
  since : ∀ i, p.shared.since i = p.shared.moment
  heard : ∀ i, p.shared.heard i = none

end

/-! ### What a refresh stores -/

/-- A refresh stores what it reads in its last reply, and touches the tools in no other way. -/
def WritesRead (env : ClientEnv) (last : Option PostReply) (c : LeafCall) : Prop :=
  Progress.Writes env ⟨last, {}⟩ c

theorem Refresh.outline_task (env : ClientEnv) (cl : LeafClient) (kind : Refresh) :
    (kind.task env cl).Outline LeafCall.listing (WritesRead env) (fun _ _ => True) none := by
  have hforget : ∀ {T : Progress → Unit → Prop}, (kind.task env cl).Ends env T ⟨none, {}⟩ →
      (kind.task env cl).Outline LeafCall.listing (WritesRead env) (fun _ _ => True) none := by
    intro T h
    refine Prog.Outline.record Progress.last ?_ ?_ h
    · intro c r g
      cases c <;> rfl
    · intro g c hc
      cases c <;> exact hc
  cases kind with
  | onDemand =>
      refine hforget (T := fun _ _ => True) ?_
      exact (ends_refreshTask env cl ⟨none, {}⟩).bind fun _ _ _ => trivial
  | background => exact hforget (ends_fetchTools env cl ⟨none, {}⟩)
  | recovery config => exact hforget (ends_monitorRound env cl config {})

theorem LeafCells.setTools_inj {t t' : Nat} {tools tools' : List Value}
    (h : setTools t tools = setTools t' tools') : tools = tools' :=
  congrArg LeafCells.cachedTools (congrFun h {})

/-- A write that is a store writes the tools of the last reply. -/
theorem WritesRead.stored {env : ClientEnv} {last : Option PostReply} {t : Nat}
    {tools : List Value} (h : WritesRead env last (.updateCells (LeafCells.setTools t tools))) :
    last.bind (PostReply.toolsRead env) = some tools := by
  rcases h with hsame | ⟨t', tools', heq, hread⟩
  · have hnone := (hsame {}).2
    cases hnone
  · rw [LeafCells.setTools_inj heq]
    exact hread

/-- A write that is not leaves them alone. -/
theorem WritesRead.written {env : ClientEnv} {last : Option PostReply}
    {f : LeafCells → LeafCells} (h : WritesRead env last (.updateCells f))
    (hf : ∀ t tools, f ≠ LeafCells.setTools t tools) (cells : LeafCells) :
    (f cells).cachedTools = cells.cachedTools := by
  rcases h with hsame | ⟨t, tools, heq, -⟩
  · exact (hsame cells).1
  · exact absurd heq (hf t tools)

/-! ### The invariant -/

namespace Refreshing

variable {ι : Type} {env : ClientEnv} {lists : Nat → List Value} {s s' : Refreshing ι} {i : ι}

/-- If nothing has been stored since `m`, the cached list is not newer than `m`. -/
def Dated (s : Refreshing ι) (m : Moment) : Prop :=
  m.stores ≤ s.stores ∧ (m.stores = s.stores → ∀ v, s.held = some v → v ≤ m.version)

structure Fresh (env : ClientEnv) (lists : Nat → List Value) (s : Refreshing ι) : Prop where
  /-- The cache holds a list the leaf has had. -/
  held : ∀ v, s.held = some v → v ≤ s.version ∧ s.cells.cachedTools = lists v
  since : ∀ i, s.Dated (s.since i)
  /-- What a refresh has got is a list the leaf has had, no older than its request. -/
  heard : ∀ i reply m, s.heard i = some (reply, m) →
    s.Dated m ∧ m.version ≤ s.version ∧
      ∀ tools, reply.toolsRead env = some tools → tools = lists m.version

theorem Fresh.dated_moment (h : s.Fresh env lists) : s.Dated s.moment :=
  ⟨Nat.le_refl _, fun _ v hv => (h.held v hv).1⟩

theorem Fresh.change (h : s.Fresh env lists) : s.change.Fresh env lists where
  held := fun v hv => ⟨Nat.le_succ_of_le (h.held v hv).1, (h.held v hv).2⟩
  since := h.since
  heard := fun i reply m hm =>
    ⟨(h.heard i reply m hm).1, Nat.le_succ_of_le (h.heard i reply m hm).2.1,
      (h.heard i reply m hm).2.2⟩

/-- A moment before a store does not know what is stored. -/
theorem Dated.store {m : Moment} (h : s.Dated m) (t : Nat) (tools : List Value) :
    (s.store i t tools).Dated m := by
  refine ⟨Nat.le_succ_of_le h.1, fun hstores => ?_⟩
  exact absurd (hstores ▸ h.1) (Nat.not_succ_le_self _)

theorem Fresh.store (h : s.Fresh env lists) {t : Nat} {tools : List Value}
    (hread : ((s.heard i).map Prod.fst).bind (PostReply.toolsRead env) = some tools) :
    (s.store i t tools).Fresh env lists where
  held := by
    intro v hv
    change (s.heard i).map (·.2.version) = some v at hv
    show v ≤ s.version ∧ tools = lists v
    cases hheard : s.heard i with
    | none =>
        rw [hheard] at hv
        cases hv
    | some heard =>
        rw [hheard] at hv hread
        obtain ⟨-, hversion, hcarries⟩ := h.heard i heard.1 heard.2 hheard
        cases hv
        exact ⟨hversion, hcarries tools hread⟩
  since := fun j => (h.since j).store t tools
  heard := fun j reply m hm =>
    ⟨(h.heard j reply m hm).1.store t tools, (h.heard j reply m hm).2⟩

theorem Fresh.write (h : s.Fresh env lists) {f : LeafCells → LeafCells}
    (hf : ∀ cells : LeafCells, (f cells).cachedTools = cells.cachedTools) :
    (s.write f).Fresh env lists where
  held := fun v hv => ⟨(h.held v hv).1, (hf s.cells).trans (h.held v hv).2⟩
  since := h.since
  heard := h.heard

variable [DecidableEq ι]

/-- A step of `i` brings its own time up to date, and nothing else. -/
theorem Fresh.stamp (h : s.Fresh env lists) (i : ι) : (s.stamp i).Fresh env lists where
  held := h.held
  since := by
    intro j
    show s.Dated (Function.update s.since i s.moment j)
    by_cases hj : j = i
    · subst hj
      rw [Function.update_self]
      exact h.dated_moment
    · rw [Function.update_of_ne hj]
      exact h.since j
  heard := h.heard

/-- A reply is no older than its request, which was no older than the step before it. -/
theorem Fresh.hear (h : s.Fresh env lists) {r : PostReply} {v : Nat}
    (hsince : (s.since i).version ≤ v) (hnow : v ≤ s.version)
    (hcarries : ∀ tools, r.toolsRead env = some tools → tools = lists v) :
    (s.hear i r v).Fresh env lists where
  held := h.held
  since := h.since
  heard := by
    intro j reply m hm
    change Function.update s.heard i _ j = _ at hm
    by_cases hj : j = i
    · subst hj
      rw [Function.update_self, Option.some.injEq, Prod.mk.injEq] at hm
      obtain ⟨rfl, rfl⟩ := hm
      refine ⟨⟨(h.since j).1, fun hstores w hw => ?_⟩, hnow, hcarries⟩
      exact Nat.le_trans ((h.since j).2 hstores w hw) hsince
    · rw [Function.update_of_ne hj] at hm
      exact h.heard j reply m hm

/-- **One call of a refresh** keeps the invariant. -/
theorem Fresh.answers {c : LeafCall} {r : c.Reply} (h : s.Fresh env lists)
    (hwrites : WritesRead env ((s.heard i).map Prod.fst) c) (ha : Answers env lists i c s r s') :
    s'.Fresh env lists := by
  cases ha with
  | silent hc => exact h.stamp i
  | listed hp hsince hnow hcarries => exact (h.hear hsince hnow hcarries).stamp i
  | read => exact h.stamp i
  | stored => exact (h.store hwrites.stored).stamp i
  | written hf => exact (h.write (hwrites.written hf)).stamp i

end Refreshing

/-! ### Runs -/

section

variable {ι : Type} {env : ClientEnv} {cl : LeafClient} {lists : Nat → List Value}
  {kinds : ι → Refresh} {p q : Refreshes ι}

namespace Refreshes

/-- The entry is in order, and every refresh goes on as it must at what it has heard. -/
structure Sound (env : ClientEnv) (lists : Nat → List Value) (p : Refreshes ι) : Prop where
  fresh : p.shared.Fresh env lists
  threads : ∀ i, (p.threads i).Outline LeafCall.listing (WritesRead env) (fun _ _ => True)
    ((p.shared.heard i).map Prod.fst)

theorem sound_start (h : p.Starts env cl lists kinds) : p.Sound env lists where
  fresh :=
    { held := h.held
      since := by
        intro i
        rw [h.since i]
        exact ⟨Nat.le_refl _, fun _ v hv => (h.held v hv).1⟩
      heard := by
        intro i reply m hm
        rw [h.heard i] at hm
        cases hm }
  threads := by
    intro i
    rw [h.threads i, h.heard i]
    exact (kinds i).outline_task env cl

variable [DecidableEq ι]

theorem heard_self {i : ι} {c : LeafCall} {s s' : Refreshing ι} {r : c.Reply}
    (h : Refreshing.Answers env lists i c s r s') :
    (s'.heard i).map Prod.fst = c.listing r ((s.heard i).map Prod.fst) := by
  cases h with
  | silent hc =>
      cases c with
      | client c =>
          cases c with
          | post p => exact (if_neg hc).symm
          | nextRequestId => rfl
          | readSession => rfl
          | writeSession id => rfl
      | getOk url => rfl
      | now => rfl
      | readCells => exact hc.elim
      | updateCells f => exact hc.elim
  | listed hp hsince hnow hcarries =>
      show (Function.update s.heard i (some _) i).map Prod.fst = _
      rw [Function.update_self]
      exact (if_pos hp).symm
  | read => rfl
  | stored => rfl
  | written hf => rfl

theorem heard_of_ne {i j : ι} {c : LeafCall} {s s' : Refreshing ι} {r : c.Reply}
    (h : Refreshing.Answers env lists i c s r s') (hj : j ≠ i) :
    (s'.heard j).map Prod.fst = (s.heard j).map Prod.fst := by
  cases h with
  | listed hp hsince hnow hcarries =>
      exact congrArg _ (Function.update_of_ne hj ..)
  | silent hc => rfl
  | read => rfl
  | stored => rfl
  | written hf => rfl

/-- **One step** keeps it. -/
theorem Sound.step (h : p.Sound env lists) (hstep : Step env lists p q) : q.Sound env lists := by
  refine ⟨?_, ?_⟩
  · cases hstep with
    | turn i r s hi ha =>
        have hthread := h.threads i
        rw [hi] at hthread
        exact h.fresh.answers hthread.1 ha
    | outside s hs =>
        subst hs
        exact h.fresh.change
  · refine Pool.Moves.outline (fun s i => (s.heard i).map Prod.fst) heard_self heard_of_ne ?_
      hstep h.threads
    intro s s' j hs
    subst hs
    rfl

theorem Sound.run (h : p.Sound env lists) (hrun : ReflTransGen (Step env lists) p q) :
    q.Sound env lists := by
  induction hrun with
  | refl => exact h
  | tail _ hstep ih => exact ih.step hstep

/-- The step is a store of refresh `i`, whose reply is of the moment `m`. -/
def Stores (p q : Refreshes ι) (i : ι) (m : Moment) : Prop :=
  ∃ t tools k reply, p.threads i = .call (.updateCells (LeafCells.setTools t tools)) k ∧
    p.shared.heard i = some (reply, m) ∧ q.shared.cells = p.shared.cells.setTools t tools

/-- What a step makes of the cached list: nothing, or it is the store of some refresh. -/
theorem Sound.held_step (h : p.Sound env lists) (hstep : Step env lists p q) :
    q.shared.held = p.shared.held ∨
      ∃ i m, p.Stores q i m ∧ q.shared.held = some m.version ∧ p.shared.Dated m := by
  cases hstep with
  | outside s hs =>
      subst hs
      exact Or.inl rfl
  | turn i r s hi ha =>
      have hthread := h.threads i
      rw [hi] at hthread
      cases ha with
      | silent hc => exact Or.inl rfl
      | listed hp hsince hnow hcarries => exact Or.inl rfl
      | read => exact Or.inl rfl
      | written hf => exact Or.inl rfl
      | stored =>
          have hread := hthread.1.stored
          cases hheard : p.shared.heard i with
          | none =>
              rw [hheard] at hread
              cases hread
          | some heard =>
              refine Or.inr ⟨i, heard.2, ⟨_, _, _, heard.1, hi, hheard, rfl⟩, ?_, ?_⟩
              · show (p.shared.heard i).map (·.2.version) = _
                rw [hheard]
                rfl
              · exact (h.fresh.heard i heard.1 heard.2 hheard).1

end Refreshes

end

/--
**When the cache gets older.**

In every run, whatever the leaf does and however the refreshes overlap, the cache holds a
list the leaf has had.  A step replaces it by an older one only if it is the store of a
refresh and a list has been stored since that refresh asked.
-/
theorem overwritten_by_older {ι : Type} [DecidableEq ι] {env : ClientEnv} {cl : LeafClient}
    {lists : Nat → List Value} {kinds : ι → Refresh} {start p q : Refreshes ι}
    (hstart : start.Starts env cl lists kinds)
    (hrun : ReflTransGen (Refreshes.Step env lists) start p) (hstep : Refreshes.Step env lists p q)
    {v : Nat} (hv : p.shared.held = some v) :
    p.shared.cells.cachedTools = lists v ∧
      ∃ v', q.shared.held = some v' ∧ q.shared.cells.cachedTools = lists v' ∧
        (v' < v → ∃ i m, p.Stores q i m ∧ m.version = v' ∧ m.stores < p.shared.stores) := by
  have hsound := (Refreshes.sound_start hstart).run hrun
  have hcached := (hsound.step hstep).fresh.held
  refine ⟨(hsound.fresh.held v hv).2, ?_⟩
  rcases hsound.held_step hstep with hheld | ⟨i, m, hstores, hheld, hdated⟩
  · rw [hv] at hheld
    exact ⟨v, hheld, (hcached v hheld).2, fun hlt => absurd hlt (Nat.lt_irrefl v)⟩
  · refine ⟨m.version, hheld, (hcached _ hheld).2, fun hlt => ⟨i, m, hstores, rfl, ?_⟩⟩
    refine Nat.lt_of_le_of_ne hdated.1 fun hsame => ?_
    exact absurd (hdated.2 hsame v hv) (Nat.not_le_of_lt hlt)

/-! ### A slow refresh -/

/-- The text of a reply with one tool, and what it decodes to. -/
def bodyWith (name : String) : String :=
  "\x7b\"result\":\x7b\"tools\":[\"" ++ name ++ "\"]\x7d\x7d"

def valueWith (name : String) : Value :=
  .obj [("result", .obj [("tools", .array [.string name])])]

def replyWith (name : String) : PostReply :=
  .ok { status := 200, contentType := "application/json", body := .ok (bodyWith name).toUTF8 }

def raceEnv : ClientEnv where
  readFile := fun _ => .error "not found"
  jsonFromSlice := fun bytes =>
    if bytes.data = (bodyWith "grep").toUTF8.data then some (valueWith "grep")
    else if bytes.data = (bodyWith "search").toUTF8.data then some (valueWith "search")
    else none
  statusText := fun _ => "200 OK"

/-- The leaf starts with one tool, and then has another instead. -/
def raceLists : Nat → List Value
  | 0 => [.string "grep"]
  | _ => [.string "search"]

theorem toolsRead_grep : (replyWith "grep").toolsRead raceEnv = some (raceLists 0) := by
  rfl

theorem toolsRead_search : (replyWith "search").toolsRead raceEnv = some (raceLists 1) := by
  rfl

/-- A background refresh, which is `false`, and one on demand. -/
def raceKinds : Bool → Refresh
  | false => .background
  | true => .onDemand

/-- Both refreshes of a new entry are about to begin. -/
def race : Refreshes Bool where
  shared :=
    { cells := {}
      version := 0
      held := none
      stores := 0
      since := fun _ => ⟨0, 0⟩
      heard := fun _ => none }
  threads := fun i => (raceKinds i).task raceEnv docsClient

theorem race_starts : race.Starts raceEnv docsClient raceLists raceKinds where
  threads := fun _ => rfl
  held := by
    intro v hv
    cases hv
  since := fun _ => rfl
  heard := fun _ => rfl

/-- The background refresh asks and is answered.  Then the leaf changes, the other refresh
asks, is answered and stores, and the background refresh stores last. -/
theorem race_run :
    ∃ p q : Refreshes Bool, ReflTransGen (Refreshes.Step raceEnv raceLists) race p ∧
      Refreshes.Step raceEnv raceLists p q ∧ p.shared.held = some 1 ∧ q.shared.held = some 0 ∧
      p.shared.cells.cachedTools = [.string "search"] ∧
      q.shared.cells.cachedTools = [.string "grep"] := by
  have hgrep : ∀ tools, (replyWith "grep").toolsRead raceEnv = some tools →
      tools = raceLists 0 := by
    intro tools h
    rw [toolsRead_grep] at h
    cases h
    rfl
  have hsearch : ∀ tools, (replyWith "search").toolsRead raceEnv = some tools →
      tools = raceLists 1 := by
    intro tools h
    rw [toolsRead_search] at h
    cases h
    rfl
  have asks : ReflTransGen (Refreshes.Step raceEnv raceLists) race _ :=
    .tail .refl (.turn (c := .client .nextRequestId) false 1 _ rfl (.silent (by trivial)))
  have hears : ReflTransGen (Refreshes.Step raceEnv raceLists) race _ :=
    asks.tail (.turn (c := .client (.post _)) false (replyWith "grep") _ rfl
      (.listed rfl (Nat.le_refl 0) (Nat.le_refl 0) hgrep))
  have changes : ReflTransGen (Refreshes.Step raceEnv raceLists) race _ :=
    hears.tail (.outside _ rfl)
  have asks' : ReflTransGen (Refreshes.Step raceEnv raceLists) race _ :=
    changes.tail (.turn (c := .client .nextRequestId) true 2 _ rfl (.silent (by trivial)))
  have hears' : ReflTransGen (Refreshes.Step raceEnv raceLists) race _ :=
    asks'.tail (.turn (c := .client (.post _)) true (replyWith "search") _ rfl
      (.listed rfl (Nat.le_refl 1) (Nat.le_refl 1) hsearch))
  have looks' : ReflTransGen (Refreshes.Step raceEnv raceLists) race _ :=
    hears'.tail (.turn (c := .now) true 10 _ rfl (.silent (by trivial)))
  have stores' : ReflTransGen (Refreshes.Step raceEnv raceLists) race _ :=
    looks'.tail (.turn (c := .updateCells _) true _ _ rfl .stored)
  have looks : ReflTransGen (Refreshes.Step raceEnv raceLists) race _ :=
    stores'.tail (.turn (c := .now) false 11 _ rfl (.silent (by trivial)))
  exact ⟨_, _, looks, .turn (c := .updateCells _) false _ _ rfl .stored, rfl, rfl, rfl, rfl⟩

/-- The cache holds the leaf's new tools, and gets the old ones back. -/
theorem slow_refresh_brings_back :
    race.Starts raceEnv docsClient raceLists raceKinds ∧
      ∃ p q : Refreshes Bool, ReflTransGen (Refreshes.Step raceEnv raceLists) race p ∧
        Refreshes.Step raceEnv raceLists p q ∧
        (∃ v v', p.shared.held = some v ∧ q.shared.held = some v' ∧ v' < v) ∧
        p.shared.cells.cachedTools = [.string "search"] ∧
        q.shared.cells.cachedTools = [.string "grep"] := by
  obtain ⟨p, q, hrun, hstep, hp, hq, hcached, hcached'⟩ := race_run
  exact ⟨race_starts, p, q, hrun, hstep, ⟨1, 0, hp, hq, by decide⟩, hcached, hcached'⟩

/-- The new tools were stored after the refresh that brings the old ones back had asked. -/
theorem slow_refresh_overlapped :
    ∃ p q : Refreshes Bool, ReflTransGen (Refreshes.Step raceEnv raceLists) race p ∧
      Refreshes.Step raceEnv raceLists p q ∧ p.shared.held = some 1 ∧ q.shared.held = some 0 ∧
      ∃ i m, p.Stores q i m ∧ m.version = 0 ∧ m.stores < p.shared.stores := by
  obtain ⟨p, q, hrun, hstep, hp, hq, -, -⟩ := race_run
  obtain ⟨-, v', hv', -, hstores⟩ := overwritten_by_older race_starts hrun hstep hp
  obtain rfl : v' = 0 := Option.some.inj (hv'.symm.trans hq)
  exact ⟨p, q, hrun, hstep, hp, hq, hstores (by decide)⟩

end McpFederation
