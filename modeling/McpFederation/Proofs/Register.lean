/-
Concurrent registrations of one alias.

`register_server` asks whether the alias is free, and inserts, in two registry calls with
nothing held in between; the insertion replaces whatever is there.  So two requests that
both ask before either has inserted are both answered 201, and the entry of the first is
lost.  The property holds of a schedule exactly when the request that asks first also
takes the next turn: `oneWins_iff`.
-/
import McpFederation.Model.Api

namespace McpFederation

/-! ### The three calls of a registration -/

/-- The answer to a request that inserted `entry` and then read its alias. -/
def answerRead (entry : LeafEntry) : Option LeafEntry → Registered
  | some leaf => { response := .created leaf, spawned := [entry] }
  | none => { response := .panicked, spawned := [entry] }

/-- From the insertion of `entry` on: read the alias back. -/
def readBack (a : String) (entry : LeafEntry) : RegistryM Registered :=
  .call (.getLeaf a) fun read => .ret (answerRead entry read)

theorem insertRegistered_eq (req : RegisterRequest) :
    insertRegistered req
      = .call (.addLeaf req.aliasName req.config) fun reply =>
          readBack req.aliasName reply.1 := by
  show Prog.call (RegistryCall.addLeaf req.aliasName req.config) _ = _
  congr 1
  funext reply
  show Prog.call (RegistryCall.getLeaf req.aliasName) _ = Prog.call _ _
  congr 1
  funext read
  cases read <;> rfl

/-- The answer to a request whose alias is taken. -/
def conflictOf (a : String) : Registered :=
  { response := .conflict ("server '" ++ a ++ "' already registered") }

theorem registerServer_eq {req : RegisterRequest} (h : req.Valid) :
    registerServer req
      = .call (.getLeaf req.aliasName) fun
          | some _ => .ret (conflictOf req.aliasName)
          | none => insertRegistered req := by
  rw [RegisterRequest.Valid] at h
  simp only [registerServer, h]
  refine congrArg _ (funext fun reply => ?_)
  cases reply <;> rfl

/-- A registry call that does not write the alias `a`. -/
def RegistryCall.Spares (a : String) : RegistryCall → Prop
  | .getLeaf _ => True
  | .aliases => True
  | .addLeaf b _ => b ≠ a
  | .removeLeaf b => b ≠ a

theorem Registry.getLeaf_exec_of_spares {a : String} {c : RegistryCall} (h : c.Spares a)
    (r : Registry) : (Registry.exec c r).2.getLeaf a = r.getLeaf a := by
  cases c with
  | getLeaf b => rfl
  | aliases => rfl
  | addLeaf b config => exact r.getLeaf_addLeaf_ne config (Ne.symm h)
  | removeLeaf b => exact r.getLeaf_removeLeaf_ne (Ne.symm h)

/-! ### Any number of them at once -/

/-- A pool of registrations. -/
abbrev Registrations (ι : Type) := Pool ι RegistryCall RegistryCall.Reply Registered Registry

/-- Requests that have all arrived, none of which has made its first call. -/
def registrations {ι : Type} (r : Registry) (reqs : ι → RegisterRequest) : Registrations ι where
  shared := r
  threads := fun i => registerServer (reqs i)

/-- One request is answered 201, every other one 409, and the registry has the entry of
the one that was answered 201. -/
def OneWins {ι : Type} (a : String) (p : Registrations ι) : Prop :=
  ∃ i entry, p.threads i = .ret { response := .created entry, spawned := [entry] } ∧
    (∀ j, j ≠ i → p.threads j = .ret (conflictOf a)) ∧ p.shared.getLeaf a = some entry

section

variable {ι : Type} [DecidableEq ι] {a : String} {reqs : ι → RegisterRequest}

/-! ### A request that finds the alias free -/

/-- A thread past its check: it has still to insert, or to read back, or has answered
something else than 409. -/
inductive PastCheck (req : RegisterRequest) : RegistryM Registered → Prop
  | insert : PastCheck req
      (.call (.addLeaf req.aliasName req.config) fun reply => readBack req.aliasName reply.1)
  | readBack (entry : LeafEntry) : PastCheck req
      (.call (.getLeaf req.aliasName) fun read => .ret (answerRead entry read))
  | answered {answer : Registered} (h : answer ≠ conflictOf req.aliasName) :
      PastCheck req (.ret answer)

theorem answerRead_ne_conflict (a : String) (entry : LeafEntry) (read : Option LeafEntry) :
    answerRead entry read ≠ conflictOf a := by
  cases read <;> simp [answerRead, conflictOf]

/-- There is no way back before the check. -/
theorem PastCheck.next {req : RegisterRequest} (c : RegistryCall)
    (k : c.Reply → RegistryM Registered) (reply : c.Reply) (h : PastCheck req (.call c k)) :
    PastCheck req (k reply) := by
  cases h with
  | insert => exact .readBack _
  | readBack entry => exact .answered (answerRead_ne_conflict _ _ _)

theorem PastCheck.not_conflict {req : RegisterRequest} {t : RegistryM Registered}
    (h : PastCheck req t) : t ≠ .ret (conflictOf req.aliasName) := by
  intro heq
  subst heq
  cases h with
  | answered hne => exact hne rfl

/-- The first call of a request, in a state where the alias is free. -/
theorem pastCheck_of_free {p : Registrations ι} {i : ι} (hvalid : (reqs i).Valid)
    (ha : (reqs i).aliasName = a) (hi : p.threads i = registerServer (reqs i))
    (hfree : p.shared.getLeaf a = none) :
    (p.step Registry.exec (.inl i)).threads i = insertRegistered (reqs i) ∧
      (p.step Registry.exec (.inl i)).shared = p.shared := by
  rw [registerServer_eq hvalid] at hi
  rw [Pool.step_call Registry.exec hi]
  refine ⟨?_, rfl⟩
  simp only [Function.update_self, Registry.exec, ha, hfree]

/-! ### A request that inserts before another one asks -/

/-- Request `i` has inserted `entry`; the others have not asked yet or were refused. -/
structure Won (a : String) (reqs : ι → RegisterRequest) (i : ι) (entry : LeafEntry)
    (p : Registrations ι) : Prop where
  stored : p.shared.getLeaf a = some entry
  winner : p.threads i = readBack a entry ∨ p.threads i = .ret (answerRead entry (some entry))
  losers : ∀ j, j ≠ i →
    p.threads j = registerServer (reqs j) ∨ p.threads j = .ret (conflictOf a)

variable (hvalid : ∀ i, (reqs i).Valid) (halias : ∀ i, (reqs i).aliasName = a)

include hvalid halias in
theorem Won.step {i : ι} {entry : LeafEntry} {p : Registrations ι} (h : Won a reqs i entry p)
    (e : ι ⊕ RegistryCall) (hout : ∀ c, e = .inr c → c.Spares a) :
    Won a reqs i entry (p.step Registry.exec e) := by
  rcases e with j | c
  · by_cases hji : j = i
    · subst hji
      rcases h.winner with hw | hw
      · -- The winner reads back what it inserted.
        have hstep := Pool.step_call Registry.exec hw
        refine ⟨by rw [hstep]; exact h.stored, Or.inr ?_, fun k hk => ?_⟩
        · rw [Pool.threads_step_self Registry.exec hw]
          simp only [Registry.exec, h.stored]
        · rw [Pool.threads_step_of_ne Registry.exec hk]
          exact h.losers k hk
      · rw [Pool.step_ret Registry.exec hw]
        exact h
    · rcases h.losers j hji with hl | hl
      · -- A request that asks now is refused.
        rw [registerServer_eq (hvalid j)] at hl
        have hstep := Pool.step_call Registry.exec hl
        refine ⟨by rw [hstep]; exact h.stored, ?_, fun k hk => ?_⟩
        · rw [Pool.threads_step_of_ne Registry.exec (Ne.symm hji)]
          exact h.winner
        · by_cases hkj : k = j
          · subst hkj
            right
            rw [Pool.threads_step_self Registry.exec hl]
            simp only [Registry.exec, halias k, h.stored]
          · rw [Pool.threads_step_of_ne Registry.exec hkj]
            exact h.losers k hk
      · rw [Pool.step_ret Registry.exec hl]
        exact h
  · refine ⟨?_, h.winner, h.losers⟩
    exact (Registry.getLeaf_exec_of_spares (hout c rfl) p.shared).trans h.stored

omit [DecidableEq ι] in
/-- Once everybody has answered, the winner has won. -/
theorem Won.oneWins {i : ι} {entry : LeafEntry} {p : Registrations ι} (h : Won a reqs i entry p)
    (hvalid : ∀ i, (reqs i).Valid) (hfin : p.Finished) : OneWins a p := by
  refine ⟨i, entry, ?_, fun j hj => ?_, h.stored⟩
  · rcases h.winner with hw | hw
    · have := hfin i
      rw [hw] at this
      simp [readBack, Prog.result?] at this
    · exact hw
  · rcases h.losers j hj with hl | hl
    · have := hfin j
      rw [hl, registerServer_eq (hvalid j)] at this
      simp [Prog.result?] at this
    · exact hl

/-- Two requests past their checks are not both refused, so more than one wins or loses
its entry. -/
theorem not_oneWins_of_pastCheck {i j : ι} (hij : i ≠ j) {p : Registrations ι}
    (halias : ∀ i, (reqs i).aliasName = a) (hi : PastCheck (reqs i) (p.threads i))
    (hj : PastCheck (reqs j) (p.threads j)) : ¬ OneWins a p := by
  intro h
  obtain ⟨w, entry, -, hlosers, -⟩ := h
  by_cases hiw : i = w
  · have hjw : j ≠ w := fun hc => hij (hiw.trans hc.symm)
    exact hj.not_conflict (by rw [halias j]; exact hlosers j hjw)
  · exact hi.not_conflict (by rw [halias i]; exact hlosers i hiw)

/-- Calls of other tasks, while nobody who registers has a turn. -/
theorem steps_between {p : Registrations ι} {schedule : List (ι ⊕ RegistryCall)}
    (hturns : Pool.turns schedule = []) (hother : ∀ c, .inr c ∈ schedule → c.Spares a)
    (hfree : p.shared.getLeaf a = none) :
    (p.steps Registry.exec schedule).threads = p.threads ∧
      (p.steps Registry.exec schedule).shared.getLeaf a = none :=
  Pool.steps_of_turns_nil (I := fun r => r.getLeaf a = none) Registry.exec hturns
    (fun c hc r hr => (Registry.getLeaf_exec_of_spares (hother c hc) r).trans hr) p hfree

/-- The request that asked first also inserts first. -/
theorem won_of_insert {p : Registrations ι} {i : ι} (halias : ∀ i, (reqs i).aliasName = a)
    (hi : p.threads i = insertRegistered (reqs i))
    (hothers : ∀ j, j ≠ i → p.threads j = registerServer (reqs j)) :
    Won a reqs i (p.shared.alloc (reqs i).config) (p.step Registry.exec (.inl i)) := by
  rw [insertRegistered_eq] at hi
  refine ⟨?_, Or.inl ?_, fun j hj => Or.inl ?_⟩
  · rw [Pool.step_call Registry.exec hi, ← halias i]
    exact Registry.getLeaf_addLeaf_self _ _ _
  · rw [Pool.threads_step_self Registry.exec hi, halias i]
    rfl
  · rw [Pool.threads_step_of_ne Registry.exec hj]
    exact hothers j hj

/-- From the moment the first request has asked: it wins exactly if it has the next turn. -/
theorem oneWins_iff_of_asked {q : Registrations ι} {i : ι} {schedule : List (ι ⊕ RegistryCall)}
    (hvalid : ∀ i, (reqs i).Valid) (halias : ∀ i, (reqs i).aliasName = a)
    (hasked : q.threads i = insertRegistered (reqs i))
    (hothers : ∀ j, j ≠ i → q.threads j = registerServer (reqs j))
    (hfree : q.shared.getLeaf a = none) (hother : ∀ c, .inr c ∈ schedule → c.Spares a)
    (hfin : (q.steps Registry.exec schedule).Finished) :
    OneWins a (q.steps Registry.exec schedule) ↔ ∃ rest, Pool.turns schedule = i :: rest := by
  cases hturns : Pool.turns schedule with
  | nil =>
      have hi := hfin i
      rw [(steps_between hturns hother hfree).1, hasked, insertRegistered_eq] at hi
      simp [Prog.result?] at hi
  | cons j rest =>
      obtain ⟨before, after, rfl, hbefore, -⟩ := Pool.turns_eq_cons hturns
      obtain ⟨hthreads, hfree⟩ := steps_between hbefore
        (fun c hc => hother c (List.mem_append_left _ hc)) hfree
      have hafter : ∀ e ∈ after, ∀ c, e = .inr c → c.Spares a := fun e he c hc =>
        hother c (List.mem_append_right _ (List.mem_cons_of_mem _ (hc ▸ he)))
      rw [Pool.steps_append, Pool.steps_cons] at hfin ⊢
      rw [← hthreads] at hasked
      have hothers : ∀ k, k ≠ i →
          (q.steps Registry.exec before).threads k = registerServer (reqs k) := fun k hk => by
        rw [hthreads]
        exact hothers k hk
      by_cases hji : j = i
      · subst hji
        have hwon := won_of_insert halias hasked hothers
        have hend := Pool.steps_inv (I := Won a reqs j _) Registry.exec after
          (fun p e he hp => Won.step hvalid halias hp e (hafter e he)) _ hwon
        exact iff_of_true (hend.oneWins hvalid hfin) ⟨rest, rfl⟩
      · -- The second request asks while the alias is still free, and both go on to insert.
        have hsecond := (pastCheck_of_free (hvalid j) (halias j) (hothers j hji) hfree).1
        have hfirst : PastCheck (reqs i)
            (((q.steps Registry.exec before).step Registry.exec (.inl j)).threads i) := by
          rw [Pool.threads_step_of_ne Registry.exec (Ne.symm hji), hasked, insertRegistered_eq]
          exact .insert
        have hnot := not_oneWins_of_pastCheck (Ne.symm hji) halias
          (Pool.threads_steps_inv Registry.exec (fun c k s => PastCheck.next c k _) after hfirst)
          (Pool.threads_steps_inv Registry.exec (fun c k s => PastCheck.next c k _) after
            (T := PastCheck (reqs j)) (by rw [hsecond, insertRegistered_eq]; exact .insert))
        refine iff_of_false hnot ?_
        intro h
        obtain ⟨rest', hc⟩ := h
        exact hji (List.cons.inj hc).1

/--
**When no registration is lost.**  Of any number of requests for a free alias, run to
their end in any interleaving with calls that spare the alias, exactly one wins if and
only if the request with the first turn also has the second: it inserts before anybody
else has asked.
-/
theorem oneWins_iff [Nonempty ι] (r : Registry) (a : String) (reqs : ι → RegisterRequest)
    (hfree : r.getLeaf a = none) (hvalid : ∀ i, (reqs i).Valid)
    (halias : ∀ i, (reqs i).aliasName = a) (schedule : List (ι ⊕ RegistryCall))
    (hother : ∀ c, .inr c ∈ schedule → c.Spares a)
    (hfin : ((registrations r reqs).steps Registry.exec schedule).Finished) :
    OneWins a ((registrations r reqs).steps Registry.exec schedule) ↔
      ∃ i rest, Pool.turns schedule = i :: i :: rest := by
  cases hturns : Pool.turns schedule with
  | nil =>
      -- Nobody has had a turn, so nobody can have answered.
      obtain ⟨i⟩ := ‹Nonempty ι›
      have hi := hfin i
      rw [(steps_between hturns hother hfree).1] at hi
      simp only [registrations, registerServer_eq (hvalid i), Prog.result?] at hi
      simp at hi
  | cons i later =>
      obtain ⟨before, after, rfl, hbefore, hafter⟩ := Pool.turns_eq_cons hturns
      obtain ⟨hthreads, hfree⟩ := steps_between (p := registrations r reqs) hbefore
        (fun c hc => hother c (List.mem_append_left _ hc)) hfree
      have hinit : ∀ j, ((registrations r reqs).steps Registry.exec before).threads j
          = registerServer (reqs j) := fun j => congrFun hthreads j
      obtain ⟨hasked, hsame⟩ := pastCheck_of_free (hvalid i) (halias i) (hinit i) hfree
      rw [Pool.steps_append, Pool.steps_cons] at hfin ⊢
      rw [oneWins_iff_of_asked hvalid halias hasked ?_ (by rw [hsame]; exact hfree) ?_ hfin, hafter]
      · refine ⟨?_, ?_⟩
        · intro h
          obtain ⟨rest, rfl⟩ := h
          exact ⟨i, rest, rfl⟩
        · intro h
          obtain ⟨j, rest, hc⟩ := h
          obtain ⟨rfl, hlater⟩ := List.cons.inj hc
          exact ⟨rest, hlater⟩
      · intro j hj
        rw [Pool.threads_step_of_ne Registry.exec hj]
        exact hinit j
      · exact fun c hc => hother c (List.mem_append_right _ (List.mem_cons_of_mem _ hc))

end

/-- Two requests for `docs`, with different URLs. -/
def docsRequests (i : Bool) : RegisterRequest where
  aliasName := "docs"
  url := if i then "http://b/mcp" else "http://a/mcp"

theorem docsRequests_valid : ∀ i, (docsRequests i).Valid := by decide

theorem docsRequests_alias : ∀ i, (docsRequests i).aliasName = "docs" := by decide

/-- The first inserts before the second asks; a third task registers `wiki` meanwhile. -/
theorem docs_one_after_the_other :
    OneWins "docs" ((registrations Registry.empty docsRequests).steps Registry.exec
      [.inl false, .inr (.addLeaf "wiki" { aliasName := "wiki", url := "http://wiki/mcp" }),
        .inl false, .inl true, .inl false]) := by
  refine (oneWins_iff Registry.empty "docs" docsRequests rfl docsRequests_valid
    docsRequests_alias _ ?_ ?_).mpr ⟨false, [true, false], rfl⟩
  · intro c hc
    simp only [List.mem_cons, reduceCtorEq, Sum.inr.injEq, List.not_mem_nil, or_false,
      false_or] at hc
    subst hc
    exact fun h => absurd h (by decide)
  · intro i
    cases i <;> rfl

/-- Both ask before either inserts: both are answered 201, and the entry that the first
one inserted is not the one that is registered. -/
theorem docs_both_created :
    (∀ c, .inr c ∈ ([.inl false, .inl true, .inl false, .inl false, .inl true, .inl true] :
        List (Bool ⊕ RegistryCall)) → c.Spares "docs") ∧
      ((registrations Registry.empty docsRequests).steps Registry.exec
        [.inl false, .inl true, .inl false, .inl false, .inl true, .inl true]).Finished ∧
      ¬ OneWins "docs" ((registrations Registry.empty docsRequests).steps Registry.exec
        [.inl false, .inl true, .inl false, .inl false, .inl true, .inl true]) := by
  have hanswers : ∀ i, ((registrations Registry.empty docsRequests).steps Registry.exec
      [.inl false, .inl true, .inl false, .inl false, .inl true, .inl true]).threads i
      = .ret (answerRead ⟨if i then 1 else 0, (docsRequests i).config⟩
          (some ⟨if i then 1 else 0, (docsRequests i).config⟩)) := by
    intro i
    cases i <;> rfl
  refine ⟨by simp, fun i => by rw [hanswers]; rfl, ?_⟩
  intro h
  obtain ⟨w, entry, -, hlosers, -⟩ := h
  have hloser := hlosers (!w) (by cases w <;> decide)
  rw [hanswers] at hloser
  exact answerRead_ne_conflict _ _ _ (Prog.ret.inj hloser)

end McpFederation
