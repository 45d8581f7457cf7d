/-
Reading back a registration.

`register_server` inserts its entry, and then looks the alias up again for the answer, with
nothing held in between; `expect("just inserted")` takes it for granted that the entry is
still there.  Other tasks can get in between: a `DELETE` of the alias, a reload or a poll
that drops it, and the request panics; another registration, or a reload with the alias in
its file, and the 201 describes somebody else's entry.  `answered_iff` says that nothing
else can go wrong.

One request is run here against arbitrary registry calls of other tasks.  Whatever
deregistrations, reloads and polls are under way, their calls are such calls.
-/
import McpFederation.Proofs.Register

namespace McpFederation

namespace Registry

/-- The registry after calls of other tasks. -/
def after (r : Registry) (calls : List RegistryCall) : Registry :=
  calls.foldl (fun s c => (exec c s).2) r

variable {r : Registry} {a : String} {entry : LeafEntry}

/-- Calls that spare the alias leave its entry. -/
theorem getLeaf_after_of_spares {calls : List RegistryCall} (h : ∀ c ∈ calls, c.Spares a) :
    ∀ r : Registry, (r.after calls).getLeaf a = r.getLeaf a := by
  induction calls with
  | nil => intro r; rfl
  | cons c rest ih =>
      intro r
      show ((exec c r).2.after rest).getLeaf a = _
      rw [ih fun d hd => h d (List.mem_cons_of_mem _ hd)]
      exact getLeaf_exec_of_spares (h c List.mem_cons_self) r

/-- The address of `entry` has been handed out, and the alias has another entry or none. -/
structure Lost (r : Registry) (a : String) (entry : LeafEntry) : Prop where
  used : entry.addr < r.next
  gone : r.getLeaf a ≠ some entry

/-- A call that writes the alias loses the entry, if that is not a new one. -/
theorem lost_of_not_spares {c : RegistryCall} (hc : ¬ c.Spares a) (hused : entry.addr < r.next) :
    (exec c r).2.Lost a entry := by
  refine ⟨Nat.lt_of_lt_of_le hused (next_le_exec c r), ?_⟩
  cases c with
  | getLeaf b => exact absurd trivial hc
  | aliases => exact absurd trivial hc
  | addLeaf b config =>
      obtain rfl := not_not.mp hc
      show (r.addLeaf b config).getLeaf b ≠ some entry
      rw [getLeaf_addLeaf_self]
      intro heq
      rw [← Option.some.inj heq] at hused
      exact Nat.lt_irrefl _ hused
  | removeLeaf b =>
      obtain rfl := not_not.mp hc
      show (r.removeLeaf b).getLeaf b ≠ some entry
      rw [getLeaf_removeLeaf_self]
      exact fun heq => by cases heq

theorem Lost.exec (h : r.Lost a entry) (c : RegistryCall) :
    (Registry.exec c r).2.Lost a entry := by
  by_cases hc : c.Spares a
  · refine ⟨Nat.lt_of_lt_of_le h.used (next_le_exec c r), ?_⟩
    rw [getLeaf_exec_of_spares hc]
    exact h.gone
  · exact lost_of_not_spares hc h.used

theorem Lost.after (h : r.Lost a entry) (calls : List RegistryCall) :
    (r.after calls).Lost a entry := by
  induction calls generalizing r with
  | nil => exact h
  | cons c rest ih => exact ih (h.exec c)

/-- **An entry survives exactly the calls that spare its alias.** -/
theorem getLeaf_after_iff (hleaf : r.getLeaf a = some entry) (hused : entry.addr < r.next)
    (calls : List RegistryCall) :
    (r.after calls).getLeaf a = some entry ↔ ∀ c ∈ calls, c.Spares a := by
  refine ⟨?_, ?_⟩
  · induction calls generalizing r with
    | nil => intro _ c hc; cases hc
    | cons c rest ih =>
        intro h
        have hspares : c.Spares a := by
          by_contra hc
          exact ((lost_of_not_spares hc hused).after rest).gone h
        have hnext := (getLeaf_exec_of_spares hspares r).trans hleaf
        have hrest := ih hnext (Nat.lt_of_lt_of_le hused (next_le_exec c r)) h
        intro d hd
        rcases List.mem_cons.mp hd with rfl | hd
        · exact hspares
        · exact hrest d hd
  · intro h
    rw [getLeaf_after_of_spares h]
    exact hleaf

end Registry

/-! ### One request among calls of other tasks -/

section

variable {p : Registrations Unit} {schedule : List (Unit ⊕ RegistryCall)} {req : RegisterRequest}

/-- The request has answered: it has not panicked, and a 201 describes the entry that it
inserted, and spawned a warm-up for. -/
def Answered (p : Registrations Unit) : Prop :=
  ∃ answer, p.threads () = .ret answer ∧ answer.response ≠ .panicked ∧
    ∀ leaf, answer.response = .created leaf → answer.spawned = [leaf]

/-- Whenever the request asks for a free alias, the calls between its insertion and its
reading back spare the alias: its turns are cut out of the schedule here, with the calls
of others before and between them. -/
def Undisturbed (r : Registry) (req : RegisterRequest) (schedule : List (Unit ⊕ RegistryCall)) :
    Prop :=
  ∀ (before checked inserted : List RegistryCall) (rest : List (Unit ⊕ RegistryCall)),
    schedule = before.map .inr ++ .inl () ::
      (checked.map .inr ++ .inl () :: (inserted.map .inr ++ .inl () :: rest)) →
    req.Valid → (r.after before).getLeaf req.aliasName = none →
    ∀ c ∈ inserted, c.Spares req.aliasName

/-- The next call of the request, after calls of others. -/
theorem steps_turn {c : RegistryCall} {k : c.Reply → RegistryM Registered}
    (hcall : p.threads () = .call c k) (calls : List RegistryCall)
    (rest : List (Unit ⊕ RegistryCall)) :
    p.steps Registry.exec (calls.map .inr ++ .inl () :: rest)
      = Pool.steps Registry.exec
          { shared := (Registry.exec c (p.shared.after calls)).2
            threads := fun _ => k (Registry.exec c (p.shared.after calls)).1 } rest := by
  rw [Pool.steps_append, Pool.steps_map_inr, Pool.steps_cons]
  show Pool.steps Registry.exec
    (Pool.step Registry.exec { p with shared := p.shared.after calls } (.inl ())) rest = _
  rw [Pool.step_call (p := { p with shared := p.shared.after calls }) Registry.exec hcall]
  congr 2

/-- A request that has answered says the same at the end of the schedule. -/
theorem answered_steps_ret {answer : Registered} (h : p.threads () = .ret answer) :
    Answered (p.steps Registry.exec schedule) ↔
      answer.response ≠ .panicked ∧
        ∀ leaf, answer.response = .created leaf → answer.spawned = [leaf] := by
  have hend : (p.steps Registry.exec schedule).threads () = .ret answer :=
    Pool.threads_steps_inv (T := fun t => t = .ret answer) Registry.exec
      (fun c k s ht => by cases ht) schedule h
  refine ⟨?_, ?_⟩
  · intro hans
    obtain ⟨answer', hret, hgood⟩ := hans
    rw [hend] at hret
    obtain rfl := Prog.ret.inj hret
    exact hgood
  · intro hgood
    exact ⟨answer, hend, hgood⟩

/-- What is read back is right exactly if it is the entry that was inserted. -/
theorem answered_answerRead_iff {entry : LeafEntry} {read : Option LeafEntry} :
    ((answerRead entry read).response ≠ .panicked ∧
      ∀ leaf, (answerRead entry read).response = .created leaf →
        (answerRead entry read).spawned = [leaf]) ↔ read = some entry := by
  cases read with
  | none => simp [answerRead]
  | some leaf => simp [answerRead, eq_comm]

/-- From the check on. -/
theorem steps_check (hvalid : req.Valid) (r : Registry) (before : List RegistryCall)
    (rest : List (Unit ⊕ RegistryCall)) :
    (registrations r fun _ => req).steps Registry.exec (before.map .inr ++ .inl () :: rest)
      = Pool.steps Registry.exec
          { shared := r.after before
            threads := fun _ =>
              match (r.after before).getLeaf req.aliasName with
              | some _ => .ret (conflictOf req.aliasName)
              | none => insertRegistered req } rest := by
  rw [steps_turn (p := registrations r fun _ => req) (registerServer_eq hvalid)]
  cases hleaf : (r.after before).getLeaf req.aliasName <;>
    simp only [registrations, Registry.exec, hleaf]

/-- From the insertion on. -/
theorem answered_insert_iff (hinsert : p.threads () = insertRegistered req)
    (checked inserted : List RegistryCall) (rest : List (Unit ⊕ RegistryCall)) :
    Answered (p.steps Registry.exec
        (checked.map .inr ++ .inl () :: (inserted.map .inr ++ .inl () :: rest))) ↔
      ∀ c ∈ inserted, c.Spares req.aliasName := by
  rw [insertRegistered_eq] at hinsert
  rw [steps_turn hinsert, steps_turn rfl, answered_steps_ret rfl, answered_answerRead_iff]
  exact Registry.getLeaf_after_iff (Registry.getLeaf_addLeaf_self _ _ _)
    (Nat.lt_succ_self _) inserted

/-- A request that has still to insert has two turns left. -/
theorem exists_turns_of_insert (hinsert : p.threads () = insertRegistered req)
    (hfin : (p.steps Registry.exec schedule).Finished) :
    ∃ (checked inserted : List RegistryCall) (rest : List (Unit ⊕ RegistryCall)),
      schedule = checked.map .inr ++ .inl () :: (inserted.map .inr ++ .inl () :: rest) := by
  rw [insertRegistered_eq] at hinsert
  obtain ⟨⟨⟩, checked, later, rfl⟩ := Pool.exists_turn Registry.exec hinsert hfin
  rw [steps_turn hinsert] at hfin
  obtain ⟨⟨⟩, inserted, rest, rfl⟩ := Pool.exists_turn (i := ()) Registry.exec rfl hfin
  exact ⟨checked, inserted, rest, rfl⟩

/-- A body that does not pass the checks is answered without a call. -/
theorem registerServer_of_not_valid (hvalid : ¬ req.Valid) :
    ∃ e, registerServer req = .ret { response := .badRequest e } := by
  cases hcheck : req.check with
  | ok u => exact absurd hcheck hvalid
  | error e =>
      refine ⟨e, ?_⟩
      simp only [registerServer, hcheck]
      rfl

/-- A request makes three calls at most. -/
theorem registerServer_atMost (req : RegisterRequest) : (registerServer req).AtMost 3 := by
  by_cases hvalid : req.Valid
  · rw [registerServer_eq hvalid]
    intro read
    cases read with
    | some leaf => trivial
    | none =>
        rw [insertRegistered_eq]
        exact fun _ _ => trivial
  · obtain ⟨e, he⟩ := registerServer_of_not_valid hvalid
    rw [he]
    trivial

/-- A finished request has answered exactly if it was not disturbed. -/
theorem answered_iff_undisturbed {r : Registry}
    (hfin : ((registrations r fun _ => req).steps Registry.exec schedule).Finished) :
    Answered ((registrations r fun _ => req).steps Registry.exec schedule) ↔
      Undisturbed r req schedule := by
  by_cases hvalid : req.Valid
  · obtain ⟨⟨⟩, before, later, rfl⟩ := Pool.exists_turn
      (p := registrations r fun _ => req) (i := ()) Registry.exec (registerServer_eq hvalid) hfin
    rw [steps_check hvalid] at hfin ⊢
    unfold Undisturbed
    cases hleaf : (r.after before).getLeaf req.aliasName with
    | some leaf =>
        -- Refused: there is no insertion to disturb.
        refine iff_of_true ?_ ?_
        · rw [answered_steps_ret rfl]
          simp [conflictOf]
        · intro before' checked inserted rest hschedule _ hfree
          obtain ⟨rfl, -, -⟩ := Pool.eq_of_first_turn before hschedule
          rw [hleaf] at hfree
          cases hfree
    | none =>
        simp only [hleaf] at hfin ⊢
        obtain ⟨checked, inserted, rest, rfl⟩ := exists_turns_of_insert rfl hfin
        rw [answered_insert_iff rfl]
        refine ⟨?_, fun h => h before checked inserted rest rfl hvalid hleaf⟩
        intro h before' checked' inserted' rest' hschedule _ _
        obtain ⟨-, -, hlater⟩ := Pool.eq_of_first_turn before hschedule
        obtain ⟨-, -, hlater⟩ := Pool.eq_of_first_turn checked hlater
        obtain ⟨rfl, -, -⟩ := Pool.eq_of_first_turn inserted hlater
        exact h
  · obtain ⟨e, he⟩ := registerServer_of_not_valid hvalid
    refine iff_of_true ?_ fun before checked inserted rest _ h => absurd h hvalid
    rw [answered_steps_ret (p := registrations r fun _ => req) he]
    simp

/--
**When a registration can be read back.**  Whatever other tasks do to the registry, a
request comes to its end in three turns; and it has not panicked then, and a 201 describes
the entry that it inserted, if and only if nobody else wrote the alias between its insertion
and its reading back.
-/
theorem answered_iff (r : Registry) (req : RegisterRequest)
    (schedule : List (Unit ⊕ RegistryCall)) :
    (3 ≤ (Pool.turns schedule).length →
      ((registrations r fun _ => req).steps Registry.exec schedule).Finished) ∧
    (((registrations r fun _ => req).steps Registry.exec schedule).Finished →
      (Answered ((registrations r fun _ => req).steps Registry.exec schedule) ↔
        Undisturbed r req schedule)) := by
  refine ⟨?_, answered_iff_undisturbed⟩
  intro hturns i
  refine Pool.answered_of_turns Registry.exec i schedule (registerServer_atMost req) ?_
  have hcount : (Pool.turns schedule).count i = (Pool.turns schedule).length :=
    List.count_eq_length.mpr fun j _ => rfl
  rw [hcount]
  exact hturns

end

/-- A registration of `docs` to its end, with a `DELETE` of `wiki` between its insertion and
its reading back. -/
theorem docs_read_back :
    Answered ((registrations Registry.empty fun _ => docsRequests false).steps Registry.exec
      [.inl (), .inl (), .inr (.removeLeaf "wiki"), .inl ()]) := by
  obtain ⟨hends, hanswers⟩ := answered_iff Registry.empty (docsRequests false)
    [.inl (), .inl (), .inr (.removeLeaf "wiki"), .inl ()]
  refine (hanswers (hends (by decide))).mpr ?_
  intro before checked inserted rest hschedule _ _
  obtain ⟨-, -, hchecked⟩ := Pool.eq_of_first_turn [] hschedule
  obtain ⟨-, -, hinserted⟩ := Pool.eq_of_first_turn [] hchecked
  obtain ⟨rfl, -, -⟩ := Pool.eq_of_first_turn [RegistryCall.removeLeaf "wiki"] hinserted
  intro c hc
  obtain rfl := List.mem_singleton.mp hc
  exact fun h => absurd h (by decide)

/-- A `DELETE` of `docs` there, and the request panics; or a reload with another `docs` in
its file, and the 201 describes the entry of the reload. -/
theorem docs_lost :
    (deregisterServer "docs" = .call (.removeLeaf "docs") .ret ∧
      ((registrations Registry.empty fun _ => docsRequests false).steps Registry.exec
        [.inl (), .inl (), .inr (.removeLeaf "docs"), .inl ()]).threads ()
        = .ret { response := .panicked, spawned := [⟨0, (docsRequests false).config⟩] }) ∧
    ((registrations Registry.empty fun _ => docsRequests false).steps Registry.exec
        [.inl (), .inl (), .inr (.addLeaf "docs" (docsRequests true).config), .inl ()]).threads ()
      = .ret { response := .created ⟨1, (docsRequests true).config⟩
               spawned := [⟨0, (docsRequests false).config⟩] } ∧
    ¬ ∀ (r : Registry) (req : RegisterRequest) (schedule : List (Unit ⊕ RegistryCall)),
      ((registrations r fun _ => req).steps Registry.exec schedule).Finished →
        Answered ((registrations r fun _ => req).steps Registry.exec schedule) := by
  refine ⟨⟨rfl, rfl⟩, rfl, ?_⟩
  intro hall
  obtain ⟨answer, hret, hpanic, -⟩ := hall Registry.empty (docsRequests false)
    [.inl (), .inl (), .inr (.removeLeaf "docs"), .inl ()] (fun i => by cases i; rfl)
  obtain rfl : _ = answer := Prog.ret.inj hret
  exact hpanic rfl

end McpFederation
