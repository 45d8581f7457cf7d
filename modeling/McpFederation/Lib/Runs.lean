/-
Runs of a step function, and what holds along them.

A run is a list of inputs fed to `step` one after another.  `Along P` says that `P`
holds of every state and the input it meets, and the rules below are how every statement
about whole runs is proved: an invariant that each step keeps, given what the run promises
of its steps, holds at the end, and what is equivalent for one step wherever the invariant
holds is equivalent along the run.
-/

namespace Runs

universe u v w x y

variable {S : Type u} {A : Type v} (step : S → A → S)

/-- The state after a run. -/
def run (s : S) (inputs : List A) : S := inputs.foldl step s

/-- `P` holds of every state of the run and the input that arrives in it. -/
def Along (P : S → A → Prop) : S → List A → Prop
  | _, [] => True
  | s, a :: rest => P s a ∧ Along P (step s a) rest

@[simp] theorem run_nil (s : S) : run step s [] = s := rfl

@[simp] theorem run_cons (s : S) (a : A) (rest : List A) :
    run step s (a :: rest) = run step (step s a) rest := rfl

theorem run_append (s : S) (first rest : List A) :
    run step s (first ++ rest) = run step (run step s first) rest := List.foldl_append

variable {step}

theorem along_append {P : S → A → Prop} {first rest : List A} :
    ∀ {s : S}, Along step P s (first ++ rest) ↔
      Along step P s first ∧ Along step P (run step s first) rest := by
  induction first with
  | nil => intro s; exact ⟨fun h => ⟨trivial, h⟩, And.right⟩
  | cons a first ih =>
      intro s
      refine (and_congr_right fun _ => ih).trans ?_
      exact and_assoc.symm

/-- What holds of every input in every state holds along every run. -/
theorem along_of_forall {P : S → A → Prop} {inputs : List A} (h : ∀ a ∈ inputs, ∀ s, P s a) :
    ∀ {s : S}, Along step P s inputs := by
  induction inputs with
  | nil => intro s; trivial
  | cons a rest ih =>
      intro s
      exact ⟨h a List.mem_cons_self s, ih fun b hb => h b (List.mem_cons_of_mem _ hb)⟩

/-- An invariant that every step of the run keeps holds at its end. -/
theorem inv_run {I : S → Prop} {G : S → A → Prop}
    (hstep : ∀ s a, I s → G s a → I (step s a)) :
    ∀ (inputs : List A) (s : S), I s → Along step G s inputs → I (run step s inputs) := by
  intro inputs
  induction inputs with
  | nil => intro s hs _; exact hs
  | cons a rest ih =>
      intro s hs hguard
      exact ih _ (hstep s a hs hguard.1) hguard.2

/-- What every step shows while an invariant holds, which the step keeps, shows along the
run. -/
theorem along_of_inv {I : S → Prop} {G P : S → A → Prop}
    (hstep : ∀ s a, I s → G s a → P s a ∧ I (step s a)) :
    ∀ (inputs : List A) (s : S), I s → Along step G s inputs → Along step P s inputs := by
  intro inputs
  induction inputs with
  | nil => intro s _ _; trivial
  | cons a rest ih =>
      intro s hs hguard
      obtain ⟨hshown, hnext⟩ := hstep s a hs hguard.1
      exact ⟨hshown, ih _ hnext hguard.2⟩

/-- Two properties of a step that agree wherever an invariant holds agree along runs. -/
theorem along_iff_of_inv {I : S → Prop} {P Q : S → A → Prop}
    (hstep : ∀ s a, I s → I (step s a)) (hiff : ∀ s a, I s → (P s a ↔ Q s a)) :
    ∀ (inputs : List A) (s : S), I s → (Along step P s inputs ↔ Along step Q s inputs) := by
  intro inputs
  induction inputs with
  | nil => intro s _; exact Iff.rfl
  | cons a rest ih =>
      intro s hs
      exact and_congr (hiff s a hs) (ih _ (hstep s a hs))

variable (step) in
/-- `P` holds of every state of the run, the first and the last included. -/
def Always (P : S → Prop) : S → List A → Prop
  | s, [] => P s
  | s, a :: rest => P s ∧ Always P (step s a) rest

/-- What holds at the start holds throughout exactly when every step meets the condition
under which that step keeps it. -/
theorem always_iff_along {I P : S → Prop} {Q : S → A → Prop}
    (hstep : ∀ s a, I s → I (step s a))
    (hiff : ∀ s a, I s → P s → (P (step s a) ↔ Q s a)) :
    ∀ (inputs : List A) (s : S), I s → P s →
      (Always step P s inputs ↔ Along step Q s inputs) := by
  intro inputs
  induction inputs with
  | nil => intro s _ hP; exact iff_of_true hP trivial
  | cons a rest ih =>
      intro s hs hP
      have hfirst : ∀ {l : List A} {t : S}, Always step P t l → P t := by
        intro l t h
        cases l with
        | nil => exact h
        | cons b l => exact h.1
      refine ⟨?_, ?_⟩
      · intro h
        obtain ⟨-, hrest⟩ := h
        exact ⟨(hiff s a hs hP).mp (hfirst hrest), (ih _ (hstep s a hs) (hfirst hrest)).mp hrest⟩
      · intro h
        obtain ⟨hq, hrest⟩ := h
        have hnext := (hiff s a hs hP).mpr hq
        exact ⟨hP, (ih _ (hstep s a hs) hnext).mpr hrest⟩

/-! ### What a run answers

A machine that answers every input is observed through the list of its answers.  The rule
below compares two runs, one of which is missing some of the inputs.
-/

section

variable {B : Type w} (machine : S → A → B × S)

/-- Every input with its answer, in order. -/
def outputs : S → List A → List (A × B)
  | _, [] => []
  | s, a :: rest => (a, (machine s a).1) :: outputs (machine s a).2 rest

@[simp] theorem outputs_nil (s : S) : outputs machine s [] = [] := rfl

@[simp] theorem outputs_cons (s : S) (a : A) (rest : List A) :
    outputs machine s (a :: rest)
      = (a, (machine s a).1) :: outputs machine (machine s a).2 rest := rfl

@[simp] theorem map_fst_outputs (inputs : List A) : ∀ s : S,
    (outputs machine s inputs).map Prod.fst = inputs := by
  induction inputs with
  | nil => intro s; rfl
  | cons a rest ih => intro s; rw [outputs_cons, List.map_cons, ih]

variable {machine}

/--
**A machine that another one describes.**  `R s t rest` relates the states of the two, with
`rest` still to come.  If they answer related inputs alike and stay related, one run is the
other.
-/
theorem outputs_refine {T : Type x} {A' : Type y} {machine' : T → A' → B × T}
    {R : S → T → List A → Prop} (f : A → A')
    (hstep : ∀ s t a rest, R s t (a :: rest) →
      (machine s a).1 = (machine' t (f a)).1 ∧ R (machine s a).2 (machine' t (f a)).2 rest) :
    ∀ (inputs : List A) (s : S) (t : T), R s t inputs →
      (outputs machine s inputs).map (fun o => (f o.1, o.2))
        = outputs machine' t (inputs.map f) := by
  intro inputs
  induction inputs with
  | nil => intro s t _; rfl
  | cons a rest ih =>
      intro s t h
      obtain ⟨hout, hnext⟩ := hstep s t a rest h
      simp only [outputs_cons, List.map_cons]
      rw [ih _ _ hnext, hout]

/--
**Inputs that leave no trace.**  `R s t rest` relates the states of a run and of one with
only the inputs that `keep` selects, with `rest` still to come.  If a kept input is answered
alike in related states, and every input leads to related states, with the one run standing
still at an input that is not kept, then the kept inputs are answered alike in both runs.
-/
theorem outputs_filter {R : S → S → List A → Prop} (keep : A → Bool)
    (hkept : ∀ s t a rest, R s t (a :: rest) → keep a = true →
      (machine s a).1 = (machine t a).1 ∧ R (machine s a).2 (machine t a).2 rest)
    (hother : ∀ s t a rest, R s t (a :: rest) → keep a = false → R (machine s a).2 t rest) :
    ∀ (inputs : List A) (s t : S), R s t inputs →
      (outputs machine s inputs).filter (fun o => keep o.1)
        = outputs machine t (inputs.filter keep) := by
  intro inputs
  induction inputs with
  | nil => intro s t _; rfl
  | cons a rest ih =>
      intro s t h
      cases hkeep : keep a with
      | true =>
          obtain ⟨hout, hnext⟩ := hkept s t a rest h hkeep
          simp only [outputs_cons, List.filter_cons, hkeep, if_true]
          rw [ih _ _ hnext, hout]
      | false =>
          simp only [outputs_cons, List.filter_cons, hkeep, Bool.false_eq_true, if_false]
          exact ih _ _ (hother s t a rest h hkeep)

end

end Runs
