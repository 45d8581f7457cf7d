/-
Programs that share a state through atomic calls.

A task of an asynchronous server touches shared state only at the calls it awaits: a
lock is taken, one operation is done under it, and the lock is released.  Between two
such calls anything may happen.  `Prog` is the tree of those calls, with what the task
does after each answer, so one definition gives both meanings a handler has:

  * `Prog.run`: the handler running alone, from its first call to its answer;
  * `Pool.steps`: any number of handlers, interleaved call by call in the order of an
    arbitrary schedule, with calls of unrelated tasks in between.

Nothing here is about a particular state: `exec` says what one call does to it.
-/
import Mathlib.Logic.Function.Basic

universe u

/-- A program over the calls `C`, where the call `c` is answered by a value of `R c`. -/
inductive Prog (C : Type) (R : C → Type) (α : Type u) where
  | ret (a : α)
  | call (c : C) (k : R c → Prog C R α)

namespace Prog

variable {C : Type} {R : C → Type} {α β : Type u} {S : Type}

/-- Run `p`, then what `f` makes of its answer. -/
def bind : Prog C R α → (α → Prog C R β) → Prog C R β
  | ret a, f => f a
  | call c k, f => call c fun r => (k r).bind f

instance : Monad (Prog C R) where
  pure := ret
  bind := bind

instance : LawfulMonad (Prog C R) :=
  LawfulMonad.mk' (Prog C R)
    (fun p => by
      induction p with
      | ret a => rfl
      | call c k ih => exact congrArg (call c) (funext ih))
    (fun _ _ => rfl)
    (fun p f g => by
      induction p with
      | ret a => rfl
      | call c k ih => exact congrArg (call c) (funext ih))

/-- The program that makes one call and answers what it was answered. -/
def perform {C : Type} {R : C → Type} (c : C) : Prog C R (R c) := call c ret

@[simp] theorem pure_eq (a : α) : (pure a : Prog C R α) = ret a := rfl

@[simp] theorem ret_bind (a : α) (f : α → Prog C R β) : (ret a >>= f) = f a := rfl

@[simp] theorem call_bind (c : C) (k : R c → Prog C R α) (f : α → Prog C R β) :
    (call c k >>= f) = call c fun r => k r >>= f := rfl

@[simp] theorem perform_bind {β : Type} (c : C) (f : R c → Prog C R β) :
    (perform c >>= f) = call c f := rfl

/-! ### Running alone -/

variable (exec : (c : C) → S → R c × S)

/-- Run a program to its answer, with nothing else touching the state. -/
def run : Prog C R α → S → α × S
  | ret a, s => (a, s)
  | call c k, s => (k (exec c s).1).run (exec c s).2

@[simp] theorem run_ret (a : α) (s : S) : (ret a : Prog C R α).run exec s = (a, s) := rfl

@[simp] theorem run_call (c : C) (k : R c → Prog C R α) (s : S) :
    (call c k).run exec s = (k (exec c s).1).run exec (exec c s).2 := rfl

@[simp] theorem run_bind (p : Prog C R α) (f : α → Prog C R β) (s : S) :
    (p >>= f).run exec s = (f (p.run exec s).1).run exec (p.run exec s).2 := by
  induction p generalizing s with
  | ret a => rfl
  | call c k ih => exact ih _ _

@[simp] theorem run_map (f : α → β) (p : Prog C R α) (s : S) :
    (f <$> p).run exec s = (f (p.run exec s).1, (p.run exec s).2) := by
  rw [map_eq_pure_bind, run_bind]
  rfl

/-- Every call the program can come to, whatever the answers, satisfies `P`. -/
def Makes (P : C → Prop) : Prog C R α → Prop
  | ret _ => True
  | call c k => P c ∧ ∀ r, (k r).Makes P

theorem Makes.imp {P Q : C → Prop} (h : ∀ c, P c → Q c) {p : Prog C R α} (hp : p.Makes P) :
    p.Makes Q := by
  induction p with
  | ret a => trivial
  | call c k ih => exact ⟨h c hp.1, fun r => ih r (hp.2 r)⟩

theorem makes_bind {P : C → Prop} {p : Prog C R α} {f : α → Prog C R β} (hp : p.Makes P)
    (hf : ∀ a, (f a).Makes P) : (p >>= f).Makes P := by
  induction p with
  | ret a => exact hf a
  | call c k ih => exact ⟨hp.1, fun r => ih r (hp.2 r)⟩

/-- What every call with `P` keeps, the whole run of a program that makes no others keeps. -/
theorem run_inv {P : C → Prop} {I : S → Prop} (h : ∀ c s, P c → I s → I (exec c s).2)
    (p : Prog C R α) (hp : p.Makes P) (s : S) (hs : I s) : I (p.run exec s).2 := by
  induction p generalizing s with
  | ret a => exact hs
  | call c k ih => exact ih _ (hp.2 _) _ (h c s hp.1 hs)

/-- A `for` loop: run `f` on every element in turn and gather what it gives. -/
def forEach {γ δ : Type} (f : γ → Prog C R (List δ)) : List γ → Prog C R (List δ)
  | [] => ret []
  | x :: xs => (f x).bind fun a => (forEach f xs).bind fun b => ret (a ++ b)

theorem makes_forEach {γ δ : Type} {P : C → Prop} {f : γ → Prog C R (List δ)} {xs : List γ}
    (h : ∀ x ∈ xs, (f x).Makes P) : (forEach f xs).Makes P := by
  induction xs with
  | nil => trivial
  | cons x xs ih =>
      refine makes_bind (h x List.mem_cons_self) fun a => ?_
      exact makes_bind (ih fun y hy => h y (List.mem_cons_of_mem _ hy)) fun b => trivial

/-- The state after a loop: one iteration after another. -/
theorem run_forEach_snd {γ δ : Type} (f : γ → Prog C R (List δ)) (xs : List γ) :
    ∀ s : S, ((forEach f xs).run exec s).2
      = xs.foldl (fun s x => ((f x).run exec s).2) s := by
  induction xs with
  | nil => intro s; rfl
  | cons x xs ih =>
      intro s
      show (((f x) >>= fun a => forEach f xs >>= fun b => ret (a ++ b)).run exec s).2 = _
      rw [run_bind, run_bind, run_ret, List.foldl_cons, ih]

/-- A loop whose every iteration does nothing does nothing. -/
theorem run_forEach_idle {γ δ : Type} {f : γ → Prog C R (List δ)} {s : S} {xs : List γ}
    (h : ∀ x ∈ xs, (f x).run exec s = ([], s)) : (forEach f xs).run exec s = ([], s) := by
  induction xs with
  | nil => rfl
  | cons x xs ih =>
      show ((f x) >>= fun a => forEach f xs >>= fun b => ret (a ++ b)).run exec s = _
      rw [run_bind, h x List.mem_cons_self, run_bind,
        ih fun y hy => h y (List.mem_cons_of_mem _ hy)]
      rfl

/-- What every iteration keeps, and what all it gives satisfies. -/
theorem run_forEach_inv {γ δ : Type} {f : γ → Prog C R (List δ)} {I : S → Prop} {Q : δ → Prop}
    (h : ∀ x s, I s → I ((f x).run exec s).2 ∧ ∀ d ∈ ((f x).run exec s).1, Q d) (xs : List γ) :
    ∀ s, I s → I ((forEach f xs).run exec s).2 ∧ ∀ d ∈ ((forEach f xs).run exec s).1, Q d := by
  induction xs with
  | nil => intro s hs; exact ⟨hs, fun d hd => by cases hd⟩
  | cons x xs ih =>
      intro s hs
      obtain ⟨hnext, hfirst⟩ := h x s hs
      obtain ⟨hlast, hrest⟩ := ih _ hnext
      show I (((f x) >>= fun a => forEach f xs >>= fun b => ret (a ++ b)).run exec s).2 ∧ _
      refine ⟨?_, fun d hd => ?_⟩
      · rw [run_bind, run_bind]
        exact hlast
      · change d ∈ (((f x) >>= fun a => forEach f xs >>= fun b => ret (a ++ b)).run exec s).1 at hd
        rw [run_bind, run_bind] at hd
        rcases List.mem_append.mp hd with hd | hd
        · exact hfirst d hd
        · exact hrest d hd

/-- The answer of a finished program. -/
def result? : Prog C R α → Option α
  | ret a => some a
  | call _ _ => none

/-- The program answers after at most `n` calls, whatever it is answered. -/
def AtMost : Nat → Prog C R α → Prop
  | _, ret _ => True
  | 0, call _ _ => False
  | n + 1, call _ k => ∀ r, (k r).AtMost n

/-! ### The calls of a run -/

/-- The calls a run makes, each with its answer, in order. -/
def trace : Prog C R α → S → List (Σ c, R c)
  | ret _, _ => []
  | call c k, s => ⟨c, (exec c s).1⟩ :: (k (exec c s).1).trace (exec c s).2

theorem trace_bind (p : Prog C R α) (f : α → Prog C R β) (s : S) :
    (p >>= f).trace exec s
      = p.trace exec s ++ (f (p.run exec s).1).trace exec (p.run exec s).2 := by
  induction p generalizing s with
  | ret a => rfl
  | call c k ih => exact congrArg (List.cons _) (ih _ _)

/-- The states a run goes through, one after each of its calls. -/
def states : Prog C R α → S → List S
  | ret _, _ => []
  | call c k, s => (exec c s).2 :: (k (exec c s).1).states (exec c s).2

theorem states_bind (p : Prog C R α) (f : α → Prog C R β) (s : S) :
    (p >>= f).states exec s
      = p.states exec s ++ (f (p.run exec s).1).states exec (p.run exec s).2 := by
  induction p generalizing s with
  | ret a => rfl
  | call c k ih => exact congrArg (List.cons _) (ih _ _)

/-- What every call with `P` keeps holds after each call of a program that makes no others. -/
theorem states_inv {P : C → Prop} {I : S → Prop} (h : ∀ c s, P c → I s → I (exec c s).2)
    (p : Prog C R α) (hp : p.Makes P) (s : S) (hs : I s) : ∀ t ∈ p.states exec s, I t := by
  induction p generalizing s with
  | ret a => intro t ht; cases ht
  | call c k ih =>
      intro t ht
      have hnext := h c s hp.1 hs
      rcases List.mem_cons.mp ht with rfl | ht
      · exact hnext
      · exact ih _ (hp.2 _) _ hnext t ht

/-- Calls that act on a part of the state: `get` and `set` are the part.  A program goes
through the same states there as it does alone, and leaves the rest as it is. -/
theorem run_states_part {T : Type} {execT : (c : C) → T → R c × T} (get : T → S)
    (set : T → S → T) (hget : ∀ t s, get (set t s) = s) (hset : ∀ t, set t (get t) = t)
    (htwice : ∀ t s s', set (set t s) s' = set t s')
    (hcall : ∀ c t, execT c t = ((exec c (get t)).1, set t (exec c (get t)).2))
    (p : Prog C R α) :
    ∀ t, p.run execT t = ((p.run exec (get t)).1, set t (p.run exec (get t)).2) ∧
      p.states execT t = (p.states exec (get t)).map (set t) := by
  induction p with
  | ret a => intro t; exact ⟨by rw [run_ret, run_ret, hset], rfl⟩
  | call c k ih =>
      intro t
      obtain ⟨hrun, hstates⟩ := ih (exec c (get t)).1 (set t (exec c (get t)).2)
      refine ⟨?_, ?_⟩
      · rw [run_call, hcall, hrun, hget, htwice, run_call]
      · rw [states, hcall, hstates, hget, states, List.map_cons]
        exact congrArg _ (List.map_congr_left fun s _ => htwice _ _ _)

/--
A proof outline.  `g` records what has been answered so far, and `upd` adds an answer to
it; `P` holds at every call the program comes to, and `Q` at its end, whatever the answers.
-/
def Outline {G : Type} (upd : (c : C) → R c → G → G) (P : G → C → Prop) (Q : G → α → Prop) :
    Prog C R α → G → Prop
  | ret a, g => Q g a
  | call c k, g => P g c ∧ ∀ r, (k r).Outline upd P Q (upd c r g)

section Outline

variable {G : Type} {upd : (c : C) → R c → G → G} {P : G → C → Prop}

theorem Outline.imp {Q Q' : G → α → Prop} (h : ∀ g a, Q g a → Q' g a) {p : Prog C R α} {g : G}
    (hp : p.Outline upd P Q g) : p.Outline upd P Q' g := by
  induction p generalizing g with
  | ret a => exact h g a hp
  | call c k ih => exact ⟨hp.1, fun r => ih r (hp.2 r)⟩

/-- An outline that records more than is asked for. -/
theorem Outline.record {H : Type} {upd' : (c : C) → R c → H → H} {P' : H → C → Prop}
    {Q : G → α → Prop} (get : G → H) (hupd : ∀ c r g, get (upd c r g) = upd' c r (get g))
    (hP : ∀ g c, P g c → P' (get g) c) {p : Prog C R α} {g : G} (hp : p.Outline upd P Q g) :
    p.Outline upd' P' (fun _ _ => True) (get g) := by
  induction p generalizing g with
  | ret a => trivial
  | call c k ih =>
      refine ⟨hP g c hp.1, fun r => ?_⟩
      rw [← hupd]
      exact ih r (hp.2 r)

/-- One part of a program after another. -/
theorem Outline.bind {Q : G → α → Prop} {T : G → β → Prop} {p : Prog C R α}
    {f : α → Prog C R β} {g : G} (hp : p.Outline upd P Q g)
    (hf : ∀ g a, Q g a → (f a).Outline upd P T g) : (p >>= f).Outline upd P T g := by
  induction p generalizing g with
  | ret a => exact hf g a hp
  | call c k ih => exact ⟨hp.1, fun r => ih r (hp.2 r)⟩

/-- What every answer keeps of the record holds at the end. -/
theorem Outline.of_inv {I : G → Prop} (h : ∀ c r g, I g → I (upd c r g)) (p : Prog C R α)
    {g : G} (hg : I g) : p.Outline upd (fun _ _ => True) (fun g' _ => I g') g := by
  induction p generalizing g with
  | ret a => exact hg
  | call c k ih => exact ⟨trivial, fun r => ih r (h c r g hg)⟩

/-- A run ends as the outline says, at what its own calls were answered. -/
theorem Outline.run {Q : G → α → Prop} {p : Prog C R α} {g : G} (hp : p.Outline upd P Q g)
    (s : S) :
    Q ((p.trace exec s).foldl (fun g e => upd e.1 e.2 g) g) (p.run exec s).1 := by
  induction p generalizing g s with
  | ret a => exact hp
  | call c k ih => exact ih _ (hp.2 _) _

/-- What every answer of `exec` keeps of the record, a whole run keeps. -/
theorem trace_inv {I : G → Prop} (h : ∀ c s g, I g → I (upd c (exec c s).1 g))
    (p : Prog C R α) (s : S) (g : G) (hg : I g) :
    I ((p.trace exec s).foldl (fun g e => upd e.1 e.2 g) g) := by
  induction p generalizing s g with
  | ret a => exact hg
  | call c k ih => exact ih _ _ _ (h c s g hg)

end Outline

/-! ### Programs inside programs -/

/-- Do every call of a program by a program over other calls. -/
def interp {D : Type} {Q : D → Type} {α : Type} (h : (c : C) → Prog D Q (R c)) :
    Prog C R α → Prog D Q α
  | ret a => ret a
  | call c k => (h c).bind fun r => (k r).interp h

theorem makes_interp {D : Type} {Q : D → Type} {α : Type} {P : D → Prop}
    {h : (c : C) → Prog D Q (R c)} (hcall : ∀ c, (h c).Makes P) (p : Prog C R α) :
    (p.interp h).Makes P := by
  induction p with
  | ret a => trivial
  | call c k ih => exact makes_bind (hcall c) ih

/-- A program whose calls act on a part of the state acts on that part as it does alone:
`get` and `set` are the part, and `h` does each call there. -/
theorem run_interp {D T : Type} {Q : D → Type} {α : Type} (execD : (d : D) → T → Q d × T)
    (h : (c : C) → Prog D Q (R c)) (get : T → S) (set : T → S → T)
    (hget : ∀ t s, get (set t s) = s) (hset : ∀ t, set t (get t) = t)
    (htwice : ∀ t s s', set (set t s) s' = set t s')
    (hcall : ∀ c t, (h c).run execD t = ((exec c (get t)).1, set t (exec c (get t)).2))
    (p : Prog C R α) :
    ∀ t, (p.interp h).run execD t
      = ((p.run exec (get t)).1, set t (p.run exec (get t)).2) := by
  induction p with
  | ret a => intro t; rw [run_ret, hset]; rfl
  | call c k ih =>
      intro t
      show (h c >>= fun r => (k r).interp h).run execD t = _
      rw [run_bind, hcall, ih, hget, htwice, run_call]

/-- The outline of a program is one of the program that does each of its calls by other
calls.  `get` is what the inner program records of what the outer one does, and `I` is
something else the outer one keeps. -/
theorem Outline.interp {D G H : Type} {Q : D → Type} {α : Type} {upd : (c : C) → R c → G → G}
    {P : G → C → Prop} {updD : (d : D) → Q d → H → H} {PD : H → D → Prop}
    {h : (c : C) → Prog D Q (R c)} {T : G → α → Prop} (get : H → G) (I : H → Prop)
    (hcall : ∀ c g, I g → P (get g) c →
      (h c).Outline updD PD (fun g' r => get g' = upd c r (get g) ∧ I g') g)
    {p : Prog C R α} {g : H} (hI : I g) (hp : p.Outline upd P T (get g)) :
    (p.interp h).Outline updD PD (fun g' a => T (get g') a ∧ I g') g := by
  induction p generalizing g with
  | ret a => exact ⟨hp, hI⟩
  | call c k ih =>
      refine (hcall c g hI hp.1).bind fun g' r hg' => ?_
      refine ih r hg'.2 ?_
      rw [hg'.1]
      exact hp.2 r

end Prog

/-! ### Interleaved -/

/-- A shared state and the programs running on it. -/
structure Pool (ι C : Type) (R : C → Type) (α S : Type) where
  shared : S
  threads : ι → Prog C R α

namespace Pool

variable {ι C : Type} {R : C → Type} {α S : Type}

/-- Every program has come to its answer. -/
def Finished (p : Pool ι C R α S) : Prop := ∀ i, (p.threads i).result?.isSome = true

/-- The threads that take a step, in order. -/
def turns (schedule : List (ι ⊕ C)) : List ι := schedule.filterMap Sum.getLeft?

@[simp] theorem turns_nil : turns ([] : List (ι ⊕ C)) = [] := rfl

@[simp] theorem turns_inl (i : ι) (rest : List (ι ⊕ C)) :
    turns (.inl i :: rest) = i :: turns rest := rfl

@[simp] theorem turns_inr (c : C) (rest : List (ι ⊕ C)) : turns (.inr c :: rest) = turns rest :=
  rfl

/-- The first turn of a schedule, with what comes before and after it. -/
theorem turns_eq_cons {schedule : List (ι ⊕ C)} {i : ι} {rest : List ι}
    (h : turns schedule = i :: rest) :
    ∃ before after, schedule = before ++ .inl i :: after ∧ turns before = [] ∧
      turns after = rest := by
  obtain ⟨before, e, after, rfl, hbefore, he, hafter⟩ := List.filterMap_eq_cons_iff.mp h
  obtain rfl : e = .inl i := Sum.getLeft?_eq_some_iff.mp he
  exact ⟨before, after, rfl, List.filterMap_eq_nil_iff.mpr hbefore, hafter⟩

/-- Where a schedule has its first turn is determined. -/
theorem eq_of_first_turn (calls : List C) : ∀ {calls' : List C} {i j : ι}
    {rest rest' : List (ι ⊕ C)},
    calls.map .inr ++ .inl i :: rest = calls'.map .inr ++ .inl j :: rest' →
      calls = calls' ∧ i = j ∧ rest = rest' := by
  induction calls with
  | nil =>
      intro calls' i j rest rest' h
      cases calls' with
      | nil =>
          obtain ⟨hij, hrest⟩ := List.cons.inj h
          exact ⟨rfl, Sum.inl.inj hij, hrest⟩
      | cons c l => cases (List.cons.inj h).1
  | cons c l ih =>
      intro calls' i j rest rest' h
      cases calls' with
      | nil => cases (List.cons.inj h).1
      | cons c' l' =>
          obtain ⟨hc, htail⟩ := List.cons.inj h
          obtain ⟨rfl, hij, hrest⟩ := ih htail
          exact ⟨by rw [Sum.inr.inj hc], hij, hrest⟩

variable [DecidableEq ι] (exec : (c : C) → S → R c × S)

/-- One call: the next one of thread `i`, or a call `c` of some unrelated task. -/
def step (p : Pool ι C R α S) : ι ⊕ C → Pool ι C R α S
  | .inl i =>
      match p.threads i with
      | .ret _ => p
      | .call c k =>
          { shared := (exec c p.shared).2
            threads := Function.update p.threads i (k (exec c p.shared).1) }
  | .inr c => { p with shared := (exec c p.shared).2 }

/-- The calls of a schedule, in order. -/
def steps (p : Pool ι C R α S) (schedule : List (ι ⊕ C)) : Pool ι C R α S :=
  schedule.foldl (step exec) p

@[simp] theorem steps_nil (p : Pool ι C R α S) : p.steps exec [] = p := rfl

@[simp] theorem steps_cons (p : Pool ι C R α S) (e : ι ⊕ C) (rest : List (ι ⊕ C)) :
    p.steps exec (e :: rest) = (p.step exec e).steps exec rest := rfl

theorem steps_append (p : Pool ι C R α S) (a b : List (ι ⊕ C)) :
    p.steps exec (a ++ b) = (p.steps exec a).steps exec b := by
  rw [steps, List.foldl_append]
  rfl

/-- A thread that has come to its answer takes no further step. -/
theorem step_ret {p : Pool ι C R α S} {i : ι} {a : α} (h : p.threads i = .ret a) :
    p.step exec (.inl i) = p := by
  simp [step, h]

theorem step_call {p : Pool ι C R α S} {i : ι} {c : C} {k : R c → Prog C R α}
    (h : p.threads i = .call c k) :
    p.step exec (.inl i)
      = { shared := (exec c p.shared).2
          threads := Function.update p.threads i (k (exec c p.shared).1) } := by
  simp [step, h]

theorem threads_step_self {p : Pool ι C R α S} {i : ι} {c : C} {k : R c → Prog C R α}
    (h : p.threads i = .call c k) :
    (p.step exec (.inl i)).threads i = k (exec c p.shared).1 := by
  rw [step_call exec h]
  exact Function.update_self ..

theorem threads_step_of_ne {p : Pool ι C R α S} {i j : ι} (h : i ≠ j) :
    (p.step exec (.inl j)).threads i = p.threads i := by
  cases hj : p.threads j with
  | ret b => rw [step_ret exec hj]
  | call c k =>
      rw [step_call exec hj]
      exact Function.update_of_ne h ..

/-- What a thread keeps through its own calls no other step takes from it. -/
theorem threads_step_inv {T : Prog C R α → Prop}
    (hT : ∀ c k s, T (.call c k) → T (k (exec c s).1)) {p : Pool ι C R α S} {i : ι}
    (h : T (p.threads i)) (e : ι ⊕ C) : T ((p.step exec e).threads i) := by
  rcases e with j | c
  · by_cases hij : i = j
    · subst hij
      cases hi : p.threads i with
      | ret a =>
          rw [step_ret exec hi]
          exact h
      | call c k =>
          rw [hi] at h
          rw [threads_step_self exec hi]
          exact hT c k _ h
    · rw [threads_step_of_ne exec hij]
      exact h
  · exact h

theorem threads_steps_inv {T : Prog C R α → Prop}
    (hT : ∀ c k s, T (.call c k) → T (k (exec c s).1)) {i : ι} (schedule : List (ι ⊕ C)) :
    ∀ {p : Pool ι C R α S}, T (p.threads i) → T ((p.steps exec schedule).threads i) := by
  induction schedule with
  | nil => intro p h; exact h
  | cons e rest ih => intro p h; exact ih (threads_step_inv exec hT h e)

/-- A stretch without turns is calls of other tasks only. -/
theorem steps_of_turns_nil {I : S → Prop} {schedule : List (ι ⊕ C)} (h : turns schedule = [])
    (hout : ∀ c, .inr c ∈ schedule → ∀ s, I s → I (exec c s).2) :
    ∀ p : Pool ι C R α S, I p.shared →
      (p.steps exec schedule).threads = p.threads ∧ I (p.steps exec schedule).shared := by
  induction schedule with
  | nil => intro p hp; exact ⟨rfl, hp⟩
  | cons e rest ih =>
      intro p hp
      rcases e with i | c
      · simp at h
      · exact ih h (fun d hd => hout d (List.mem_cons_of_mem _ hd)) (p.step exec (.inr c))
          (hout c List.mem_cons_self _ hp)

/-- The calls of other tasks act on the shared state, one after another. -/
theorem steps_map_inr (calls : List C) : ∀ p : Pool ι C R α S,
    p.steps exec (calls.map .inr)
      = { p with shared := calls.foldl (fun s c => (exec c s).2) p.shared } := by
  induction calls with
  | nil => intro p; rfl
  | cons c rest ih => intro p; exact ih (p.step exec (.inr c))

/-- A schedule at whose end everybody has answered has a turn, if somebody has still to
answer. -/
theorem exists_turn {schedule : List (ι ⊕ C)} {p : Pool ι C R α S} {i : ι} {c : C}
    {k : R c → Prog C R α} (hi : p.threads i = .call c k)
    (hfin : (p.steps exec schedule).Finished) :
    ∃ (j : ι) (calls : List C) (rest : List (ι ⊕ C)),
      schedule = calls.map .inr ++ .inl j :: rest := by
  induction schedule generalizing p with
  | nil =>
      have hnone := hfin i
      rw [steps_nil, hi] at hnone
      cases hnone
  | cons e rest ih =>
      cases e with
      | inl j => exact ⟨j, [], rest, rfl⟩
      | inr d =>
          obtain ⟨j, calls, later, rfl⟩ := ih (p := p.step exec (.inr d)) hi hfin
          exact ⟨j, d :: calls, later, rfl⟩

/-- A thread that makes at most `n` calls has answered after `n` turns. -/
theorem answered_of_turns (i : ι) (schedule : List (ι ⊕ C)) :
    ∀ {n : Nat} {p : Pool ι C R α S}, (p.threads i).AtMost n → n ≤ (turns schedule).count i →
      ((p.steps exec schedule).threads i).result?.isSome = true := by
  induction schedule with
  | nil =>
      intro n p hmost hn
      obtain rfl := Nat.le_zero.mp hn
      show (p.threads i).result?.isSome = true
      cases hi : p.threads i with
      | ret a => rfl
      | call c k => rw [hi] at hmost; exact hmost.elim
  | cons e rest ih =>
      intro n p hmost hn
      cases e with
      | inr c => exact ih (p := p.step exec (.inr c)) hmost hn
      | inl j =>
          rw [turns_inl] at hn
          by_cases hji : j = i
          · subst hji
            rw [List.count_cons_self] at hn
            cases hi : p.threads j with
            | ret a =>
                rw [steps_cons, step_ret exec hi]
                exact ih (n := 0) (by rw [hi]; trivial) (Nat.zero_le _)
            | call c k =>
                cases n with
                | zero => rw [hi] at hmost; exact hmost.elim
                | succ m =>
                    refine ih (n := m) ?_ (Nat.le_of_succ_le_succ hn)
                    rw [threads_step_self exec hi]
                    rw [hi] at hmost
                    exact hmost _
          · rw [List.count_cons_of_ne hji] at hn
            refine ih (n := n) ?_ hn
            rw [threads_step_of_ne exec (Ne.symm hji)]
            exact hmost

/-- A thread that takes all the turns runs as it would alone. -/
theorem exists_steps_eq_run (i : ι) (t : Prog C R α) :
    ∀ p : Pool ι C R α S, p.threads i = t →
      ∃ n, (p.steps exec (List.replicate n (.inl i))).shared = (t.run exec p.shared).2 := by
  induction t with
  | ret a => intro p _; exact ⟨0, rfl⟩
  | call c k ih =>
      intro p hp
      obtain ⟨n, hn⟩ := ih _ (p.step exec (.inl i)) (threads_step_self exec hp)
      refine ⟨n + 1, ?_⟩
      rw [List.replicate_succ, steps_cons, hn, step_call exec hp]
      rfl

/--
**The invariant rule.**  What holds of a pool and is kept by every call the schedule
makes holds after the whole schedule.
-/
theorem steps_inv {I : Pool ι C R α S → Prop} (schedule : List (ι ⊕ C))
    (hstep : ∀ p, ∀ e ∈ schedule, I p → I (p.step exec e)) :
    ∀ p, I p → I (p.steps exec schedule) := by
  induction schedule with
  | nil => intro p h; exact h
  | cons e rest ih =>
      intro p h
      exact ih (fun q f hf => hstep q f (List.mem_cons_of_mem _ hf)) _
        (hstep p e List.mem_cons_self h)

/-- Threads that make only calls with `P` keep what every such call keeps, in any order. -/
theorem steps_shared_inv {P : C → Prop} {I : S → Prop}
    (h : ∀ c s, P c → I s → I (exec c s).2) (schedule : List (ι ⊕ C))
    (hout : ∀ c, .inr c ∈ schedule → P c) (p : Pool ι C R α S)
    (hthreads : ∀ i, (p.threads i).Makes P) (hs : I p.shared) :
    I (p.steps exec schedule).shared := by
  refine (steps_inv (I := fun q => (∀ i, (q.threads i).Makes P) ∧ I q.shared) exec schedule
    ?_ p ⟨hthreads, hs⟩).2
  intro q e he hinv
  obtain ⟨hq, hqs⟩ := hinv
  cases e with
  | inl i =>
      cases hi : q.threads i with
      | ret a => rw [step_ret exec hi]; exact ⟨hq, hqs⟩
      | call c k =>
          have hc := hq i
          rw [hi] at hc
          rw [step_call exec hi]
          refine ⟨fun j => ?_, h c _ hc.1 hqs⟩
          show (Function.update q.threads i _ j).Makes P
          by_cases hj : j = i
          · subst hj
            rw [Function.update_self]
            exact hc.2 _
          · rw [Function.update_of_ne hj]
            exact hq j
  | inr c => exact ⟨hq, h c _ (hout c he) hqs⟩

/-! ### Answers that are not determined -/

section Moves

variable {does : ι → (c : C) → S → R c → S → Prop} {other : S → S → Prop}

/-- One call, or one step of what is outside: `does i c s r s'` says that the call `c` of
thread `i` may be answered with `r` in `s`, and leave `s'`. -/
inductive Moves (does : ι → (c : C) → S → R c → S → Prop) (other : S → S → Prop) :
    Pool ι C R α S → Pool ι C R α S → Prop
  | turn {p : Pool ι C R α S} (i : ι) {c : C} {k : R c → Prog C R α} (r : R c) (s : S)
      (hi : p.threads i = .call c k) (h : does i c p.shared r s) :
      Moves does other p { shared := s, threads := Function.update p.threads i (k r) }
  | outside {p : Pool ι C R α S} (s : S) (h : other p.shared s) :
      Moves does other p { p with shared := s }

/-- A pool in which every thread keeps to an outline, at what the shared state records of
its answers, stays one. -/
theorem Moves.outline {G : Type} {upd : (c : C) → R c → G → G} {P : G → C → Prop}
    {Q : G → α → Prop} (record : S → ι → G)
    (hself : ∀ {i c s r s'}, does i c s r s' → record s' i = upd c r (record s i))
    (hne : ∀ {i c s r s' j}, does i c s r s' → j ≠ i → record s' j = record s j)
    (hother : ∀ {s s' j}, other s s' → record s' j = record s j) {p q : Pool ι C R α S}
    (h : Moves does other p q)
    (hp : ∀ i, (p.threads i).Outline upd P Q (record p.shared i)) (i : ι) :
    (q.threads i).Outline upd P Q (record q.shared i) := by
  cases h with
  | turn j r s hj h =>
      have hcall := hp j
      rw [hj] at hcall
      show (Function.update p.threads j _ i).Outline upd P Q (record s i)
      by_cases hij : i = j
      · subst hij
        rw [Function.update_self, hself h]
        exact hcall.2 r
      · rw [Function.update_of_ne hij, hne h hij]
        exact hp i
  | outside s h =>
      show (p.threads i).Outline upd P Q (record s i)
      rw [hother h]
      exact hp i

end Moves

end Pool
