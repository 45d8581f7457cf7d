/-
Programs that others interfere with.

`p.Ensures exec other Q s` says that `p`, started in `s`, ends with `Q`, whatever moves in
`other` are made between its calls and after the last one.  It is built up along the program
by the rules below, and `Pool.steps_ensures` says what it is good for: in a pool whose other
threads, and whose other tasks, only make moves in `other`, the thread ends with `Q` in every
schedule.

`p.Uses A W n` is about the calls of `p` alone: no more than `n` of them are of the kind `W`,
as long as the answers are as `A` says.  Others may change the state in between, but not so
far that a call is answered otherwise.
-/
import McpFederation.Lib.Program

universe u

namespace Prog

variable {C S : Type} {R : C → Type} {α β : Type u}
  (exec : (c : C) → S → R c × S) (other : S → S → Prop)

/-- The program ends with `Q`, whatever the others do meanwhile. -/
def Ensures (Q : α → S → Prop) : Prog C R α → S → Prop
  | ret a, s => ∀ s', other s s' → Q a s'
  | call c k, s => ∀ s', other s s' → (k (exec c s').1).Ensures Q (exec c s').2

variable {exec other} {Q : α → S → Prop} {s : S}

theorem Ensures.imp {Q' : α → S → Prop} (h : ∀ a s, Q a s → Q' a s) {p : Prog C R α}
    (hp : p.Ensures exec other Q s) : p.Ensures exec other Q' s := by
  induction p generalizing s with
  | ret a => exact fun s' hs' => h a s' (hp s' hs')
  | call c k ih => exact fun s' hs' => ih _ (hp s' hs')

/-- The others may have been at work before the start. -/
theorem Ensures.interfere [IsTrans S other] {s' : S} (h : other s s') {p : Prog C R α}
    (hp : p.Ensures exec other Q s) : p.Ensures exec other Q s' := by
  cases p with
  | ret a => exact fun t ht => hp t (IsTrans.trans _ _ _ h ht)
  | call c k => exact fun t ht => hp t (IsTrans.trans _ _ _ h ht)

/-- One part of a program after another. -/
theorem Ensures.bind [Std.Refl other] {T : β → S → Prop} {f : α → Prog C R β} {p : Prog C R α}
    (hp : p.Ensures exec other Q s)
    (hf : ∀ a s, Q a s → (f a).Ensures exec other T s) : (p >>= f).Ensures exec other T s := by
  induction p generalizing s with
  | ret a => exact hf a s (hp s (refl s))
  | call c k ih => exact fun s' hs' => ih _ (hp s' hs')

/-- A loop: `I done` holds when it has been through `done`. -/
theorem ensures_forEach [Std.Refl other] {γ δ : Type} {f : γ → Prog C R (List δ)} {xs : List γ}
    (I : List γ → S → Prop) (hother : ∀ done s s', I done s → other s s' → I done s')
    (hstep : ∀ done x rest s, xs = done ++ x :: rest → I done s →
      (f x).Ensures exec other (fun _ s' => I (done ++ [x]) s') s) (hstart : I [] s) :
    (forEach f xs).Ensures exec other (fun _ s' => I xs s') s := by
  have key : ∀ rest done s, xs = done ++ rest → I done s →
      (forEach f rest).Ensures exec other (fun _ s' => I xs s') s := by
    intro rest
    induction rest with
    | nil =>
        intro done s hxs hdone s' hs'
        rw [List.append_nil] at hxs
        exact hxs ▸ hother done s s' hdone hs'
    | cons x rest ih =>
        intro done s hxs hdone
        refine Ensures.bind (hstep done x rest s hxs hdone) fun a s' hs' => ?_
        refine Ensures.bind (ih (done ++ [x]) s' (by simp [hxs]) hs') fun b t ht => ?_
        exact fun t' ht' => hother xs t t' ht ht'
  exact key xs [] s rfl hstart

/-! ### Calls that are few -/

/-- At most `n` calls with `W`, as long as every answer is as in `A`. -/
inductive Uses (A : (c : C) → R c → Prop) (W : C → Prop) : Nat → Prog C R α → Prop
  | ret {n : Nat} (a : α) : Uses A W n (.ret a)
  | free {n : Nat} {c : C} {k : R c → Prog C R α} (hc : ¬ W c)
      (hk : ∀ r, A c r → Uses A W n (k r)) : Uses A W n (.call c k)
  | spend {n : Nat} {c : C} {k : R c → Prog C R α} (hk : ∀ r, A c r → Uses A W n (k r)) :
      Uses A W (n + 1) (.call c k)

section Uses

variable {A : (c : C) → R c → Prop} {W : C → Prop} {n m : Nat} {c : C} {k : R c → Prog C R α}

theorem Uses.weaken {p : Prog C R α} (h : p.Uses A W n) (hnm : n ≤ m) : p.Uses A W m := by
  induction h generalizing m with
  | ret a => exact .ret a
  | free hc _ ih => exact .free hc fun r hr => ih r hr hnm
  | spend _ ih =>
      obtain ⟨m, rfl⟩ : ∃ m', m = m' + 1 := ⟨m - 1, by omega⟩
      exact .spend fun r hr => ih r hr (Nat.le_of_succ_le_succ hnm)

/-- A program that makes no such call at all. -/
theorem uses_of_makes {p : Prog C R α} (h : p.Makes fun c => ¬ W c) : p.Uses A W n := by
  induction p with
  | ret a => exact .ret a
  | call c k ih => exact .free h.1 fun r _ => ih r (h.2 r)

/-- What is left to use after a call. -/
theorem Uses.next (h : Uses A W n (.call c k)) {r : R c} (hr : A c r) : (k r).Uses A W n := by
  cases h with
  | free hc hk => exact hk r hr
  | spend hk => exact (hk r hr).weaken (Nat.le_succ _)

theorem Uses.spent (h : Uses A W (n + 1) (.call c k)) (hc : W c) {r : R c} (hr : A c r) :
    (k r).Uses A W n := by
  cases h with
  | free hnot hk => exact absurd hc hnot
  | spend hk => exact hk r hr

theorem Uses.not_of_zero (h : Uses A W 0 (.call c k)) : ¬ W c := by
  cases h with
  | free hc hk => exact hc

/-- One part of a program after another. -/
theorem Uses.bind {p : Prog C R α} {f : α → Prog C R β} (hp : p.Uses A W n)
    (hf : ∀ a, (f a).Uses A W m) : (p >>= f).Uses A W (n + m) := by
  induction hp with
  | ret a => exact (hf a).weaken (Nat.le_add_left _ _)
  | free hc _ ih => exact .free hc ih
  | @spend n c k _ ih =>
      rw [Nat.add_right_comm]
      exact .spend ih

end Uses

end Prog

namespace Pool

variable {ι C S : Type} {R : C → Type} {α : Type} [DecidableEq ι]
  {exec : (c : C) → S → R c × S} {other : S → S → Prop} {Q : α → S → Prop}

/-- Every thread keeps to its number of calls, in states that answer as in `A`. -/
theorem threads_step_uses {A : (c : C) → R c → Prop} {W : C → Prop} {I : S → Prop}
    (hA : ∀ c s, I s → A c (exec c s).1) {p : Pool ι C R α S} (hI : I p.shared) {i : ι} {n : Nat}
    (h : (p.threads i).Uses A W n) (j : ι) : ((p.step exec (.inl j)).threads i).Uses A W n := by
  by_cases hij : i = j
  · subst hij
    cases hi : p.threads i with
    | ret a =>
        rw [step_ret exec hi]
        exact h
    | call c k =>
        rw [hi] at h
        rw [threads_step_self exec hi]
        exact h.next (hA c _ hI)
  · rw [threads_step_of_ne exec hij]
    exact h

/-- What a thread ensures it still does after any schedule, if the calls of all others are
moves in `other`. -/
theorem steps_ensures [Std.Refl other] [IsTrans S other] {P : C → Prop}
    (hP : ∀ c s, P c → other s (exec c s).2) {i : ι} (schedule : List (ι ⊕ C))
    (hout : ∀ c, .inr c ∈ schedule → P c) :
    ∀ p : Pool ι C R α S, (∀ j, j ≠ i → (p.threads j).Makes P) →
      (p.threads i).Ensures exec other Q p.shared →
        ((p.steps exec schedule).threads i).Ensures exec other Q
          (p.steps exec schedule).shared := by
  intro p hthreads hi
  refine (steps_inv (I := fun q => (∀ j, j ≠ i → (q.threads j).Makes P) ∧
    (q.threads i).Ensures exec other Q q.shared) exec schedule ?_ p ⟨hthreads, hi⟩).2
  intro q e he hinv
  obtain ⟨hq, hqi⟩ := hinv
  have hmakes : ∀ j, j ≠ i → ((q.step exec e).threads j).Makes P := fun j hj =>
    threads_step_inv exec (fun _ _ _ h => h.2 _) (hq j hj) e
  refine ⟨hmakes, ?_⟩
  cases e with
  | inr c => exact hqi.interfere (hP c _ (hout c he))
  | inl j =>
      by_cases hj : j = i
      · subst hj
        cases hcall : q.threads j with
        | ret a =>
            rw [step_ret exec hcall]
            exact hqi
        | call c k =>
            rw [hcall] at hqi
            rw [threads_step_self exec hcall, step_call exec hcall]
            exact hqi _ (refl _)
      · rw [threads_step_of_ne exec (Ne.symm hj)]
        cases hcall : q.threads j with
        | ret a =>
            rw [step_ret exec hcall]
            exact hqi
        | call c k =>
            have hc := hq j hj
            rw [hcall] at hc
            rw [step_call exec hcall]
            exact hqi.interfere (hP c _ hc.1)

/-- **Interference.**  Once the thread has its answer, `Q` holds of it. -/
theorem ensured [Std.Refl other] [IsTrans S other] {P : C → Prop}
    (hP : ∀ c s, P c → other s (exec c s).2) {i : ι} {schedule : List (ι ⊕ C)}
    (hout : ∀ c, .inr c ∈ schedule → P c) {p : Pool ι C R α S}
    (hthreads : ∀ j, j ≠ i → (p.threads j).Makes P)
    (hi : (p.threads i).Ensures exec other Q p.shared) {a : α}
    (ha : (p.steps exec schedule).threads i = .ret a) :
    Q a (p.steps exec schedule).shared := by
  have hend := steps_ensures hP schedule hout p hthreads hi
  rw [ha] at hend
  exact hend _ (refl _)

end Pool
