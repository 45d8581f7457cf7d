/-
A balance that is filled at a steady rate up to a cap, and spent one unit at a time.

The state is one clamped number, brought up to date only when something arrives.  What it
stands for quantifies over the past: an arrival is served exactly when, for every earlier
arrival, what has been served since then and this one together are no more than the cap
plus what was supplied since.  `le_fill_iff` is the link: a lower bound on the clamped
balance is a lower bound on every one of those windows.

Supply is counted from an arbitrary start, so the rate and the clock are the user's.
-/
import Mathlib.Algebra.Order.Ring.Defs
import Mathlib.Data.List.TakeDrop
import Mathlib.Tactic.Linarith
import McpFederation.Lib.Runs

namespace Meter

variable {K : Type*} [CommRing K] [LinearOrder K]

/-- The balance, and the supply it has been filled up to. -/
structure State (K : Type*) where
  balance : K
  supply : K

/-- Bring the balance up to date. -/
def fill (cap : K) (s : State K) (w : K) : State K :=
  ⟨min (s.balance + (w - s.supply)) cap, w⟩

/-- Spend one unit, if there is one. -/
def spend (s : State K) : Bool × State K :=
  if 1 ≤ s.balance then (true, { s with balance := s.balance - 1 }) else (false, s)

/-- An arrival when the supply stands at `w`. -/
def serve (cap : K) (s : State K) (w : K) : Bool × State K := spend (fill cap s w)

/-- How many of the arrivals from the `i`th on, and before the `j`th, were served. -/
def served {A : Type*} (os : List (A × Bool)) (i j : Nat) : Nat :=
  ((os.take j).drop i).countP fun o => o.2

/-- **What a meter is for**: an arrival is served exactly when every window that it ends
has room for it. -/
def Conforms (cap : K) (os : List (K × Bool)) : Prop :=
  ∀ j w d, os[j]? = some (w, d) →
    (d = true ↔ ∀ i v b, i ≤ j → os[i]? = some (v, b) → (served os i j : K) + 1 ≤ cap + (w - v))

/-- No window ever holds more than the cap and what was supplied in it. -/
def Within (cap : K) (os : List (K × Bool)) : Prop :=
  ∀ i j v w b d, i ≤ j → os[i]? = some (v, b) → os[j]? = some (w, d) →
    (served os i (j + 1) : K) ≤ cap + (w - v)

/-- There is room for `y` more at the supply `w` in every window that begins in `os`. -/
def Room (cap : K) (os : List (K × Bool)) (w y : K) : Prop :=
  ∀ i v b, os[i]? = some (v, b) → y + (served os i os.length : K) ≤ cap + (w - v)

/-! ### Counting -/

section

variable {A : Type*} {os : List (A × Bool)} {i j : Nat}

theorem served_append_left (o : A × Bool) (hj : j ≤ os.length) :
    served (os ++ [o]) i j = served os i j := by
  rw [served, List.take_append_of_le_length hj]
  rfl

/-- One more arrival counts in every window that it ends. -/
theorem served_append_right (o : A × Bool) (hi : i ≤ os.length) :
    served (os ++ [o]) i (os.length + 1)
      = served os i os.length + if o.2 = true then 1 else 0 := by
  have htake : (os ++ [o]).take (os.length + 1) = os ++ [o] :=
    List.take_of_length_le (by simp)
  rw [served, htake, List.drop_append_of_le_length hi, List.countP_append, served,
    List.take_length, List.countP_singleton]

theorem served_self (os : List (A × Bool)) : served os os.length os.length = 0 := by
  simp [served]

/-- Only the answers are counted. -/
theorem served_map {C : Type*} (f : A → C) (os : List (A × Bool)) (i j : Nat) :
    served (os.map fun o => (f o.1, o.2)) i j = served os i j := by
  rw [served, ← List.map_take, ← List.map_drop, List.countP_map]
  rfl

/-- An arrival is an old one or the new one. -/
theorem getElem?_snoc {o p : A × Bool} (h : (os ++ [o])[i]? = some p) :
    os[i]? = some p ∨ (i = os.length ∧ p = o) := by
  rcases Nat.lt_or_ge i os.length with hlt | hge
  · rw [List.getElem?_append_left hlt] at h
    exact Or.inl h
  · rw [List.getElem?_append_right hge, List.getElem?_singleton] at h
    split at h
    · rename_i hzero
      rw [Option.some.injEq] at h
      exact Or.inr ⟨by omega, h.symm⟩
    · simp at h

theorem lt_of_getElem? {p : A × Bool} (h : os[i]? = some p) : i < os.length :=
  (List.getElem?_eq_some_iff.mp h).1

end

/-! ### One arrival -/

theorem serve_balance (cap : K) (s : State K) (w : K) :
    (serve cap s w).2.balance
      = (fill cap s w).balance - if (serve cap s w).1 = true then 1 else 0 := by
  unfold serve spend
  split <;> simp

theorem serve_supply (cap : K) (s : State K) (w : K) : (serve cap s w).2.supply = w := by
  unfold serve spend
  split <;> rfl

/-! ### The balance and the windows -/

/-- The state after the arrivals `os` tracks all their windows. -/
structure Tracks (cap : K) (os : List (K × Bool)) (s : State K) : Prop where
  nonneg : 0 ≤ s.balance
  le_cap : s.balance ≤ cap
  le_iff : ∀ y ≤ cap, (y ≤ s.balance ↔ Room cap os s.supply y)
  conforms : Conforms cap os
  within : Within cap os

/-- A full meter, before any arrival. -/
theorem tracks_full {cap : K} (hcap : 0 ≤ cap) (w : K) : Tracks cap [] ⟨cap, w⟩ where
  nonneg := hcap
  le_cap := le_refl cap
  le_iff := fun y hy => iff_of_true hy (fun i v b h => by simp at h)
  conforms := fun j w d h => by simp at h
  within := fun i j v w b d _ h => by simp at h

section

variable {cap : K} {os : List (K × Bool)} {s : State K} {w : K}

theorem within_snoc {d : Bool} (h : Within cap os) (hroom : Room cap (os ++ [(w, d)]) w 0) :
    Within cap (os ++ [(w, d)]) := by
  intro i j v w' b d' hij hi hj
  rcases getElem?_snoc hj with hold | ⟨rfl, hnew⟩
  · have hlt := lt_of_getElem? hold
    rw [List.getElem?_append_left (Nat.lt_of_le_of_lt hij hlt)] at hi
    rw [served_append_left _ hlt]
    exact h i j v w' b d' hij hi hold
  · obtain ⟨rfl, rfl⟩ := Prod.mk.inj hnew
    have hle := hroom i v b hi
    rw [List.length_append, List.length_singleton, zero_add] at hle
    exact hle

variable [IsStrictOrderedRing K]

/-- A lower bound on the balance at `w` is a lower bound on every window's room. -/
theorem Tracks.le_fill_iff (h : Tracks cap os s) (hw : s.supply ≤ w) {y : K} (hy : y ≤ cap) :
    y ≤ (fill cap s w).balance ↔ Room cap os w y := by
  have hshift : y ≤ (fill cap s w).balance ↔ y - (w - s.supply) ≤ s.balance := by
    simp only [fill, le_min_iff, hy, and_true, sub_le_iff_le_add]
  rw [hshift, h.le_iff _ (by linarith)]
  refine forall_congr' fun i => forall_congr' fun v => forall_congr' fun b =>
    forall_congr' fun _ => ⟨fun hle => ?_, fun hle => ?_⟩ <;> linarith

/-- The new arrival adds one window, of its own, and itself to every other. -/
theorem room_snoc (d : Bool) (y : K) :
    Room cap (os ++ [(w, d)]) w y ↔
      Room cap os w (y + if d = true then 1 else 0) ∧ (y + if d = true then 1 else 0) ≤ cap := by
  have hcast : ∀ n : Nat, ((n + if d = true then 1 else 0 : Nat) : K)
      = (n : K) + if d = true then 1 else 0 := by
    intro n
    split <;> simp
  refine ⟨fun h => ⟨fun i v b hi => ?_, ?_⟩, fun h i v b hi => ?_⟩
  · have hlt := lt_of_getElem? hi
    have hroom := h i v b (by rw [List.getElem?_append_left hlt]; exact hi)
    rw [List.length_append, List.length_singleton, served_append_right _ hlt.le, hcast] at hroom
    linarith
  · have hroom := h os.length w d (by simp)
    rw [List.length_append, List.length_singleton, served_append_right _ (le_refl _),
      served_self, hcast] at hroom
    simpa using hroom
  · rw [List.length_append, List.length_singleton]
    rcases getElem?_snoc hi with hold | ⟨rfl, hnew⟩
    · rw [served_append_right _ (lt_of_getElem? hold).le, hcast]
      have hroom := h.1 i v b hold
      linarith
    · rw [served_append_right _ (le_refl _), served_self, hcast]
      obtain ⟨rfl, rfl⟩ := Prod.mk.inj hnew
      simpa using h.2

/-- The arrival is served exactly when the cap is not below one and every window has room. -/
theorem Tracks.serve_iff (h : Tracks cap os s) (hw : s.supply ≤ w) :
    (serve cap s w).1 = true ↔ 1 ≤ cap ∧ Room cap os w 1 := by
  have hserve : (serve cap s w).1 = true ↔ 1 ≤ (fill cap s w).balance := by
    unfold serve spend
    split <;> simp_all
  rw [hserve]
  by_cases hcap : 1 ≤ cap
  · rw [h.le_fill_iff hw hcap]
    exact (and_iff_right hcap).symm
  · refine iff_of_false (fun hle => hcap (le_trans hle (min_le_right _ _))) fun hc => hcap hc.1

theorem conforms_snoc {d : Bool} (h : Conforms cap os)
    (hd : d = true ↔ 1 ≤ cap ∧ Room cap os w 1) : Conforms cap (os ++ [(w, d)]) := by
  intro j w' d' hj
  rcases getElem?_snoc hj with hold | ⟨rfl, hnew⟩
  · have hlt := lt_of_getElem? hold
    rw [h j w' d' hold]
    refine forall_congr' fun i => forall_congr' fun v => forall_congr' fun b =>
      forall_congr' fun hi => ?_
    rw [served_append_left _ hlt.le, List.getElem?_append_left (Nat.lt_of_le_of_lt hi hlt)]
  · obtain ⟨rfl, rfl⟩ := Prod.mk.inj hnew
    rw [hd]
    refine ⟨fun hroom i v b _ hi => ?_, fun hall => ⟨?_, fun i v b hi => ?_⟩⟩
    · rw [served_append_left _ (le_refl _)]
      rcases getElem?_snoc hi with hold | ⟨rfl, hnew⟩
      · have hle := hroom.2 i v b hold
        linarith
      · obtain ⟨rfl, rfl⟩ := Prod.mk.inj hnew
        rw [served_self]
        simpa using hroom.1
    · have hle := hall os.length _ _ (le_refl _) hj
      rw [served_append_left _ (le_refl _), served_self] at hle
      simpa using hle
    · have hlt := lt_of_getElem? hi
      have hle := hall i v b hlt.le (by rw [List.getElem?_append_left hlt]; exact hi)
      rw [served_append_left _ (le_refl _)] at hle
      linarith

/-- **One arrival**: the state it leaves tracks all windows, its own included. -/
theorem Tracks.snoc (h : Tracks cap os s) (hw : s.supply ≤ w) :
    Tracks cap (os ++ [(w, (serve cap s w).1)]) (serve cap s w).2 := by
  have hiff := h.serve_iff hw
  have hbalance := serve_balance cap s w
  have hfill : (fill cap s w).balance ≤ cap := min_le_right _ _
  have hle : ∀ y ≤ cap, (y ≤ (serve cap s w).2.balance ↔
      Room cap (os ++ [(w, (serve cap s w).1)]) w y) := by
    intro y hy
    rw [room_snoc, hbalance, le_sub_iff_add_le]
    refine ⟨fun hle => ⟨(h.le_fill_iff hw (le_trans hle hfill)).mp hle, le_trans hle hfill⟩,
      fun hroom => (h.le_fill_iff hw hroom.2).mpr hroom.1⟩
  have hnonneg : 0 ≤ (serve cap s w).2.balance := by
    rw [hbalance]
    split
    · rename_i hserved
      obtain ⟨hcap, hroom⟩ := hiff.mp hserved
      linarith [(h.le_fill_iff hw hcap).mpr hroom]
    · have hold : 0 ≤ (fill cap s w).balance :=
        le_min (by linarith [h.nonneg]) (le_trans h.nonneg h.le_cap)
      simpa using hold
  refine ⟨hnonneg, ?_, ?_, conforms_snoc h.conforms hiff, ?_⟩
  · rw [hbalance]
    split <;> linarith
  · rw [serve_supply]
    exact hle
  · exact within_snoc h.within ((hle 0 (le_trans h.nonneg h.le_cap)).mp hnonneg)

end

variable [IsStrictOrderedRing K]

/-- Arrivals in order of supply, none before the state's own. -/
theorem Tracks.run {cap : K} {ws : List K} :
    ∀ {os : List (K × Bool)} {s : State K}, Tracks cap os s → ws.Pairwise (· ≤ ·) →
      (∀ w ∈ ws, s.supply ≤ w) →
      Conforms cap (os ++ Runs.outputs (serve cap) s ws) ∧
        Within cap (os ++ Runs.outputs (serve cap) s ws) := by
  induction ws with
  | nil =>
      intro os s h _ _
      rw [Runs.outputs_nil, List.append_nil]
      exact ⟨h.conforms, h.within⟩
  | cons w rest ih =>
      intro os s h horder hle
      obtain ⟨hfirst, hrest⟩ := List.pairwise_cons.mp horder
      rw [Runs.outputs_cons, ← List.singleton_append, ← List.append_assoc]
      refine ih (h.snoc (hle w List.mem_cons_self)) hrest fun v hv => ?_
      rw [serve_supply]
      exact hfirst v hv

/-- **A meter does what it is for**: from full, over any arrivals in order, an arrival is
served exactly when every window it ends has room, and no window overflows. -/
theorem conforms_outputs {cap w₀ : K} (hcap : 0 ≤ cap) {ws : List K}
    (horder : ws.Pairwise (· ≤ ·)) (hle : ∀ w ∈ ws, w₀ ≤ w) :
    Conforms cap (Runs.outputs (serve cap) ⟨cap, w₀⟩ ws) ∧
      Within cap (Runs.outputs (serve cap) ⟨cap, w₀⟩ ws) := by
  have h := (tracks_full hcap w₀).run horder hle
  rwa [List.nil_append] at h

end Meter
