/-
Escaping: writing single characters as words.

An escaping replaces some characters of a text by words that all begin with the same one,
the mark, which is itself among the characters that are replaced.  Programs usually do it
by one replacement after another over the whole text, where a later replacement runs over
what an earlier one has written; `replaceEach_eq` says when that comes to the same as
looking at each character once.  The rest is what an escaping is for: `unescape_escape`
reads the text back, and what the escaped text can still contain is said by
`not_mem_escape` and `mark_escape`.
-/
import Mathlib.Data.List.Infix

namespace Escape

variable {α : Type} [DecidableEq α]

/-! ### One replacement after another -/

/-- Replace one character. -/
def swap (c : α) (w : List α) (x : α) : List α := if x = c then w else [x]

/-- Replace each character of the table in turn, over the whole text. -/
def replaceEach : List (α × List α) → List α → List α
  | [], s => s
  | (c, w) :: table, s => replaceEach table (s.flatMap (swap c w))

/-- What the table has for a character; one that is not in it stays. -/
def code : List (α × List α) → α → List α
  | [], x => [x]
  | (c, w) :: table, x => if x = c then w else code table x

/-- A character has its word, or it is in no entry. -/
theorem code_cases (table : List (α × List α)) (x : α) :
    (x, code table x) ∈ table ∨ (∀ p ∈ table, p.1 ≠ x) ∧ code table x = [x] := by
  induction table with
  | nil => exact Or.inr ⟨by simp, rfl⟩
  | cons p table ih =>
      obtain ⟨c, w⟩ := p
      by_cases hx : x = c
      · subst hx
        simp [code]
      · rw [code, if_neg hx]
        rcases ih with hmem | ⟨hnone, hself⟩
        · exact Or.inl (List.mem_cons_of_mem _ hmem)
        · refine Or.inr ⟨?_, hself⟩
          intro q hq
          rcases List.mem_cons.mp hq with rfl | hq
          · exact Ne.symm hx
          · exact hnone q hq

/-- A text with no character of the table stays as it is. -/
theorem flatMap_code_of_not_mem {table : List (α × List α)} {s : List α}
    (h : ∀ p ∈ table, p.1 ∉ s) : s.flatMap (code table) = s := by
  induction s with
  | nil => rfl
  | cons x s ih =>
      have hx : code table x = [x] := by
        rcases code_cases table x with hmem | ⟨-, hself⟩
        · exact absurd List.mem_cons_self (h _ hmem)
        · exact hself
      rw [List.flatMap_cons, hx, ih fun p hp hs => h p hp (List.mem_cons_of_mem _ hs)]
      rfl

/--
**Successive replacements are one substitution** if no word has a character that is
replaced after it.
-/
theorem replaceEach_eq {table : List (α × List α)} (h : table.Pairwise fun p q => q.1 ∉ p.2)
    (s : List α) : replaceEach table s = s.flatMap (code table) := by
  induction table generalizing s with
  | nil => simp [replaceEach, code]
  | cons p table ih =>
      obtain ⟨c, w⟩ := p
      obtain ⟨hlater, hrest⟩ := List.pairwise_cons.mp h
      rw [replaceEach, ih hrest, List.flatMap_assoc]
      refine List.flatMap_congr fun x _ => ?_
      by_cases hx : x = c
      · rw [swap, code, if_pos hx, if_pos hx, flatMap_code_of_not_mem hlater]
      · rw [swap, code, if_neg hx, if_neg hx, List.flatMap_singleton]

end Escape

/-! ### Escapings -/

/-- Characters and the words for them.  Only what follows the mark in a word is written
down, so every word begins with the mark. -/
structure Escaping (α : Type) where
  mark : α
  /-- The word for the mark itself, which is replaced first. -/
  own : List α
  others : List (α × List α)
  marked_once : ∀ q ∈ others, q.1 ≠ mark
  /-- No character that is replaced is in a word, but for the mark at its front. -/
  clean : ∀ p ∈ (mark, own) :: others, ∀ q ∈ (mark, own) :: others, q.1 ∉ p.2
  /-- No word is the beginning of another. -/
  free : ∀ p ∈ (mark, own) :: others, ∀ q ∈ (mark, own) :: others, p.2 <+: q.2 → p = q

namespace Escaping

open Escape

variable {α : Type} (e : Escaping α)

/-- The characters that are replaced, each with what follows the mark. -/
def names : List (α × List α) := (e.mark, e.own) :: e.others

/-- The characters with their words. -/
def table : List (α × List α) := e.names.map fun p => (p.1, e.mark :: p.2)

theorem mem_names_of_mem_table {x : α} {w : List α} (h : (x, w) ∈ e.table) :
    ∃ tail, (x, tail) ∈ e.names ∧ w = e.mark :: tail := by
  obtain ⟨p, hp, hpw⟩ := List.mem_map.mp h
  obtain ⟨rfl, rfl⟩ := Prod.mk.inj hpw
  exact ⟨p.2, hp, rfl⟩

theorem ne_mark_of_not_replaced {x : α} (h : ∀ p ∈ e.names, p.1 ≠ x) : x ≠ e.mark :=
  Ne.symm (h (e.mark, e.own) List.mem_cons_self)

variable [DecidableEq α]

/-- Every character written as its word. -/
def escape (s : List α) : List α := s.flatMap (code e.table)

/-- The entry whose word the text begins with. -/
def entryAt (s : List α) : Option (α × List α) := e.names.find? fun p => e.mark :: p.2 <+: s

/-- Read words back as characters; `n` characters of a word are still to be skipped. -/
def unescapeFrom : Nat → List α → List α
  | _, [] => []
  | n + 1, _ :: s => unescapeFrom n s
  | 0, x :: s =>
      match e.entryAt (x :: s) with
      | some p => p.1 :: unescapeFrom p.2.length s
      | none => x :: unescapeFrom 0 s

/-- Every word read as the character it stands for. -/
def unescape (s : List α) : List α := e.unescapeFrom 0 s

/-- What a character is written as: a word, or itself if it is not replaced. -/
theorem code_table_cases (x : α) :
    (∃ tail, (x, tail) ∈ e.names ∧ code e.table x = e.mark :: tail) ∨
      (∀ p ∈ e.names, p.1 ≠ x) ∧ code e.table x = [x] := by
  rcases code_cases e.table x with hmem | ⟨hnone, hself⟩
  · exact Or.inl (e.mem_names_of_mem_table hmem)
  · refine Or.inr ⟨?_, hself⟩
    intro p hp
    exact hnone (p.1, e.mark :: p.2) (List.mem_map_of_mem hp)

/-- The mark comes first, so no word has a character that is replaced later. -/
theorem replaceEach_table (s : List α) : replaceEach e.table s = e.escape s := by
  refine replaceEach_eq ?_ s
  rw [table, List.pairwise_map]
  have hword : ∀ p ∈ e.names, ∀ q ∈ e.others, q.1 ∉ e.mark :: p.2 := by
    intro p hp q hq hmem
    rcases List.mem_cons.mp hmem with hmark | htail
    · exact e.marked_once q hq hmark
    · exact e.clean p hp q (List.mem_cons_of_mem _ hq) htail
  refine List.pairwise_cons.mpr ⟨fun q hq => hword _ List.mem_cons_self q hq, ?_⟩
  refine List.pairwise_of_forall_mem_list fun p hp q hq => ?_
  exact hword p (List.mem_cons_of_mem _ hp) q hq

/-! ### What is left in an escaped text -/

/-- None of the other characters is. -/
theorem not_mem_escape {q : α × List α} (hq : q ∈ e.others) (s : List α) : q.1 ∉ e.escape s := by
  intro hmem
  obtain ⟨x, -, hx⟩ := List.mem_flatMap.mp hmem
  have hq' : q ∈ e.names := List.mem_cons_of_mem _ hq
  rcases e.code_table_cases x with ⟨tail, htail, hcode⟩ | ⟨hnone, hself⟩
  · rw [hcode] at hx
    rcases List.mem_cons.mp hx with hmark | hx
    · exact e.marked_once q hq hmark
    · exact e.clean _ htail q hq' hx
  · rw [hself, List.mem_singleton] at hx
    exact hnone q hq' hx

/-- Every mark is the first character of a word. -/
theorem mark_escape {s before after : List α} (h : e.escape s = before ++ e.mark :: after) :
    ∃ p ∈ e.names, p.2 <+: after := by
  induction s generalizing before with
  | nil => simp [escape] at h
  | cons x s ih =>
      rw [escape, List.flatMap_cons] at h
      change code e.table x ++ e.escape s = _ at h
      rcases e.code_table_cases x with ⟨tail, htail, hcode⟩ | ⟨hnone, hself⟩
      · rw [hcode, List.cons_append] at h
        have hclean : e.mark ∉ tail := e.clean _ htail (e.mark, e.own) List.mem_cons_self
        cases before with
        | nil =>
            obtain ⟨-, hafter⟩ := List.cons.inj h
            exact ⟨_, htail, e.escape s, hafter⟩
        | cons b before =>
            obtain ⟨-, hbody⟩ := List.cons.inj h
            -- The rest of the word has no mark, so the one at hand comes after it.
            rcases List.append_eq_append_iff.mp hbody with ⟨u, -, hu⟩ | ⟨u, hu, hu'⟩
            · exact ih hu
            · cases u with
              | nil =>
                  have hnext : e.escape s = [] ++ e.mark :: after := hu'.symm
                  exact ih hnext
              | cons c u =>
                  obtain ⟨rfl, -⟩ := List.cons.inj hu'
                  exact absurd (by simp [hu]) hclean
      · rw [hself] at h
        cases before with
        | nil => exact absurd (List.cons.inj h).1 (e.ne_mark_of_not_replaced hnone)
        | cons b before => exact ih (List.cons.inj h).2

/-! ### Reading an escaped text back -/

theorem unescapeFrom_append (w s : List α) : e.unescapeFrom w.length (w ++ s) = e.unescape s := by
  induction w with
  | nil => rfl
  | cons x w ih => exact ih

/-- Of two words at one place, one begins the other. -/
theorem entryAt_word {p : α × List α} (hp : p ∈ e.names) (s : List α) :
    e.entryAt (e.mark :: (p.2 ++ s)) = some p := by
  cases hfind : e.entryAt (e.mark :: (p.2 ++ s)) with
  | none =>
      have hnot := List.find?_eq_none.mp hfind p hp
      simp at hnot
  | some q =>
      have hq : q ∈ e.names := List.mem_of_find?_eq_some hfind
      have hpre : q.2 <+: p.2 ++ s := by
        have hword := List.find?_some hfind
        simpa using hword
      rcases List.prefix_or_prefix_of_prefix hpre (List.prefix_append p.2 s) with h | h
      · rw [e.free q hq p hp h]
      · rw [e.free p hp q hq h]

theorem unescape_word {p : α × List α} (hp : p ∈ e.names) (s : List α) :
    e.unescape (e.mark :: (p.2 ++ s)) = p.1 :: e.unescape s := by
  rw [unescape, unescapeFrom, e.entryAt_word hp s]
  exact congrArg _ (e.unescapeFrom_append p.2 s)

theorem unescape_other {x : α} (hx : x ≠ e.mark) (s : List α) :
    e.unescape (x :: s) = x :: e.unescape s := by
  have hnone : e.entryAt (x :: s) = none := by
    refine List.find?_eq_none.mpr fun p _ => ?_
    simp [Ne.symm hx]
  rw [unescape, unescapeFrom, hnone]
  rfl

/-- **Escaping loses nothing.** -/
theorem unescape_escape (s : List α) : e.unescape (e.escape s) = s := by
  induction s with
  | nil => rfl
  | cons x s ih =>
      rw [escape, List.flatMap_cons]
      change e.unescape (code e.table x ++ e.escape s) = x :: s
      rcases e.code_table_cases x with ⟨tail, htail, hcode⟩ | ⟨hnone, hself⟩
      · rw [hcode, List.cons_append, e.unescape_word htail, ih]
      · rw [hself, List.singleton_append, e.unescape_other (e.ne_mark_of_not_replaced hnone), ih]

end Escaping
