/-
Words between separators.

`words p s` are the pieces of `s` between the characters with `p`, without the empty ones, as
`str::split_whitespace` has them.  The reader keeps what it has read of a word; stretches
without a separator move through it as a whole, `wordsFrom_append`, and the rest follows.
-/
import Mathlib.Data.List.Basic

namespace Words

variable (p : Char → Bool)

/-- A word that has ended; between two separators there is none. -/
def flush (word : List Char) (rest : List (List Char)) : List (List Char) :=
  if word = [] then rest else word :: rest

/-- The words of a text, when `word` has been read of the first one. -/
def wordsFrom (word : List Char) : List Char → List (List Char)
  | [] => flush word []
  | c :: s => if p c then flush word (wordsFrom [] s) else wordsFrom (word ++ [c]) s

def words (s : List Char) : List (List Char) := wordsFrom p [] s

variable {p}

theorem flush_of_ne {word : List Char} (h : word ≠ []) (rest : List (List Char)) :
    flush word rest = word :: rest := if_neg h

theorem wordsFrom_append {w : List Char} (h : ∀ c ∈ w, p c = false) (rest : List Char) :
    ∀ word, wordsFrom p word (w ++ rest) = wordsFrom p (word ++ w) rest := by
  induction w with
  | nil => intro word; rw [List.nil_append, List.append_nil]
  | cons c w ih =>
      intro word
      have hc : ¬ p c = true := by simp [h c List.mem_cons_self]
      rw [List.cons_append, wordsFrom, if_neg hc, ih fun d hd => h d (List.mem_cons_of_mem _ hd),
        List.append_assoc]
      rfl

/-- A text without separators is one word. -/
theorem words_of_forall {w : List Char} (hne : w ≠ []) (h : ∀ c ∈ w, p c = false) :
    words p w = [w] := by
  have happend := wordsFrom_append h [] []
  rw [List.append_nil, List.nil_append] at happend
  rw [words, happend, wordsFrom, flush_of_ne hne]

/-- A word that a separator ends, and the words after it. -/
theorem words_append_cons {w : List Char} (hne : w ≠ []) (h : ∀ c ∈ w, p c = false) {sep : Char}
    (hsep : p sep = true) (rest : List Char) :
    words p (w ++ sep :: rest) = w :: words p rest := by
  rw [words, wordsFrom_append h, List.nil_append, wordsFrom, if_pos hsep, flush_of_ne hne, words]

theorem mem_flush {word w : List Char} {rest : List (List Char)} (h : w ∈ flush word rest) :
    (w = word ∧ word ≠ []) ∨ w ∈ rest := by
  unfold flush at h
  split at h
  · exact Or.inr h
  · rename_i hne
    rcases List.mem_cons.mp h with rfl | h
    · exact Or.inl ⟨rfl, hne⟩
    · exact Or.inr h

/-- A word is not empty, and has no separator in it. -/
theorem mem_wordsFrom {w : List Char} (s : List Char) : ∀ {word : List Char},
    (∀ c ∈ word, p c = false) → w ∈ wordsFrom p word s → w ≠ [] ∧ ∀ c ∈ w, p c = false := by
  induction s with
  | nil =>
      intro word hword hw
      rcases mem_flush hw with ⟨rfl, hne⟩ | hw
      · exact ⟨hne, hword⟩
      · cases hw
  | cons c s ih =>
      intro word hword hw
      rw [wordsFrom] at hw
      split at hw
      · rcases mem_flush hw with ⟨rfl, hne⟩ | hw
        · exact ⟨hne, hword⟩
        · exact ih (fun _ hd => absurd hd List.not_mem_nil) hw
      · rename_i hc
        refine ih (fun d hd => ?_) hw
        rcases List.mem_append.mp hd with hd | hd
        · exact hword d hd
        · rw [List.mem_singleton.mp hd]
          exact Bool.eq_false_iff.mpr hc

theorem mem_words {s w : List Char} (h : w ∈ words p s) : w ≠ [] ∧ ∀ c ∈ w, p c = false :=
  mem_wordsFrom s (fun _ hd => absurd hd List.not_mem_nil) h

end Words
