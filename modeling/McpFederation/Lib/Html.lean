/-
What a page is read as: tags, and text between them.

A tag runs from `<` to the next `>`, and every other character is text.  The reader goes
through the page once, and all it remembers is the tag it is in.  Wherever it was, it is
back in the text after a `>`; that is why a page put together from pieces can be read
piece by piece.  `read_write` is the converse: tokens that are written down are read back,
as long as no text has a `<` in it and no tag a `>`.

In the text, `&`, `<`, `>` and the quotes are written as the words of `entities`.
-/
import McpFederation.Lib.Escape

namespace Html

inductive Token where
  | tag (body : List Char)
  | char (c : Char)
deriving DecidableEq

/-- Where the reader is: in the text, or in a tag of which it has read this much. -/
abbrev Place := Option (List Char)

/-- What one character completes, and where the reader is after it. -/
def step : Place → Char → List Token × Place
  | none, c => if c = '<' then ([], some []) else ([.char c], none)
  | some body, c => if c = '>' then ([.tag body], none) else ([], some (body ++ [c]))

/-- The tokens of a text; a tag that is never closed is none of them. -/
def readFrom : Place → List Char → List Token
  | _, [] => []
  | place, c :: s => (step place c).1 ++ readFrom (step place c).2 s

def placeAfter (place : Place) (s : List Char) : Place := s.foldl (fun p c => (step p c).2) place

/-- The tokens of a page. -/
def read (page : List Char) : List Token := readFrom none page

theorem readFrom_append (place : Place) (a b : List Char) :
    readFrom place (a ++ b) = readFrom place a ++ readFrom (placeAfter place a) b := by
  induction a generalizing place with
  | nil => rfl
  | cons c a ih =>
      rw [List.cons_append, readFrom, readFrom, ih, List.append_assoc]
      rfl

/-- A page that does not end in a tag is read by itself, whatever follows. -/
theorem read_append {a : List Char} (h : placeAfter none a = none) (b : List Char) :
    read (a ++ b) = read a ++ read b := by
  rw [read, readFrom_append, h]
  rfl

theorem placeAfter_append (place : Place) (a b : List Char) :
    placeAfter place (a ++ b) = placeAfter (placeAfter place a) b :=
  List.foldl_append

/-- After a `>` the reader is in the text. -/
theorem placeAfter_gt (place : Place) (a : List Char) : placeAfter place (a ++ ['>']) = none := by
  rw [placeAfter, List.foldl_concat]
  cases a.foldl (fun p c => (step p c).2) place with
  | none => rfl
  | some body => rfl

/-! ### Writing tokens -/

def Token.source : Token → List Char
  | .tag body => '<' :: (body ++ ['>'])
  | .char c => [c]

/-- Can be told apart from what follows it. -/
def Token.Sound : Token → Prop
  | .tag body => '>' ∉ body
  | .char c => c ≠ '<'

def write (tokens : List Token) : List Char := tokens.flatMap Token.source

theorem readFrom_body {body : List Char} (h : '>' ∉ body) (front s : List Char) :
    readFrom (some front) (body ++ '>' :: s) = .tag (front ++ body) :: read s := by
  induction body generalizing front with
  | nil => simp [readFrom, step, read]
  | cons c body ih =>
      obtain ⟨hc, hbody⟩ := not_or.mp (mt List.mem_cons.mpr h)
      rw [List.cons_append, readFrom, step, if_neg (Ne.symm hc), List.nil_append, ih hbody,
        List.append_assoc]
      rfl

theorem read_source {t : Token} (h : t.Sound) (s : List Char) :
    read (t.source ++ s) = t :: read s := by
  cases t with
  | tag body =>
      have hbody := readFrom_body h [] s
      rw [← List.singleton_append, ← List.append_assoc] at hbody
      exact hbody
  | char c =>
      rw [Token.source, List.singleton_append, read, readFrom, step, if_neg h]
      rfl

/-- Sound tokens are read back as they were written, whatever follows. -/
theorem read_write {tokens : List Token} (h : ∀ t ∈ tokens, t.Sound) (s : List Char) :
    read (write tokens ++ s) = tokens ++ read s := by
  induction tokens with
  | nil => rfl
  | cons t tokens ih =>
      obtain ⟨ht, htokens⟩ := List.forall_mem_cons.mp h
      rw [write, List.flatMap_cons, List.append_assoc, read_source ht]
      exact congrArg _ (ih htokens)

/-! ### Tags and texts -/

/-- A tag with this body. -/
def tag (body : String) : List Token := [.tag body.toList]

/-- A text, character by character. -/
def text (s : String) : List Token := s.toList.map .char

@[simp] theorem write_tag (body : String) : write (tag body) = '<' :: (body.toList ++ ['>']) :=
  List.append_nil _

@[simp] theorem write_text (s : String) : write (text s) = s.toList := by
  rw [write, text, List.flatMap_map]
  exact List.flatMap_singleton' _

@[simp] theorem write_append (a b : List Token) : write (a ++ b) = write a ++ write b :=
  List.flatMap_append

theorem sound_tag {body : String} (h : '>' ∉ body.toList) : ∀ t ∈ tag body, t.Sound := by
  intro t ht
  rw [List.mem_singleton.mp ht]
  exact h

theorem sound_text {s : String} (h : '<' ∉ s.toList) : ∀ t ∈ text s, t.Sound := by
  intro t ht
  obtain ⟨c, hc, rfl⟩ := List.mem_map.mp ht
  exact fun hlt => h (hlt ▸ hc)

/-! ### Entities -/

/-- The words for the characters that have a meaning of their own. -/
def entities : Escaping Char where
  mark := '&'
  own := ['a', 'm', 'p', ';']
  others :=
    [('<', ['l', 't', ';']), ('>', ['g', 't', ';']), ('"', ['q', 'u', 'o', 't', ';']),
      ('\'', ['#', '3', '9', ';'])]
  marked_once := by decide
  clean := by decide
  free := by decide

end Html
