/-
What `interpolate_env_vars` does with a text.

The loop looks for `${`, then for `}`, and goes on behind it.  What that comes to is best
said without a loop: a text is literals and variable names in turn, and each name is
replaced by its value.  `Template` is such a sequence, `render` writes it down as the
operator does, and `expand` is what the operator expects.  `interpolates` says that this is
all there is to it, since a text can be read as a template in one way only.  A value is
never looked at again, whatever is in it.
-/
import McpFederation.Model.Config

namespace McpFederation

/-- A text without `${`. -/
structure Literal where
  text : List Char
  closed : ¬ ['$', '{'] <:+: text

/-- A text without `}`: the name of a variable, or what follows a `${` that is not closed. -/
structure VarName where
  text : List Char
  plain : '}' ∉ text

/-- A text of the configuration file: literals and variables in turn, and a last literal,
after which there may be a `${` that is not closed. -/
inductive Template where
  | last (literal : Literal)
  | unclosed (literal : Literal) (tail : VarName)
  | var (literal : Literal) (name : VarName) (rest : Template)

namespace Template

/-- The text as it is written. -/
def render : Template → List Char
  | .last literal => literal.text
  | .unclosed literal tail => literal.text ++ ['$', '{'] ++ tail.text
  | .var literal name rest => literal.text ++ ['$', '{'] ++ (name.text ++ ['}'] ++ rest.render)

/-- The text with the values of its variables; one that is not set is empty. -/
def expand (env : String → Option String) : Template → List Char
  | .last literal => literal.text
  | .unclosed literal tail => literal.text ++ ['$', '{'] ++ tail.text
  | .var literal name rest =>
      literal.text ++ ((env (String.ofList name.text)).getD "").toList ++ rest.expand env

end Template

/-! ### Where a text is split -/

theorem splitChars_literal (literal : Literal) (rest : List Char) :
    Text.splitChars ['$', '{'] (literal.text ++ ['$', '{'] ++ rest)
      = some (literal.text, rest) := by
  refine Text.splitChars_of_first (by simp) rest ?_
  have hdrop : (literal.text ++ ['$', '{']).dropLast = literal.text ++ ['$'] := by
    rw [List.append_cons, List.dropLast_concat]
  -- The only new place for a `${` would be at the end, and there is no `{`.
  rw [hdrop, List.infix_concat_iff, not_or]
  refine ⟨?_, literal.closed⟩
  intro h
  have hlast := h.getLast (by simp)
  simp at hlast

theorem splitChars_name (name : VarName) (rest : List Char) :
    Text.splitChars ['}'] (name.text ++ ['}'] ++ rest) = some (name.text, rest) := by
  refine Text.splitChars_of_first (by simp) rest ?_
  rw [List.dropLast_concat]
  exact fun h => name.plain (h.subset List.mem_cons_self)

theorem splitChars_tail (tail : VarName) : Text.splitChars ['}'] tail.text = none :=
  Text.splitChars_eq_none_iff.mpr fun h => tail.plain (h.subset List.mem_cons_self)

/-- What is before the first `${` is a literal. -/
def literalOf {s literal rest : List Char}
    (h : Text.splitChars ['$', '{'] s = some (literal, rest)) : Literal where
  text := literal
  closed := by
    intro hinf
    refine Text.splitChars_first (by simp) h ?_
    rw [List.append_cons, List.dropLast_concat]
    exact hinf.trans (List.prefix_append _ _).isInfix

/-- A text with no `}` after the `${` is a tail. -/
def tailOf {s : List Char} (h : Text.splitChars ['}'] s = none) : VarName where
  text := s
  plain := fun hmem =>
    Text.splitChars_eq_none_iff.mp h ((List.singleton_infix_iff _ _).mpr hmem)

/-- What is before the first `}` is a name. -/
def nameOf {s name rest : List Char} (h : Text.splitChars ['}'] s = some (name, rest)) :
    VarName where
  text := name
  plain := by
    intro hmem
    refine Text.splitChars_first (by simp) h ?_
    rw [List.dropLast_concat]
    exact (List.singleton_infix_iff _ _).mpr hmem

/-! ### A text is one template -/

namespace Template

/-- Read a text as a template, as the loop does. -/
def read (s : List Char) : Template :=
  match hopen : Text.splitChars ['$', '{'] s with
  | none => .last ⟨s, Text.splitChars_eq_none_iff.mp hopen⟩
  | some (_, afterOpen) =>
      match hclose : Text.splitChars ['}'] afterOpen with
      | none => .unclosed (literalOf hopen) (tailOf hclose)
      | some (_, rest) => .var (literalOf hopen) (nameOf hclose) (read rest)
termination_by s.length
decreasing_by
  have h₁ := congrArg List.length (Text.splitChars_sound hopen)
  have h₂ := congrArg List.length (Text.splitChars_sound hclose)
  simp only [List.length_append, List.length_cons, List.length_nil] at h₁ h₂
  omega

section

variable {s literal afterOpen name rest : List Char}

theorem read_of_none (hopen : Text.splitChars ['$', '{'] s = none) :
    read s = .last ⟨s, Text.splitChars_eq_none_iff.mp hopen⟩ := by
  rw [read]
  split
  · rfl
  · next h => rw [hopen] at h; cases h

theorem read_of_unclosed (hopen : Text.splitChars ['$', '{'] s = some (literal, afterOpen))
    (hclose : Text.splitChars ['}'] afterOpen = none) :
    read s = .unclosed (literalOf hopen) (tailOf hclose) := by
  rw [read]
  split
  · next h => rw [hopen] at h; cases h
  · next h =>
      obtain ⟨rfl, rfl⟩ := Prod.mk.inj (Option.some.inj (hopen.symm.trans h))
      split
      · rfl
      · next h => rw [hclose] at h; cases h

theorem read_of_var (hopen : Text.splitChars ['$', '{'] s = some (literal, afterOpen))
    (hclose : Text.splitChars ['}'] afterOpen = some (name, rest)) :
    read s = .var (literalOf hopen) (nameOf hclose) (read rest) := by
  rw [read]
  split
  · next h => rw [hopen] at h; cases h
  · next h =>
      obtain ⟨rfl, rfl⟩ := Prod.mk.inj (Option.some.inj (hopen.symm.trans h))
      split
      · next h => rw [hclose] at h; cases h
      · next h =>
          obtain ⟨rfl, rfl⟩ := Prod.mk.inj (Option.some.inj (hclose.symm.trans h))
          rfl

end

/-- What was read is what is written. -/
theorem render_read (s : List Char) : (read s).render = s := by
  induction s using read.induct with
  | case1 s hopen => rw [read_of_none hopen, render]
  | case2 s literal afterOpen hopen hclose =>
      rw [read_of_unclosed hopen hclose]
      exact (Text.splitChars_sound hopen).symm
  | case3 s literal afterOpen hopen name rest hclose ih =>
      rw [read_of_var hopen hclose, render, ih]
      show literal ++ ['$', '{'] ++ (name ++ ['}'] ++ rest) = s
      rw [← Text.splitChars_sound hclose, ← Text.splitChars_sound hopen]

/-- What was written is what is read. -/
theorem read_render (t : Template) : read t.render = t := by
  induction t with
  | last literal => exact read_of_none (Text.splitChars_eq_none_iff.mpr literal.closed)
  | unclosed literal tail =>
      exact read_of_unclosed (splitChars_literal literal _) (splitChars_tail tail)
  | var literal name rest ih =>
      rw [render, read_of_var (splitChars_literal literal _) (splitChars_name name _), ih]
      rfl

/-- The loop is the expansion of what it reads. -/
theorem interpolateChars_eq (env : String → Option String) (s : List Char) :
    interpolateChars env s = (read s).expand env := by
  induction s using interpolateChars.induct with
  | case1 s hopen => rw [read_of_none hopen, interpolateChars_of_none env hopen, expand]
  | case2 s literal afterOpen hopen hclose =>
      rw [read_of_unclosed hopen hclose, interpolateChars_of_unclosed env hopen hclose]
      rfl
  | case3 s literal afterOpen hopen name rest hclose ih =>
      rw [read_of_var hopen hclose, interpolateChars_of_var env hopen hclose, ih]
      rfl

end Template

/--
**Interpolation is substitution.**  A template's text is interpolated to its expansion:
literals as they are, every variable by its value, and what follows a `${` that is not closed
as it is.  Every text is the text of exactly one template.
-/
theorem interpolates (env : String → Option String) :
    (∀ t : Template, interpolateEnvVars env (String.ofList t.render)
      = String.ofList (t.expand env)) ∧
    ∀ content : String, ∃! t : Template, String.ofList t.render = content := by
  refine ⟨?_, ?_⟩
  · intro t
    rw [interpolateEnvVars, String.toList_ofList, Template.interpolateChars_eq,
      Template.read_render]
  · intro content
    refine ⟨Template.read content.toList, ?_, ?_⟩
    · dsimp only
      rw [Template.render_read, String.ofList_toList]
    · intro t ht
      rw [← ht, String.toList_ofList, Template.read_render]

end McpFederation
