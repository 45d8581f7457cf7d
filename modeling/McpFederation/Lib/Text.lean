/-
The string operations the program is written with.

Rust's `str` methods scan for the *first* match, and every naming rule of the
program rests on where that is.  The functions here are those methods on lists of
characters, each with a version on `String` that only converts.  What is proved is
where the first match of a pattern lies once the pattern has been written into the
string: `splitOnce_append` says that text after the first match never moves it, and
`splitOnce_double_iff` says exactly when splitting at a doubled character undoes joining.
-/
import Mathlib.Data.List.Infix
import Mathlib.Data.List.DropRight

namespace Text

/-! ### Stripping and splitting, on characters -/

/-- What is left of `s` after the pattern `p`, if `s` starts with it. -/
def stripChars : List Char → List Char → Option (List Char)
  | [], s => some s
  | _ :: _, [] => none
  | c :: p, d :: s => if c = d then stripChars p s else none

theorem stripChars_eq_some {p s rest : List Char} :
    stripChars p s = some rest ↔ s = p ++ rest := by
  induction p generalizing s with
  | nil => simp [stripChars, eq_comm]
  | cons c p ih =>
      cases s with
      | nil => simp [stripChars]
      | cons d s =>
          by_cases hcd : c = d
          · subst hcd
            simp [stripChars, ih]
          · simp [stripChars, hcd, Ne.symm hcd]

theorem stripChars_append (p rest : List Char) : stripChars p (p ++ rest) = some rest :=
  stripChars_eq_some.mpr rfl

/-- Split at the first occurrence of `sep`, which is dropped. -/
def splitChars (sep : List Char) : List Char → Option (List Char × List Char)
  | [] => if sep = [] then some ([], []) else none
  | c :: s =>
      match stripChars sep (c :: s) with
      | some rest => some ([], rest)
      | none => (splitChars sep s).map fun ab => (c :: ab.1, ab.2)

theorem splitChars_sound {sep : List Char} :
    ∀ {s a b : List Char}, splitChars sep s = some (a, b) → s = a ++ sep ++ b := by
  intro s
  induction s with
  | nil =>
      intro a b h
      simp only [splitChars] at h
      split at h
      · rename_i hsep
        simp only [Option.some.injEq, Prod.mk.injEq] at h
        simp [hsep, ← h.1, ← h.2]
      · simp at h
  | cons c s ih =>
      intro a b h
      rw [splitChars] at h
      split at h
      · rename_i rest hrest
        simp only [Option.some.injEq, Prod.mk.injEq] at h
        rw [← h.1, ← h.2]
        exact stripChars_eq_some.mp hrest
      · simp only [Option.map_eq_some_iff, Prod.exists] at h
        obtain ⟨a', b', hsplit, hab⟩ := h
        simp only [Prod.mk.injEq] at hab
        rw [← hab.1, ← hab.2, ih hsplit]
        rfl

theorem splitChars_isSome (sep a b : List Char) :
    (splitChars sep (a ++ sep ++ b)).isSome = true := by
  induction a with
  | nil =>
      rcases hs : sep ++ b with _ | ⟨c, s⟩
      · have hsep : sep = [] := (List.append_eq_nil_iff.mp hs).1
        simp [hsep, (List.append_eq_nil_iff.mp hs).2, splitChars]
      · have hstrip : stripChars sep (c :: s) = some b := by
          rw [← hs]; exact stripChars_append sep b
        simp [hs, splitChars, hstrip]
  | cons c a ih =>
      rw [List.cons_append, List.cons_append, splitChars]
      split
      · rfl
      · simpa using ih

/-- Text after the first occurrence of the separator does not move it. -/
theorem splitChars_append {sep : List Char} (hsep : sep ≠ []) :
    ∀ {s a b : List Char} (t : List Char), splitChars sep s = some (a, b) →
      splitChars sep (s ++ t) = some (a, b ++ t) := by
  intro s
  induction s with
  | nil => intro a b t h; simp [splitChars, hsep] at h
  | cons c s ih =>
      intro a b t h
      rw [splitChars] at h
      rw [List.cons_append, splitChars]
      cases hstrip : stripChars sep (c :: s) with
      | some rest =>
          simp only [hstrip, Option.some.injEq, Prod.mk.injEq] at h
          have hlong : stripChars sep (c :: (s ++ t)) = some (rest ++ t) := by
            rw [stripChars_eq_some, ← List.append_assoc, ← stripChars_eq_some.mp hstrip]
            rfl
          simp [hlong, ← h.1, ← h.2]
      | none =>
          simp only [hstrip, Option.map_eq_some_iff, Prod.exists, Prod.mk.injEq] at h
          obtain ⟨a', b', hsplit, ha, hb⟩ := h
          -- A match at the front of the longer string that the shorter one has not
          -- would reach past its end, where the shorter one has a match of its own.
          have hlong : stripChars sep (c :: (s ++ t)) = none := by
            by_contra hc
            obtain ⟨rest, hrest⟩ := Option.ne_none_iff_exists'.mp hc
            have hpre : sep <+: (c :: s) ++ t := ⟨rest, (stripChars_eq_some.mp hrest).symm⟩
            have hlen : sep.length ≤ (c :: s).length := by
              have hs := congrArg List.length (splitChars_sound hsplit)
              simp only [List.length_append] at hs
              simp only [List.length_cons]
              omega
            obtain ⟨u, hu⟩ := List.prefix_of_prefix_length_le hpre
              (List.prefix_append (c :: s) t) hlen
            rw [(stripChars_eq_some (p := sep)).mpr hu.symm] at hstrip
            simp at hstrip
          simp [hlong, ih t hsplit, ← ha, ← hb]

/-- The separator has no earlier occurrence than the one that was split at. -/
theorem splitChars_first {sep s a b : List Char} (hsep : sep ≠ [])
    (h : splitChars sep s = some (a, b)) : ¬ sep <:+: (a ++ sep).dropLast := by
  intro hearly
  obtain ⟨u, v, huv⟩ := hearly
  obtain ⟨⟨x, y⟩, hxy⟩ := Option.isSome_iff_exists.mp
    (splitChars_isSome sep u v)
  rw [huv] at hxy
  have hne : a ++ sep ≠ [] := by simp [hsep]
  have hs : s = (a ++ sep).dropLast ++ ((a ++ sep).getLast hne :: b) := by
    rw [← List.singleton_append, ← List.append_assoc, List.dropLast_append_getLast hne]
    exact splitChars_sound h
  have hlong := splitChars_append hsep ((a ++ sep).getLast hne :: b) hxy
  rw [← hs, h] at hlong
  simp only [Option.some.injEq, Prod.mk.injEq] at hlong
  -- The earlier occurrence would have to start no later than `a` ends.
  have hlen := congrArg List.length (splitChars_sound hxy)
  have hpos : 0 < sep.length := List.length_pos_iff.mpr hsep
  simp only [List.length_append, List.length_dropLast, ← hlong.1] at hlen
  omega

theorem splitChars_of_first {sep : List Char} (hsep : sep ≠ []) (b : List Char) :
    ∀ {a : List Char}, ¬ sep <:+: (a ++ sep).dropLast →
      splitChars sep (a ++ sep ++ b) = some (a, b) := by
  intro a
  induction a with
  | nil =>
      intro _
      obtain ⟨c, p, rfl⟩ := List.exists_cons_of_ne_nil hsep
      have hstrip := stripChars_append (c :: p) b
      rw [List.cons_append] at hstrip
      simp [splitChars, hstrip]
  | cons c a ih =>
      intro hfirst
      have hdrop : (c :: a ++ sep).dropLast = c :: (a ++ sep).dropLast := by
        rw [List.cons_append, List.dropLast_cons_of_ne_nil (by simp [hsep])]
      rw [hdrop] at hfirst
      have hstrip : stripChars sep (c :: (a ++ sep ++ b)) = none := by
        by_contra hc
        obtain ⟨rest, hrest⟩ := Option.ne_none_iff_exists'.mp hc
        have hpre : sep <+: c :: (a ++ sep ++ b) := ⟨rest, (stripChars_eq_some.mp hrest).symm⟩
        have hpre' : c :: (a ++ sep).dropLast <+: c :: (a ++ sep ++ b) :=
          List.cons_prefix_cons.mpr
            ⟨rfl, (List.dropLast_prefix _).trans (List.prefix_append _ _)⟩
        refine hfirst (List.prefix_of_prefix_length_le hpre hpre' ?_).isInfix
        have hpos : 0 < sep.length := List.length_pos_iff.mpr hsep
        simp only [List.length_cons, List.length_dropLast, List.length_append]
        omega
      have hrest : splitChars sep (a ++ sep ++ b) = some (a, b) :=
        ih fun hinf => hfirst (hinf.trans (List.suffix_cons c _).isInfix)
      simp only [List.cons_append, splitChars, hstrip, hrest, Option.map_some]

theorem splitChars_eq_none_iff {sep s : List Char} : splitChars sep s = none ↔ ¬ sep <:+: s := by
  refine ⟨?_, ?_⟩
  · intro h hinf
    obtain ⟨u, v, rfl⟩ := hinf
    have hsome := splitChars_isSome sep u v
    rw [h] at hsome
    cases hsome
  · intro h
    cases hsplit : splitChars sep s with
    | none => rfl
    | some ab => exact absurd ⟨ab.1, ab.2, (splitChars_sound hsplit).symm⟩ h

/-- Two texts with a separator somewhere are equal if it is in the same place in both, or
the one goes on where the other has it. -/
theorem append_cons_eq_append_cons {sep : Char} {a b c d : List Char} :
    a ++ sep :: b = c ++ sep :: d ↔
      (a = c ∧ b = d) ∨ (∃ m, c = a ++ sep :: m ∧ b = m ++ sep :: d) ∨
        ∃ m, a = c ++ sep :: m ∧ d = m ++ sep :: b := by
  refine ⟨?_, ?_⟩
  · intro h
    rcases List.append_eq_append_iff.mp h with ⟨m, hc, hb⟩ | ⟨m, ha, hd⟩
    · cases m with
      | nil => simp_all
      | cons x m =>
          rw [List.cons_append, List.cons.injEq] at hb
          rw [← hb.1] at hc
          exact Or.inr (Or.inl ⟨m, hc, hb.2⟩)
    · cases m with
      | nil => simp_all
      | cons x m =>
          rw [List.cons_append, List.cons.injEq] at hd
          rw [← hd.1] at ha
          exact Or.inr (Or.inr ⟨m, ha, hd.2⟩)
  · intro h
    rcases h with ⟨rfl, rfl⟩ | ⟨m, rfl, rfl⟩ | ⟨m, rfl, rfl⟩ <;> simp

/-! ### Lines -/

/-- `str::split_inclusive('\n')`: every piece keeps the line feed that ends it. -/
def splitInclusive : List Char → List (List Char)
  | [] => []
  | c :: s =>
      if c = '\n' then [c] :: splitInclusive s
      else
        match splitInclusive s with
        | [] => [[c]]
        | line :: rest => (c :: line) :: rest

/-- `str::strip_suffix` with a character. -/
def stripLast (c : Char) (s : List Char) : Option (List Char) :=
  if s.getLast? = some c then some s.dropLast else none

/-- `str::lines`: pieces end at `\n` or `\r\n`, and a last `\r` without `\n` stays. -/
def linesChars (s : List Char) : List (List Char) :=
  (splitInclusive s).map fun line =>
    match stripLast '\n' line with
    | none => line
    | some line => (stripLast '\r' line).getD line

/-- A line, without the CR that may end it. -/
def stripCr (line : List Char) : List Char := (stripLast '\r' line).getD line

theorem stripCr_of_getLast? {line : List Char} (h : line.getLast? ≠ some '\r') :
    stripCr line = line := by
  rw [stripCr, stripLast, if_neg h]
  rfl

theorem stripCr_concat (line : List Char) : stripCr (line ++ ['\r']) = line := by
  simp [stripCr, stripLast]

theorem splitInclusive_append_lf {line : List Char} (h : '\n' ∉ line) (rest : List Char) :
    splitInclusive (line ++ '\n' :: rest) = (line ++ ['\n']) :: splitInclusive rest := by
  induction line with
  | nil => simp [splitInclusive]
  | cons c line ih =>
      obtain ⟨hc, hline⟩ := not_or.mp (mt List.mem_cons.mpr h)
      rw [List.cons_append, splitInclusive, if_neg (Ne.symm hc), ih hline]
      rfl

theorem splitInclusive_of_not_mem {line : List Char} (h : '\n' ∉ line) (hne : line ≠ []) :
    splitInclusive line = [line] := by
  induction line with
  | nil => exact absurd rfl hne
  | cons c line ih =>
      obtain ⟨hc, hline⟩ := not_or.mp (mt List.mem_cons.mpr h)
      rw [splitInclusive, if_neg (Ne.symm hc)]
      cases line with
      | nil => rfl
      | cons d line => rw [ih hline (by simp)]

/-- The first line of a text, and the lines after it. -/
theorem linesChars_append_lf {line : List Char} (h : '\n' ∉ line) (rest : List Char) :
    linesChars (line ++ '\n' :: rest) = stripCr line :: linesChars rest := by
  rw [linesChars, splitInclusive_append_lf h]
  simp [stripLast, stripCr, linesChars]

/-- A text without a line feed is its own last line. -/
theorem linesChars_of_not_mem {line : List Char} (h : '\n' ∉ line) (hne : line ≠ []) :
    linesChars line = [line] := by
  have hlast : line.getLast? ≠ some '\n' := fun hc => h (List.mem_of_getLast? hc)
  rw [linesChars, splitInclusive_of_not_mem h hne]
  simp [stripLast, hlast]

/-- The text is these lines, each ended by LF or CRLF; the last one may have no ending. -/
inductive Spells : List (List Char) → List Char → Prop
  | nil : Spells [] []
  | last {line : List Char} (h : line ≠ []) : Spells [line] line
  | lf {line : List Char} {lines : List (List Char)} {s : List Char} (h : Spells lines s) :
      Spells (line :: lines) (line ++ '\n' :: s)
  | crlf {line : List Char} {lines : List (List Char)} {s : List Char} (h : Spells lines s) :
      Spells (line :: lines) (line ++ '\r' :: '\n' :: s)

/-- Neither CR nor LF. -/
def Plain (line : List Char) : Prop := '\r' ∉ line ∧ '\n' ∉ line

instance (line : List Char) : Decidable (Plain line) := inferInstanceAs (Decidable (_ ∧ _))

/-- Lines that are plain are read back as they were written. -/
theorem Spells.linesChars_eq {lines : List (List Char)} {s : List Char} (h : Spells lines s)
    (hplain : ∀ line ∈ lines, Plain line) : linesChars s = lines := by
  induction h with
  | nil => rfl
  | last hne => exact linesChars_of_not_mem (hplain _ List.mem_cons_self).2 hne
  | @lf line lines s _ ih =>
      obtain ⟨hcr, hlf⟩ := hplain line List.mem_cons_self
      have hlast : line.getLast? ≠ some '\r' := fun hc => hcr (List.mem_of_getLast? hc)
      rw [linesChars_append_lf hlf, stripCr_of_getLast? hlast,
        ih fun l hl => hplain l (List.mem_cons_of_mem _ hl)]
  | @crlf line lines s _ ih =>
      obtain ⟨hcr, hlf⟩ := hplain line List.mem_cons_self
      have hlf' : '\n' ∉ line ++ ['\r'] := by simp [hlf]
      rw [← List.singleton_append, ← List.append_assoc, linesChars_append_lf hlf', stripCr_concat,
        ih fun l hl => hplain l (List.mem_cons_of_mem _ hl)]

/-- `str::split` with a character: the pieces between its occurrences. -/
def splitOn (c : Char) : List Char → List (List Char)
  | [] => [[]]
  | d :: s =>
      if d = c then [] :: splitOn c s
      else
        match splitOn c s with
        | [] => [[d]]
        | piece :: rest => (d :: piece) :: rest

/-- Every character of a text is in one of its pieces, or is what it was split at. -/
theorem mem_splitOn {c x : Char} {s : List Char} (h : x ∈ s) (hxc : x ≠ c) :
    ∃ piece ∈ splitOn c s, x ∈ piece := by
  induction s with
  | nil => simp at h
  | cons d rest ih =>
      unfold splitOn
      rcases List.mem_cons.mp h with rfl | hrest
      · rw [if_neg hxc]
        split <;> exact ⟨_, List.mem_cons_self, List.mem_cons_self⟩
      · obtain ⟨piece, hpiece, hx⟩ := ih hrest
        split
        · exact ⟨piece, List.mem_cons_of_mem _ hpiece, hx⟩
        · split
          · rename_i hnil
            rw [hnil] at hpiece
            simp at hpiece
          · rename_i first others hsplit
            rw [hsplit] at hpiece
            rcases List.mem_cons.mp hpiece with rfl | hothers
            · exact ⟨_, List.mem_cons_self, List.mem_cons_of_mem _ hx⟩
            · exact ⟨piece, List.mem_cons_of_mem _ hothers, hx⟩

/-- Drop the pattern from the end, at most `n` times. -/
def trimEndChars (p : List Char) : Nat → List Char → List Char
  | 0, s => s
  | n + 1, s =>
      match stripChars p.reverse s.reverse with
      | none => s
      | some rest => trimEndChars p n rest.reverse

theorem stripChars_reverse_eq_some {p s rest : List Char} :
    stripChars p.reverse s.reverse = some rest ↔ s = rest.reverse ++ p := by
  rw [stripChars_eq_some, ← List.reverse_inj, List.reverse_reverse, List.reverse_append,
    List.reverse_reverse]

/-- A text that does not end in the pattern stays as it is. -/
theorem trimEndChars_of_not_suffix {p s : List Char} (h : ¬ p <:+ s) (n : Nat) :
    trimEndChars p n s = s := by
  cases n with
  | zero => rfl
  | succ n =>
      rw [trimEndChars]
      split
      · rfl
      · next rest hrest =>
          exact absurd ⟨rest.reverse, (stripChars_reverse_eq_some.mp hrest).symm⟩ h

/-- One occurrence of the pattern at the end goes, and the trimming goes on. -/
theorem trimEndChars_append (p s : List Char) (n : Nat) :
    trimEndChars p (n + 1) (s ++ p) = trimEndChars p n s := by
  have hstrip : stripChars p.reverse (s ++ p).reverse = some s.reverse :=
    stripChars_reverse_eq_some.mpr (by rw [List.reverse_reverse])
  rw [trimEndChars, hstrip]
  show trimEndChars p n s.reverse.reverse = _
  rw [List.reverse_reverse]

theorem length_trimEndChars_le (p : List Char) (n : Nat) :
    ∀ s : List Char, (trimEndChars p n s).length ≤ s.length := by
  induction n with
  | zero => intro s; exact Nat.le_refl _
  | succ n ih =>
      intro s
      rw [trimEndChars]
      split
      · exact Nat.le_refl _
      · next rest hrest =>
          have hlen := congrArg List.length (stripChars_reverse_eq_some.mp hrest)
          have hrec := ih rest.reverse
          rw [List.length_append] at hlen
          omega

/-! ### The same, on strings -/

/-- `str::strip_prefix`. -/
def stripPrefix (p s : String) : Option String :=
  (stripChars p.toList s.toList).map String.ofList

/-- `str::starts_with`. -/
def startsWith (p s : String) : Bool := (stripChars p.toList s.toList).isSome

/-- `str::split_once`. -/
def splitOnce (sep s : String) : Option (String × String) :=
  (splitChars sep.toList s.toList).map fun ab => (String.ofList ab.1, String.ofList ab.2)

/-- `str::contains`. -/
def contains (sub s : String) : Bool := decide (sub.toList <:+: s.toList)

/-- What has a character that the text lacks is not in the text. -/
theorem contains_eq_false {sub s : String} {c : Char} (hsub : c ∈ sub.toList)
    (hs : c ∉ s.toList) : contains sub s = false := by
  rw [contains, decide_eq_false_iff_not]
  intro h
  exact hs (h.subset hsub)

/-- The characters with the Unicode property `White_Space`, which `char::is_whitespace` tests. -/
def isWhitespace (c : Char) : Bool :=
  (0x9 ≤ c.toNat && c.toNat ≤ 0xD) || c.toNat == 0x20 || c.toNat == 0x85 || c.toNat == 0xA0
    || c.toNat == 0x1680 || (0x2000 ≤ c.toNat && c.toNat ≤ 0x200A) || c.toNat == 0x2028
    || c.toNat == 0x2029 || c.toNat == 0x202F || c.toNat == 0x205F || c.toNat == 0x3000

/-- `str::trim`. -/
def trim (s : String) : String :=
  String.ofList ((s.toList.dropWhile isWhitespace).rdropWhile isWhitespace)

/-- The tables of Unicode that say how characters beyond ASCII are lowered, and where a word
ends. -/
structure CaseTables where
  /-- The lower case of a character, up to three characters long. -/
  toLower : Char → List Char
  cased : Char → Bool
  caseIgnorable : Char → Bool

namespace CaseTables

variable (u : CaseTables)

/-- `case_ignorable_then_cased`. -/
def caseIgnorableThenCased (s : List Char) : Bool :=
  ((s.dropWhile u.caseIgnorable).head?).any u.cased

/-- `map_uppercase_sigma`: the sigma between two texts, the first of them reversed, is final if a
word ends with it. -/
def mapUppercaseSigma (before after : List Char) : Char :=
  if u.caseIgnorableThenCased before && !u.caseIgnorableThenCased after then 'ς' else 'σ'

/-- One character, between the text before it, reversed, and the text after it. -/
def lowerChar (before : List Char) (c : Char) (after : List Char) : List Char :=
  if c.toNat < 128 then [c.toLower]
  else if c = 'Σ' then [u.mapUppercaseSigma before after]
  else u.toLower c

/-- The same for the rest of a text. -/
def lowerChars : List Char → List Char → List Char
  | _, [] => []
  | before, c :: after => u.lowerChar before c after ++ lowerChars (c :: before) after

/-- `str::to_lowercase`. -/
def toLowercase (s : String) : String := String.ofList (u.lowerChars [] s.toList)

theorem lowerChars_of_ascii {s : List Char} (h : ∀ c ∈ s, c.toNat < 128) :
    ∀ before, u.lowerChars before s = s.map Char.toLower := by
  induction s with
  | nil => intro before; rfl
  | cons c s ih =>
      intro before
      obtain ⟨hc, hs⟩ := List.forall_mem_cons.mp h
      rw [lowerChars, lowerChar, if_pos hc, ih hs]
      rfl

/-- For a text in ASCII the tables do not matter. -/
theorem toLowercase_of_ascii {s : String} (h : ∀ c ∈ s.toList, c.toNat < 128) :
    u.toLowercase s = String.ofList (s.toList.map Char.toLower) := by
  rw [toLowercase, lowerChars_of_ascii u h]

end CaseTables

/-- `str::replace` with a character. -/
def replace (c : Char) (w s : String) : String :=
  String.ofList (s.toList.flatMap fun x => if x = c then w.toList else [x])

/-- `str::trim_end_matches` with a non-empty pattern: a string of length `n` ends in it at
most `n` times over. -/
def trimEndMatches (p s : String) : String :=
  String.ofList (trimEndChars p.toList s.toList.length s.toList)

theorem stripPrefix_eq_some {p s rest : String} :
    stripPrefix p s = some rest ↔ s = p ++ rest := by
  simp only [stripPrefix, Option.map_eq_some_iff, stripChars_eq_some]
  refine ⟨?_, ?_⟩
  · intro h
    obtain ⟨l, hl, rfl⟩ := h
    exact String.toList_inj.mp (by simp [hl])
  · intro h
    subst h
    exact ⟨rest.toList, by simp, by simp⟩

theorem startsWith_iff {p s : String} : startsWith p s = true ↔ ∃ rest, s = p ++ rest := by
  rw [startsWith, Option.isSome_iff_exists]
  refine ⟨?_, ?_⟩
  · intro h
    obtain ⟨l, hl⟩ := h
    exact ⟨String.ofList l, String.toList_inj.mp (by simp [stripChars_eq_some.mp hl])⟩
  · intro h
    obtain ⟨rest, rfl⟩ := h
    exact ⟨rest.toList, stripChars_eq_some.mpr (by simp)⟩

theorem splitOnce_sound {sep s a b : String} (h : splitOnce sep s = some (a, b)) :
    s = a ++ sep ++ b := by
  simp only [splitOnce, Option.map_eq_some_iff, Prod.exists, Prod.mk.injEq] at h
  obtain ⟨a', b', hsplit, rfl, rfl⟩ := h
  exact String.toList_inj.mp (by simp [splitChars_sound hsplit])

/-- Text after the first occurrence of the separator does not move it. -/
theorem splitOnce_append {sep s a b : String} (hsep : sep ≠ "") (t : String)
    (h : splitOnce sep s = some (a, b)) : splitOnce sep (s ++ t) = some (a, b ++ t) := by
  simp only [splitOnce, Option.map_eq_some_iff, Prod.exists, Prod.mk.injEq] at h ⊢
  obtain ⟨a', b', hsplit, rfl, rfl⟩ := h
  have hne : sep.toList ≠ [] := fun hc => hsep (String.toList_inj.mp (by simpa using hc))
  refine ⟨a', b' ++ t.toList, ?_, rfl, String.toList_inj.mp (by simp)⟩
  rw [String.toList_append]
  exact splitChars_append hne t.toList hsplit

/-- A string that had the separator written into it splits somewhere. -/
theorem splitOnce_join_some (sep a b : String) :
    ∃ x y, splitOnce sep (a ++ sep ++ b) = some (x, y) := by
  have h := splitChars_isSome sep.toList a.toList b.toList
  obtain ⟨⟨x, y⟩, hxy⟩ := Option.isSome_iff_exists.mp h
  refine ⟨String.ofList x, String.ofList y, ?_⟩
  rw [splitOnce, String.toList_append, String.toList_append, hxy]
  rfl

/--
**When splitting at a doubled character undoes joining.**  The joined text must have
no earlier pair, and the pair nearest to the join is the one made of the last
character of `a` and the first of the separator.
-/
theorem splitOnce_double_iff {sep : String} (single : String) (c : Char)
    (hsep : sep.toList = [c, c]) (hsingle : single.toList = [c]) (a b : String) :
    splitOnce sep (a ++ sep ++ b) = some (a, b) ↔ contains sep (a ++ single) = false := by
  have hne : sep.toList ≠ [] := by simp [hsep]
  have hdrop : (a.toList ++ sep.toList).dropLast = (a ++ single).toList := by
    rw [hsep, String.toList_append, hsingle, List.append_cons]
    exact List.dropLast_concat
  rw [contains, decide_eq_false_iff_not, ← hdrop]
  refine ⟨?_, ?_⟩
  · intro h
    simp only [splitOnce, Option.map_eq_some_iff, Prod.exists, Prod.mk.injEq] at h
    obtain ⟨x, y, hsplit, rfl, rfl⟩ := h
    rw [String.toList_ofList]
    exact splitChars_first hne hsplit
  · intro h
    rw [splitOnce, String.toList_append, String.toList_append, splitChars_of_first hne _ h]
    simp

/-- A number is written with digits only. -/
theorem not_mem_toString {c : Char} (hc : c.isDigit = false) (n : Nat) :
    c ∉ (toString n).toList := by
  intro hmem
  rw [Nat.toString_eq_repr, Nat.toList_repr] at hmem
  rw [Nat.isDigit_of_mem_toDigits (by decide) (by decide) hmem] at hc
  cases hc

/-- `str::ends_with` with a character. -/
def endsWith (c : Char) (s : String) : Bool := s.toList.getLast? = some c

/-- Where a pair of one character in `s` and one more of it can lie. -/
theorem contains_double_append {sep single : String} (c : Char) (hsep : sep.toList = [c, c])
    (hsingle : single.toList = [c]) (s : String) :
    contains sep (s ++ single) = (contains sep s || endsWith c s) := by
  have hsuffix : [c, c] <:+ s.toList ++ [c] ↔ s.toList.getLast? = some c := by
    rw [show [c, c] = [c] ++ [c] from rfl, List.suffix_append_self_iff,
      List.singleton_suffix_iff_getLast?_eq_some]
  rw [Bool.eq_iff_iff, Bool.or_eq_true]
  simp only [contains, endsWith, decide_eq_true_eq, hsep, String.toList_append, hsingle]
  rw [List.infix_concat_iff, hsuffix, or_comm]

end Text
