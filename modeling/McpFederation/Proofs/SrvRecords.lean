/-
Reading the output of `dig`.

`srv_output_read` says what `parse_srv_output` makes of a text: a record that comes out of it
has a host name that can stand in a URL, with no dot at its end, and what `dig +short` prints
for a list of records is read as this list, in its order.  The lines may end in LF or CRLF,
each target in its dot or not, and the names that the question was an alias of, which `dig`
prints on lines of their own, are passed over.
-/
import McpFederation.Model.Dns

namespace McpFederation

/-! ### Numbers -/

theorem parseU16_toDigits (n : UInt16) : parseU16 (Nat.toDigits 10 n.toNat) = some n := by
  have hdigits : ∀ c ∈ Nat.toDigits 10 n.toNat, c.isDigit = true := fun c hc =>
    Nat.isDigit_of_mem_toDigits (by decide) (by decide) hc
  have hne : Nat.toDigits 10 n.toNat ≠ [] := Nat.toDigits_ne_nil
  have hlt : n.toNat < 65536 := n.toNat_lt
  have hstrip : stripPlus (Nat.toDigits 10 n.toNat) = Nat.toDigits 10 n.toNat := by
    unfold stripPlus
    split
    · rename_i digits hplus
      have hbad := hdigits '+' (hplus ▸ List.mem_cons_self)
      exact absurd hbad (by decide)
    · rfl
  simp only [parseU16, hstrip, Nat.ofDigitChars_ten_toDigits]
  rw [if_pos ⟨hne, List.all_eq_true.mpr hdigits, hlt⟩, UInt16.ofNat_toNat]

theorem not_whitespace_of_isDigit {c : Char} (h : c.isDigit = true) :
    Text.isWhitespace c = false := by
  have hval : 48 ≤ c.toNat ∧ c.toNat ≤ 57 := by
    simpa [Char.isDigit, Char.le_def, UInt32.le_iff_toNat_le] using h
  simp only [Text.isWhitespace, Bool.or_eq_false_iff, Bool.and_eq_false_iff, beq_eq_false_iff_ne,
    decide_eq_false_iff_not]
  omega

/-! ### Lines -/

/-- A host name as records have it. -/
structure SrvRecord.Proper (r : SrvRecord) : Prop where
  nonempty : r.target.toList ≠ []
  word : ∀ c ∈ r.target.toList, Text.isWhitespace c = false
  undotted : r.target.toList.getLast? ≠ some '.'

/-- What is read from a line is proper. -/
theorem parseSrvLine_proper {line : List Char} {r : SrvRecord} (h : parseSrvLine line = some r) :
    r.Proper := by
  unfold parseSrvLine at h
  split at h
  · rename_i priority weight port target rest hwords
    split at h
    · cases h
    · rename_i n hport
      dsimp only at h
      split at h
      · cases h
      · rename_i hne
        cases h
        have hword := (Words.mem_words (p := Text.isWhitespace) (s := line) (w := target) (by
          rw [hwords]; simp)).2
        refine ⟨?_, ?_, ?_⟩
        · rwa [String.toList_ofList]
        · intro c hc
          rw [String.toList_ofList] at hc
          exact hword c ((List.rdropWhile_prefix _ target).subset hc)
        · rw [String.toList_ofList]
          intro hlast
          have hdot := List.rdropWhile_last_not (· = '.') target hne
          rw [List.getLast?_eq_some_getLast hne, Option.some.injEq] at hlast
          simp [hlast] at hdot
  · cases h

/-- What `dig +short` prints for a record. -/
def srvLine (priority weight : Nat) (r : SrvRecord) (dots : Nat) : List Char :=
  Nat.toDigits 10 priority ++ ' ' :: (Nat.toDigits 10 weight ++ ' '
    :: (Nat.toDigits 10 r.port.toNat ++ ' ' :: (r.target.toList ++ List.replicate dots '.')))

theorem words_digits (n : Nat) (rest : List Char) :
    Words.words Text.isWhitespace (Nat.toDigits 10 n ++ ' ' :: rest)
      = Nat.toDigits 10 n :: Words.words Text.isWhitespace rest := by
  refine Words.words_append_cons Nat.toDigits_ne_nil (fun c hc => ?_) (by decide) rest
  exact not_whitespace_of_isDigit (Nat.isDigit_of_mem_toDigits (by decide) (by decide) hc)

theorem rdropWhile_dots {target : List Char} (h : target.getLast? ≠ some '.') (dots : Nat) :
    (target ++ List.replicate dots '.').rdropWhile (· = '.') = target := by
  induction dots with
  | zero =>
      rw [List.replicate_zero, List.append_nil, List.rdropWhile_eq_self_iff]
      intro hne hdot
      rw [List.getLast?_eq_some_getLast hne] at h
      exact h (congrArg some (by simpa using hdot))
  | succ n ih =>
      rw [List.replicate_succ', ← List.append_assoc, List.rdropWhile_concat_pos _ _ _ (by simp), ih]

theorem parseSrvLine_srvLine (priority weight : Nat) {r : SrvRecord} (h : r.Proper) (dots : Nat) :
    parseSrvLine (srvLine priority weight r dots) = some r := by
  have htarget : Words.words Text.isWhitespace (r.target.toList ++ List.replicate dots '.')
      = [r.target.toList ++ List.replicate dots '.'] := by
    refine Words.words_of_forall ?_ fun c hc => ?_
    · exact List.append_ne_nil_of_left_ne_nil h.nonempty _
    · rcases List.mem_append.mp hc with hc | hc
      · exact h.word c hc
      · rw [(List.mem_replicate.mp hc).2]
        decide
  unfold parseSrvLine srvLine
  rw [words_digits, words_digits, words_digits, htarget]
  simp only [parseU16_toDigits, rdropWhile_dots h.undotted, if_neg h.nonempty,
    String.ofList_toList]

/-- A line of one word is no record. -/
theorem parseSrvLine_word {name : List Char} (hne : name ≠ [])
    (h : ∀ c ∈ name, Text.isWhitespace c = false) : parseSrvLine name = none := by
  rw [parseSrvLine, Words.words_of_forall hne h]

/-! ### Outputs -/

/-- A line of `dig`, and the record it stands for. -/
inductive DigLine : List Char → Option SrvRecord → Prop
  | record (priority weight : Nat) {r : SrvRecord} (h : r.Proper) (dots : Nat) :
      DigLine (srvLine priority weight r dots) (some r)
  | cname {name : List Char} (hne : name ≠ []) (h : ∀ c ∈ name, Text.isWhitespace c = false) :
      DigLine name none

theorem DigLine.parse_eq {line : List Char} {r : Option SrvRecord} (h : DigLine line r) :
    parseSrvLine line = r := by
  cases h with
  | record priority weight h dots => exact parseSrvLine_srvLine priority weight h dots
  | cname hne h => exact parseSrvLine_word hne h

theorem plain_of_words {s : List Char} (h : ∀ c ∈ s, Text.isWhitespace c = false ∨ c = ' ') :
    Text.Plain s := by
  refine ⟨fun hc => ?_, fun hc => ?_⟩
  · rcases h _ hc with hbad | hbad
    · exact absurd hbad (by decide)
    · exact absurd hbad (by decide)
  · rcases h _ hc with hbad | hbad
    · exact absurd hbad (by decide)
    · exact absurd hbad (by decide)

theorem DigLine.plain {line : List Char} {r : Option SrvRecord} (h : DigLine line r) :
    Text.Plain line := by
  refine plain_of_words fun c hc => ?_
  cases h with
  | cname hne h => exact Or.inl (h c hc)
  | @record priority weight r hr dots =>
      have hdigits : ∀ n, c ∈ Nat.toDigits 10 n → Text.isWhitespace c = false := fun n hn =>
        not_whitespace_of_isDigit (Nat.isDigit_of_mem_toDigits (by decide) (by decide) hn)
      simp only [srvLine, List.mem_append, List.mem_cons, List.mem_replicate] at hc
      rcases hc with hc | hc | hc | hc | hc | hc | hc | ⟨-, hc⟩
      · exact Or.inl (hdigits _ hc)
      · exact Or.inr hc
      · exact Or.inl (hdigits _ hc)
      · exact Or.inr hc
      · exact Or.inl (hdigits _ hc)
      · exact Or.inr hc
      · exact Or.inl (hr.word c hc)
      · rw [hc]
        exact Or.inl (by decide)

/--
**The output of `dig` is read back.**  Every record read from any text is proper, and an output
with a line for each record, and names alone between them, is read as these records.
-/
theorem srv_output_read :
    (∀ stdout, ∀ r ∈ parseSrvOutput stdout, r.Proper) ∧
      ∀ lines stdout rows, Text.Spells lines stdout.toList → List.Forall₂ DigLine lines rows →
        parseSrvOutput stdout = rows.reduceOption := by
  refine ⟨?_, ?_⟩
  · intro stdout r hr
    obtain ⟨line, -, hline⟩ := List.mem_filterMap.mp hr
    exact parseSrvLine_proper hline
  · intro lines stdout rows hspells hrows
    have hread : (∀ line ∈ lines, Text.Plain line) ∧ lines.map parseSrvLine = rows := by
      clear hspells
      induction hrows with
      | nil => exact ⟨fun _ hline => absurd hline List.not_mem_nil, rfl⟩
      | cons h _ ih =>
          obtain ⟨hplain, hmap⟩ := ih
          exact ⟨List.forall_mem_cons.mpr ⟨h.plain, hplain⟩, by rw [List.map_cons, h.parse_eq, hmap]⟩
    obtain ⟨hplain, hmap⟩ := hread
    show (Text.linesChars stdout.toList).filterMap parseSrvLine = rows.filterMap id
    rw [hspells.linesChars_eq hplain, ← hmap, List.filterMap_map]
    rfl

def wikiRecord : SrvRecord := { port := 8080, target := "wiki.example" }

theorem wikiRecord_read :
    parseSrvOutput (String.ofList (['w', 'e', 'b', '.'] ++ '\n'
      :: (srvLine 10 5 wikiRecord 1 ++ '\r' :: '\n' :: []))) = [wikiRecord] := by
  have hproper : wikiRecord.Proper := by
    refine ⟨by decide, ?_, by decide⟩
    have hword : wikiRecord.target.toList.all (fun c => !Text.isWhitespace c) = true := by decide
    intro c hc
    simpa using List.all_eq_true.mp hword c hc
  have hname : DigLine ['w', 'e', 'b', '.'] none := by
    refine .cname (by decide) ?_
    have hword : ['w', 'e', 'b', '.'].all (fun c => !Text.isWhitespace c) = true := by decide
    intro c hc
    simpa using List.all_eq_true.mp hword c hc
  refine srv_output_read.2 _ _ [none, some wikiRecord] ?_
    (.cons hname (.cons (.record 10 5 hproper 1) .nil))
  rw [String.toList_ofList]
  exact .lf (.crlf .nil)

end McpFederation
