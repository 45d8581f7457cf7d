/-
JSON text is read back.

`readValue_print` goes through a value as `print` does: the text of a value, with anything
behind it that does not continue a number, is read as that value and the rest.  With it the
compact format has what the rest of the model relies on, `compactJson_lawful`.
-/
import McpFederation.Model.JsonFormat
import McpFederation.Proofs.Wire

namespace McpFederation

namespace JsonFormat

/-! ### Strings -/

/-- The character that has been read, in front of the others. -/
def consRead (c : Char) (p : List Char × List Char) : List Char × List Char := (c :: p.1, p.2)

theorem readString_plain {c : Char} (hquote : c ≠ '"') (hback : c ≠ '\\') (s : List Char) :
    readString (c :: s) = (readString s).map (consRead c) := by
  rw [readString.eq_def]
  simp only [hquote, hback, if_false]
  cases readString s <;> rfl

theorem readString_short {e d : Char} (hu : e ≠ 'u') (h : unescapeChar e = some d)
    (s : List Char) : readString ('\\' :: e :: s) = (readString s).map (consRead d) := by
  rw [readString.eq_def]
  simp only [hu, if_false, h]
  cases readString s <;> rfl

theorem readString_unicode (h₁ h₀ : Char) (s : List Char) :
    readString ('\\' :: 'u' :: '0' :: '0' :: h₁ :: h₀ :: s)
      = (readString s).map (consRead (Char.ofNat (hexValue h₁ * 16 + hexValue h₀))) := by
  have hzero : hexValue '0' = 0 := by decide
  rw [readString.eq_def]
  simp only [hzero, Nat.zero_mul, Nat.zero_add]
  cases readString s <;> rfl

theorem unescapeChar_shortEscape {c e : Char} (h : shortEscape c = some e) :
    e ≠ 'u' ∧ unescapeChar e = some c := by
  have hback : ∀ {n : Nat}, c.toNat = n → c = Char.ofNat n := by
    intro n hn
    rw [← hn, Char.ofNat_toNat]
  unfold shortEscape at h
  split at h
  · rename_i hc
    subst hc
    cases h
    exact ⟨by decide, by decide⟩
  · split at h
    · rename_i hc
      subst hc
      cases h
      exact ⟨by decide, by decide⟩
    · repeat' split at h
      all_goals cases h
      all_goals rename_i hc
      all_goals exact ⟨by decide, hback hc ▸ by decide⟩

/-- The two hexadecimal digits of a control character. -/
theorem hexValue_digitChar {n : Nat} (h : n < 32) :
    hexValue (Nat.digitChar (n / 16)) * 16 + hexValue (Nat.digitChar (n % 16)) = n := by
  revert n
  decide

/-- One character, however it is written. -/
theorem readString_escapeChar (c : Char) (s : List Char) :
    readString (escapeChar c ++ s) = (readString s).map (consRead c) := by
  unfold escapeChar
  cases hshort : shortEscape c with
  | some e =>
      obtain ⟨hu, he⟩ := unescapeChar_shortEscape hshort
      exact readString_short hu he s
  | none =>
      by_cases hcontrol : c.toNat < 32
      · simp only [hcontrol, if_true]
        show readString ('\\' :: 'u' :: '0' :: '0' :: _ :: _ :: s) = _
        rw [readString_unicode, hexValue_digitChar hcontrol, Char.ofNat_toNat]
      · have hquote : c ≠ '"' := by
          rintro rfl
          cases hshort
        have hback : c ≠ '\\' := by
          rintro rfl
          cases hshort
        simp only [hcontrol, if_false]
        exact readString_plain hquote hback s

/-- A string is read back. -/
theorem readString_print (cs rest : List Char) :
    readString (cs.flatMap escapeChar ++ '"' :: rest) = some (cs, rest) := by
  induction cs with
  | nil =>
      show readString ('"' :: rest) = _
      rw [readString.eq_def]
      rfl
  | cons c cs ih =>
      rw [List.flatMap_cons, List.append_assoc, readString_escapeChar, ih]
      rfl

/-! ### Numbers -/

/-- What may stand behind a value: nothing that continues a number. -/
def Ends (rest : List Char) : Prop := ∀ c, rest.head? = some c → c.isDigit = false

theorem readDigits_toDigits (n : Nat) {rest : List Char} (h : Ends rest) :
    readDigits (Nat.toDigits 10 n ++ rest) = some (n, rest) := by
  have hdigits : ∀ c ∈ Nat.toDigits 10 n, c.isDigit = true :=
    fun c hc => Nat.isDigit_of_mem_toDigits (by decide) (by decide) hc
  have htake : (Nat.toDigits 10 n ++ rest).takeWhile Char.isDigit = Nat.toDigits 10 n := by
    rw [List.takeWhile_append_of_pos hdigits]
    cases rest with
    | nil => simp
    | cons c rest => simp [h c rfl]
  have hdrop : (Nat.toDigits 10 n ++ rest).dropWhile Char.isDigit = rest := by
    rw [List.dropWhile_append_of_pos hdigits]
    cases rest with
    | nil => rfl
    | cons c rest => simp [h c rfl]
  unfold readDigits
  rw [List.span_eq_takeWhile_dropWhile, htake, hdrop]
  simp [Nat.toDigits_ne_nil, Nat.ofDigitChars_ten_toDigits]

/-! ### Heads -/

theorem toDigits_head (n : Nat) : ∃ c cs, Nat.toDigits 10 n = c :: cs ∧ c.isDigit = true := by
  cases h : Nat.toDigits 10 n with
  | nil => exact absurd h Nat.toDigits_ne_nil
  | cons c cs =>
      refine ⟨c, cs, rfl, ?_⟩
      exact Nat.isDigit_of_mem_toDigits (by decide) (by decide) (h ▸ List.mem_cons_self)

/-- A value's text does not begin with what closes an array. -/
theorem print_head (v : Value) : ∃ c cs, print v = c :: cs ∧ c ≠ ']' := by
  cases v with
  | null => exact ⟨_, _, by rw [print], by decide⟩
  | bool b => cases b <;> exact ⟨_, _, by rw [print], by decide⟩
  | number n =>
      cases n with
      | posInt n =>
          obtain ⟨c, cs, h, hc⟩ := toDigits_head n.toNat
          refine ⟨c, cs, by rw [print, printNumber, h], ?_⟩
          rintro rfl
          exact absurd hc (by decide)
      | negInt n => exact ⟨'-', _, by rw [print, printNumber], by decide⟩
      | float bits => exact ⟨_, _, by rw [print, printNumber], by decide⟩
  | string s => exact ⟨'"', _, by rw [print, printString], by decide⟩
  | array items => exact ⟨'[', _, by rw [print], by decide⟩
  | object members => exact ⟨'{', _, by rw [print], by decide⟩

/-! ### Values -/

/-- Members in order are what an object is made of. -/
theorem obj_eq_object {members : List (String × Value)}
    (h : (members.map Prod.fst).Pairwise (· < ·)) : Value.obj members = .object members := by
  have hlast : ∀ (m : List (String × Value)) (key : String) (v : Value),
      (∀ k ∈ m.map Prod.fst, k < key) → Members.insert m key v = m ++ [(key, v)] := by
    intro m
    induction m with
    | nil => intro key v _; rfl
    | cons kv rest ih =>
        intro key v hm
        have hlt : kv.1 < key := hm kv.1 List.mem_cons_self
        rw [Members.insert, if_neg (ne_of_lt hlt), if_neg (lt_asymm hlt),
          ih key v fun k hk => hm k (List.mem_cons_of_mem _ hk)]
        rfl
  have key : ∀ l m : List (String × Value), ((m ++ l).map Prod.fst).Pairwise (· < ·) →
      l.foldl (fun m kv => Members.insert m kv.1 kv.2) m = m ++ l := by
    intro l
    induction l with
    | nil => intro m _; exact (List.append_nil m).symm
    | cons kv rest ih =>
        intro m hm
        have hbefore : ∀ k ∈ m.map Prod.fst, k < kv.1 := by
          intro k hk
          rw [List.map_append, List.pairwise_append] at hm
          exact hm.2.2 k hk kv.1 List.mem_cons_self
        rw [List.foldl_cons, hlast m kv.1 kv.2 hbefore, ih _ (by simpa using hm)]
        simp
  exact congrArg Value.object (key members [] h)

/-- The text of the value is read as the value, whatever follows it. -/
def Reads (v : Value) : Prop :=
  ∀ n rest, (print v).length < n → Ends rest → readValue n (print v ++ rest) = some (v, rest)

theorem ends_of_not_digit {c : Char} (h : c.isDigit = false) (rest : List Char) :
    Ends (c :: rest) := by
  intro d hd
  cases hd
  exact h

theorem readItems_print (items : List Value) (h : ∀ v ∈ items, Reads v) (hne : items ≠ []) :
    ∀ n rest, (printItems items).length < n →
      readItems n (printItems items ++ rest) = some (items, rest) := by
  induction items with
  | nil => exact absurd rfl hne
  | cons v items ih =>
      intro n rest hn
      have hv := h v List.mem_cons_self
      cases items with
      | nil =>
          rw [printItems, List.length_append, List.length_singleton] at hn
          obtain ⟨n, rfl⟩ : ∃ m, n = m + 1 := ⟨n - 1, by omega⟩
          rw [printItems, List.append_assoc, List.singleton_append, readItems,
            hv n _ (by omega) (ends_of_not_digit (by decide) _)]
          rfl
      | cons w items =>
          have hprint : printItems (v :: w :: items) = print v ++ ',' :: printItems (w :: items) := by
            rw [printItems]
            exact List.cons_ne_nil _ _
          rw [hprint, List.length_append, List.length_cons] at hn
          obtain ⟨n, rfl⟩ : ∃ m, n = m + 1 := ⟨n - 1, by omega⟩
          have hitems := ih (fun x hx => h x (List.mem_cons_of_mem _ hx)) (List.cons_ne_nil _ _) n
            rest (by omega)
          rw [hprint, List.append_assoc, List.cons_append, readItems, hv n _ (by omega)
            (ends_of_not_digit (by decide) _)]
          simp only [Option.bind_eq_bind, Option.bind_some, if_true, hitems]
          rfl

theorem readMembers_print (members : List (String × Value)) (h : ∀ m ∈ members, Reads m.2)
    (hne : members ≠ []) :
    ∀ n rest, (printMembers members).length < n →
      readMembers n (printMembers members ++ rest) = some (members, rest) := by
  -- One member, up to the character behind it.
  have hmember : ∀ (key : String) (v : Value) (c : Char) (rest : List Char),
      printMember (key, v) ++ c :: rest
        = '"' :: (key.toList.flatMap escapeChar ++ '"' :: ':' :: (print v ++ c :: rest)) := by
    intro key v c rest
    simp [printMember, printString]
  induction members with
  | nil => exact absurd rfl hne
  | cons member members ih =>
      intro n rest hn
      obtain ⟨key, v⟩ := member
      have hv : Reads v := h (key, v) List.mem_cons_self
      have hlength : (print v).length < (printMember (key, v)).length := by
        simp only [printMember, List.length_append, List.length_cons]
        omega
      have hread : ∀ (m : Nat) (c : Char) (s : List Char), (print v).length < m →
          c.isDigit = false → readMembers (m + 1) (printMember (key, v) ++ c :: s)
            = (if c = ',' then (readMembers m s).map fun p => ((key, v) :: p.1, p.2)
              else if c = '}' then some ([(key, v)], s) else none) := by
        intro m c s hm hc
        rw [hmember, readMembers]
        simp only [Text.stripChars, if_true, readString_print, Option.bind_eq_bind,
          Option.bind_some, hv m (c :: s) hm (ends_of_not_digit hc s), String.ofList_toList]
        split
        · cases readMembers m s <;> rfl
        · rfl
      cases members with
      | nil =>
          rw [printMembers, List.length_append, List.length_singleton] at hn
          obtain ⟨n, rfl⟩ : ∃ m, n = m + 1 := ⟨n - 1, by omega⟩
          rw [printMembers, List.append_assoc, List.singleton_append,
            hread n '}' rest (by omega) (by decide)]
          rfl
      | cons next members =>
          have hprint : printMembers ((key, v) :: next :: members)
              = printMember (key, v) ++ ',' :: printMembers (next :: members) := by
            rw [printMembers]
            exact List.cons_ne_nil _ _
          rw [hprint, List.length_append, List.length_cons] at hn
          obtain ⟨n, rfl⟩ : ∃ m, n = m + 1 := ⟨n - 1, by omega⟩
          rw [hprint, List.append_assoc, List.cons_append,
            hread n ',' _ (by omega) (by decide), if_pos rfl,
            ih (fun x hx => h x (List.mem_cons_of_mem _ hx)) (List.cons_ne_nil _ _) n rest
              (by omega)]
          rfl

/-- Members are read as the object of them. -/
theorem readValue_members (members : List (String × Value)) (h : ∀ m ∈ members, Reads m.2) :
    ∀ n rest, (print (.object members)).length < n →
      readValue n (print (.object members) ++ rest) = some (Value.obj members, rest) := by
  intro n rest hn
  rw [print, List.length_cons] at hn
  obtain ⟨n, rfl⟩ : ∃ m, n = m + 1 := ⟨n - 1, by omega⟩
  rw [print, List.cons_append, readValue]
  have hother : ∀ c ∈ ['n', 't', 'f', '"', '['], '{' ≠ c := by simp
  simp only [hother 'n' (by simp), hother 't' (by simp), hother 'f' (by simp),
    hother '"' (by simp), hother '[' (by simp), if_false, if_true]
  cases members with
  | nil => rw [printMembers]; rfl
  | cons member members =>
      have hhead : (printMembers (member :: members) ++ rest).head? ≠ some '}' := by
        obtain ⟨key, v⟩ := member
        cases members with
        | nil => simp [printMembers, printMember, printString]
        | cons next members => simp [printMembers, printMember, printString]
      rw [if_neg hhead, readMembers_print _ h (List.cons_ne_nil _ _) n rest (by omega)]
      rfl

/-- **Exact values are read back.** -/
theorem reads_of_exact {v : Value} (h : v.Exact) : Reads v := by
  induction h with
  | null =>
      intro n rest hn _
      obtain ⟨n, rfl⟩ : ∃ m, n = m + 1 := ⟨n - 1, by omega⟩
      rfl
  | bool b =>
      intro n rest hn _
      obtain ⟨n, rfl⟩ : ∃ m, n = m + 1 := ⟨n - 1, by omega⟩
      cases b <;> rfl
  | posInt i =>
      intro n rest hn hrest
      obtain ⟨n, rfl⟩ : ∃ m, n = m + 1 := ⟨n - 1, by omega⟩
      obtain ⟨c, cs, hdigits, hc⟩ := toDigits_head i.toNat
      have hread := readDigits_toDigits i.toNat hrest
      have hne : ∀ d, d.isDigit = false → c ≠ d := by
        rintro d hd rfl
        rw [hc] at hd
        cases hd
      rw [print, printNumber, hdigits, List.cons_append] at *
      rw [readValue, hread]
      simp only [hne 'n' (by decide), hne 't' (by decide), hne 'f' (by decide),
        hne '"' (by decide), hne '[' (by decide), hne '{' (by decide), hne '-' (by decide), if_false]
      show some (Value.number (.posInt (UInt64.ofNat i.toNat)), rest) = _
      rw [UInt64.ofNat_toNat]
  | @negInt i hneg =>
      intro n rest hn hrest
      obtain ⟨n, rfl⟩ : ∃ m, n = m + 1 := ⟨n - 1, by omega⟩
      have hread := readDigits_toDigits i.toInt.natAbs hrest
      have hint : -((i.toInt.natAbs : Nat) : Int) = i.toInt := by
        have := Int64.lt_iff_toInt_lt.mp hneg
        simp at this
        omega
      rw [print, printNumber, List.cons_append, readValue, hread]
      show some (Value.number (.negInt (Int64.ofInt (-((i.toInt.natAbs : Nat) : Int)))), rest) = _
      rw [hint, Int64.ofInt_toInt]
  | string s =>
      intro n rest hn _
      obtain ⟨n, rfl⟩ : ∃ m, n = m + 1 := ⟨n - 1, by omega⟩
      rw [print, printString, List.cons_append, List.append_assoc, readValue]
      show ((readString (s.toList.flatMap escapeChar ++ '"' :: rest)).bind _) = _
      rw [readString_print, Option.bind_some]
      show some (Value.string (String.ofList s.toList), rest) = _
      rw [String.ofList_toList]
  | @array items _ ih =>
      intro n rest hn _
      rw [print, List.length_cons] at hn
      obtain ⟨n, rfl⟩ : ∃ m, n = m + 1 := ⟨n - 1, by omega⟩
      rw [print, List.cons_append, readValue]
      have hother : ∀ c ∈ ['n', 't', 'f', '"'], '[' ≠ c := by simp
      simp only [hother 'n' (by simp), hother 't' (by simp), hother 'f' (by simp),
        hother '"' (by simp), if_false, if_true]
      cases items with
      | nil => rw [printItems]; rfl
      | cons v items =>
          have hhead : (printItems (v :: items) ++ rest).head? ≠ some ']' := by
            obtain ⟨c, cs, hprint, hc⟩ := print_head v
            cases items <;> simp [printItems, hprint, hc]
          rw [if_neg hhead, readItems_print _ ih (List.cons_ne_nil _ _) n rest (by omega)]
          rfl
  | @object members hkeys _ ih =>
      intro n rest hn _
      rw [readValue_members members ih n rest hn, obj_eq_object hkeys]

/-! ### Texts -/

theorem visible_digit {c : Char} (h : c.isDigit = true) : 32 ≤ c.toNat := by
  unfold Char.isDigit at h
  simp only [ge_iff_le, Bool.and_eq_true, decide_eq_true_eq] at h
  exact le_trans (by decide) (UInt32.le_iff_toNat_le.mp h.1)

theorem visible_escapeChar {c d : Char} (h : d ∈ escapeChar c) : 32 ≤ d.toNat := by
  have hdigit : ∀ n < 32, 32 ≤ (Nat.digitChar (n / 16)).toNat ∧
      32 ≤ (Nat.digitChar (n % 16)).toNat := by decide
  unfold escapeChar at h
  cases hshort : shortEscape c with
  | some e =>
      rw [hshort] at h
      simp only [List.mem_cons, List.not_mem_nil, or_false] at h
      rcases h with rfl | rfl
      · decide
      · unfold shortEscape at hshort
        repeat' split at hshort
        all_goals cases hshort
        all_goals decide
  | none =>
      rw [hshort] at h
      dsimp only at h
      split at h
      · rename_i hcontrol
        obtain ⟨hhigh, hlow⟩ := hdigit c.toNat hcontrol
        simp only [List.mem_cons, List.not_mem_nil, or_false] at h
        rcases h with rfl | rfl | rfl | rfl | rfl | rfl <;> first | decide | assumption
      · rw [List.mem_singleton] at h
        rw [h]
        omega

theorem visible_printString {s : String} {c : Char} (h : c ∈ printString s) : 32 ≤ c.toNat := by
  simp only [printString, List.mem_cons, List.mem_append, List.mem_flatMap, List.not_mem_nil,
    or_false] at h
  rcases h with rfl | ⟨d, -, hd⟩ | rfl
  · decide
  · exact visible_escapeChar hd
  · decide

theorem visible_word {word : List Char} (hword : word.all (fun d => 32 ≤ d.toNat) = true)
    {c : Char} (h : c ∈ word) : 32 ≤ c.toNat :=
  of_decide_eq_true (List.all_eq_true.mp hword c h)

theorem visible_printNumber {n : Number} {c : Char} (h : c ∈ printNumber n) : 32 ≤ c.toNat := by
  have hdigits : ∀ m, c ∈ Nat.toDigits 10 m → 32 ≤ c.toNat := fun m hm =>
    visible_digit (Nat.isDigit_of_mem_toDigits (by decide) (by decide) hm)
  cases n with
  | posInt n => exact hdigits _ h
  | negInt n =>
      rcases List.mem_cons.mp h with rfl | h
      · decide
      · exact hdigits _ h
  | float bits =>
      have hnull : ['n', 'u', 'l', 'l'].all (fun d => 32 ≤ d.toNat) = true := by decide
      exact visible_word hnull h

mutual

/-- No control character is in a text. -/
theorem visible_print : ∀ (v : Value) (c : Char), c ∈ print v → 32 ≤ c.toNat
  | .null, c, h => by
      rw [print] at h
      exact visible_word (by decide) h
  | .bool true, c, h => by
      rw [print] at h
      exact visible_word (by decide) h
  | .bool false, c, h => by
      rw [print] at h
      exact visible_word (by decide) h
  | .number n, c, h => by
      rw [print] at h
      exact visible_printNumber h
  | .string s, c, h => by
      rw [print] at h
      exact visible_printString h
  | .array items, c, h => by
      rw [print] at h
      rcases List.mem_cons.mp h with rfl | h
      · decide
      · exact visible_printItems items c h
  | .object members, c, h => by
      rw [print] at h
      rcases List.mem_cons.mp h with rfl | h
      · decide
      · exact visible_printMembers members c h

theorem visible_printItems : ∀ (items : List Value) (c : Char), c ∈ printItems items → 32 ≤ c.toNat
  | [], c, h => by
      rw [printItems] at h
      exact visible_word (by decide) h
  | v :: items, c, h => by
      have hv := visible_print v c
      have hitems := visible_printItems items c
      cases items with
      | nil =>
          rw [printItems, List.mem_append] at h
          rcases h with h | h
          · exact hv h
          · rw [List.mem_singleton.mp h]
            decide
      | cons w items =>
          rw [printItems, List.mem_append, List.mem_cons] at h
          · rcases h with h | rfl | h
            · exact hv h
            · decide
            · exact hitems h
          · exact List.cons_ne_nil _ _

theorem visible_printMembers : ∀ (members : List (String × Value)) (c : Char),
    c ∈ printMembers members → 32 ≤ c.toNat
  | [], c, h => by
      rw [printMembers] at h
      exact visible_word (by decide) h
  | member :: members, c, h => by
      have hm := visible_printMember member c
      have hmembers := visible_printMembers members c
      cases members with
      | nil =>
          rw [printMembers, List.mem_append] at h
          rcases h with h | h
          · exact hm h
          · rw [List.mem_singleton.mp h]
            decide
      | cons next members =>
          rw [printMembers, List.mem_append, List.mem_cons] at h
          · rcases h with h | rfl | h
            · exact hm h
            · decide
            · exact hmembers h
          · exact List.cons_ne_nil _ _

theorem visible_printMember : ∀ (member : String × Value) (c : Char),
    c ∈ printMember member → 32 ≤ c.toNat
  | (key, v), c, h => by
      have hv := visible_print v c
      rw [printMember, List.mem_append, List.mem_cons] at h
      rcases h with h | rfl | h
      · exact visible_printString h
      · decide
      · exact hv h

end

theorem plain_print (v : Value) : Text.Plain (print v) := by
  refine ⟨fun h => ?_, fun h => ?_⟩
  · exact absurd (visible_print v _ h) (by decide)
  · exact absurd (visible_print v _ h) (by decide)

theorem print_ne_nil (v : Value) : print v ≠ [] := by
  obtain ⟨c, cs, h, -⟩ := print_head v
  rw [h]
  exact List.cons_ne_nil _ _

/-- A whole text is read as the value it is the text of. -/
theorem parse_of_reads {s : List Char} {v : Value}
    (h : ∀ n rest, s.length < n → Ends rest → readValue n (s ++ rest) = some (v, rest)) :
    parse s = some v := by
  have hread := h (s.length + 1) [] (Nat.lt_succ_self _) (fun c hc => by cases hc)
  rw [List.append_nil] at hread
  rw [parse, hread]

end JsonFormat

/-- The client's decoder on the text of a value. -/
theorem compactEnv_jsonFromSlice (s : List Char) :
    compactEnv.jsonFromSlice (String.ofList s).toUTF8 = JsonFormat.parse s := by
  have hback : String.fromUTF8? (String.ofList s).toUTF8 = some (String.ofList s) := by
    have hbytes : (Utf8.encode s).toByteArray = (String.ofList s).toUTF8 := by
      rw [String.toUTF8_eq_toByteArray, String.toByteArray_ofList]
      rfl
    rw [← hbytes, Utf8.fromUTF8_encode]
  show (String.fromUTF8? _).bind _ = _
  rw [hback, Option.bind_some, String.toList_ofList]

theorem exact_members {v : Value} (h : v.Exact) (members : List (String × Value))
    (hv : v = .object members) : ∀ m ∈ members, m.2.Exact := by
  subst hv
  cases h with
  | object _ h => exact h

/-- What an exact object was made of was exact. -/
theorem exact_of_exact_responseValue {r : JsonRpcResponse} (h : (responseValue r).Exact) :
    ∀ m ∈ responseMembers r, m.2.Exact := by
  have hget : ∀ key v, (responseValue r).get? key = some v → v.Exact := by
    have key : ∀ (members : List (String × Value)), (∀ m ∈ members, m.2.Exact) →
        ∀ key v, Members.get? members key = some v → v.Exact := by
      intro members
      induction members with
      | nil => intro _ key v hv; cases hv
      | cons kv rest ih =>
          intro hm key v hv
          obtain ⟨k, w⟩ := kv
          rw [Members.get?] at hv
          split at hv
          · cases hv
            exact hm (k, v) List.mem_cons_self
          · exact ih (fun m hmem => hm m (List.mem_cons_of_mem _ hmem)) key v hv
    intro k v hv
    exact key _ (exact_members h _ rfl) k v hv
  have hid : (responseValue r).get? "id" = r.id := by
    obtain ⟨jsonrpc, id, result, error⟩ := r
    cases id <;> cases result <;> cases error <;>
      simp [responseValue, optionalMember, Value.obj, Value.get?, Members.get?]
  intro m hm
  simp only [responseMembers, List.mem_append, List.mem_singleton] at hm
  rcases hm with ((rfl | hm) | hm) | hm
  · exact .string _
  · exact exact_optionalMember (fun v hv => hget "id" v (hid.trans hv)) m hm
  · exact exact_optionalMember
      (fun v hv => hget "result" v ((get?_responseValue r).2.trans hv)) m hm
  · exact exact_optionalMember
      (fun v hv => hget "error" v ((get?_responseValue r).1.trans hv)) m hm

/-- **The compact format is one that the program can rely on.** -/
theorem compactJson_lawful : compactJson.Lawful compactEnv where
  request := by
    intro v r hexact hr
    have hparse : JsonFormat.parse (JsonFormat.print v) = some v :=
      JsonFormat.parse_of_reads (JsonFormat.reads_of_exact hexact)
    simp only [compactJson, String.toList_ofList, hparse, Option.bind_some, hr]
  response := by
    intro r hexact
    refine (compactEnv_jsonFromSlice _).trans (JsonFormat.parse_of_reads fun n rest hn _ => ?_)
    exact JsonFormat.readValue_members _ (fun m hm => JsonFormat.reads_of_exact
      (exact_of_exact_responseValue hexact m hm)) n rest hn
  value := by
    intro v hexact
    exact (compactEnv_jsonFromSlice _).trans
      (JsonFormat.parse_of_reads (JsonFormat.reads_of_exact hexact))
  response_text := by
    intro r
    simp only [compactJson, String.toList_ofList]
    exact ⟨JsonFormat.print_ne_nil _, JsonFormat.plain_print _⟩
  value_text := by
    intro v
    simp only [compactJson, String.toList_ofList]
    exact ⟨JsonFormat.print_ne_nil _, JsonFormat.plain_print _⟩

end McpFederation
