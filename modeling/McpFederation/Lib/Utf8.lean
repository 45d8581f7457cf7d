/-
Text as UTF-8 bytes.

A reader that cuts a stream of bytes at an ASCII character cuts the text it encodes at that
character, since no other character has an ASCII byte in its encoding.
`eq_of_mem_encodeChar` and `getLast?_encode` say so, and `fromUTF8_encode` reads the pieces
back.
-/
import Mathlib.Data.List.Basic

namespace Utf8

/-- The UTF-8 encoding of a text. -/
def encode (s : List Char) : List UInt8 := s.flatMap String.utf8EncodeChar

@[simp] theorem encode_nil : encode [] = [] := rfl

theorem encode_append (s t : List Char) : encode (s ++ t) = encode s ++ encode t :=
  List.flatMap_append

theorem toUTF8_eq (s : String) : s.toUTF8.data.toList = encode s.toList := by
  rw [String.toUTF8_eq_toByteArray, ← String.utf8Encode_toList]
  exact List.toList_data_toByteArray

theorem fromUTF8_encode (s : List Char) :
    String.fromUTF8? (encode s).toByteArray = some (String.ofList s) := by
  have hvalid : (encode s).toByteArray.IsValidUTF8 := ByteArray.isValidUTF8_utf8Encode (l := s)
  rw [String.fromUTF8?, dif_pos hvalid]
  refine congrArg some (String.toByteArray_inj.mp ?_)
  rw [String.toByteArray_ofList]
  rfl

/-! ### ASCII -/

/-- An ASCII character, as a byte. -/
def asciiByte (c : Char) : UInt8 := UInt8.ofNat c.toNat

theorem encodeChar_ascii {c : Char} (hc : c.toNat < 128) :
    String.utf8EncodeChar c = [asciiByte c] :=
  if_pos (Nat.le_of_lt_succ hc)

/-- A character with an ASCII byte in its encoding is that ASCII character. -/
theorem toNat_eq_of_mem_encodeChar {c : Char} {b : UInt8} (h : b ∈ String.utf8EncodeChar c)
    (hb : b.toNat < 128) : c.toNat = b.toNat := by
  revert h
  fun_cases String.utf8EncodeChar c with
  | case1 v hv =>
      intro h
      obtain rfl := List.mem_singleton.mp h
      rw [UInt8.toNat_ofNat']
      exact (Nat.mod_eq_of_lt (Nat.lt_of_le_of_lt hv (by decide))).symm
  | case2 v hv hv' =>
      intro h
      simp only [List.mem_cons, List.not_mem_nil, or_false] at h
      rcases h with rfl | rfl <;> simp at hb <;> omega
  | case3 v hv hv' hv'' =>
      intro h
      simp only [List.mem_cons, List.not_mem_nil, or_false] at h
      rcases h with rfl | rfl | rfl <;> simp at hb <;> omega
  | case4 v hv hv' hv'' =>
      intro h
      simp only [List.mem_cons, List.not_mem_nil, or_false] at h
      rcases h with rfl | rfl | rfl | rfl <;> simp at hb <;> omega

theorem eq_of_mem_encodeChar {c d : Char} (hc : c.toNat < 128)
    (h : asciiByte c ∈ String.utf8EncodeChar d) : d = c := by
  have hbyte : (asciiByte c).toNat = c.toNat := by
    rw [asciiByte, UInt8.toNat_ofNat']
    exact Nat.mod_eq_of_lt (Nat.lt_trans hc (by decide))
  have hval := toNat_eq_of_mem_encodeChar h (by rw [hbyte]; exact hc)
  exact Char.toNat_inj.mp (hval.trans hbyte)

/-- A text ends in the byte exactly if it ends in the character. -/
theorem getLast?_encode {c : Char} (hc : c.toNat < 128) (s : List Char) :
    (encode s).getLast? = some (asciiByte c) ↔ s.getLast? = some c := by
  rcases List.eq_nil_or_concat s with rfl | ⟨init, d, rfl⟩
  · simp
  · have hlast : encode (init ++ [d]) = encode init ++ String.utf8EncodeChar d := by
      rw [encode_append, encode, encode, List.flatMap_singleton]
    rw [List.concat_eq_append, hlast, List.getLast?_append_of_ne_nil _ String.utf8EncodeChar_ne_nil,
      List.getLast?_concat, Option.some.injEq]
    refine ⟨fun h => eq_of_mem_encodeChar hc (List.mem_of_getLast? h), fun h => ?_⟩
    rw [h, encodeChar_ascii hc]
    rfl

theorem toNat_asciiByte {c : Char} (hc : c.toNat < 128) : (asciiByte c).toNat = c.toNat := by
  rw [asciiByte, UInt8.toNat_ofNat']
  exact Nat.mod_eq_of_lt (Nat.lt_trans hc (by decide))

/-- A text all of whose bytes are ASCII has ASCII characters. -/
theorem ascii_of_encode {s : List Char} (h : ∀ b ∈ encode s, b.toNat < 128) :
    ∀ c ∈ s, c.toNat < 128 := by
  intro c hc
  obtain ⟨b, hb⟩ := List.exists_mem_of_ne_nil _ (String.utf8EncodeChar_ne_nil (c := c))
  have hlt := h b (List.mem_flatMap.mpr ⟨c, hc, hb⟩)
  rw [toNat_eq_of_mem_encodeChar hb hlt]
  exact hlt

/-- An ASCII text is read back byte by byte. -/
theorem map_ofNat_encode {s : List Char} (h : ∀ c ∈ s, c.toNat < 128) :
    (encode s).map (fun b => Char.ofNat b.toNat) = s := by
  induction s with
  | nil => rfl
  | cons c rest ih =>
      have hc := h c List.mem_cons_self
      have hencode : encode (c :: rest) = asciiByte c :: encode rest := by
        show String.utf8EncodeChar c ++ encode rest = _
        rw [encodeChar_ascii hc]
        rfl
      rw [hencode, List.map_cons, toNat_asciiByte hc, Char.ofNat_toNat,
        ih fun d hd => h d (List.mem_cons_of_mem _ hd)]

end Utf8
