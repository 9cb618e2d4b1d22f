import JsonBind.Text.Utf8

/-!
# Bytes of characters

A text is as many bytes as its characters have. Below U+0080 a character is one
byte of the same number; any other is made of bytes from 0x80 on, so none of its
bytes can be taken for a character below.
-/

namespace JsonBind
namespace Utf8

def ofChars (cs : List Char) : List UInt8 :=
  cs.flatMap String.utf8EncodeChar

def ascii (c : Char) : UInt8 :=
  UInt8.ofNat c.toNat

theorem ofChars_cons (c : Char) (cs : List Char) :
    ofChars (c :: cs) = String.utf8EncodeChar c ++ ofChars cs := rfl

theorem ofChars_append (cs rest : List Char) :
    ofChars (cs ++ rest) = ofChars cs ++ ofChars rest :=
  List.flatMap_append

theorem encode_ofList (cs : List Char) : encode (String.ofList cs) = ofChars cs := by
  rw [encode, String.toByteArray_ofList, List.utf8Encode, List.data_toByteArray, ofChars]

theorem decode?_ofChars (cs : List Char) : decode? (ofChars cs) = some (String.ofList cs) := by
  have hvalid : ByteArray.IsValidUTF8 cs.utf8Encode := ⟨cs, rfl⟩
  change String.fromUTF8? cs.utf8Encode = some (String.ofList cs)
  rw [String.fromUTF8?, dif_pos hvalid, Option.some_inj, ← String.toByteArray_inj,
    String.toByteArray_ofList]
  rfl

theorem decode?_encode (text : String) : decode? (encode text) = some text := by
  have hchars := decode?_ofChars text.toList
  rw [← encode_ofList, String.ofList_toList] at hchars
  exact hchars

theorem utf8EncodeChar_of_lt {c : Char} (h : c.toNat < 0x80) :
    String.utf8EncodeChar c = [ascii c] := by
  unfold String.utf8EncodeChar
  exact if_pos (Nat.le_of_lt_succ h)

theorem ofChars_cons_of_lt {c : Char} (h : c.toNat < 0x80) (cs : List Char) :
    ofChars (c :: cs) = ascii c :: ofChars cs := by
  rw [ofChars_cons, utf8EncodeChar_of_lt h]
  rfl

theorem length_ofChars_lt_cons (c : Char) (cs rest : List Char) :
    (ofChars rest).length < (ofChars (c :: (cs ++ rest))).length := by
  have hpos : 0 < (String.utf8EncodeChar c).length :=
    List.length_pos_iff.mpr String.utf8EncodeChar_ne_nil
  rw [ofChars_cons, ofChars_append, List.length_append, List.length_append]
  omega

theorem toNat_ascii {c : Char} (h : c.toNat < 0x80) : (ascii c).toNat = c.toNat :=
  UInt8.toNat_ofNat_of_lt' (Nat.lt_trans h (by decide))

theorem ofUInt8_ascii {c : Char} (h : c.toNat < 0x80) : Char.ofUInt8 (ascii c) = c := by
  rw [← Char.toNat_inj]
  exact toNat_ascii h

theorem le_of_mem_utf8EncodeChar {c : Char} (h : 0x80 ≤ c.toNat) {byte : UInt8}
    (hbyte : byte ∈ String.utf8EncodeChar c) : 0x80 ≤ byte.toNat := by
  change 0x80 ≤ c.val.toNat at h
  unfold String.utf8EncodeChar at hbyte
  simp only at hbyte
  split at hbyte
  · omega
  · split at hbyte
    · simp only [List.mem_cons, List.not_mem_nil, or_false] at hbyte
      rcases hbyte with rfl | rfl <;> simp <;> omega
    · split at hbyte
      · simp only [List.mem_cons, List.not_mem_nil, or_false] at hbyte
        rcases hbyte with rfl | rfl | rfl <;> simp <;> omega
      · simp only [List.mem_cons, List.not_mem_nil, or_false] at hbyte
        rcases hbyte with rfl | rfl | rfl | rfl <;> simp <;> omega

end Utf8
end JsonBind
