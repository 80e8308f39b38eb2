import Mathlib.Data.List.Basic
import CommandGrammar.Workbench.Batch

/-!
# Lines of text as bytes

A batch is cut into lines before it is known to be text: the cuts are made at bytes, and only then
is each line decoded.  For text this makes no difference.  In UTF-8 a character of one byte is that
byte, and every byte of a longer character is at least `0x80`, so that a line feed or a carriage
return is never part of another character (`toNat_of_mem_utf8EncodeChar`).

Main statements:

* `decode?_encode`: the bytes of a text are decoded to it;
* `byteLines_encode_script`: lines, each followed by a line feed, are cut into the same lines.
-/

namespace CommandGrammar
namespace Workbench

/-- The bytes of a text in UTF-8, character by character. -/
def encode (text : String) : List UInt8 := text.toList.flatMap String.utf8EncodeChar

/-- The text of some lines, each followed by a line feed. -/
def script (lines : List String) : String := String.join (lines.map (· ++ "\n"))

theorem toByteArray_encode (text : String) : (encode text).toByteArray = text.toByteArray :=
  String.utf8Encode_toList

/-- The bytes of a text are decoded to it. -/
theorem decode?_encode (text : String) : decode? (encode text) = some text := by
  unfold decode? String.fromUTF8?
  rw [toByteArray_encode, dif_pos text.isValidUTF8]
  rfl

theorem encode_append (first second : String) :
    encode (first ++ second) = encode first ++ encode second := by
  simp [encode]

theorem encode_script_cons (line : String) (rest : List String) :
    encode (script (line :: rest)) = encode line ++ 10 :: encode (script rest) := by
  have hfeed : encode "\n" = [10] := by decide
  rw [script, List.map_cons, String.join_cons, encode_append, encode_append, hfeed,
    List.append_assoc]
  rfl

/-! ## Line feeds and carriage returns -/

/-- A byte below `0x80` in the encoding of a character is that character. -/
theorem toNat_of_mem_utf8EncodeChar {c : Char} {byte : UInt8}
    (h : byte ∈ String.utf8EncodeChar c) (hlow : byte.toNat < 128) : c.toNat = byte.toNat := by
  show c.val.toNat = byte.toNat
  by_cases hone : c.val.toNat ≤ 127
  · rw [String.utf8EncodeChar, if_pos hone, List.mem_singleton] at h
    rw [h, UInt8.toNat_ofNat_of_lt' (Nat.lt_of_le_of_lt hone (by decide))]
  · -- what is left are the bytes of longer characters, which are too large
    exfalso
    have hhigh : ∀ n, 128 ≤ n → n < 256 → byte ≠ UInt8.ofNat n := by
      rintro n hle hlt rfl
      rw [UInt8.toNat_ofNat_of_lt' hlt] at hlow
      omega
    rw [String.utf8EncodeChar, if_neg hone] at h
    split at h
    · simp only [List.mem_cons, List.not_mem_nil, or_false] at h
      rcases h with h | h <;> exact hhigh _ (by omega) (by omega) h
    · split at h
      · simp only [List.mem_cons, List.not_mem_nil, or_false] at h
        rcases h with h | h | h <;> exact hhigh _ (by omega) (by omega) h
      · simp only [List.mem_cons, List.not_mem_nil, or_false] at h
        rcases h with h | h | h | h <;> exact hhigh _ (by omega) (by omega) h

/-- A character of one byte stands in a text where that byte is among its bytes. -/
theorem mem_of_mem_encode {text : String} {byte : UInt8} {c : Char} (h : byte ∈ encode text)
    (hlow : byte.toNat < 128) (hc : c.toNat = byte.toNat) : c ∈ text.toList := by
  obtain ⟨d, hd, hbyte⟩ := List.mem_flatMap.mp h
  have : d = c := Char.toNat_inj.mp ((toNat_of_mem_utf8EncodeChar hbyte hlow).trans hc.symm)
  rwa [← this]

/-- A character of one byte ends a text where that byte ends its bytes. -/
theorem getLast?_of_getLast?_encode {text : String} {byte : UInt8} {c : Char}
    (h : (encode text).getLast? = some byte) (hlow : byte.toNat < 128) (hc : c.toNat = byte.toNat) :
    text.toList.getLast? = some c := by
  unfold encode at h
  rcases List.eq_nil_or_concat text.toList with hnil | ⟨front, d, hlast⟩
  · rw [hnil] at h
    cases h
  · rw [hlast, List.concat_eq_append, List.flatMap_append, List.flatMap_singleton,
      List.getLast?_append_of_ne_nil _ String.utf8EncodeChar_ne_nil] at h
    have hd := toNat_of_mem_utf8EncodeChar (List.mem_of_getLast? h) hlow
    rw [hlast, List.concat_eq_append, List.getLast?_concat, Char.toNat_inj.mp (hd.trans hc.symm)]

/-! ## Cutting into lines -/

/-- Bytes without a line feed before one are a line. -/
theorem linesFrom_append {bytes : List UInt8} (h : 10 ∉ bytes) (line rest : List UInt8) :
    linesFrom line (bytes ++ 10 :: rest) =
      dropReturn (line.reverse ++ bytes) :: linesFrom [] rest := by
  induction bytes generalizing line with
  | nil => simp [linesFrom]
  | cons byte bytes ih =>
    obtain ⟨hbyte, hbytes⟩ := List.ne_and_not_mem_of_not_mem_cons h
    rw [List.cons_append, linesFrom, if_neg hbyte.symm, ih hbytes]
    simp

/-- Lines, each followed by a line feed, are cut into the same lines, if no line has a line feed in
it or a carriage return at its end. -/
theorem byteLines_encode_script {lines : List String} (hfeed : ∀ line ∈ lines, '\n' ∉ line.toList)
    (hreturn : ∀ line ∈ lines, line.toList.getLast? ≠ some '\r') :
    byteLines (encode (script lines)) = lines.map encode := by
  unfold byteLines
  induction lines with
  | nil => rfl
  | cons line rest ih =>
    obtain ⟨hfeedLine, hfeedRest⟩ := List.forall_mem_cons.mp hfeed
    obtain ⟨hreturnLine, hreturnRest⟩ := List.forall_mem_cons.mp hreturn
    have hcut : 10 ∉ encode line := fun h => hfeedLine (mem_of_mem_encode h (by decide) rfl)
    have hkept : dropReturn (encode line) = encode line :=
      if_neg fun h => hreturnLine (getLast?_of_getLast?_encode h (by decide) rfl)
    rw [encode_script_cons, linesFrom_append hcut, ih hfeedRest hreturnRest, List.reverse_nil,
      List.nil_append, hkept, List.map_cons]

end Workbench
end CommandGrammar
