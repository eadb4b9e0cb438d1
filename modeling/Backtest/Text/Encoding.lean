/-!
# Text in bytes

Bytes are a text if they are the characters of one in UTF-8, one after the other. `Text.validLength` is
the length of the longest text that they start with.
-/

namespace Backtest.Text

/-- The end of the characters that stand one after the other from a place on. -/
def validEnd (bytes : ByteArray) (place : Nat) : Nat :=
  match _found : bytes.utf8DecodeChar? place with
  | none => place
  | some c => validEnd bytes (place + c.utf8Size)
termination_by bytes.size - place
decreasing_by
  have inside := ByteArray.lt_size_of_isSome_utf8DecodeChar? (b := bytes) (i := place) (by simp [_found])
  have := c.utf8Size_pos
  omega

/-- The length of the longest text at the head of bytes. -/
def validLength (bytes : ByteArray) : Nat := validEnd bytes 0

end Backtest.Text
