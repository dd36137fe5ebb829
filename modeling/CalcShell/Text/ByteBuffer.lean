import CalcShell.Text.Utf8

/-!
# Bytes in store

Bytes that are written one after the other and read as text.
-/

namespace CalcShell.Text

/-- Bytes written so far. -/
structure ByteBuffer where
  bytes : List UInt8 := []

namespace ByteBuffer

/-- The buffer with more bytes. -/
def write (b : ByteBuffer) (more : List UInt8) : ByteBuffer := ⟨b.bytes ++ more⟩

/-- The buffer with nothing in it. -/
def clear (_ : ByteBuffer) : ByteBuffer := {}

/-- The text of the bytes, each broken part shown as one replacement character. -/
def contents (b : ByteBuffer) : String := Utf8.lossy b.bytes

end ByteBuffer

end CalcShell.Text
