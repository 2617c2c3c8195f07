import MatchingEngine.Core.OrderBookV2

/-!
# Buffers

A buffer is a `List UInt8`. The code reads one through a pointer, and what lies past its
end it may not read: `bytesAt` reads a number of bytes from an offset on, and has no
result where one of them is not in the buffer. That a decoder never does this is then
that it always gives a result.
-/

namespace MatchingEngine

/-- A `std::vector<uint8_t>`, and a `std::string` too. -/
abbrev Bytes := List UInt8

/-- Reads `n` bytes from an offset on. -/
def bytesAt (buf : Bytes) (offset n : ℕ) : Except Ub Bytes :=
  if offset + n ≤ buf.length then .ok ((buf.drop offset).take n) else .error .outOfBounds

theorem bytesAt_ok {buf : Bytes} {offset n : ℕ} (h : offset + n ≤ buf.length) :
    bytesAt buf offset n = .ok ((buf.drop offset).take n) := if_pos h

/-- What follows an offset is some bytes, and what follows them. -/
theorem drop_eq_take_append (buf : Bytes) (offset n : ℕ) :
    buf.drop offset = (buf.drop offset).take n ++ buf.drop (offset + n) := by
  rw [← List.drop_drop, List.take_append_drop]

end MatchingEngine
