/-
Bounds-checked access to a block of memory.

The operations are those of a C program on a block it was handed as a pointer
and a size.  Each fails where the program would touch a byte outside the block,
so a program written with them that gives a result has stayed inside.

* `load`, `byte`, `subspan`, `cstring` — reads;
* `store` — `memcpy` into the block.
-/
import Canopy.Bytes

namespace BoundedMem

open Bytes

/-- The `len` bytes at `off`. -/
def load (mem : Bytes) (off len : ℕ) : Option Bytes :=
  if off + len ≤ mem.length then some ((mem.drop off).take len) else none

/-- `mem[i]`. -/
def byte (mem : Bytes) (i : ℕ) : Option UInt8 := mem[i]?

/-- `mem.subspan(off)`. -/
def subspan (mem : Bytes) (off : ℕ) : Option Bytes :=
  if off ≤ mem.length then some (mem.drop off) else none

/-- The C string at `off`; its terminator has to be inside the block. -/
def cstring (mem : Bytes) (off : ℕ) : Option Bytes :=
  if (0 : UInt8) ∈ mem.drop off then some (cstr (mem.drop off)) else none

/-- `memcpy(mem + off, src, src.size())`. -/
def store (mem : Bytes) (off : ℕ) (src : Bytes) : Option Bytes :=
  if off + src.length ≤ mem.length then some (memcpyAt mem off src) else none

theorem load_eq {mem : Bytes} {off len : ℕ} (h : off + len ≤ mem.length) :
    load mem off len = some ((mem.drop off).take len) := if_pos h

theorem byte_eq {mem : Bytes} {i : ℕ} (h : i < mem.length) : byte mem i = some (mem.getD i 0) := by
  rw [byte, List.getElem?_eq_getElem h, List.getD_eq_getElem?_getD, List.getElem?_eq_getElem h,
    Option.getD_some]

theorem subspan_eq {mem : Bytes} {off : ℕ} (h : off ≤ mem.length) :
    subspan mem off = some (mem.drop off) := if_pos h

theorem cstring_eq {mem : Bytes} {off : ℕ} (h : (0 : UInt8) ∈ mem.drop off) :
    cstring mem off = some (cstr (mem.drop off)) := if_pos h

theorem store_eq {mem src : Bytes} {off : ℕ} (h : off + src.length ≤ mem.length) :
    store mem off src = some (memcpyAt mem off src) := if_pos h

end BoundedMem
