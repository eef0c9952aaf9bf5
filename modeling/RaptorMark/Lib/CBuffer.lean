import Mathlib.Data.List.Basic

/-!
# Allocated C memory

An allocated block is the list of its bytes, `none` for a byte that nobody has
written yet.  The operations are those of the C library, for arguments that
stay inside the block; `cString` reads a NUL-terminated string and fails where
the reader would leave the block or read a byte without a value.
-/

set_option autoImplicit false

namespace RaptorMark.Lib.CBuffer

abbrev Block := List (Option UInt8)

def realloc (block : Block) (size : Nat) : Block :=
  block.take size ++ List.replicate (size - block.length) none

def memcpy (block : Block) (offset : Nat) (bytes : List UInt8) : Block :=
  block.take offset ++ bytes.map some ++ block.drop (offset + bytes.length)

def memset (block : Block) (offset : Nat) (value : UInt8) (count : Nat) : Block :=
  memcpy block offset (List.replicate count value)

def cString : Block → Option (List UInt8)
  | [] => none
  | none :: _ => none
  | some byte :: rest => if byte = 0 then some [] else (cString rest).map (byte :: ·)

/-- Bytes that were written, followed by a part of the block that was zeroed. -/
def zeroPadded (written : List UInt8) (slack : Nat) : Block :=
  written.map some ++ List.replicate slack (some 0)

@[simp] theorem zeroPadded_length (written : List UInt8) (slack : Nat) :
    (zeroPadded written slack).length = written.length + slack := by
  simp [zeroPadded]

/-- A copy replaces the bytes at its place and keeps the others. -/
theorem memcpy_append (front middle back : Block) (bytes : List UInt8)
    (same : middle.length = bytes.length) :
    memcpy (front ++ middle ++ back) front.length bytes = front ++ bytes.map some ++ back := by
  have total : front.length + bytes.length = (front ++ middle).length := by
    rw [List.length_append, same]
  rw [memcpy, total, List.drop_left, List.append_assoc front middle back, List.take_left]

/-- Writing right after the written bytes uses up the zeroed part. -/
theorem memcpy_zeroPadded (written bytes : List UInt8) (slack : Nat)
    (fits : bytes.length ≤ slack) :
    memcpy (zeroPadded written slack) written.length bytes =
      zeroPadded (written ++ bytes) (slack - bytes.length) := by
  have split : zeroPadded written slack = written.map some ++
      List.replicate bytes.length (some 0) ++
        List.replicate (slack - bytes.length) (some 0) := by
    rw [List.append_assoc, List.replicate_append_replicate, Nat.add_sub_cancel' fits]
    rfl
  have copied := memcpy_append (written.map some) (List.replicate bytes.length (some 0))
    (List.replicate (slack - bytes.length) (some 0)) bytes (by simp)
  rw [List.length_map] at copied
  rw [split, copied, zeroPadded, List.map_append]

theorem memset_to_end (block : Block) (offset count : Nat) (value : UInt8)
    (ends : offset + count = block.length) :
    memset block offset value count = block.take offset ++ List.replicate count (some value) := by
  simp [memset, memcpy, ends]

/-- A block that is enlarged, zeroed from some offset on and then filled up to
that offset is zero padded again: the fresh bytes in between are all written. -/
theorem memcpy_memset_realloc (written bytes : List UInt8) (slack extra : Nat)
    (fits : bytes.length ≤ slack + extra) :
    memcpy
        (memset (realloc (zeroPadded written slack) (written.length + slack + extra))
          (written.length + bytes.length) 0 (slack + extra - bytes.length))
        written.length bytes =
      zeroPadded (written ++ bytes) (slack + extra - bytes.length) := by
  obtain ⟨fresh, freshLength, enlarged⟩ : ∃ fresh : Block, fresh.length = slack + extra ∧
      realloc (zeroPadded written slack) (written.length + slack + extra) =
        written.map some ++ fresh := by
    refine ⟨List.replicate slack (some 0) ++ List.replicate extra none, by simp, ?_⟩
    rw [realloc, List.take_of_length_le (by simp), zeroPadded_length, zeroPadded,
      List.append_assoc, Nat.add_sub_cancel_left]
  have kept : (written.map some ++ fresh).take (written.length + bytes.length) =
      written.map some ++ fresh.take bytes.length := by
    rw [← List.length_map some]
    exact List.take_length_add_append bytes.length
  have copied := memcpy_append (written.map some) (fresh.take bytes.length)
    (List.replicate (slack + extra - bytes.length) (some 0)) bytes
    (by rw [List.length_take, freshLength]; omega)
  rw [List.length_map] at copied
  rw [enlarged, memset_to_end _ _ _ _ (by simp [freshLength]; omega), kept, copied, zeroPadded,
    List.map_append]

theorem cString_zeroPadded (written : List UInt8) (slack : Nat) (nulFree : 0 ∉ written) :
    cString (zeroPadded written slack) = if slack = 0 then none else some written := by
  induction written with
  | nil =>
      cases slack with
      | zero => rfl
      | succ slack => rfl
  | cons byte rest ih =>
      rw [List.mem_cons, not_or] at nulFree
      have tail := ih nulFree.2
      have step : cString (zeroPadded (byte :: rest) slack) =
          (cString (zeroPadded rest slack)).map (byte :: ·) := by
        have nonzero : byte ≠ 0 := Ne.symm nulFree.1
        simp [zeroPadded, cString, nonzero]
      rw [step, tail]
      split <;> rfl

end RaptorMark.Lib.CBuffer
