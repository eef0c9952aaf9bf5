import RaptorMark.Lib.CBuffer

/-!
# fio's output buffer

`buf_output_init` and `buf_output_add` of `lib/output_buffer.c`.  The report of
a run is appended to such a buffer piece by piece; the callback in
`log_info_buf` is given its start only and reads it as a C string.  Nobody
writes a terminating NUL: the string ends where the growth of the buffer has
left zeroed bytes behind the report, if it has.
-/

set_option autoImplicit false

namespace RaptorMark.Fio

open Lib Lib.CBuffer

def bufInc : Nat := 1024

structure BufOutput where
  buf : Block
  buflen : Nat
  maxBuflen : Nat

def bufOutputInit : BufOutput where
  buf := []
  buflen := 0
  maxBuflen := 0

/-- The growth of the buffer when `len` bytes do not fit. -/
def growBuffer (out : BufOutput) (len : Nat) : BufOutput :=
  let need := max bufInc (len - (out.maxBuflen - out.buflen))
  let maxBuflen := out.maxBuflen + need
  let buf := realloc out.buf maxBuflen
  let oldMax := max out.maxBuflen (out.buflen + len)
  let need := if oldMax + need > maxBuflen then maxBuflen - oldMax else need
  { out with buf := memset buf oldMax 0 need, maxBuflen }

def bufOutputAdd (out : BufOutput) (piece : List UInt8) : BufOutput :=
  let out := if out.maxBuflen - out.buflen < piece.length then growBuffer out piece.length else out
  { out with buf := memcpy out.buf out.buflen piece, buflen := out.buflen + piece.length }

/-- A whole report: `buf_output_add` for each piece in order. -/
def bufOutputAll (pieces : List (List UInt8)) : BufOutput :=
  pieces.foldl bufOutputAdd bufOutputInit

/-! ## The buffer as written bytes and slack -/

/-- The bytes written so far, with zeroed bytes up to the end of the block. -/
structure Represents (out : BufOutput) (written : List UInt8) (slack : Nat) : Prop where
  bytes : out.buf = zeroPadded written slack
  length : out.buflen = written.length
  size : out.maxBuflen = written.length + slack

/-- The slack that a piece of `len` bytes leaves. -/
def slackAfter (slack len : Nat) : Nat :=
  if slack < len then slack + max bufInc (len - slack) - len else slack - len

theorem represents_init : Represents bufOutputInit [] 0 := ⟨rfl, rfl, rfl⟩

theorem growBuffer_eq (out : BufOutput) (written : List UInt8) (slack len : Nat)
    (represents : Represents out written slack) (grows : slack < len) :
    let need := max bufInc (len - slack)
    growBuffer out len =
      { buf := memset (realloc (zeroPadded written slack) (written.length + slack + need))
          (written.length + len) 0 (slack + need - len)
        buflen := written.length
        maxBuflen := written.length + slack + need } := by
  obtain ⟨bytes, length, size⟩ := represents
  intro need
  have free : written.length + slack - written.length = slack := by omega
  have oldMax : max (written.length + slack) (written.length + len) = written.length + len := by
    omega
  have window : written.length + slack + need - (written.length + len) = slack + need - len := by
    omega
  have beyond : written.length + len + need > written.length + slack + need := by omega
  unfold growBuffer
  simp only [bytes, length, size, free, oldMax]
  rw [if_pos beyond, window]

theorem represents_add (out : BufOutput) (written piece : List UInt8) (slack : Nat)
    (represents : Represents out written slack) :
    Represents (bufOutputAdd out piece) (written ++ piece) (slackAfter slack piece.length) := by
  obtain ⟨bytes, length, size⟩ := represents
  have free : out.maxBuflen - out.buflen = slack := by omega
  unfold bufOutputAdd slackAfter
  rw [free]
  by_cases grows : slack < piece.length
  · have grown := growBuffer_eq out written slack piece.length ⟨bytes, length, size⟩ grows
    dsimp only at grown
    rw [if_pos grows, if_pos grows, grown]
    have fits : piece.length ≤ slack + max bufInc (piece.length - slack) := by omega
    refine ⟨?_, by simp, by simp; omega⟩
    exact memcpy_memset_realloc written piece slack _ fits
  · rw [if_neg grows, if_neg grows]
    dsimp only
    refine ⟨?_, by simp [length], by simp [size]; omega⟩
    rw [bytes, length]
    exact memcpy_zeroPadded written piece slack (by omega)

/-- What is missing to a multiple of the increment. -/
def padding (bytes : Nat) : Nat := (bufInc - bytes % bufInc) % bufInc

/-- The bytes appended since the last oversized piece, one that is longer than
the increment and the padding before it together. -/
def bytesSinceOversized : Nat → List (List UInt8) → Nat
  | bytes, [] => bytes
  | bytes, piece :: rest =>
      if padding bytes + bufInc < piece.length then
        bytesSinceOversized 0 rest
      else
        bytesSinceOversized (bytes + piece.length) rest

theorem slackAfter_oversized (bytes len : Nat) (oversized : padding bytes + bufInc < len) :
    slackAfter (padding bytes) len = padding 0 := by
  unfold slackAfter
  unfold padding bufInc at *
  rw [if_pos (by omega)]
  omega

theorem slackAfter_padding (bytes len : Nat) (regular : ¬padding bytes + bufInc < len) :
    slackAfter (padding bytes) len = padding (bytes + len) := by
  unfold slackAfter
  unfold padding bufInc at *
  split <;> omega

/-- The induction is on the pieces; the bytes since the last oversized piece
determine the slack. -/
theorem represents_foldl (pieces : List (List UInt8)) (out : BufOutput) (written : List UInt8)
    (bytes : Nat) (represents : Represents out written (padding bytes)) :
    Represents (pieces.foldl bufOutputAdd out) (written ++ pieces.flatten)
      (padding (bytesSinceOversized bytes pieces)) := by
  induction pieces generalizing out written bytes with
  | nil => simpa [bytesSinceOversized] using represents
  | cons piece rest ih =>
      have next := represents_add out written piece (padding bytes) represents
      rw [List.foldl_cons, List.flatten_cons, ← List.append_assoc]
      unfold bytesSinceOversized
      by_cases oversized : padding bytes + bufInc < piece.length
      · rw [if_pos oversized]
        rw [slackAfter_oversized bytes _ oversized] at next
        exact ih _ _ 0 next
      · rw [if_neg oversized]
        rw [slackAfter_padding bytes _ oversized] at next
        exact ih _ _ (bytes + piece.length) next

theorem represents_all (pieces : List (List UInt8)) :
    Represents (bufOutputAll pieces) pieces.flatten (padding (bytesSinceOversized 0 pieces)) :=
  represents_foldl pieces bufOutputInit [] 0 represents_init

/-! ## What the callback reads -/

/-- The C string at the start of the buffer is the text: a NUL stands inside the
allocated bytes, not before the end of the text, and only the text before it. -/
structure ReadAs (out : BufOutput) (text : List UInt8) : Prop where
  string : cString out.buf = some text
  terminated : ∃ index, out.buflen ≤ index ∧ index < out.maxBuflen ∧
    out.buf[index]? = some (some 0) ∧ out.buf.take index = text.map some

theorem readAs_iff_slack (out : BufOutput) (written : List UInt8) (slack : Nat)
    (represents : Represents out written slack) (nulFree : 0 ∉ written) :
    ReadAs out written ↔ slack ≠ 0 := by
  obtain ⟨bytes, length, size⟩ := represents
  constructor
  · rintro ⟨_, index, after, inside, _⟩
    omega
  · intro positive
    refine ⟨?_, written.length, by omega, by omega, ?_, ?_⟩
    · rw [bytes, cString_zeroPadded written slack nulFree, if_neg positive]
    · rw [bytes, zeroPadded, List.getElem?_append_right (by simp)]
      simp [List.getElem?_replicate]
      omega
    · rw [bytes, zeroPadded, List.take_append_of_le_length (by simp),
        List.take_of_length_le (by simp)]

/-- The callback reads exactly the report if and only if the bytes appended
since the last oversized piece are not a multiple of the increment. -/
theorem report_read_iff (pieces : List (List UInt8))
    (nulFree : ∀ piece ∈ pieces, 0 ∉ piece) :
    ReadAs (bufOutputAll pieces) pieces.flatten ↔
      bytesSinceOversized 0 pieces % bufInc ≠ 0 := by
  have clean : 0 ∉ pieces.flatten := by
    intro member
    obtain ⟨piece, inside, nul⟩ := List.mem_flatten.mp member
    exact nulFree piece inside nul
  rw [readAs_iff_slack _ _ _ (represents_all pieces) clean]
  unfold padding bufInc
  omega

/-- Without a piece above the increment these are all the bytes. -/
theorem bytesSinceOversized_short (pieces : List (List UInt8)) (bytes : Nat)
    (short : ∀ piece ∈ pieces, piece.length ≤ bufInc) :
    bytesSinceOversized bytes pieces = bytes + pieces.flatten.length := by
  induction pieces generalizing bytes with
  | nil => simp [bytesSinceOversized]
  | cons piece rest ih =>
      have first := short piece (List.mem_cons_self ..)
      have others := ih (bytes + piece.length)
        fun other member => short other (List.mem_cons_of_mem _ member)
      rw [bytesSinceOversized, if_neg (by omega), others]
      simp
      omega

/-- The bytes of a short report. -/
def sampleReport : List (List UInt8) := ["\x7b".toUTF8.toList, "\n\x7d\n".toUTF8.toList]

theorem short_report_is_read :
    ReadAs (bufOutputAll sampleReport) sampleReport.flatten :=
  (report_read_iff sampleReport (by decide +kernel)).mpr (by decide +kernel)

/-- A report of exactly one increment. -/
def fullReport : List (List UInt8) := [List.replicate bufInc 97]

theorem fullReport_flatten : fullReport.flatten = List.replicate bufInc 97 := by
  rw [fullReport, List.flatten_singleton]

/-- The report fills its block: no byte behind it is inside the allocation, and
a reader of the string leaves the block. -/
theorem full_block_is_not_terminated :
    (bufOutputAll fullReport).buflen = 1024 ∧ (bufOutputAll fullReport).maxBuflen = 1024 ∧
      cString (bufOutputAll fullReport).buf = none ∧
      ¬ReadAs (bufOutputAll fullReport) fullReport.flatten := by
  have nulFree : (0 : UInt8) ∉ fullReport.flatten := by
    rw [fullReport_flatten, List.mem_replicate]
    exact fun member => absurd member.2 (by decide)
  have written : fullReport.flatten.length = 1024 := by
    rw [fullReport_flatten, List.length_replicate, bufInc]
  have bytes : bytesSinceOversized 0 fullReport = 1024 := by
    rw [bytesSinceOversized_short fullReport 0, Nat.zero_add, written]
    intro piece member
    rw [fullReport, List.mem_singleton] at member
    exact Nat.le_of_eq (by rw [member, List.length_replicate])
  have represents := represents_all fullReport
  have slack : padding 1024 = 0 := rfl
  rw [bytes, slack] at represents
  refine ⟨represents.length.trans written, represents.size.trans written, ?_, ?_⟩
  · rw [represents.bytes, cString_zeroPadded _ _ nulFree, if_pos rfl]
  · rw [readAs_iff_slack _ _ _ represents nulFree]
    exact fun positive => positive rfl

end RaptorMark.Fio
