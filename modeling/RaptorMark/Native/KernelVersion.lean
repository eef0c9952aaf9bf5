import RaptorMark.Lib.CScanf

/-!
# The kernel version

`helperInit` runs when the library is loaded: `getKernelVersion` scans the
release string of `uname` with `"%d.%d.%s"` into two integers, which keep their
defaults where the scan ends early, and a scratch buffer of 32 bytes.  `%s` has
no width, so what it stores is as long as the vendor's part of the release.
-/

set_option autoImplicit false

namespace RaptorMark.Native

open Lib.CNumber Lib.CScanf Lib.LongestRun

/-- `buffer.release` of `struct utsname`: at most 64 characters before the NUL. -/
structure Release where
  text : List UInt8
  nulFree : 0 ∉ text
  short : text.length ≤ 64

def defaultKernelVersionMajor : Int32 := 3
def defaultKernelVersionMinor : Int32 := 10

structure KernelVersion where
  kernelMajorVersion : Int32 := defaultKernelVersionMajor
  kernelMinorVersion : Int32 := defaultKernelVersionMinor
  deriving DecidableEq, Repr

/-- `"%d.%d.%s"`. -/
def versionFormat : List Directive :=
  [.int, .literal (ascii '.'), .int, .literal (ascii '.'), .string]

/-- `int *major`, `int *minor` and `char extra[32]`. -/
def destinationSizes : List Nat := [4, 4, 32]

/-- Every conversion that takes place stays inside its destination. -/
def StaysInside (stored : List Stored) : Prop :=
  ∀ pair ∈ stored.zip destinationSizes, pair.1.size ≤ pair.2

instance (stored : List Stored) : Decidable (StaysInside stored) :=
  inferInstanceAs (Decidable (∀ pair ∈ _, _ ≤ _))

/-- `getKernelVersion`; `uname` may fail.  The scratch buffer is not read. -/
def getKernelVersion (uname : Option Release) (version : KernelVersion) : KernelVersion :=
  match uname with
  | none => version
  | some release =>
      match sscanf versionFormat release.text with
      | .int major :: .int minor :: _ => ⟨major, minor⟩
      | [.int major] => { version with kernelMajorVersion := major }
      | _ => version

def helperInit (uname : Option Release) : KernelVersion := getKernelVersion uname {}

/-! ## The scratch buffer -/

/-- Two numbers with a dot after each, then, perhaps after blanks, 32 characters
that are not blank. -/
def LongExtra (text : List UInt8) : Prop :=
  ∃ first second blanks run rest, IsNumber first ∧ IsNumber second ∧
    (∀ b ∈ blanks, isspace b = true) ∧ (∀ b ∈ run, isGraph b = true) ∧ run.length = 32 ∧
    text = first ++ (ascii '.' :: (second ++ (ascii '.' :: (blanks ++ (run ++ rest)))))

theorem stops_dot (rest : List UInt8) : Stops isdigit (ascii '.' :: rest) :=
  stops_cons isdigit _ _ (by decide)

/-- The third conversion takes the whole run of which 32 characters are given. -/
theorem sscanf_longExtra (text : List UInt8) (long : LongExtra text) :
    ∃ major minor taken, sscanf versionFormat text = [.int major, .int minor, .chars taken] ∧
      32 ≤ taken.length := by
  obtain ⟨first, second, blanks, run, rest, isFirst, isSecond, blank, graph, length, rfl⟩ := long
  obtain ⟨major, scannedFirst⟩ := sscanf_int_number _ first _ isFirst (stops_dot _)
  obtain ⟨minor, scannedSecond⟩ := sscanf_int_number _ second _ isSecond (stops_dot _)
  have solid : Stops isspace (run ++ rest) := by
    cases run with
    | nil => cases length
    | cons head others =>
        have here := graph head (List.mem_cons_self ..)
        exact stops_cons isspace head _ (by simpa [isGraph] using here)
  have taken : (run ++ rest).takeWhile isGraph = run ++ rest.takeWhile isGraph :=
    List.takeWhile_append_of_pos graph
  refine ⟨major, minor, run ++ rest.takeWhile isGraph, ?_, ?_⟩
  · rw [versionFormat, scannedFirst, sscanf_literal, scannedSecond, sscanf_literal, sscanf]
    rw [dropWhile_run blank solid, taken, if_neg (by simp [← List.length_eq_zero_iff, length])]
    rfl
  · rw [List.length_append, length]
    exact Nat.le_add_right ..

/-- A third conversion comes after two numbers with their dots. -/
theorem sscanf_version_cases (text : List UInt8) :
    (∀ stored ∈ sscanf versionFormat text, stored.size = 4) ∨
      ∃ first second blanks run rest major minor, IsNumber first ∧ IsNumber second ∧
        (∀ b ∈ blanks, isspace b = true) ∧ (∀ b ∈ run, isGraph b = true) ∧
        text = first ++ (ascii '.' :: (second ++ (ascii '.' :: (blanks ++ (run ++ rest))))) ∧
        sscanf versionFormat text = [.int major, .int minor, .chars run] := by
  unfold versionFormat
  rcases sscanf_int_cases [.literal (ascii '.'), .int, .literal (ascii '.'), .string] text with
    ended | ⟨first, afterFirst, major, isFirst, rfl, scanned⟩
  · exact Or.inl (by simp [ended])
  rw [scanned]
  rcases sscanf_literal_cases (ascii '.') [.int, .literal (ascii '.'), .string] afterFirst with
    ended | ⟨afterDot, rfl, dotted⟩
  · exact Or.inl (by simp [ended, Stored.size])
  rw [dotted]
  rcases sscanf_int_cases [.literal (ascii '.'), .string] afterDot with
    ended | ⟨second, afterSecond, minor, isSecond, rfl, scannedSecond⟩
  · exact Or.inl (by simp [ended, Stored.size])
  rw [scannedSecond]
  rcases sscanf_literal_cases (ascii '.') [.string] afterSecond with ended | ⟨extra, rfl, last⟩
  · exact Or.inl (by simp [ended, Stored.size])
  rw [last, sscanf]
  split
  · exact Or.inl (by simp [Stored.size])
  · refine Or.inr ⟨first, second, extra.takeWhile isspace,
      (extra.dropWhile isspace).takeWhile isGraph, (extra.dropWhile isspace).dropWhile isGraph,
      major, minor, isFirst, isSecond, ?_, ?_, ?_, rfl⟩
    · exact fun b member => List.mem_takeWhile_imp member
    · exact fun b member => List.mem_takeWhile_imp member
    · rw [List.takeWhile_append_dropWhile, List.takeWhile_append_dropWhile]

/-- Every conversion stays inside its destination exactly if the release does
not go on for 32 characters after its second dot. -/
theorem conversions_stay_inside_iff (release : Release) :
    StaysInside (sscanf versionFormat release.text) ↔ ¬LongExtra release.text := by
  constructor
  · intro inside long
    obtain ⟨major, minor, taken, stored, tooLong⟩ := sscanf_longExtra release.text long
    rw [stored] at inside
    have fits := inside (.chars taken, 32) (by simp [destinationSizes])
    simp only [Stored.size] at fits
    omega
  · intro short
    rcases sscanf_version_cases release.text with
      numbers | ⟨first, second, blanks, run, rest, major, minor, isFirst, isSecond, blank, graph,
        parts, stored⟩
    · rintro ⟨stored, size⟩ member
      obtain ⟨isStored, isSize⟩ := List.of_mem_zip member
      rw [numbers stored isStored]
      simp only [destinationSizes, List.mem_cons, List.not_mem_nil, or_false] at isSize
      omega
    · have bound : run.length < 32 := by
        by_contra long
        apply short
        refine ⟨first, second, blanks, run.take 32, run.drop 32 ++ rest, isFirst, isSecond, blank,
          fun b member => graph b (List.mem_of_mem_take member), ?_, ?_⟩
        · rw [List.length_take]
          omega
        · rw [← List.append_assoc (run.take 32), List.take_append_drop, parts]
      rw [stored]
      simp only [StaysInside, destinationSizes, List.zip_cons_cons, List.zip_nil_right,
        List.forall_mem_cons, Stored.size]
      exact ⟨le_rfl, le_rfl, by omega, by simp⟩

/-- The release of an Android kernel that carries its branch, commit and build. -/
def androidText : List UInt8 := asciiText "5.10.101-android12-9-00005-g6c1a1d4a0c6e-ab8943873"

theorem androidText_nulFree : 0 ∉ androidText := by decide +kernel

theorem androidText_short : androidText.length ≤ 64 := by decide +kernel

def androidRelease : Release := ⟨androidText, androidText_nulFree, androidText_short⟩

/-- 45 characters and a NUL go into the 32 bytes. -/
theorem androidRelease_overflows :
    ¬StaysInside (sscanf versionFormat androidRelease.text) ∧
      sscanf versionFormat androidRelease.text =
        [.int 5, .int 10, .chars (asciiText "101-android12-9-00005-g6c1a1d4a0c6e-ab8943873")] := by
  constructor <;> decide +kernel

end RaptorMark.Native
