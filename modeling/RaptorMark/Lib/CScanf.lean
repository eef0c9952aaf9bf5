import RaptorMark.Lib.CNumber
import RaptorMark.Lib.LongestRun

/-!
# `sscanf`

The conversions `%d` and `%s` and ordinary characters, over C strings.  A
conversion skips blanks and takes the longest run it can; the call ends at the
first directive that does not match, and what the earlier ones stored stays
stored.  Every conversion reports what it stores, so that the room it needs can
be compared with its destination.
-/

set_option autoImplicit false

namespace RaptorMark.Lib.CScanf

open CNumber LongestRun

/-! ## Directives -/

inductive Directive where
  | int
  | string
  | literal (b : UInt8)
  deriving DecidableEq, Repr

/-- What a conversion stores: an `int`, or characters and a NUL. -/
inductive Stored where
  | int (value : Int32)
  | chars (run : List UInt8)
  deriving DecidableEq, Repr

/-- The bytes a conversion writes. -/
def Stored.size : Stored → Nat
  | .int _ => 4
  | .chars run => run.length + 1

def isGraph (b : UInt8) : Bool := !isspace b

def scannedValue (scanned : Scanned) : Int :=
  if scanned.negative then -scanned.magnitude else scanned.magnitude

/-- What the conversions of a format store, in their order.  An `int` that does
not fit is taken modulo its width. -/
def sscanf : List Directive → List UInt8 → List Stored
  | [], _ => []
  | .int :: format, text =>
      match scanInteger 10 text with
      | some scanned => .int (.ofInt (scannedValue scanned)) :: sscanf format scanned.rest
      | none => []
  | .string :: format, text =>
      let blankless := text.dropWhile isspace
      let run := blankless.takeWhile isGraph
      if run = [] then [] else .chars run :: sscanf format (blankless.dropWhile isGraph)
  | .literal b :: format, text =>
      match text with
      | head :: rest => if head = b then sscanf format rest else []
      | [] => []

/-! ## What `%d` takes -/

/-- Blanks, an optional sign and at least one digit. -/
structure IsDecimal (blanks sign digits : List UInt8) : Prop where
  blank : ∀ b ∈ blanks, isspace b = true
  signed : sign = [] ∨ sign = [ascii '+'] ∨ sign = [ascii '-']
  decimal : ∀ b ∈ digits, isdigit b = true
  nonempty : digits ≠ []

def decimalValue (digits : List UInt8) : Nat :=
  digits.foldl (fun value b => 10 * value + (digitValue b).getD 0) 0

/-- A fact about bytes is a fact about 256 numbers. -/
theorem forall_byte {P : UInt8 → Prop} (every : ∀ n < 256, P (.ofNat n)) (b : UInt8) : P b := by
  have here := every b.toNat b.toNat_lt
  rwa [UInt8.ofNat_toNat] at here

theorem isDigitOf_ten : isDigitOf 10 = isdigit :=
  funext (forall_byte (by decide +kernel))

/-- A digit is neither blank nor a sign. -/
theorem isdigit_spec : ∀ b, isdigit b = true →
    isspace b = false ∧ b ≠ ascii '+' ∧ b ≠ ascii '-' :=
  forall_byte (by decide +kernel)

theorem skipHexMark_ten (text : List UInt8) : skipHexMark 10 text = text := by
  unfold skipHexMark
  split
  · rw [if_neg (by simp)]
  · rfl

/-- The optional sign and what follows it. -/
def splitSign : List UInt8 → List UInt8 × List UInt8
  | [] => ([], [])
  | head :: rest =>
      if head = ascii '+' ∨ head = ascii '-' then ([head], rest) else ([], head :: rest)

/-- Base ten in three parts: blanks, a sign and the longest run of digits. -/
theorem scanInteger_ten (text : List UInt8) :
    scanInteger 10 text =
      if (splitSign (text.dropWhile isspace)).2.takeWhile isdigit = [] then none
      else some ⟨decide ((splitSign (text.dropWhile isspace)).1 = [ascii '-']),
        decimalValue ((splitSign (text.dropWhile isspace)).2.takeWhile isdigit),
        (splitSign (text.dropWhile isspace)).2.dropWhile isdigit⟩ := by
  have after (body : List UInt8) :
      body.drop (body.takeWhile isdigit).length = body.dropWhile isdigit := by
    calc body.drop (body.takeWhile isdigit).length
        = (body.takeWhile isdigit ++ body.dropWhile isdigit).drop
            (body.takeWhile isdigit).length := by rw [List.takeWhile_append_dropWhile]
      _ = body.dropWhile isdigit := List.drop_left
  unfold scanInteger
  dsimp only
  rw [skipHexMark_ten, isDigitOf_ten, after]
  generalize text.dropWhile isspace = blankless
  cases blankless with
  | nil => rfl
  | cons head rest =>
      by_cases minus : head = ascii '-'
      · subst minus
        simp [splitSign, decimalValue]
      · by_cases plus : head = ascii '+'
        · subst plus
          simp [splitSign, decimalValue]
        · simp [splitSign, decimalValue, minus, plus]

theorem splitSign_spec (text : List UInt8) :
    text = (splitSign text).1 ++ (splitSign text).2 ∧
      ((splitSign text).1 = [] ∨ (splitSign text).1 = [ascii '+'] ∨
        (splitSign text).1 = [ascii '-']) := by
  cases text with
  | nil => exact ⟨rfl, Or.inl rfl⟩
  | cons head rest =>
      simp only [splitSign]
      split
      · rename_i signed
        refine ⟨rfl, Or.inr ?_⟩
        rcases signed with rfl | rfl
        · exact Or.inl rfl
        · exact Or.inr rfl
      · exact ⟨rfl, Or.inl rfl⟩

/-- In front of a digit the sign is what it looks like. -/
theorem splitSign_digits (sign digits rest : List UInt8)
    (signed : sign = [] ∨ sign = [ascii '+'] ∨ sign = [ascii '-'])
    (decimal : ∀ b ∈ digits, isdigit b = true) (nonempty : digits ≠ []) :
    splitSign (sign ++ (digits ++ rest)) = (sign, digits ++ rest) := by
  obtain ⟨first, others, rfl⟩ := List.exists_cons_of_ne_nil nonempty
  obtain ⟨_, notPlus, notMinus⟩ := isdigit_spec first (decimal first (List.mem_cons_self ..))
  rcases signed with rfl | rfl | rfl
  · simp [splitSign, notPlus, notMinus]
  · simp [splitSign]
  · simp [splitSign]

/-- `%d` takes all of such a text and stops at the first character after it that
is no digit. -/
theorem scanInteger_decimal {blanks sign digits rest : List UInt8}
    (decimal : IsDecimal blanks sign digits) (stops : Stops isdigit rest) :
    scanInteger 10 (blanks ++ (sign ++ (digits ++ rest))) =
      some ⟨decide (sign = [ascii '-']), decimalValue digits, rest⟩ := by
  have solid : Stops isspace (sign ++ (digits ++ rest)) := by
    obtain ⟨first, others, rfl⟩ := List.exists_cons_of_ne_nil decimal.nonempty
    rcases decimal.signed with rfl | rfl | rfl
    · exact stops_cons isspace first _
        (isdigit_spec first (decimal.decimal first (List.mem_cons_self ..))).1
    · exact stops_cons isspace _ _ (by decide)
    · exact stops_cons isspace _ _ (by decide)
  rw [scanInteger_ten, dropWhile_run decimal.blank solid,
    splitSign_digits sign digits rest decimal.signed decimal.decimal decimal.nonempty,
    takeWhile_run decimal.decimal stops, dropWhile_run decimal.decimal stops,
    if_neg decimal.nonempty]

/-- And where `%d` converts, it took such a text. -/
theorem decimal_of_scanInteger (text : List UInt8) (scanned : Scanned)
    (converted : scanInteger 10 text = some scanned) :
    ∃ blanks sign digits, IsDecimal blanks sign digits ∧ Stops isdigit scanned.rest ∧
      text = blanks ++ (sign ++ (digits ++ scanned.rest)) := by
  rw [scanInteger_ten] at converted
  split at converted
  · cases converted
  · rename_i nonempty
    cases converted
    obtain ⟨parts, signed⟩ := splitSign_spec (text.dropWhile isspace)
    refine ⟨text.takeWhile isspace, (splitSign (text.dropWhile isspace)).1,
      (splitSign (text.dropWhile isspace)).2.takeWhile isdigit, ?_, ?_, ?_⟩
    · exact ⟨fun b member => List.mem_takeWhile_imp member, signed,
        fun b member => List.mem_takeWhile_imp member, nonempty⟩
    · exact stops_dropWhile isdigit _
    · rw [List.takeWhile_append_dropWhile, ← parts, List.takeWhile_append_dropWhile]

/-- A text that `%d` takes as a whole. -/
def IsNumber (text : List UInt8) : Prop :=
  ∃ blanks sign digits, IsDecimal blanks sign digits ∧ text = blanks ++ (sign ++ digits)

theorem sscanf_int_number (format : List Directive) (number rest : List UInt8)
    (isNumber : IsNumber number) (stops : Stops isdigit rest) :
    ∃ value, sscanf (.int :: format) (number ++ rest) = .int value :: sscanf format rest := by
  obtain ⟨blanks, sign, digits, decimal, rfl⟩ := isNumber
  have converted := scanInteger_decimal decimal stops
  rw [← List.append_assoc, ← List.append_assoc, List.append_assoc blanks] at converted
  exact ⟨_, by rw [sscanf, converted]⟩

/-- `%d` stores nothing and ends the call, or takes a number off the text. -/
theorem sscanf_int_cases (format : List Directive) (text : List UInt8) :
    sscanf (.int :: format) text = [] ∨
      ∃ number rest value, IsNumber number ∧ text = number ++ rest ∧
        sscanf (.int :: format) text = .int value :: sscanf format rest := by
  cases converted : scanInteger 10 text with
  | none => exact Or.inl (by rw [sscanf, converted])
  | some scanned =>
      obtain ⟨blanks, sign, digits, decimal, _, parts⟩ :=
        decimal_of_scanInteger text scanned converted
      refine Or.inr ⟨blanks ++ (sign ++ digits), scanned.rest, .ofInt (scannedValue scanned),
        ⟨_, _, _, decimal, rfl⟩, ?_, ?_⟩
      · rw [parts, List.append_assoc, List.append_assoc]
      · rw [sscanf, converted]

theorem sscanf_literal_cases (b : UInt8) (format : List Directive) (text : List UInt8) :
    sscanf (.literal b :: format) text = [] ∨
      ∃ rest, text = b :: rest ∧ sscanf (.literal b :: format) text = sscanf format rest := by
  cases text with
  | nil => exact Or.inl rfl
  | cons head rest =>
      by_cases same : head = b
      · subst same
        exact Or.inr ⟨rest, rfl, by rw [sscanf, if_pos rfl]⟩
      · exact Or.inl (by rw [sscanf, if_neg same])

theorem sscanf_literal (b : UInt8) (format : List Directive) (rest : List UInt8) :
    sscanf (.literal b :: format) (b :: rest) = sscanf format rest := by
  rw [sscanf, if_pos rfl]

end RaptorMark.Lib.CScanf
