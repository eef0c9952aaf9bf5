import Mathlib.Data.List.Basic

/-!
# Java texts and Modified UTF-8

A Java or Kotlin string is a list of UTF-16 units, with surrogates in any
arrangement.  `encode` is the Modified UTF-8 of the JNI: one to three bytes for
each unit, surrogates one by one, and two bytes for U+0000, so that no byte of
the encoding is zero.
-/

set_option autoImplicit false

namespace RaptorMark.Lib.ModifiedUtf8

abbrev JavaText := List UInt16

def encodeUnit (unit : UInt16) : List UInt8 :=
  let code := unit.toNat
  if 0 < code ∧ code < 0x80 then
    [.ofNat code]
  else if code < 0x800 then
    [.ofNat (0xC0 + code / 0x40), .ofNat (0x80 + code % 0x40)]
  else
    [.ofNat (0xE0 + code / 0x1000), .ofNat (0x80 + code / 0x40 % 0x40),
      .ofNat (0x80 + code % 0x40)]

def encode (text : JavaText) : List UInt8 := text.flatMap encodeUnit

def isContinuation (b : UInt8) : Bool := 0x80 ≤ b && b < 0xC0

/-- `NewStringUTF`: the units of a text in Modified UTF-8. -/
def newStringUtf : List UInt8 → Option JavaText
  | [] => some []
  | first :: rest =>
      if first < 0x80 then (newStringUtf rest).map (.ofNat first.toNat :: ·)
      else
        match rest with
        | [] => none
        | second :: rest =>
            if 0xC0 ≤ first ∧ first < 0xE0 ∧ isContinuation second then
              (newStringUtf rest).map (.ofNat (first.toNat % 0x20 * 0x40 + second.toNat % 0x40) :: ·)
            else
              match rest with
              | [] => none
              | third :: rest =>
                  if 0xE0 ≤ first ∧ first < 0xF0 ∧ isContinuation second ∧ isContinuation third then
                    (newStringUtf rest).map (.ofNat (first.toNat % 0x10 * 0x1000 +
                      second.toNat % 0x40 * 0x40 + third.toNat % 0x40) :: ·)
                  else none

/-- The UTF-16 units of one Unicode character. -/
def charUnits (c : Char) : JavaText :=
  if c.toNat < 0x10000 then
    [.ofNat c.toNat]
  else
    [.ofNat (0xD800 + (c.toNat - 0x10000) / 0x400), .ofNat (0xDC00 + (c.toNat - 0x10000) % 0x400)]

def ofString (text : String) : JavaText := text.toList.flatMap charUnits

theorem newStringUtf_ascii (text : List UInt8) (ascii : ∀ b ∈ text, b < 0x80) :
    newStringUtf text = some (text.map fun b => .ofNat b.toNat) := by
  induction text with
  | nil => rfl
  | cons first rest ih =>
      rw [List.forall_mem_cons] at ascii
      rw [newStringUtf.eq_def]
      dsimp only
      rw [if_pos ascii.1, ih ascii.2]
      rfl

@[simp] theorem encode_nil : encode [] = [] := rfl

@[simp] theorem encode_cons (unit : UInt16) (rest : JavaText) :
    encode (unit :: rest) = encodeUnit unit ++ encode rest := rfl

@[simp] theorem encode_append (first second : JavaText) :
    encode (first ++ second) = encode first ++ encode second :=
  List.flatMap_append

theorem ofString_append (first second : String) :
    ofString (first ++ second) = ofString first ++ ofString second := by
  unfold ofString
  rw [String.toList_append, List.flatMap_append]

theorem encodeUnit_ascii (unit : UInt16) (positive : unit ≠ 0) (ascii : unit.toNat < 0x80) :
    encodeUnit unit = [.ofNat unit.toNat] := by
  have nonzero : 0 < unit.toNat := by
    rw [Nat.pos_iff_ne_zero]
    exact fun zero => positive (UInt16.toNat_inj.mp zero)
  simp only [encodeUnit, nonzero, ascii, and_self, if_true]

theorem toNat_ofNat_byte (code : Nat) (small : code < 0x100) : (UInt8.ofNat code).toNat = code := by
  rw [UInt8.toNat_ofNat']
  exact Nat.mod_eq_of_lt small

/-- The bytes of a unit outside ASCII are outside ASCII. -/
theorem encodeUnit_high (unit : UInt16) (high : 0x80 ≤ unit.toNat) (byte : UInt8)
    (member : byte ∈ encodeUnit unit) : 0x80 ≤ byte.toNat := by
  have bound := unit.toNat_lt
  have outside : ¬(0 < unit.toNat ∧ unit.toNat < 0x80) := by omega
  simp only [encodeUnit, if_neg outside] at member
  split at member
  · simp only [List.mem_cons, List.not_mem_nil, or_false] at member
    rcases member with rfl | rfl <;> rw [toNat_ofNat_byte _ (by omega)] <;> omega
  · simp only [List.mem_cons, List.not_mem_nil, or_false] at member
    rcases member with rfl | rfl | rfl <;> rw [toNat_ofNat_byte _ (by omega)] <;> omega

theorem encodeUnit_nulFree (unit : UInt16) : 0 ∉ encodeUnit unit := by
  intro member
  have bound := unit.toNat_lt
  by_cases high : 0x80 ≤ unit.toNat
  · have byte := encodeUnit_high unit high 0 member
    simp at byte
  · by_cases zero : unit = 0
    · subst zero
      revert member
      decide
    · rw [encodeUnit_ascii unit zero (by omega), List.mem_singleton] at member
      have same := congrArg UInt8.toNat member
      rw [toNat_ofNat_byte _ (by omega)] at same
      exact zero (UInt16.toNat_inj.mp same.symm)

theorem encode_nulFree (text : JavaText) : 0 ∉ encode text := by
  intro member
  obtain ⟨unit, _, inside⟩ := List.mem_flatMap.mp member
  exact encodeUnit_nulFree unit inside

theorem newStringUtf_encodeUnit (unit : UInt16) (rest : List UInt8) :
    newStringUtf (encodeUnit unit ++ rest) = (newStringUtf rest).map (unit :: ·) := by
  have bound := unit.toNat_lt
  have edges : (0x80 : UInt8).toNat = 0x80 ∧ (0xC0 : UInt8).toNat = 0xC0 ∧
      (0xE0 : UInt8).toNat = 0xE0 ∧ (0xF0 : UInt8).toNat = 0xF0 := ⟨rfl, rfl, rfl, rfl⟩
  have back : ∀ code, code = unit.toNat → UInt16.ofNat code = unit := by
    rintro code rfl
    exact UInt16.ofNat_toNat
  unfold encodeUnit
  dsimp only
  by_cases ascii : 0 < unit.toNat ∧ unit.toNat < 0x80
  · rw [if_pos ascii, List.singleton_append, newStringUtf.eq_def]
    dsimp only
    rw [if_pos (UInt8.lt_iff_toNat_lt.mpr (by rw [toNat_ofNat_byte _ (by omega)]; exact ascii.2)),
      toNat_ofNat_byte _ (by omega), back _ rfl]
  · rw [if_neg ascii]
    have lead : ∀ code, 0x80 ≤ code → code < 0x100 → ¬ UInt8.ofNat code < 0x80 := by
      intro code high small less
      have less := UInt8.lt_iff_toNat_lt.mp less
      rw [toNat_ofNat_byte _ small] at less
      omega
    have continues : ∀ code, isContinuation (.ofNat (0x80 + code % 0x40)) = true := by
      intro code
      simp only [isContinuation, Bool.and_eq_true, decide_eq_true_eq, UInt8.le_iff_toNat_le,
        UInt8.lt_iff_toNat_lt]
      rw [toNat_ofNat_byte _ (by omega)]
      omega
    by_cases short : unit.toNat < 0x800
    · rw [if_pos short, List.cons_append, List.cons_append, List.nil_append, newStringUtf.eq_def]
      dsimp only
      rw [if_neg (lead _ (by omega) (by omega)), if_pos]
      · rw [toNat_ofNat_byte _ (by omega), toNat_ofNat_byte _ (by omega), back _ (by omega)]
      · refine ⟨UInt8.le_iff_toNat_le.mpr ?_, UInt8.lt_iff_toNat_lt.mpr ?_, continues _⟩
        · rw [toNat_ofNat_byte _ (by omega)]
          omega
        · rw [toNat_ofNat_byte _ (by omega)]
          omega
    · have notShort : ¬(0xC0 ≤ UInt8.ofNat (0xE0 + unit.toNat / 0x1000) ∧
          UInt8.ofNat (0xE0 + unit.toNat / 0x1000) < 0xE0 ∧
          isContinuation (.ofNat (0x80 + unit.toNat / 0x40 % 0x40)) = true) := by
        rintro ⟨_, less, _⟩
        have less := UInt8.lt_iff_toNat_lt.mp less
        rw [toNat_ofNat_byte _ (by omega)] at less
        omega
      rw [if_neg short, List.cons_append, List.cons_append, List.cons_append, List.nil_append,
        newStringUtf.eq_def]
      dsimp only
      rw [if_neg (lead _ (by omega) (by omega)), if_neg notShort, if_pos]
      · rw [toNat_ofNat_byte _ (by omega), toNat_ofNat_byte _ (by omega),
          toNat_ofNat_byte _ (by omega), back _ (by omega)]
      · refine ⟨UInt8.le_iff_toNat_le.mpr ?_, UInt8.lt_iff_toNat_lt.mpr ?_, continues _,
          continues _⟩
        · rw [toNat_ofNat_byte _ (by omega)]
          omega
        · rw [toNat_ofNat_byte _ (by omega)]
          omega

/-- `NewStringUTF` takes back what `GetStringUTFChars` gave. -/
theorem newStringUtf_encode (text : JavaText) : newStringUtf (encode text) = some text := by
  induction text with
  | nil => rfl
  | cons unit rest ih =>
      rw [encode_cons, newStringUtf_encodeUnit, ih]
      rfl

/-! ## Texts of units -/

/-- The character of a unit, and the replacement character for a surrogate. -/
def unitChar (unit : UInt16) : Char :=
  if 0xD800 ≤ unit ∧ unit < 0xE000 then '\uFFFD' else .ofNat unit.toNat

def toChars : JavaText → List Char
  | [] => []
  | [unit] => [unitChar unit]
  | first :: second :: rest =>
      if 0xD800 ≤ first ∧ first < 0xDC00 ∧ 0xDC00 ≤ second ∧ second < 0xE000 then
        .ofNat (0x10000 + (first.toNat - 0xD800) * 0x400 + (second.toNat - 0xDC00)) :: toChars rest
      else
        unitChar first :: toChars (second :: rest)

theorem toChars_unit (unit : UInt16) (rest : JavaText) (single : ¬(0xD800 ≤ unit ∧ unit < 0xE000)) :
    toChars (unit :: rest) = .ofNat unit.toNat :: toChars rest := by
  have char : unitChar unit = .ofNat unit.toNat := if_neg single
  cases rest with
  | nil => rw [toChars, toChars, char]
  | cons second others =>
      have notPair : ¬(0xD800 ≤ unit ∧ unit < 0xDC00 ∧ 0xDC00 ≤ second ∧ second < 0xE000) := by
        rintro ⟨high, below, _⟩
        exact single ⟨high, by
          rw [UInt16.lt_iff_toNat_lt] at below ⊢
          exact Nat.lt_trans below (by decide)⟩
      rw [toChars, if_neg notPair, char]

theorem toChars_charUnits (c : Char) (rest : JavaText) :
    toChars (charUnits c ++ rest) = c :: toChars rest := by
  have valid : c.toNat < 0xD800 ∨ 0xDFFF < c.toNat ∧ c.toNat < 0x110000 := c.valid
  by_cases basic : c.toNat < 0x10000
  · have code : (UInt16.ofNat c.toNat).toNat = c.toNat := by
      rw [UInt16.toNat_ofNat']
      exact Nat.mod_eq_of_lt basic
    rw [charUnits, if_pos basic, List.singleton_append, toChars_unit, code, Char.ofNat_toNat]
    rw [UInt16.le_iff_toNat_le, UInt16.lt_iff_toNat_lt, code]
    change ¬(0xD800 ≤ c.toNat ∧ c.toNat < 0xE000)
    omega
  · have beyond : c.toNat - 0x10000 < 0x100000 := by omega
    have first : (UInt16.ofNat (0xD800 + (c.toNat - 0x10000) / 0x400)).toNat =
        0xD800 + (c.toNat - 0x10000) / 0x400 := by
      rw [UInt16.toNat_ofNat']
      exact Nat.mod_eq_of_lt (by omega)
    have second : (UInt16.ofNat (0xDC00 + (c.toNat - 0x10000) % 0x400)).toNat =
        0xDC00 + (c.toNat - 0x10000) % 0x400 := by
      rw [UInt16.toNat_ofNat']
      exact Nat.mod_eq_of_lt (by omega)
    rw [charUnits, if_neg basic]
    change toChars (_ :: _ :: rest) = _
    rw [toChars, if_pos, first, second]
    · have code : 0x10000 + (0xD800 + (c.toNat - 0x10000) / 0x400 - 0xD800) * 0x400 +
          (0xDC00 + (c.toNat - 0x10000) % 0x400 - 0xDC00) = c.toNat := by omega
      rw [code, Char.ofNat_toNat]
    · simp only [UInt16.le_iff_toNat_le, UInt16.lt_iff_toNat_lt, first, second]
      change 0xD800 ≤ _ ∧ _ < 0xDC00 ∧ 0xDC00 ≤ _ ∧ _ < 0xE000
      omega

/-- The text of the units. -/
def toText (units : JavaText) : String := .ofList (toChars units)

theorem toText_ofString (text : String) : toText (ofString text) = text := by
  have chars : ∀ list : List Char, toChars (list.flatMap charUnits) = list := by
    intro list
    induction list with
    | nil => rfl
    | cons c rest ih => rw [List.flatMap_cons, toChars_charUnits, ih]
  rw [toText, ofString, chars, String.ofList_toList]

theorem char_toNat {code : Nat} (valid : code.isValidChar) : (Char.ofNat code).toNat = code := by
  rw [Char.ofNat, dif_pos valid]
  rfl

theorem charUnits_unitChar (unit : UInt16) (ascii : (unitChar unit).toNat < 0x80) :
    charUnits (unitChar unit) = [unit] := by
  rw [unitChar] at ascii ⊢
  split at ascii
  · exact absurd ascii (by decide)
  · rename_i single
    rw [UInt16.le_iff_toNat_le, UInt16.lt_iff_toNat_lt] at single
    change ¬(0xD800 ≤ unit.toNat ∧ unit.toNat < 0xE000) at single
    have bound := unit.toNat_lt
    have valid : unit.toNat.isValidChar := by
      change unit.toNat < 0xD800 ∨ 0xDFFF < unit.toNat ∧ unit.toNat < 0x110000
      omega
    rw [char_toNat valid] at ascii
    rw [if_neg (by rwa [UInt16.le_iff_toNat_le, UInt16.lt_iff_toNat_lt]), charUnits,
      char_toNat valid, if_pos (by omega), UInt16.ofNat_toNat]

/-- Only its own units make an ASCII text. -/
theorem eq_ofString_of_toText {units : JavaText} {text : String}
    (ascii : ∀ c ∈ text.toList, c.toNat < 0x80) (same : toText units = text) :
    units = ofString text := by
  subst same
  rw [toText, String.toList_ofList] at ascii
  rw [ofString, toText, String.toList_ofList]
  fun_induction toChars units with
  | case1 => rfl
  | case2 unit =>
      rw [List.flatMap_singleton]
      exact (charUnits_unitChar unit (ascii _ (List.mem_singleton_self _))).symm
  | case3 first second rest pair ih =>
      obtain ⟨high, below, low, under⟩ := pair
      rw [UInt16.le_iff_toNat_le] at high low
      rw [UInt16.lt_iff_toNat_lt] at below under
      change 0xD800 ≤ first.toNat at high
      change first.toNat < 0xDC00 at below
      change 0xDC00 ≤ second.toNat at low
      change second.toNat < 0xE000 at under
      have head := ascii _ (List.mem_cons_self ..)
      rw [char_toNat (Or.inr (by omega))] at head
      omega
  | case4 first second rest notPair ih =>
      rw [List.forall_mem_cons] at ascii
      rw [List.flatMap_cons, charUnits_unitChar first ascii.1, ← ih ascii.2]
      rfl

end RaptorMark.Lib.ModifiedUtf8
