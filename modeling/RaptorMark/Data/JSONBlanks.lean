import RaptorMark.Data.JSONReading

/-!
# Reading indented JSON

What the tokener makes of a text in which blanks stand between the tokens:
number words, and the arrays and objects of values with line ends and
indentation around them.  A name that comes twice keeps its first place and its
last value, as in the map behind `JSONObject`.

Fuel is measured against the text: three units for a character are enough.
-/

set_option autoImplicit false

namespace RaptorMark.JSONTokener

open Lib Lib.ModifiedUtf8 Lib.LongestRun Lib.Separated

variable (java : JavaLang)

/-! ## Blanks -/

def AllBlank (gap : JavaText) : Prop := ∀ unit ∈ gap, isBlank unit = true

theorem AllBlank.append {first second : JavaText} (left : AllBlank first)
    (right : AllBlank second) : AllBlank (first ++ second) := by
  intro unit member
  rcases List.mem_append.mp member with inFirst | inSecond
  · exact left unit inFirst
  · exact right unit inSecond

theorem nextCleanInternal_blanks (gap : JavaText) (fuel : Nat) (rest : JavaText)
    (blank : AllBlank gap) :
    nextCleanInternal (gap.length + fuel) (gap ++ rest) = nextCleanInternal fuel rest := by
  induction gap with
  | nil => rw [List.length_nil, Nat.zero_add, List.nil_append]
  | cons unit others ih =>
      have first : isBlank unit = true := blank unit (List.mem_cons_self ..)
      have later : AllBlank others := fun other member =>
        blank other (List.mem_cons_of_mem _ member)
      rw [List.length_cons, show others.length + 1 + fuel = others.length + fuel + 1 by omega,
        List.cons_append, nextCleanInternal, if_pos first]
      exact ih later

theorem nextClean_blanks (gap rest : JavaText) (blank : AllBlank gap) :
    nextClean (gap ++ rest) = nextClean rest := by
  rw [nextClean, nextClean, List.length_append, Nat.add_assoc]
  exact nextCleanInternal_blanks gap (rest.length + 1) rest blank

theorem nextValue_blanks (fuel : Nat) (gap rest : JavaText) (blank : AllBlank gap) :
    nextValue java fuel (gap ++ rest) = nextValue java fuel rest := by
  cases fuel with
  | zero => rw [nextValue, nextValue]
  | succ less => rw [nextValue, nextValue, nextClean_blanks gap rest blank]

theorem closed_blanks (gap : JavaText) (head : UInt16) (rest : JavaText) (blank : AllBlank gap)
    (delimiter : isDelimiter head = true) : Closed (gap ++ head :: rest) := by
  cases gap with
  | nil => exact closed_cons head rest delimiter
  | cons unit others =>
      have delimits : ∀ unit, isBlank unit = true → isDelimiter unit = true := by
        intro unit isIt
        simp only [isBlank, List.mem_cons, List.not_mem_nil, or_false, decide_eq_true_eq] at isIt
        rcases isIt with rfl | rfl | rfl | rfl <;> decide
      exact closed_cons unit _ (delimits unit (blank unit (List.mem_cons_self ..)))

/-! ## Number words -/

theorem Reads.mono {need more : Nat} {text : JavaText} {value : ReadValue}
    (piece : Reads java need text value) (le : need ≤ more) : Reads java more text value where
  opens := piece.opens
  reads := fun fuel rest enough closed => piece.reads fuel rest (by omega) closed

/-- The characters of the words that C prints for numbers: digits, sign, point,
and the letters of `nan` and `inf`. -/
def isNumberUnit (unit : UInt16) : Bool := unit ∈ ofString "-.0123456789infa"

theorem isNumberUnit_spec (unit : UInt16) (isIt : isNumberUnit unit = true) :
    isDelimiter unit = false ∧ isOpening unit = true ∧ isSolid unit = true ∧
      unit ≠ asciiUnit '\x7b' ∧ unit ≠ asciiUnit '[' ∧ unit ≠ asciiUnit '\x27' ∧
      unit ≠ asciiUnit '"' ∧ foldCase unit ∉ ofString "ltuse" := by
  have table : (ofString "-.0123456789infa").all (fun unit =>
      isDelimiter unit = false ∧ isOpening unit = true ∧ isSolid unit = true ∧
      unit ≠ asciiUnit '\x7b' ∧ unit ≠ asciiUnit '[' ∧ unit ≠ asciiUnit '\x27' ∧
      unit ≠ asciiUnit '"' ∧ foldCase unit ∉ ofString "ltuse") = true := by
    decide +kernel
  exact of_decide_eq_true (List.all_eq_true.mp table unit (of_decide_eq_true isIt))

theorem not_equalsIgnoreCase (keyword : String) (word : JavaText)
    (number : ∀ unit ∈ word, isNumberUnit unit = true)
    (foreign : ∃ unit ∈ ofString keyword, unit ∈ ofString "ltuse") :
    equalsIgnoreCase keyword word = false := by
  rw [equalsIgnoreCase, decide_eq_false_iff_not]
  intro same
  obtain ⟨unit, inKeyword, letter⟩ := foreign
  rw [← same] at inKeyword
  obtain ⟨source, inWord, rfl⟩ := List.mem_map.mp inKeyword
  exact (isNumberUnit_spec source (number source inWord)).2.2.2.2.2.2.2 letter

theorem reads_word (word : JavaText) (nonempty : word ≠ [])
    (number : ∀ unit ∈ word, isNumberUnit unit = true) :
    Reads java 1 word (wordRead java word) := by
  obtain ⟨first, tail, rfl⟩ := List.exists_cons_of_ne_nil nonempty
  obtain ⟨_, opening, solid, notBrace, notBracket, notApostrophe, notQuote, _⟩ :=
    isNumberUnit_spec first (number first (List.mem_cons_self ..))
  refine ⟨⟨first, tail, rfl, opening⟩, ?_⟩
  intro fuel rest enough closed
  obtain ⟨less, rfl⟩ : ∃ less, fuel = less + 1 := ⟨fuel - 1, by omega⟩
  have plain : ∀ unit ∈ first :: tail, (!isDelimiter unit) = true := by
    intro unit member
    rw [(isNumberUnit_spec unit (number unit member)).1]
    rfl
  have literal : readLiteral java (first :: tail ++ rest) =
      some (wordRead java (first :: tail), rest) := by
    unfold readLiteral
    dsimp only
    rw [takeWhile_run plain closed, dropWhile_run plain closed, if_neg nonempty,
      not_equalsIgnoreCase "null" _ number (by decide),
      not_equalsIgnoreCase "true" _ number (by decide),
      not_equalsIgnoreCase "false" _ number (by decide)]
    simp only [Bool.false_eq_true, if_false]
  rw [List.cons_append, nextValue_cons java less first _ solid, if_neg notBrace,
    if_neg notBracket, if_neg (by rintro (same | same) <;> contradiction)]
  exact literal

/-! ## Indented arrays -/

section Indented

variable {gap indent close : JavaText} (gapBlank : AllBlank gap) (indentBlank : AllBlank indent)
  (closeBlank : AllBlank close)

include gapBlank in
theorem readArray_blanks (fuel : Nat) (hasTrailingSeparator : Bool) (values : List ReadValue)
    (rest : JavaText) :
    readArray java fuel hasTrailingSeparator values (gap ++ rest) =
      readArray java fuel hasTrailingSeparator values rest := by
  cases fuel with
  | zero => rw [readArray, readArray]
  | succ less => rw [readArray, readArray, nextClean_blanks gap rest gapBlank]

include gapBlank indentBlank closeBlank

/-- The induction is on the elements; each one takes one unit of fuel more than
its own text, and that much stands between it and the next one. -/
theorem readArray_indented (piece : JavaText × ReadValue) (pieces : List (JavaText × ReadValue))
    (fuel : Nat) (hasTrailingSeparator : Bool) (values : List ReadValue) (rest : JavaText)
    (reads : ∀ entry ∈ piece :: pieces, Reads java (3 * entry.1.length) entry.1 entry.2)
    (enough : 3 * ((asciiUnit ',' :: gap).intercalate
      ((piece :: pieces).map fun entry => indent ++ entry.1)).length < fuel) :
    readArray java fuel hasTrailingSeparator values
        (gap ++ ((asciiUnit ',' :: gap).intercalate
          ((piece :: pieces).map fun entry => indent ++ entry.1) ++
            (close ++ asciiUnit ']' :: rest))) =
      some (.array (values ++ (piece :: pieces).map Prod.snd), rest) := by
  induction pieces generalizing piece fuel hasTrailingSeparator values with
  | nil =>
      obtain ⟨less, rfl⟩ : ∃ less, fuel = less + 1 := ⟨fuel - 1, by omega⟩
      have first := reads piece (List.mem_cons_self ..)
      simp only [List.map_cons, List.map_nil, List.intercalate_singleton, List.length_append]
        at enough ⊢
      rw [readArray_blanks java gapBlank, List.append_assoc, readArray_blanks java indentBlank,
        readArray_value java first (by omega) (closed_blanks close _ _ closeBlank (by decide)),
        nextClean_blanks close _ closeBlank, nextClean_solid _ _ (by decide)]
      rfl
  | cons second others ih =>
      obtain ⟨less, rfl⟩ : ∃ less, fuel = less + 1 := ⟨fuel - 1, by omega⟩
      have first := reads piece (List.mem_cons_self ..)
      simp only [List.map_cons, List.intercalate_cons_cons, List.length_append, List.length_cons]
        at enough
      rw [List.map_cons, List.map_cons, List.intercalate_cons_cons, readArray_blanks java gapBlank]
      simp only [List.append_assoc, List.cons_append]
      rw [readArray_blanks java indentBlank,
        readArray_value java first (by omega) (closed_cons _ _ (by decide)),
        nextClean_solid _ _ (by decide), Option.bind_some]
      dsimp only
      rw [if_neg (by decide), if_pos (Or.inl rfl)]
      have later := ih second less true (values ++ [piece.2])
        (fun entry member => reads entry (List.mem_cons_of_mem _ member))
        (by simp only [List.map_cons]; omega)
      simp only [List.map_cons, List.append_assoc, List.singleton_append] at later ⊢
      exact later

theorem reads_indentedArray (pieces : List (JavaText × ReadValue))
    (reads : ∀ entry ∈ pieces, Reads java (3 * entry.1.length) entry.1 entry.2)
    (text : JavaText) (written : text = asciiUnit '[' :: (gap ++ ((asciiUnit ',' :: gap).intercalate
      (pieces.map fun entry => indent ++ entry.1) ++ (close ++ [asciiUnit ']'])))) :
    Reads java (3 * text.length) text (.array (pieces.map Prod.snd)) := by
  refine ⟨⟨_, _, written, by decide⟩, ?_⟩
  intro fuel rest enough _
  rw [written] at enough ⊢
  simp only [List.length_cons, List.length_append] at enough
  obtain ⟨less, rfl⟩ : ∃ less, fuel = less + 1 := ⟨fuel - 1, by omega⟩
  rw [List.cons_append, nextValue_cons java less _ _ (by decide), if_neg (by decide),
    if_pos rfl]
  simp only [List.append_assoc, List.singleton_append]
  cases pieces with
  | nil =>
      obtain ⟨least, rfl⟩ : ∃ least, less = least + 1 := ⟨less - 1, by omega⟩
      rw [List.map_nil, List.intercalate_nil, List.nil_append, readArray,
        nextClean_blanks gap _ gapBlank, nextClean_blanks close _ closeBlank,
        nextClean_solid _ _ (by decide)]
      rfl
  | cons piece others =>
      rw [readArray_indented java gapBlank indentBlank closeBlank piece others less false [] rest
        reads (by omega), List.nil_append]

/-! ## Indented objects -/

omit gapBlank indentBlank closeBlank

/-- A double, if that is what it is, is finite. -/
def Storable (value : ReadValue) : Prop :=
  ∀ literal, value = .double literal → java.isFinite literal = true

theorem put_store (members : List (JavaText × ReadValue)) (name : JavaText) (value : ReadValue)
    (storable : Storable java value) :
    put java members name value = some (store members name value) := by
  unfold put
  dsimp only
  cases value with
  | double literal => exact if_pos (storable literal rfl)
  | long _ => rfl
  | null => rfl
  | boolean _ => rfl
  | string _ => rfl
  | array _ => rfl
  | object _ => rfl

namespace Member

/-- A member with blanks on both sides of the colon. -/
def spacedText (blank : JavaText) (entry : Member) : JavaText :=
  entry.nameText ++ (blank ++ asciiUnit ':' :: (blank ++ entry.valueText))

structure Stored (entry : Member) : Prop where
  name : Reads java (3 * entry.nameText.length) entry.nameText (.string entry.name)
  value : Reads java (3 * entry.valueText.length) entry.valueText entry.value
  storable : Storable java entry.value

end Member

variable {blank : JavaText} (blankBlank : AllBlank blank)

include gapBlank in
theorem readMembers_blanks (fuel : Nat) (members : List (JavaText × ReadValue))
    (rest : JavaText) :
    readMembers java fuel members (gap ++ rest) = readMembers java fuel members rest := by
  cases fuel with
  | zero => rw [readMembers, readMembers]
  | succ less => rw [readMembers, readMembers, nextValue_blanks java less gap rest gapBlank]

include blankBlank in
/-- One round of the loop of `readObject`, with blanks around the colon. -/
theorem readMembers_spaced {entry : Member} {after : JavaText} {fuel : Nat}
    (stored : entry.Stored java) (enough : 3 * (entry.spacedText blank).length ≤ fuel)
    (closed : Closed after) (members : List (JavaText × ReadValue)) :
    readMembers java (fuel + 1) members (entry.spacedText blank ++ after) =
      (nextClean after).bind fun (next, rest) =>
        if next = some (asciiUnit '\x7d') then
          some (.object (store members entry.name entry.value), rest)
        else if next = some (asciiUnit ';') ∨ next = some (asciiUnit ',') then
          readMembers java fuel (store members entry.name entry.value) rest
        else none := by
  simp only [Member.spacedText, List.length_append, List.length_cons] at enough
  have name := stored.name.reads fuel
    (blank ++ asciiUnit ':' :: (blank ++ (entry.valueText ++ after))) (by omega)
    (closed_blanks blank _ _ blankBlank (by decide))
  have value := stored.value.reads fuel after (by omega) closed
  have arrowless : (blank ++ (entry.valueText ++ after)).head? ≠ some (asciiUnit '>') := by
    cases blank with
    | nil =>
        obtain ⟨first, tail, valueText, opening⟩ := stored.value.opens
        rw [valueText]
        simpa using (isOpening_spec first opening).2.2.2.2.2
    | cons unit others =>
        have isIt := blankBlank unit (List.mem_cons_self ..)
        simp only [List.cons_append, List.head?_cons, ne_eq, Option.some.injEq]
        rintro rfl
        revert isIt
        decide
  rw [Member.spacedText, List.append_assoc, List.append_assoc, List.cons_append,
    List.append_assoc, readMembers, name]
  simp only [Option.bind_eq_bind, Option.bind_some, nextClean_blanks blank _ blankBlank,
    nextClean_solid (asciiUnit ':') _ (by decide), true_or, if_true, if_neg arrowless,
    nextValue_blanks java fuel blank _ blankBlank, value,
    put_store java members entry.name entry.value stored.storable]

/-- The members in the map after all of them have been put. -/
def storeAll (members : List (JavaText × ReadValue)) (entries : List Member) :
    List (JavaText × ReadValue) :=
  entries.foldl (fun members entry => store members entry.name entry.value) members

include gapBlank indentBlank closeBlank blankBlank

theorem readMembers_indented (entry : Member) (entries : List Member) (fuel : Nat)
    (members : List (JavaText × ReadValue)) (rest : JavaText)
    (stored : ∀ other ∈ entry :: entries, other.Stored java)
    (enough : 3 * ((asciiUnit ',' :: gap).intercalate
      ((entry :: entries).map fun other => indent ++ other.spacedText blank)).length < fuel) :
    readMembers java fuel members
        (gap ++ ((asciiUnit ',' :: gap).intercalate
          ((entry :: entries).map fun other => indent ++ other.spacedText blank) ++
            (close ++ asciiUnit '\x7d' :: rest))) =
      some (.object (storeAll members (entry :: entries)), rest) := by
  induction entries generalizing entry fuel members with
  | nil =>
      obtain ⟨less, rfl⟩ : ∃ less, fuel = less + 1 := ⟨fuel - 1, by omega⟩
      have first := stored entry (List.mem_cons_self ..)
      simp only [List.map_cons, List.map_nil, List.intercalate_singleton, List.length_append]
        at enough ⊢
      rw [readMembers_blanks java gapBlank, List.append_assoc, readMembers_blanks java indentBlank,
        readMembers_spaced java blankBlank first (by omega)
          (closed_blanks close _ _ closeBlank (by decide)) members,
        nextClean_blanks close _ closeBlank, nextClean_solid _ _ (by decide)]
      rfl
  | cons second others ih =>
      obtain ⟨less, rfl⟩ : ∃ less, fuel = less + 1 := ⟨fuel - 1, by omega⟩
      have first := stored entry (List.mem_cons_self ..)
      simp only [List.map_cons, List.intercalate_cons_cons, List.length_append, List.length_cons]
        at enough
      rw [List.map_cons, List.map_cons, List.intercalate_cons_cons,
        readMembers_blanks java gapBlank]
      simp only [List.append_assoc, List.cons_append]
      rw [readMembers_blanks java indentBlank,
        readMembers_spaced java blankBlank first (by omega) (closed_cons _ _ (by decide)) members,
        nextClean_solid _ _ (by decide), Option.bind_some]
      dsimp only
      rw [if_neg (by decide), if_pos (Or.inr rfl)]
      have later := ih second less (store members entry.name entry.value)
        (fun other member => stored other (List.mem_cons_of_mem _ member))
        (by simp only [List.map_cons]; omega)
      simp only [List.map_cons] at later
      exact later

theorem reads_indentedObject (entries : List Member)
    (stored : ∀ entry ∈ entries, entry.Stored java) (text : JavaText)
    (written : text = asciiUnit '\x7b' :: (gap ++ ((asciiUnit ',' :: gap).intercalate
      (entries.map fun entry => indent ++ entry.spacedText blank) ++
        (close ++ [asciiUnit '\x7d'])))) :
    Reads java (3 * text.length) text (.object (storeAll [] entries)) := by
  refine ⟨⟨_, _, written, by decide⟩, ?_⟩
  intro fuel rest enough _
  rw [written] at enough ⊢
  simp only [List.length_cons, List.length_append] at enough
  obtain ⟨least, rfl⟩ : ∃ least, fuel = least + 2 := ⟨fuel - 2, by omega⟩
  rw [List.cons_append, nextValue_cons java _ _ _ (by decide), if_pos rfl]
  simp only [List.append_assoc, List.singleton_append]
  cases entries with
  | nil =>
      rw [List.map_nil, List.intercalate_nil, List.nil_append, readObject,
        nextClean_blanks gap _ gapBlank, nextClean_blanks close _ closeBlank,
        nextClean_solid _ _ (by decide)]
      rfl
  | cons entry others =>
      have members := readMembers_indented java gapBlank indentBlank closeBlank blankBlank entry
        others least [] rest stored (by omega)
      obtain ⟨first, tail, joined, opening⟩ : ∃ first tail, (asciiUnit ',' :: gap).intercalate
          ((entry :: others).map fun other => indent ++ other.spacedText blank) =
            indent ++ first :: tail ∧ isOpening first = true := by
        obtain ⟨first, tail, nameText, opening⟩ :=
          (stored entry (List.mem_cons_self ..)).name.opens
        obtain ⟨after, starts⟩ := intercalate_starts (asciiUnit ',' :: gap)
          (indent ++ entry.spacedText blank)
          (others.map fun other => indent ++ other.spacedText blank)
        refine ⟨first, tail ++ (blank ++ asciiUnit ':' :: (blank ++ entry.valueText)) ++ after, ?_,
          opening⟩
        rw [List.map_cons, starts, Member.spacedText, nameText]
        simp only [List.append_assoc, List.cons_append]
      obtain ⟨solid, _, _, _, notClose, _⟩ := isOpening_spec first opening
      rw [joined] at members ⊢
      simp only [List.append_assoc, List.cons_append] at members ⊢
      rw [readMembers_blanks java gapBlank, readMembers_blanks java indentBlank] at members
      rw [readObject, nextClean_blanks gap _ gapBlank, nextClean_blanks indent _ indentBlank,
        nextClean_solid first _ solid]
      simp only [Option.bind_eq_bind, Option.bind_some, if_neg notClose]
      exact members

end Indented

end RaptorMark.JSONTokener
