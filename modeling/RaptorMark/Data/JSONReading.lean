import RaptorMark.Data.JSONTokener
import RaptorMark.Lib.LongestRun
import RaptorMark.Lib.Separated

/-!
# Reading plain JSON

What the tokener makes of a text without blanks and comments: strings,
booleans, and the arrays and objects of such values.  The rest of the input is
arbitrary throughout; after a literal it has to start with a delimiter.
-/

set_option autoImplicit false

namespace RaptorMark.JSONTokener

open Lib Lib.ModifiedUtf8 Lib.LongestRun Lib.Separated

variable (java : JavaLang)

/-- Neither blank nor the start of a comment. -/
def isSolid (unit : UInt16) : Bool :=
  !isBlank unit && unit != asciiUnit '/' && unit != asciiUnit '#'

theorem nextClean_solid (c : UInt16) (rest : JavaText) (solid : isSolid c = true) :
    nextClean (c :: rest) = some (some c, rest) := by
  simp only [isSolid, Bool.and_eq_true, Bool.not_eq_true', bne_iff_ne] at solid
  obtain ⟨⟨notBlank, notSlash⟩, notHash⟩ := solid
  rw [nextClean, nextCleanInternal, notBlank, if_neg Bool.false_ne_true, if_neg notSlash,
    if_neg notHash]

/-- A character that a value can start with, as far as loops look at it. -/
def isOpening (unit : UInt16) : Bool :=
  isSolid unit && !isDelimiter unit && unit != asciiUnit '>' ||
    unit == asciiUnit '\x7b' || unit == asciiUnit '['

/-- The input ends here or goes on with a delimiter. -/
def Closed (rest : JavaText) : Prop := Stops (fun unit => !isDelimiter unit) rest

/-- With enough fuel the tokener reads the value and stops right after it. -/
structure Reads (need : Nat) (text : JavaText) (value : ReadValue) : Prop where
  opens : ∃ first tail, text = first :: tail ∧ isOpening first = true
  reads : ∀ fuel rest, need ≤ fuel → Closed rest →
    nextValue java fuel (text ++ rest) = some (value, rest)

/-- The `switch` of `nextValue`, in front of a solid character. -/
theorem nextValue_cons (fuel : Nat) (c : UInt16) (rest : JavaText) (solid : isSolid c = true) :
    nextValue java (fuel + 1) (c :: rest) =
      if c = asciiUnit '\x7b' then readObject java fuel rest
      else if c = asciiUnit '[' then readArray java fuel false [] rest
      else if c = asciiUnit '\x27' ∨ c = asciiUnit '"' then
        (nextString java c rest).map fun (value, after) => (.string value, after)
      else readLiteral java (c :: rest) := by
  rw [nextValue, nextClean_solid c rest solid]
  rfl

theorem reads_quoted (body value : JavaText)
    (reads : ∀ rest fuel, body.length < fuel →
      stringBody java (asciiUnit '"') fuel (body ++ asciiUnit '"' :: rest) = some (value, rest)) :
    Reads java 1 (asciiUnit '"' :: (body ++ [asciiUnit '"'])) (.string value) where
  opens := ⟨_, _, rfl, by decide⟩
  reads := by
    intro fuel rest enough _
    obtain ⟨less, rfl⟩ : ∃ less, fuel = less + 1 := ⟨fuel - 1, by omega⟩
    have whole : nextString java (asciiUnit '"') (body ++ asciiUnit '"' :: rest) =
        some (value, rest) := reads rest _ (by rw [List.length_append]; omega)
    rw [List.cons_append, nextValue_cons java less _ _ (by decide), if_neg (by decide),
      if_neg (by decide), if_pos (Or.inr rfl), List.append_assoc]
    change (nextString java (asciiUnit '"') (body ++ asciiUnit '"' :: rest)).map _ = _
    rw [whole]
    rfl

theorem closed_cons (head : UInt16) (rest : JavaText) (delimiter : isDelimiter head = true) :
    Closed (head :: rest) :=
  stops_cons _ head rest (by rw [delimiter]; rfl)

theorem reads_boolean (value : Bool) :
    Reads java 1 (ofString (if value then "true" else "false")) (.boolean value) where
  opens := by cases value <;> exact ⟨_, _, rfl, by decide⟩
  reads := by
    intro fuel rest enough closed
    obtain ⟨less, rfl⟩ : ∃ less, fuel = less + 1 := ⟨fuel - 1, by omega⟩
    have plain : ∀ unit ∈ ofString (if value then "true" else "false"),
        (!isDelimiter unit) = true := by
      rw [← List.all_eq_true]
      cases value <;> decide
    have word : readLiteral java (ofString (if value then "true" else "false") ++ rest) =
        some (.boolean value, rest) := by
      unfold readLiteral
      dsimp only
      rw [takeWhile_run plain closed, dropWhile_run plain closed]
      cases value <;> rfl
    cases value with
    | true => exact word
    | false => exact word

/-! ## Arrays -/

theorem isOpening_spec (unit : UInt16) (opening : isOpening unit = true) :
    isSolid unit = true ∧ unit ≠ asciiUnit ']' ∧ unit ≠ asciiUnit ',' ∧ unit ≠ asciiUnit ';' ∧
      unit ≠ asciiUnit '\x7d' ∧ unit ≠ asciiUnit '>' := by
  refine ⟨?_, ?_, ?_, ?_, ?_, ?_⟩
  · simp only [isOpening, Bool.or_eq_true, Bool.and_eq_true, beq_iff_eq] at opening
    rcases opening with (⟨⟨solid, _⟩, _⟩ | rfl) | rfl
    · exact solid
    · decide
    · decide
  all_goals
    rintro rfl
    revert opening
    decide

/-- One round of the loop of `readArray`, in front of a value. -/
theorem readArray_value {need fuel : Nat} {text after : JavaText} {value : ReadValue}
    (piece : Reads java need text value) (enough : need ≤ fuel) (closed : Closed after)
    (hasTrailingSeparator : Bool) (values : List ReadValue) :
    readArray java (fuel + 1) hasTrailingSeparator values (text ++ after) =
      (nextClean after).bind fun (separator, left) =>
        if separator = some (asciiUnit ']') then some (.array (values ++ [value]), left)
        else if separator = some (asciiUnit ',') ∨ separator = some (asciiUnit ';') then
          readArray java fuel true (values ++ [value]) left
        else none := by
  obtain ⟨first, tail, rfl, opening⟩ := piece.opens
  obtain ⟨solid, notClose, notComma, notSemicolon, _⟩ := isOpening_spec first opening
  have read := piece.reads fuel after enough closed
  rw [List.cons_append] at read ⊢
  rw [readArray, nextClean_solid first _ solid]
  simp only [Option.bind_eq_bind, Option.bind_some, if_neg notClose, notComma, notSemicolon,
    or_self, if_false, read]

theorem readArray_joined (need : Nat) (piece : JavaText × ReadValue)
    (pieces : List (JavaText × ReadValue)) (fuel : Nat) (hasTrailingSeparator : Bool)
    (values : List ReadValue) (rest : JavaText)
    (reads : ∀ entry ∈ piece :: pieces, Reads java need entry.1 entry.2)
    (enough : need + pieces.length < fuel) :
    readArray java fuel hasTrailingSeparator values
        ([asciiUnit ','].intercalate ((piece :: pieces).map Prod.fst) ++ asciiUnit ']' :: rest) =
      some (.array (values ++ (piece :: pieces).map Prod.snd), rest) := by
  induction pieces generalizing piece fuel hasTrailingSeparator values with
  | nil =>
      obtain ⟨less, rfl⟩ : ∃ less, fuel = less + 1 := ⟨fuel - 1, by omega⟩
      have first := reads piece (List.mem_cons_self ..)
      simp only [List.length_nil] at enough
      simp only [List.map_cons, List.map_nil, List.intercalate_singleton]
      rw [readArray_value java first (by omega) (closed_cons _ _ (by decide)),
        nextClean_solid _ _ (by decide)]
      rfl
  | cons second others ih =>
      obtain ⟨less, rfl⟩ : ∃ less, fuel = less + 1 := ⟨fuel - 1, by omega⟩
      have first := reads piece (List.mem_cons_self ..)
      simp only [List.length_cons] at enough
      rw [List.map_cons, List.map_cons, intercalate_cons_append,
        readArray_value java first (by omega) (closed_cons _ _ (by decide)),
        nextClean_solid _ _ (by decide)]
      rw [Option.bind_some]
      dsimp only
      rw [if_neg (by decide), if_pos (Or.inl rfl), ← List.map_cons,
        ih second less true (values ++ [piece.2])
          (fun entry member => reads entry (List.mem_cons_of_mem _ member)) (by omega)]
      simp

theorem reads_array (need : Nat) (pieces : List (JavaText × ReadValue))
    (reads : ∀ entry ∈ pieces, Reads java need entry.1 entry.2) :
    Reads java (need + pieces.length + 2)
      (asciiUnit '[' :: ([asciiUnit ','].intercalate (pieces.map Prod.fst) ++ [asciiUnit ']']))
      (.array (pieces.map Prod.snd)) where
  opens := ⟨_, _, rfl, by decide⟩
  reads := by
    intro fuel rest enough _
    obtain ⟨less, rfl⟩ : ∃ less, fuel = less + 1 := ⟨fuel - 1, by omega⟩
    rw [List.cons_append, nextValue_cons java less _ _ (by decide), if_neg (by decide),
      if_pos rfl, List.append_assoc, List.singleton_append]
    cases pieces with
    | nil =>
        obtain ⟨least, rfl⟩ : ∃ least, less = least + 1 := ⟨less - 1, by omega⟩
        rw [List.map_nil, List.intercalate_nil, List.nil_append, readArray,
          nextClean_solid _ _ (by decide)]
        rfl
    | cons piece others =>
        simp only [List.length_cons] at enough
        rw [readArray_joined java need piece others less false [] rest reads (by omega)]
        rfl

/-! ## Objects -/

/-- A member as it is written, and what it is read as. -/
structure Member where
  nameText : JavaText
  name : JavaText
  valueText : JavaText
  value : ReadValue

namespace Member

def text (entry : Member) : JavaText := entry.nameText ++ asciiUnit ':' :: entry.valueText

def read (entry : Member) : JavaText × ReadValue := (entry.name, entry.value)

/-- Name and value can be read; the value is no double, whose finiteness `put`
would check. -/
structure Readable (need : Nat) (entry : Member) : Prop where
  name : Reads java need entry.nameText (.string entry.name)
  value : Reads java need entry.valueText entry.value
  notDouble : ∀ literal, entry.value ≠ .double literal

end Member

theorem put_new (members : List (JavaText × ReadValue)) (entry : Member)
    (notDouble : ∀ literal, entry.value ≠ .double literal)
    (new : entry.name ∉ members.map Prod.fst) :
    put java members entry.name entry.value = some (members ++ [entry.read]) := by
  unfold put
  dsimp only
  rw [if_neg new]
  cases value : entry.value with
  | double literal => exact absurd value (notDouble literal)
  | long _ => rw [Member.read, value]
  | null => rw [Member.read, value]
  | boolean _ => rw [Member.read, value]
  | string _ => rw [Member.read, value]
  | array _ => rw [Member.read, value]
  | object _ => rw [Member.read, value]

/-- One round of the loop of `readObject`. -/
theorem readMembers_member {need fuel : Nat} {entry : Member} {after : JavaText}
    (readable : entry.Readable java need) (enough : need ≤ fuel) (closed : Closed after)
    (members : List (JavaText × ReadValue)) (new : entry.name ∉ members.map Prod.fst) :
    readMembers java (fuel + 1) members (entry.text ++ after) =
      (nextClean after).bind fun (next, rest) =>
        if next = some (asciiUnit '\x7d') then some (.object (members ++ [entry.read]), rest)
        else if next = some (asciiUnit ';') ∨ next = some (asciiUnit ',') then
          readMembers java fuel (members ++ [entry.read]) rest
        else none := by
  obtain ⟨first, tail, valueText, opening⟩ := readable.value.opens
  have notArrow := (isOpening_spec first opening).2.2.2.2.2
  have name := readable.name.reads fuel (asciiUnit ':' :: (entry.valueText ++ after)) enough
    (closed_cons _ _ (by decide))
  have value := readable.value.reads fuel after enough closed
  have arrowless : (entry.valueText ++ after).head? ≠ some (asciiUnit '>') := by
    rw [valueText]
    simpa using notArrow
  rw [Member.text, List.append_assoc, List.cons_append, readMembers, name]
  simp only [Option.bind_eq_bind, Option.bind_some, nextClean_solid (asciiUnit ':') _ (by decide),
    true_or, if_true, if_neg arrowless, value,
    put_new java members entry readable.notDouble new]

theorem readMembers_joined (need : Nat) (entry : Member) (entries : List Member) (fuel : Nat)
    (members : List (JavaText × ReadValue)) (rest : JavaText)
    (readable : ∀ other ∈ entry :: entries, other.Readable java need)
    (distinct : (members.map Prod.fst ++ (entry :: entries).map Member.name).Nodup)
    (enough : need + entries.length < fuel) :
    readMembers java fuel members
        ([asciiUnit ','].intercalate ((entry :: entries).map Member.text) ++
          asciiUnit '\x7d' :: rest) =
      some (.object (members ++ (entry :: entries).map Member.read), rest) := by
  have new : entry.name ∉ members.map Prod.fst := fun member =>
    (List.nodup_append.mp distinct).2.2 _ member _ (List.mem_cons_self ..) rfl
  induction entries generalizing entry fuel members with
  | nil =>
      obtain ⟨less, rfl⟩ : ∃ less, fuel = less + 1 := ⟨fuel - 1, by omega⟩
      have first := readable entry (List.mem_cons_self ..)
      simp only [List.length_nil] at enough
      simp only [List.map_cons, List.map_nil, List.intercalate_singleton]
      rw [readMembers_member java first (by omega) (closed_cons _ _ (by decide)) members new,
        nextClean_solid _ _ (by decide)]
      rfl
  | cons second others ih =>
      obtain ⟨less, rfl⟩ : ∃ less, fuel = less + 1 := ⟨fuel - 1, by omega⟩
      have first := readable entry (List.mem_cons_self ..)
      simp only [List.length_cons] at enough
      have distinctRest : ((members ++ [entry.read]).map Prod.fst ++
          (second :: others).map Member.name).Nodup := by
        simpa [Member.read] using distinct
      have newRest : second.name ∉ (members ++ [entry.read]).map Prod.fst := fun member =>
        (List.nodup_append.mp distinctRest).2.2 _ member _ (List.mem_cons_self ..) rfl
      rw [List.map_cons, List.map_cons, intercalate_cons_append,
        readMembers_member java first (by omega) (closed_cons _ _ (by decide)) members new,
        nextClean_solid _ _ (by decide), Option.bind_some]
      dsimp only
      rw [if_neg (by decide), if_pos (Or.inr rfl), ← List.map_cons,
        ih second less (members ++ [entry.read])
          (fun other member => readable other (List.mem_cons_of_mem _ member)) distinctRest
          (by omega) newRest]
      simp

theorem reads_object (need : Nat) (entry : Member) (entries : List Member)
    (readable : ∀ other ∈ entry :: entries, other.Readable java need)
    (distinct : ((entry :: entries).map Member.name).Nodup) :
    Reads java (need + entries.length + 3)
      (asciiUnit '\x7b' ::
        ([asciiUnit ','].intercalate ((entry :: entries).map Member.text) ++ [asciiUnit '\x7d']))
      (.object ((entry :: entries).map Member.read)) where
  opens := ⟨_, _, rfl, by decide⟩
  reads := by
    intro fuel rest enough _
    obtain ⟨least, rfl⟩ : ∃ least, fuel = least + 2 := ⟨fuel - 2, by omega⟩
    have members := readMembers_joined java need entry entries least [] rest readable
      (by simpa using distinct) (by omega)
    obtain ⟨first, tail, joined, opening⟩ : ∃ first tail,
        [asciiUnit ','].intercalate ((entry :: entries).map Member.text) = first :: tail ∧
          isOpening first = true := by
      obtain ⟨first, tail, nameText, opening⟩ :=
        (readable entry (List.mem_cons_self ..)).name.opens
      obtain ⟨others, starts⟩ :=
        intercalate_starts [asciiUnit ','] entry.text (entries.map Member.text)
      have written : entry.text = first :: (tail ++ asciiUnit ':' :: entry.valueText) := by
        rw [Member.text, nameText, List.cons_append]
      exact ⟨first, _, by rw [List.map_cons, starts, written, List.cons_append], opening⟩
    obtain ⟨solid, _, _, _, notClose, _⟩ := isOpening_spec first opening
    rw [List.cons_append, nextValue_cons java _ _ _ (by decide), if_pos rfl, List.append_assoc,
      List.singleton_append]
    rw [joined, List.cons_append] at members ⊢
    rw [readObject, nextClean_solid first _ solid]
    simp only [Option.bind_eq_bind, Option.bind_some, if_neg notClose]
    exact members

end RaptorMark.JSONTokener
