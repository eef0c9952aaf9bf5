import RaptorMark.Data.JSONReading

/-!
# What stands behind an object

`JSONObject(String)` stops after the object it has read.  Whatever is appended
to a text that holds one, the same object is read: each function of the tokener
answers as before, leaves the appended characters behind those it left, and
keeps its answer with more fuel.  Only a word that ends with the text could go
on, and inside an object something follows every word.
-/

set_option autoImplicit false

namespace RaptorMark.JSONTokener

open Lib Lib.ModifiedUtf8 Lib.LongestRun

variable (java : JavaLang) (more : JavaText)

/-! ## Blanks and comments -/

theorem skipToEndOfLine_append (text : JavaText) (goesOn : skipToEndOfLine text ≠ []) :
    skipToEndOfLine (text ++ more) = skipToEndOfLine text ++ more := by
  have lineEnd : text.dropWhile (fun unit => !isLineEnd unit) ≠ [] := by
    intro none'
    rw [skipToEndOfLine, none'] at goesOn
    exact goesOn rfl
  rw [skipToEndOfLine, skipToEndOfLine, List.dropWhile_append,
    if_neg (by rwa [List.isEmpty_iff]), List.tail_append_of_ne_nil lineEnd]

theorem afterComment_append (text rest : JavaText) (closed : afterComment text = some rest) :
    afterComment (text ++ more) = some (rest ++ more) := by
  fun_induction afterComment text with
  | case1 => cases closed
  | case2 => cases closed
  | case3 first second others isEnd =>
      cases closed
      exact if_pos isEnd
  | case4 first second others goesOn ih =>
      rw [List.cons_append, List.cons_append, afterComment, if_neg goesOn]
      exact ih closed

theorem nextCleanInternal_nil (fuel : Nat) (c : UInt16) (rest : JavaText) :
    nextCleanInternal fuel [] ≠ some (some c, rest) := by
  cases fuel <;> rintro ⟨⟩

/-- A slash at the end of the text is left out: with a character behind it, it
could start a comment. -/
theorem nextCleanInternal_append {c : UInt16} {fuel larger : Nat} (text rest : JavaText)
    (firm : c ≠ asciiUnit '/' ∨ rest ≠ []) (enough : fuel ≤ larger)
    (clean : nextCleanInternal fuel text = some (some c, rest)) :
    nextCleanInternal larger (text ++ more) = some (some c, rest ++ more) := by
  induction fuel generalizing text larger with
  | zero => cases clean
  | succ fuel ih =>
      obtain ⟨least, rfl⟩ : ∃ least, larger = least + 1 := ⟨larger - 1, by omega⟩
      cases text with
      | nil => exact absurd clean (nextCleanInternal_nil _ c rest)
      | cons unit tail =>
          rw [List.cons_append, nextCleanInternal]
          rw [nextCleanInternal] at clean
          by_cases blank : isBlank unit = true
          · rw [if_pos blank] at clean ⊢
            exact ih tail (by omega) clean
          · rw [if_neg blank] at clean ⊢
            by_cases slash : unit = asciiUnit '/'
            · rw [if_pos slash] at clean ⊢
              by_cases nothing : tail = []
              · subst nothing
                rw [if_neg (by simp), if_neg (by simp)] at clean
                cases clean
                exact absurd firm (by simp [slash])
              · rw [List.head?_append_of_ne_nil tail nothing, List.tail_append_of_ne_nil nothing]
                by_cases block : tail.head? = some (asciiUnit '*')
                · rw [if_pos block] at clean ⊢
                  obtain ⟨after, closed, clean⟩ := Option.bind_eq_some_iff.mp clean
                  rw [afterComment_append more tail.tail after closed]
                  exact ih after (by omega) clean
                · rw [if_neg block] at clean ⊢
                  by_cases line : tail.head? = some (asciiUnit '/')
                  · rw [if_pos line] at clean ⊢
                    rw [skipToEndOfLine_append more tail.tail fun nothing =>
                      nextCleanInternal_nil fuel c rest (nothing ▸ clean)]
                    exact ih _ (by omega) clean
                  · rw [if_neg line] at clean ⊢
                    cases clean
                    rfl
            · rw [if_neg slash] at clean ⊢
              by_cases hash : unit = asciiUnit '#'
              · rw [if_pos hash] at clean ⊢
                rw [skipToEndOfLine_append more tail fun nothing =>
                  nextCleanInternal_nil fuel c rest (nothing ▸ clean)]
                exact ih _ (by omega) clean
              · rw [if_neg hash] at clean ⊢
                cases clean
                rfl

theorem nextClean_append {c : UInt16} {text rest : JavaText}
    (clean : nextClean text = some (some c, rest)) (firm : c ≠ asciiUnit '/' ∨ rest ≠ []) :
    nextClean (text ++ more) = some (some c, rest ++ more) :=
  nextCleanInternal_append more text rest firm (by rw [List.length_append]; omega) clean

theorem nextClean_nonempty {text rest : JavaText} {c : UInt16}
    (clean : nextClean text = some (some c, rest)) : text ≠ [] := by
  rintro rfl
  exact nextCleanInternal_nil _ c rest clean

theorem nextClean_inside {c : UInt16} {text rest : JavaText}
    (clean : nextClean text = some (some c, rest)) (notSlash : c ≠ asciiUnit '/') :
    nextClean (text ++ more) = some (some c, rest ++ more) ∧ text ≠ [] :=
  ⟨nextClean_append more clean (Or.inl notSlash), nextClean_nonempty clean⟩

/-! ## Strings and literals -/

theorem readEscapeCharacter_append (text rest : JavaText) (unit : UInt16)
    (read : readEscapeCharacter java text = some (unit, rest)) :
    readEscapeCharacter java (text ++ more) = some (unit, rest ++ more) := by
  cases text with
  | nil => cases read
  | cons escaped tail =>
      rw [List.cons_append, readEscapeCharacter]
      rw [readEscapeCharacter] at read
      by_cases unicode : escaped = asciiUnit 'u'
      · rw [if_pos unicode] at read ⊢
        by_cases short : tail.length < 4
        · rw [if_pos short] at read
          cases read
        · rw [if_neg short] at read
          rw [if_neg (by rw [List.length_append]; omega), List.take_append_of_le_length (by omega),
            List.drop_append_of_le_length (by omega)]
          obtain ⟨value, parsed, same⟩ := Option.map_eq_some_iff.mp read
          cases same
          rw [parsed]
          rfl
      · rw [if_neg unicode] at read ⊢
        split_ifs at read ⊢ <;> cases read <;> rfl

theorem stringBody_append (quote : UInt16) {fuel larger : Nat} (text rest value : JavaText)
    (enough : fuel ≤ larger) (read : stringBody java quote fuel text = some (value, rest)) :
    stringBody java quote larger (text ++ more) = some (value, rest ++ more) := by
  induction fuel generalizing text value larger with
  | zero => cases read
  | succ fuel ih =>
      obtain ⟨least, rfl⟩ : ∃ least, larger = least + 1 := ⟨larger - 1, by omega⟩
      have still : fuel ≤ least := by omega
      cases text with
      | nil => cases read
      | cons c tail =>
          rw [List.cons_append, stringBody]
          rw [stringBody] at read
          by_cases ends : c = quote
          · rw [if_pos ends] at read ⊢
            cases read
            rfl
          · rw [if_neg ends] at read ⊢
            by_cases escape : c = asciiUnit '\\'
            · rw [if_pos escape] at read ⊢
              obtain ⟨⟨unit, after⟩, escaped, read⟩ := Option.bind_eq_some_iff.mp read
              obtain ⟨⟨others, left⟩, body, same⟩ := Option.bind_eq_some_iff.mp read
              cases same
              simp only [readEscapeCharacter_append java more tail after unit escaped,
                Option.bind_eq_bind, Option.bind_some, ih after others still body]
              rfl
            · rw [if_neg escape] at read ⊢
              obtain ⟨⟨others, left⟩, body, same⟩ := Option.bind_eq_some_iff.mp read
              cases same
              simp only [Option.bind_eq_bind, ih tail others still body, Option.bind_some]
              rfl

theorem nextString_append (quote : UInt16) (text rest value : JavaText)
    (read : nextString java quote text = some (value, rest)) :
    nextString java quote (text ++ more) = some (value, rest ++ more) :=
  stringBody_append java more quote text rest value (by rw [List.length_append]; omega) read

theorem readLiteral_append (text rest : JavaText) (value : ReadValue) (goesOn : rest ≠ [])
    (read : readLiteral java text = some (value, rest)) :
    readLiteral java (text ++ more) = some (value, rest ++ more) := by
  have isRest : text.dropWhile (fun unit => !isDelimiter unit) = rest := by
    unfold readLiteral at read
    dsimp only at read
    split_ifs at read <;> cases read <;> rfl
  have stops : Closed (rest ++ more) := by
    intro head first
    rw [List.head?_append_of_ne_nil rest goesOn] at first
    exact stops_dropWhile _ text head (isRest ▸ first)
  have plain : ∀ unit ∈ text.takeWhile (fun unit => !isDelimiter unit),
      (!isDelimiter unit) = true := fun unit => List.mem_takeWhile_imp
  have whole : text ++ more =
      text.takeWhile (fun unit => !isDelimiter unit) ++ (rest ++ more) := by
    rw [← isRest, ← List.append_assoc, List.takeWhile_append_dropWhile]
  unfold readLiteral at read ⊢
  dsimp only at read ⊢
  rw [isRest] at read
  rw [whole, takeWhile_run plain stops, dropWhile_run plain stops]
  split_ifs at read ⊢ <;> cases read <;> rfl

/-! ## Values -/

/-- With this fuel each function keeps its answer; a value that is no object is
not the last thing of the text. -/
structure Kept (fuel : Nat) : Prop where
  value : ∀ larger text value rest, fuel ≤ larger →
    nextValue java fuel text = some (value, rest) →
    (rest ≠ [] ∨ ∃ members, value = .object members) →
    nextValue java larger (text ++ more) = some (value, rest ++ more)
  object : ∀ larger text value rest, fuel ≤ larger →
    readObject java fuel text = some (value, rest) →
    readObject java larger (text ++ more) = some (value, rest ++ more)
  members : ∀ larger members text value rest, fuel ≤ larger →
    readMembers java fuel members text = some (value, rest) →
    readMembers java larger members (text ++ more) = some (value, rest ++ more)
  array : ∀ larger trailing values text value rest, fuel ≤ larger →
    readArray java fuel trailing values text = some (value, rest) →
    readArray java larger trailing values (text ++ more) = some (value, rest ++ more)

variable {java more}

theorem readLiteral_slash (rest : JavaText) : readLiteral java (asciiUnit '/' :: rest) = none := by
  rw [readLiteral, List.takeWhile_cons_of_neg (by decide)]
  rfl

theorem wordRead_noObject (word : JavaText) (members : List (JavaText × ReadValue)) :
    wordRead java word ≠ .object members := by
  intro same
  unfold wordRead at same
  split at same
  · cases same
  · split at same <;> cases same

theorem readLiteral_noObject (text rest : JavaText) (members : List (JavaText × ReadValue)) :
    readLiteral java text ≠ some (.object members, rest) := by
  intro read
  unfold readLiteral at read
  dsimp only at read
  split_ifs at read
  · cases read
  · cases read
  · cases read
  · exact wordRead_noObject _ members (congrArg Prod.fst (Option.some.inj read))

theorem Kept.nextValue {fuel : Nat} (kept : Kept java more fuel) (larger : Nat)
    (text rest : JavaText) (value : ReadValue) (enough : fuel + 1 ≤ larger)
    (read : nextValue java (fuel + 1) text = some (value, rest))
    (inside : rest ≠ [] ∨ ∃ members, value = .object members) :
    JSONTokener.nextValue java larger (text ++ more) = some (value, rest ++ more) := by
  obtain ⟨least, rfl⟩ : ∃ least, larger = least + 1 := ⟨larger - 1, by omega⟩
  have still : fuel ≤ least := by omega
  rw [JSONTokener.nextValue] at read
  obtain ⟨⟨next, after⟩, clean, read⟩ := Option.bind_eq_some_iff.mp read
  dsimp only at read
  obtain ⟨c, rfl, _⟩ := Option.bind_eq_some_iff.mp read
  simp only [Option.bind_eq_bind, Option.bind_some] at read
  by_cases slash : c = asciiUnit '/'
  · subst slash
    rw [if_neg (by decide), if_neg (by decide), if_neg (by decide), readLiteral_slash] at read
    cases read
  · rw [JSONTokener.nextValue, nextClean_append more clean (Or.inl slash)]
    simp only [Option.bind_eq_bind, Option.bind_some]
    by_cases brace : c = asciiUnit '\x7b'
    · rw [if_pos brace] at read ⊢
      exact kept.object least after value rest still read
    · rw [if_neg brace] at read ⊢
      by_cases bracket : c = asciiUnit '['
      · rw [if_pos bracket] at read ⊢
        exact kept.array least false [] after value rest still read
      · rw [if_neg bracket] at read ⊢
        by_cases quote : c = asciiUnit '\x27' ∨ c = asciiUnit '"'
        · rw [if_pos quote] at read ⊢
          obtain ⟨⟨body, left⟩, string, same⟩ := Option.map_eq_some_iff.mp read
          cases same
          rw [nextString_append java more c after left body string]
          rfl
        · rw [if_neg quote] at read ⊢
          -- a word could go on if it were the end of the text
          have goesOn : rest ≠ [] := by
            refine inside.resolve_right ?_
            rintro ⟨members, rfl⟩
            exact readLiteral_noObject _ rest members read
          exact readLiteral_append java more (c :: after) rest value goesOn read

theorem nextValue_slash (fuel : Nat) : nextValue java fuel [asciiUnit '/'] = none := by
  cases fuel with
  | zero => rfl
  | succ less =>
      change readLiteral java [asciiUnit '/'] = none
      exact readLiteral_slash []

theorem readMembers_slash (fuel : Nat) (members : List (JavaText × ReadValue))
    {value : ReadValue} {rest : JavaText} :
    readMembers java fuel members [asciiUnit '/'] ≠ some (value, rest) := by
  intro read
  cases fuel with
  | zero => cases read
  | succ less =>
      rw [readMembers, nextValue_slash] at read
      cases read

theorem Kept.readObject {fuel : Nat} (kept : Kept java more fuel) (larger : Nat)
    (text rest : JavaText) (value : ReadValue) (enough : fuel + 1 ≤ larger)
    (read : readObject java (fuel + 1) text = some (value, rest)) :
    JSONTokener.readObject java larger (text ++ more) = some (value, rest ++ more) := by
  obtain ⟨least, rfl⟩ : ∃ least, larger = least + 1 := ⟨larger - 1, by omega⟩
  have still : fuel ≤ least := by omega
  rw [JSONTokener.readObject] at read
  obtain ⟨⟨next, after⟩, clean, read⟩ := Option.bind_eq_some_iff.mp read
  dsimp only at read
  obtain ⟨c, rfl, _⟩ := Option.bind_eq_some_iff.mp read
  simp only [Option.bind_eq_bind, Option.bind_some] at read
  -- no name starts with a slash
  have firm : c ≠ asciiUnit '/' ∨ after ≠ [] := by
    by_contra slash
    rw [not_or, not_not, not_not] at slash
    obtain ⟨rfl, rfl⟩ := slash
    rw [if_neg (by decide)] at read
    exact readMembers_slash fuel [] read
  rw [JSONTokener.readObject, nextClean_append more clean firm]
  simp only [Option.bind_eq_bind, Option.bind_some]
  by_cases brace : c = asciiUnit '\x7d'
  · rw [if_pos brace] at read ⊢
    cases read
    rfl
  · rw [if_neg brace] at read ⊢
    exact kept.members least [] (c :: after) value rest still read

/-- The arrow after `=`, and the byte order mark, are dropped as before. -/
theorem dropUnit_append (unit : UInt16) (text : JavaText) (nonempty : text ≠ []) :
    (if (text ++ more).head? = some unit then (text ++ more).tail else text ++ more) =
      (if text.head? = some unit then text.tail else text) ++ more := by
  rw [List.head?_append_of_ne_nil text nonempty, List.tail_append_of_ne_nil nonempty]
  split <;> rfl

theorem nextValue_nil (fuel : Nat) : nextValue java fuel [] = none := by
  cases fuel <;> rfl

theorem Kept.readMembers {fuel : Nat} (kept : Kept java more fuel) (larger : Nat)
    (members : List (JavaText × ReadValue)) (text rest : JavaText) (value : ReadValue)
    (enough : fuel + 1 ≤ larger)
    (read : readMembers java (fuel + 1) members text = some (value, rest)) :
    JSONTokener.readMembers java larger members (text ++ more) = some (value, rest ++ more) := by
  obtain ⟨least, rfl⟩ : ∃ least, larger = least + 1 := ⟨larger - 1, by omega⟩
  have still : fuel ≤ least := by omega
  rw [JSONTokener.readMembers] at read
  obtain ⟨⟨name, afterName⟩, named, read⟩ := Option.bind_eq_some_iff.mp read
  dsimp only at read
  split at read
  case h_2 => cases read
  case h_1 name =>
    obtain ⟨⟨separator, afterSeparator⟩, separated, read⟩ := Option.bind_eq_some_iff.mp read
    dsimp only at read
    split at read
    case isFalse => cases read
    case isTrue colon =>
      obtain ⟨⟨member, afterValue⟩, valued, read⟩ := Option.bind_eq_some_iff.mp read
      obtain ⟨stored, put, read⟩ := Option.bind_eq_some_iff.mp read
      obtain ⟨⟨next, left⟩, ended, read⟩ := Option.bind_eq_some_iff.mp read
      dsimp only at read
      have separatorKept : nextClean (afterName ++ more) =
            some (separator, afterSeparator ++ more) ∧ afterName ≠ [] := by
        rcases colon with rfl | rfl
        · exact nextClean_inside more separated (by decide)
        · exact nextClean_inside more separated (by decide)
      have valueFollows : afterSeparator ≠ [] := by
        rintro rfl
        rw [List.head?_nil, List.tail_nil, ite_self, nextValue_nil] at valued
        cases valued
      have nextKept : nextClean (afterValue ++ more) = some (next, left ++ more) ∧
          afterValue ≠ [] := by
        split at read
        case isTrue brace =>
          subst brace
          exact nextClean_inside more ended (by decide)
        case isFalse =>
          split at read
          case isFalse => cases read
          case isTrue comma =>
            rcases comma with rfl | rfl
            · exact nextClean_inside more ended (by decide)
            · exact nextClean_inside more ended (by decide)
      have nameKept := kept.value least text (.string name) afterName still named
        (Or.inl separatorKept.2)
      have valueKept := kept.value least _ member afterValue still valued (Or.inl nextKept.2)
      rw [JSONTokener.readMembers, nameKept]
      simp only [Option.bind_eq_bind, Option.bind_some, separatorKept.1, if_pos colon,
        dropUnit_append _ afterSeparator valueFollows, valueKept, put, nextKept.1]
      split at read
      case isTrue brace =>
        cases read
        rw [if_pos brace]
      case isFalse notBrace =>
        rw [if_neg notBrace]
        split at read
        case isFalse => cases read
        case isTrue comma =>
          rw [if_pos comma]
          exact kept.members least stored left value rest still read

theorem Kept.readArray {fuel : Nat} (kept : Kept java more fuel) (larger : Nat) (trailing : Bool)
    (values : List ReadValue) (text rest : JavaText) (value : ReadValue)
    (enough : fuel + 1 ≤ larger)
    (read : readArray java (fuel + 1) trailing values text = some (value, rest)) :
    JSONTokener.readArray java larger trailing values (text ++ more) =
      some (value, rest ++ more) := by
  obtain ⟨least, rfl⟩ : ∃ least, larger = least + 1 := ⟨larger - 1, by omega⟩
  have still : fuel ≤ least := by omega
  rw [JSONTokener.readArray] at read
  obtain ⟨⟨next, after⟩, clean, read⟩ := Option.bind_eq_some_iff.mp read
  dsimp only at read
  obtain ⟨c, rfl, _⟩ := Option.bind_eq_some_iff.mp read
  simp only [Option.bind_eq_bind, Option.bind_some] at read
  -- no value starts with a slash
  have firm : c ≠ asciiUnit '/' ∨ after ≠ [] := by
    by_contra slash
    rw [not_or, not_not, not_not] at slash
    obtain ⟨rfl, rfl⟩ := slash
    rw [if_neg (by decide), if_neg (by decide), nextValue_slash] at read
    cases read
  rw [JSONTokener.readArray, nextClean_append more clean firm]
  simp only [Option.bind_eq_bind, Option.bind_some]
  by_cases bracket : c = asciiUnit ']'
  · rw [if_pos bracket] at read ⊢
    cases read
    rfl
  · rw [if_neg bracket] at read ⊢
    by_cases comma : c = asciiUnit ',' ∨ c = asciiUnit ';'
    · rw [if_pos comma] at read ⊢
      exact kept.array least true _ after value rest still read
    · rw [if_neg comma] at read ⊢
      obtain ⟨⟨element, afterValue⟩, valued, read⟩ := Option.bind_eq_some_iff.mp read
      obtain ⟨⟨separator, left⟩, ended, read⟩ := Option.bind_eq_some_iff.mp read
      dsimp only at read
      have separatorKept : nextClean (afterValue ++ more) = some (separator, left ++ more) ∧
          afterValue ≠ [] := by
        split at read
        case isTrue closes =>
          subst closes
          exact nextClean_inside more ended (by decide)
        case isFalse =>
          split at read
          case isFalse => cases read
          case isTrue goesOn =>
            rcases goesOn with rfl | rfl
            · exact nextClean_inside more ended (by decide)
            · exact nextClean_inside more ended (by decide)
      have valueKept := kept.value least (c :: after) element afterValue still valued
        (Or.inl separatorKept.2)
      rw [← List.cons_append, valueKept]
      simp only [Option.bind_some, separatorKept.1]
      split at read
      case isTrue closes =>
        cases read
        rw [if_pos closes]
      case isFalse opens =>
        rw [if_neg opens]
        split at read
        case isFalse => cases read
        case isTrue goesOn =>
          rw [if_pos goesOn]
          exact kept.array least true _ left value rest still read

/-- The functions call each other with one unit of fuel less. -/
theorem kept_all (fuel : Nat) : Kept java more fuel := by
  induction fuel with
  | zero =>
      refine ⟨?_, ?_, ?_, ?_⟩
      · intro larger text value rest _ read
        cases read
      · intro larger text value rest _ read
        cases read
      · intro larger members text value rest _ read
        cases read
      · intro larger trailing values text value rest _ read
        cases read
  | succ fuel ih =>
      exact ⟨fun larger text value rest => ih.nextValue larger text rest value,
        fun larger text value rest => ih.readObject larger text rest value,
        fun larger members text value rest => ih.readMembers larger members text rest value,
        fun larger trailing values text value rest =>
          ih.readArray larger trailing values text rest value⟩

/-- `JSONObject(String)` ignores what stands behind the object. -/
theorem jsonObject_append (java : JavaLang) (text more : JavaText)
    (members : List (JavaText × ReadValue))
    (read : ReadValue.jsonObject java text = .ok members) :
    ReadValue.jsonObject java (text ++ more) = .ok members := by
  unfold ReadValue.jsonObject at read
  dsimp only at read
  split at read
  case h_2 => cases read
  case h_1 found rest value =>
    cases read
    have nonempty : text ≠ [] := by
      rintro rfl
      cases value
    unfold ReadValue.jsonObject
    dsimp only
    rw [dropUnit_append _ text nonempty, (kept_all _).value _ _ _ rest
      (by rw [List.length_append]; omega) value (Or.inr ⟨_, rfl⟩)]

/-! ## Texts that hold no object -/

theorem readArray_noObject (java : JavaLang) (fuel : Nat) (trailing : Bool)
    (values : List ReadValue) (text rest : JavaText) (members : List (JavaText × ReadValue)) :
    readArray java fuel trailing values text ≠ some (.object members, rest) := by
  induction fuel generalizing trailing values text with
  | zero => rintro ⟨⟩
  | succ fuel ih =>
      intro read
      rw [readArray] at read
      obtain ⟨⟨next, after⟩, _, read⟩ := Option.bind_eq_some_iff.mp read
      dsimp only at read
      obtain ⟨c, rfl, _⟩ := Option.bind_eq_some_iff.mp read
      simp only [Option.bind_eq_bind, Option.bind_some] at read
      split at read
      · cases read
      · split at read
        · exact ih _ _ _ read
        · obtain ⟨_, _, read⟩ := Option.bind_eq_some_iff.mp read
          obtain ⟨⟨separator, left⟩, _, read⟩ := Option.bind_eq_some_iff.mp read
          dsimp only at read
          split at read
          · cases read
          · split at read
            · exact ih _ _ _ read
            · cases read

/-- Only a text that starts with a brace, blanks and comments aside, holds an
object. -/
theorem jsonObject_noBrace (java : JavaLang) (first : UInt16) (rest : JavaText)
    (solid : isSolid first = true) (notMark : first ≠ 0xFEFF)
    (notBrace : first ≠ asciiUnit '\x7b') :
    ReadValue.jsonObject java (first :: rest) = .error .jsonException := by
  unfold ReadValue.jsonObject
  dsimp only
  rw [if_neg (by simpa using notMark)]
  split
  case h_2 => rfl
  case h_1 members after read =>
    rw [nextValue_cons java _ first rest solid, if_neg notBrace] at read
    split at read
    · exact absurd read (readArray_noObject java _ _ _ _ _ _)
    · split at read
      · obtain ⟨_, _, same⟩ := Option.map_eq_some_iff.mp read
        cases same
      · exact absurd read (readLiteral_noObject _ _ _)

end RaptorMark.JSONTokener
