import Mathlib.Data.List.TakeWhile

/-!
# URI references

The grammar of URI references of RFC 2396, as recognisers over characters that
carry the names of its productions.  The delimiters `#`, `?` and the first `:`
cannot occur inside the parts before them, so every split is made at the first
delimiter.  Two alternatives of the grammar add no text of their own and are
folded: a non-empty `server` is a `reg_name`, and `param`s are made of the
characters of their `segment`.
-/

set_option autoImplicit false

namespace RaptorMark.Lib.UriReference

def isHex (c : Char) : Bool :=
  c.isDigit || ('a' ≤ c && c ≤ 'f') || ('A' ≤ c && c ≤ 'F')

def isMark (c : Char) : Bool := "-_.!~*'()".toList.contains c

def isUnreserved (c : Char) : Bool := c.isAlphanum || isMark c

def isReserved (c : Char) : Bool := ";/?:@&=+$,".toList.contains c

/-- Characters of one kind, with `escaped` octets between them. -/
def charsOrEscaped (allowed : Char → Bool) : List Char → Bool
  | [] => true
  | '%' :: high :: low :: rest => isHex high && isHex low && charsOrEscaped allowed rest
  | c :: rest => allowed c && charsOrEscaped allowed rest

/-- `*uric`, the production of `query` and of `fragment`. -/
def uric (text : List Char) : Bool :=
  charsOrEscaped (fun c => isReserved c || isUnreserved c) text

/-- The characters of a `segment`: `pchar` and the `;` before a `param`. -/
def isSegmentChar (c : Char) : Bool := isUnreserved c || ";:@&=+$,".toList.contains c

def absPath : List Char → Bool
  | '/' :: segments => charsOrEscaped (fun c => c == '/' || isSegmentChar c) segments
  | _ => false

def optionalAbsPath (text : List Char) : Bool := text.isEmpty || absPath text

def authority (text : List Char) : Bool := charsOrEscaped isSegmentChar text

def netPath : List Char → Bool
  | '/' :: '/' :: rest =>
      authority (rest.takeWhile (· ≠ '/')) && optionalAbsPath (rest.dropWhile (· ≠ '/'))
  | _ => false

/-- `rel_segment` excludes the colon, which would end a scheme. -/
def relPath (text : List Char) : Bool :=
  let relSegment := text.takeWhile (· ≠ '/')
  !relSegment.isEmpty &&
    charsOrEscaped (fun c => isUnreserved c || ";@&=+$,".toList.contains c) relSegment &&
    optionalAbsPath (text.dropWhile (· ≠ '/'))

/-- `[ "?" query ]`. -/
def optionalQuery : List Char → Bool
  | [] => true
  | '?' :: query => uric query
  | _ => false

def hierPart (text : List Char) : Bool :=
  let path := text.takeWhile (· ≠ '?')
  (netPath path || absPath path) && optionalQuery (text.dropWhile (· ≠ '?'))

def relativeUri (text : List Char) : Bool :=
  let path := text.takeWhile (· ≠ '?')
  (netPath path || absPath path || relPath path) && optionalQuery (text.dropWhile (· ≠ '?'))

def opaquePart : List Char → Bool
  | [] => false
  | '/' :: _ => false
  | text => uric text

def scheme : List Char → Bool
  | [] => false
  | first :: rest => first.isAlpha && rest.all fun c => c.isAlphanum || "+-.".toList.contains c

/-- `scheme ":" part`. -/
def absoluteUri (part : List Char → Bool) (text : List Char) : Bool :=
  scheme (text.takeWhile (· ≠ ':')) &&
    match text.dropWhile (· ≠ ':') with
    | ':' :: rest => part rest
    | _ => false

/-- The text before an optional fragment. -/
def withoutFragment (text : List Char) : List Char := text.takeWhile (· ≠ '#')

def optionalFragment : List Char → Bool
  | [] => true
  | '#' :: fragment => uric fragment
  | _ => false

/-- `URI-reference`. -/
def uriReference (text : List Char) : Bool :=
  let base := withoutFragment text
  (base.isEmpty || absoluteUri hierPart base || absoluteUri opaquePart base || relativeUri base) &&
    optionalFragment (text.dropWhile (· ≠ '#'))

/-- An absolute URI whose scheme is followed by an opaque part. -/
def opaqueUri (text : List Char) : Bool :=
  uriReference text && absoluteUri opaquePart (withoutFragment text)

/-- A URI reference that has a path. -/
def hierarchical (text : List Char) : Bool := uriReference text && !opaqueUri text

/-! ## Plain absolute paths -/

theorem charsOrEscaped_of_all (allowed : Char → Bool) (text : List Char)
    (plain : ∀ c ∈ text, allowed c = true ∧ c ≠ '%') : charsOrEscaped allowed text = true := by
  induction text with
  | nil => rfl
  | cons c rest ih =>
      have first := plain c (List.mem_cons_self ..)
      have others := ih fun other member => plain other (List.mem_cons_of_mem _ member)
      unfold charsOrEscaped
      split
      · rfl
      · rename_i same
        cases same
        exact absurd rfl first.2
      · rename_i same
        cases same
        rw [first.1, others]
        rfl

theorem takeWhile_eq_self (text : List Char) (c : Char) (absent : c ∉ text) :
    text.takeWhile (· ≠ c) = text := by
  rw [List.takeWhile_eq_self_iff]
  intro other member
  simpa using fun same : other = c => absent (same ▸ member)

theorem dropWhile_eq_nil (text : List Char) (c : Char) (absent : c ∉ text) :
    text.dropWhile (· ≠ c) = [] := by
  rw [List.dropWhile_eq_nil_iff]
  intro other member
  simpa using fun same : other = c => absent (same ▸ member)

/-- An absolute path of unreserved characters is a URI reference with a path. -/
theorem hierarchical_of_plain_path (segments : List Char)
    (plain : ∀ c ∈ segments, c = '/' ∨ isUnreserved c = true) :
    hierarchical ('/' :: segments) = true := by
  have absent : ∀ c : Char, c ≠ '/' → isUnreserved c = false → c ∉ '/' :: segments := by
    intro c other reserved member
    rcases List.mem_cons.mp member with same | inside
    · exact other same
    · rcases plain c inside with same | unreserved
      · exact other same
      · rw [reserved] at unreserved
        cases unreserved
  have noHash := absent '#' (by decide) (by decide)
  have noQuery := absent '?' (by decide) (by decide)
  have noEscape := absent '%' (by decide) (by decide)
  have path : absPath ('/' :: segments) = true := by
    apply charsOrEscaped_of_all
    intro c member
    refine ⟨?_, fun same => noEscape (List.mem_cons_of_mem _ (same ▸ member))⟩
    rcases plain c member with same | unreserved
    · simp [same]
    · simp [isSegmentChar, unreserved]
  have relative : relativeUri ('/' :: segments) = true := by
    simp only [relativeUri, takeWhile_eq_self _ _ noQuery, dropWhile_eq_nil _ _ noQuery, path]
    simp [optionalQuery]
  have reference : uriReference ('/' :: segments) = true := by
    simp only [uriReference, withoutFragment, takeWhile_eq_self _ _ noHash,
      dropWhile_eq_nil _ _ noHash, relative]
    simp [optionalFragment]
  have hasPath : opaqueUri ('/' :: segments) = false := by
    simp only [opaqueUri, withoutFragment, takeWhile_eq_self _ _ noHash, absoluteUri]
    simp [scheme]
  simp [hierarchical, reference, hasPath]

end RaptorMark.Lib.UriReference
