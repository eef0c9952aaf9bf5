import Mathlib.Data.List.DropRight
import RaptorMark.Data.TestOptions

/-!
# fio's filename option

`strip_blank_front` and `strip_blank_end` of `parse.c`, `get_next_str` and
`str_filename_cb` of `options.c`.  A C string is the list of its characters
before the terminating NUL; the characters that these functions look for are
single bytes in every encoding the app uses, so characters stand for bytes.
-/

set_option autoImplicit false

namespace RaptorMark.Fio

open Lib BenchmarkTest

def isspace (c : Char) : Bool := c == ' ' || ('\t' ≤ c && c ≤ '\r')

def iscntrl (c : Char) : Bool := c < ' ' || c == '\x7f'

def stripBlankFront (p : List Char) : List Char := p.dropWhile isspace

/-- A semicolon or a hash sign starts a comment.  The blanks before the end are
cut, but never the first character. -/
def stripBlankEnd (p : List Char) : List Char :=
  match (p.takeWhile (· ≠ ';')).takeWhile (· ≠ '#') with
  | [] => []
  | start :: rest => start :: rest.rdropWhile fun c => isspace c || iscntrl c

/-- The loop of `get_next_str`, from the first character that is not yet part
of the name.  `name` is the text between `start` and that character; the result
is the name and the new `*ptr`. -/
def scanName : List Char → List Char → List Char × Option (List Char)
  | name, [] => (name, none)
  | name, c :: rest =>
      if c = ':' then
        match name.getLast? with
        | none => scanName [] rest
        | some '\\' => scanName (name.dropLast ++ [':']) rest
        | some _ => (name, some rest)
      else
        scanName (name ++ [c]) rest

def getNextStr : Option (List Char) → Option (List Char × Option (List Char))
  | none => none
  | some [] => none
  | some str => some (scanName [] str)

theorem scanName_no_colon (name rest : List Char) (plain : ':' ∉ rest) :
    scanName name rest = (name ++ rest, none) := by
  induction rest generalizing name with
  | nil => simp [scanName]
  | cons c rest ih =>
      rw [List.mem_cons, not_or] at plain
      rw [scanName, if_neg (Ne.symm plain.1), ih (name ++ [c]) plain.2]
      simp

/-- No name is longer than what was scanned for it, and a colon, whatever is
done with it, makes it shorter. -/
theorem scanName_length (name rest : List Char) :
    (scanName name rest).1.length ≤ name.length + rest.length ∧
      (':' ∈ rest → (scanName name rest).1.length < name.length + rest.length) ∧
      ∀ later ∈ (scanName name rest).2, later.length < rest.length := by
  induction rest generalizing name with
  | nil => simp [scanName]
  | cons c rest ih =>
      unfold scanName
      by_cases colon : c = ':'
      · rw [if_pos colon]
        split
        · obtain ⟨bound, _, shorter⟩ := ih []
          simp only [List.length_nil, List.length_cons] at bound ⊢
          exact ⟨by omega, fun _ => by omega,
            fun later found => Nat.lt_succ_of_lt (shorter later found)⟩
        · rename_i escaped
          have nonempty : name ≠ [] := by
            rintro rfl
            cases escaped
          have same : (name.dropLast ++ [':']).length = name.length := by
            have positive := List.length_pos_iff.mpr nonempty
            simp only [List.length_append, List.length_dropLast, List.length_singleton]
            omega
          obtain ⟨bound, _, shorter⟩ := ih (name.dropLast ++ [':'])
          rw [same] at bound
          simp only [List.length_cons]
          exact ⟨by omega, fun _ => by omega,
            fun later found => Nat.lt_succ_of_lt (shorter later found)⟩
        · simp
      · rw [if_neg colon]
        obtain ⟨bound, strict, shorter⟩ := ih (name ++ [c])
        simp only [List.length_append, List.length_cons, List.length_nil] at bound strict ⊢
        refine ⟨by omega, fun member => ?_,
          fun later found => Nat.lt_succ_of_lt (shorter later found)⟩
        have inside : ':' ∈ rest := by
          rcases List.mem_cons.mp member with same | inside
          · exact absurd same.symm colon
          · exact inside
        have := strict inside
        omega

/-- `get_next_str` consumes what it was given. -/
theorem getNextStr_some (str : Option (List Char)) (fname : List Char)
    (later : Option (List Char)) (next : getNextStr str = some (fname, later)) :
    ∃ text, str = some text ∧ text ≠ [] ∧ scanName [] text = (fname, later) := by
  unfold getNextStr at next
  split at next
  · cases next
  · cases next
  · rename_i text nonempty
    exact ⟨text, rfl, nonempty, Option.some.inj next⟩

/-- The `while` loop of `str_filename_cb`: the names given to `add_file`. -/
def fileNames (str : Option (List Char)) : List (List Char) :=
  match _ : getNextStr str with
  | none => []
  | some (fname, later) => if fname.isEmpty then [] else fname :: fileNames later
termination_by str.elim 0 fun text => text.length + 1
decreasing_by
  rename_i next _
  obtain ⟨text, rfl, _, scan⟩ := getNextStr_some str fname later next
  cases later with
  | none => simp
  | some rest =>
      have shorter := (scanName_length [] text).2.2 rest (by rw [scan]; rfl)
      simpa using shorter

def strFilenameCb (input : String) : List String :=
  (fileNames (some (stripBlankEnd (stripBlankFront input.toList)))).map String.ofList

/-- The files a command makes fio use. -/
def commandFiles (options : List JobOption) : List String :=
  (optionValues Constants.filePathOptName options).flatMap strFilenameCb

/-! ## When a name is left alone -/

theorem stripBlankEnd_keeps (p : List Char) :
    stripBlankEnd p <+: (p.takeWhile (· ≠ ';')).takeWhile (· ≠ '#') := by
  unfold stripBlankEnd
  split
  · exact List.nil_prefix
  · rename_i start rest cut
    rw [cut]
    exact List.cons_prefix_cons.mpr ⟨rfl, List.rdropWhile_prefix _ _⟩

theorem stripBlankEnd_uncommented (p : List Char) (c : Char) (member : c ∈ stripBlankEnd p) :
    c ≠ ';' ∧ c ≠ '#' := by
  have kept := (stripBlankEnd_keeps p).subset member
  have noHash := List.mem_takeWhile_imp kept
  have noSemicolon := List.mem_takeWhile_imp ((List.takeWhile_prefix _).subset kept)
  exact ⟨by simpa using noSemicolon, by simpa using noHash⟩

@[simp] theorem fileNames_none : fileNames none = [] := by
  rw [fileNames]
  rfl

theorem fileNames_length (str : Option (List Char)) :
    ∀ fname ∈ fileNames str, ∀ text ∈ str,
      fname.length ≤ text.length ∧ (':' ∈ text → fname.length < text.length) := by
  fun_induction fileNames str with
  | case1 str next => simp
  | case2 str fname later next empty => simp
  | case3 str fname later next nonempty ih =>
      obtain ⟨text, rfl, _, scan⟩ := getNextStr_some str fname later next
      obtain ⟨bound, strict, shorter⟩ := scanName_length [] text
      rw [scan] at bound strict shorter
      intro other member text same
      cases same
      rcases List.mem_cons.mp member with rfl | inside
      · exact ⟨by simpa using bound, fun colon => by simpa using strict colon⟩
      · cases later with
        | none => simp at inside
        | some rest =>
            have below := (ih other inside rest rfl).1
            have consumed := shorter rest rfl
            exact ⟨by omega, fun _ => by omega⟩

theorem fileNames_cons (text fname : List Char) (later : Option (List Char))
    (nonempty : text ≠ []) (scan : scanName [] text = (fname, later)) (named : fname ≠ []) :
    fileNames (some text) = fname :: fileNames later := by
  have next : getNextStr (some text) = some (fname, later) := by
    cases text with
    | nil => exact absurd rfl nonempty
    | cons c rest => exact congrArg some scan
  rw [fileNames]
  split
  · rename_i absent
    rw [next] at absent
    cases absent
  · rename_i found
    rw [next] at found
    cases found
    rw [if_neg (by simpa using named)]

theorem fileNames_plain (text : List Char) (nonempty : text ≠ []) (plain : ':' ∉ text) :
    fileNames (some text) = [text] := by
  rw [fileNames_cons text text none nonempty (scanName_no_colon [] text plain) nonempty,
    fileNames_none]

/-- The characters `str_filename_cb` gives a meaning to. -/
def isSpecial (c : Char) : Bool := c == ':' || c == ';' || c == '#'

theorem stripBlankFront_solid (text : List Char) (start : ∀ c ∈ text.head?, isspace c = false) :
    stripBlankFront text = text := by
  cases text with
  | nil => rfl
  | cons c rest =>
      have solid := start c rfl
      simp [stripBlankFront, solid]

theorem stripBlankEnd_solid (front : List Char) (last : Char)
    (solid : (isspace last || iscntrl last) = false)
    (plain : ∀ c ∈ front ++ [last], isSpecial c = false) :
    stripBlankEnd (front ++ [last]) = front ++ [last] := by
  have noSemicolon : ';' ∉ front ++ [last] := fun member => by
    have ordinary := plain ';' member
    cases ordinary
  have noHash : '#' ∉ front ++ [last] := fun member => by
    have ordinary := plain '#' member
    cases ordinary
  unfold stripBlankEnd
  rw [UriReference.takeWhile_eq_self _ _ noSemicolon, UriReference.takeWhile_eq_self _ _ noHash]
  cases front with
  | nil => rfl
  | cons c rest =>
      rw [List.cons_append]
      dsimp only
      rw [List.rdropWhile_concat_neg _ _ _ (by simpa using solid)]

/-- A text is left alone: nothing is stripped from it, cut off or split. -/
theorem strFilenameCb_plain (input : String) (front : List Char) (last : Char)
    (text : input.toList = front ++ [last]) (solid : (isspace last || iscntrl last) = false)
    (start : ∀ c ∈ input.toList.head?, isspace c = false)
    (plain : ∀ c ∈ input.toList, isSpecial c = false) : strFilenameCb input = [input] := by
  have noColon : ':' ∉ input.toList := fun member => by
    have ordinary := plain ':' member
    cases ordinary
  have kept : stripBlankEnd (stripBlankFront input.toList) = input.toList := by
    rw [stripBlankFront_solid _ start]
    rw [text] at plain ⊢
    exact stripBlankEnd_solid front last solid plain
  unfold strFilenameCb
  rw [kept, fileNames_plain input.toList (by simp [text]) noColon]
  simp

/-- A name that comes back whole had none of the special characters: each of
them makes every resulting name shorter than the text. -/
theorem plain_of_strFilenameCb (input : String) (alone : strFilenameCb input = [input]) :
    (∀ c ∈ input.toList.head?, isspace c = false) ∧
      ∀ c ∈ input.toList, isSpecial c = false := by
  have whole : fileNames (some (stripBlankEnd (stripBlankFront input.toList))) =
      [input.toList] := by
    have mapped := congrArg (List.map String.toList) alone
    simpa [strFilenameCb] using mapped
  have bound := fileNames_length _ input.toList (by rw [whole]; exact List.mem_singleton_self _)
    (stripBlankEnd (stripBlankFront input.toList)) rfl
  have front : stripBlankFront input.toList <:+ input.toList := List.dropWhile_suffix _
  have cut : stripBlankEnd (stripBlankFront input.toList) <+: stripBlankFront input.toList :=
    ((stripBlankEnd_keeps _).trans (List.takeWhile_prefix _)).trans (List.takeWhile_prefix _)
  have sameFront : stripBlankFront input.toList = input.toList :=
    front.eq_of_length (Nat.le_antisymm front.length_le (bound.1.trans cut.length_le))
  rw [sameFront] at cut bound
  have sameEnd : stripBlankEnd input.toList = input.toList :=
    cut.eq_of_length (Nat.le_antisymm cut.length_le bound.1)
  rw [sameEnd] at bound
  constructor
  · intro c first
    cases text : input.toList with
    | nil =>
        rw [text] at first
        cases first
    | cons other rest =>
        rw [text] at first sameFront
        cases first
        have solid := List.dropWhile_eq_self_iff.mp sameFront (Nat.succ_pos _)
        simpa using solid
  · intro c member
    obtain ⟨noSemicolon, noHash⟩ := stripBlankEnd_uncommented input.toList c
      (by rw [sameEnd]; exact member)
    have noColon : c ≠ ':' := by
      rintro rfl
      exact absurd (bound.2 member) (Nat.lt_irrefl _)
    simp [isSpecial, noColon, noSemicolon, noHash]

/-! ## The file of a test -/

/-- Nothing in the directory's path has a meaning for fio. -/
def PlainDirectory (dir : String) : Prop :=
  (∀ c ∈ dir.toList, isSpecial c = false) ∧ ∀ c ∈ dir.toList.head?, isspace c = false

instance (dir : String) : Decidable (PlainDirectory dir) :=
  decidable_of_iff
    (dir.toList.all (fun c => !isSpecial c) = true ∧
      dir.toList.head?.all (fun c => !isspace c) = true)
    (by simp only [PlainDirectory, List.all_eq_true, Bool.not_eq_true', Option.all_eq_true,
      Option.mem_def])

theorem isAlphanum_low (c : Char) (low : c.toNat < 48) : c.isAlphanum = false := by
  have small : ∀ code < 48, (Char.ofNat code).isAlphanum = false := by
    decide
  have same := small c.toNat low
  rwa [Char.ofNat_toNat] at same

theorem isAlphanum_solid (c : Char) (alphanumeric : c.isAlphanum = true) :
    isSpecial c = false ∧ (isspace c || iscntrl c) = false := by
  constructor
  · rw [Bool.eq_false_iff]
    intro special
    simp only [isSpecial, Bool.or_eq_true, beq_iff_eq] at special
    rcases special with (rfl | rfl) | rfl <;> cases alphanumeric
  · have high : 48 ≤ c.toNat := by
      by_contra low
      rw [isAlphanum_low c (by omega)] at alphanumeric
      cases alphanumeric
    rw [Bool.eq_false_iff]
    intro blank
    simp only [isspace, iscntrl, Bool.or_eq_true, beq_iff_eq, Bool.and_eq_true, decide_eq_true_eq,
      Char.le_def, Char.lt_def, UInt32.le_iff_toNat_le, UInt32.lt_iff_toNat_lt] at blank
    have same : c.toNat = c.val.toNat := rfl
    have carriageReturn : '\r'.val.toNat = 13 := rfl
    have blankChar : ' '.val.toNat = 32 := rfl
    rcases blank with (rfl | blank) | blank | rfl
    · cases alphanumeric
    · omega
    · omega
    · cases alphanumeric

theorem name_plain (testCase : TestCase) : ∀ c ∈ testCase.name.toList, isSpecial c = false := by
  have every : testCase.name.toList.all (fun c => !isSpecial c) = true := by
    cases testCase <;> decide
  simpa only [List.all_eq_true, Bool.not_eq_true'] using every

theorem suffix_ends (suffix : RandomSuffix) :
    ∃ front last, suffix.chars = front ++ [last] ∧ last.isAlphanum = true := by
  rcases List.eq_nil_or_concat suffix.chars with empty | ⟨front, last, ends⟩
  · have positive := suffix.length
    rw [empty] at positive
    cases positive
  · rw [List.concat_eq_append] at ends
    exact ⟨front, last, ends, suffix.alphanumeric last (by simp [ends])⟩

/-- fio reads the path of a test's file as that one file exactly if nothing in
the directory has a meaning for it. -/
theorem strFilenameCb_filePath_iff (dir : String) (testCase : TestCase) (suffix : RandomSuffix) :
    strFilenameCb (dir ++ "/" ++ testCase.name ++ String.ofList suffix.chars) =
        [dir ++ "/" ++ testCase.name ++ String.ofList suffix.chars] ↔
      PlainDirectory dir := by
  have text : (dir ++ "/" ++ testCase.name ++ String.ofList suffix.chars).toList =
      dir.toList ++ '/' :: (testCase.name.toList ++ suffix.chars) := by
    simp
  constructor
  · intro alone
    obtain ⟨start, plain⟩ := plain_of_strFilenameCb _ alone
    rw [text] at start plain
    refine ⟨fun c member => plain c (List.mem_append_left _ member), fun c first => start c ?_⟩
    exact List.mem_head?_append_of_mem_head? first
  · rintro ⟨plain, start⟩
    obtain ⟨front, last, ends, alphanumeric⟩ := suffix_ends suffix
    apply strFilenameCb_plain _ (dir.toList ++ '/' :: (testCase.name.toList ++ front)) last
    · rw [text, ends]
      simp
    · exact (isAlphanum_solid last alphanumeric).2
    · rw [text]
      cases dirText : dir.toList with
      | nil =>
          intro c same
          cases same
          rfl
      | cons first rest =>
          rw [dirText] at start
          exact start
    · rw [text]
      intro c member
      rcases List.mem_append.mp member with inDir | inRest
      · exact plain c inDir
      · rcases List.mem_cons.mp inRest with rfl | inName
        · rfl
        · rcases List.mem_append.mp inName with inName | inSuffix
          · exact name_plain testCase c inName
          · exact (isAlphanum_solid c (suffix.alphanumeric c inSuffix)).1

/-- For every directory the target path dialog accepts: the command of a test
makes fio use exactly the test's own file, the one `runTest` deletes, exactly if
the directory's path holds no colon, semicolon or hash sign and does not start
with a blank. -/
theorem command_uses_filePath_iff (uri : JavaNetUri) (fileSystem : FileSystem)
    (prefs : SettingSharedPrefs) (dir : String) (accepted : fileSystem.isDirectory dir = true)
    (testCase : TestCase) (suffix : RandomSuffix) :
    let stored := SettingOptions.setDialogResult fileSystem prefs dir .targetPath
    let filePath := getRandomFilePath stored testCase suffix
    filePath = dir ++ "/" ++ testCase.name ++ String.ofList suffix.chars ∧
      ((∃ options, testOptionsBuilder uri stored testCase filePath = .ok options ∧
          commandFiles options = [filePath]) ↔
        PlainDirectory dir) := by
  have current := SettingOptions.getTestDirPath_setTargetPath fileSystem prefs dir accepted
  intro stored filePath
  have path : filePath = dir ++ "/" ++ testCase.name ++ String.ofList suffix.chars := by
    simp only [filePath, getRandomFilePath, stored, SettingOptions.setDialogResult, current]
  refine ⟨path, ?_⟩
  obtain ⟨options, built, named⟩ := testOptionsBuilder_filename uri stored testCase filePath
  have files : commandFiles options = strFilenameCb filePath := by
    rw [commandFiles, named, List.flatMap_singleton]
  rw [← strFilenameCb_filePath_iff dir testCase suffix, ← path]
  constructor
  · rintro ⟨others, otherBuilt, alone⟩
    rw [built] at otherBuilt
    cases otherBuilt
    rw [← files]
    exact alone
  · intro alone
    exact ⟨options, built, files.trans alone⟩

def acceptedPrefs (dir : String) (nonempty : dir ≠ "") : SettingSharedPrefs :=
  SettingOptions.setDialogResult (oneDirectory dir nonempty) { appFilesDir := sampleFilesDir } dir
    .targetPath

theorem download_directory_is_used :
    let prefs := acceptedPrefs "/storage/emulated/0/Download" (by decide)
    let filePath := getRandomFilePath prefs .q8t8SeqRd sampleSuffix
    PlainDirectory "/storage/emulated/0/Download" ∧
      filePath = "/storage/emulated/0/Download/Q8T8_SEQ_RDabcdefgh" ∧
      ∃ options, testOptionsBuilder plainUri prefs .q8t8SeqRd filePath = .ok options ∧
        commandFiles options = [filePath] := by
  have plain : PlainDirectory "/storage/emulated/0/Download" := by
    decide
  obtain ⟨path, uses⟩ := command_uses_filePath_iff plainUri
    (oneDirectory "/storage/emulated/0/Download" (by decide)) { appFilesDir := sampleFilesDir }
    "/storage/emulated/0/Download" (by decide) .q8t8SeqRd sampleSuffix
  exact ⟨plain, path, uses.mpr plain⟩

/-- With a colon in the directory's name fio uses two other files, one of them
outside the directory. -/
theorem colon_in_directory_splits_path :
    let prefs := acceptedPrefs "/sdcard/a:b" (by decide)
    let filePath := getRandomFilePath prefs .q8t8SeqRd sampleSuffix
    (oneDirectory "/sdcard/a:b" (by decide)).isDirectory "/sdcard/a:b" = true ∧
      filePath = "/sdcard/a:b/Q8T8_SEQ_RDabcdefgh" ∧
      ∃ options, testOptionsBuilder plainUri prefs .q8t8SeqRd filePath = .ok options ∧
        commandFiles options = ["/sdcard/a", "b/Q8T8_SEQ_RDabcdefgh"] ∧
        commandFiles options ≠ [filePath] := by
  intro prefs filePath
  have path : filePath = "/sdcard/a:b/Q8T8_SEQ_RDabcdefgh" := by
    decide +kernel
  obtain ⟨options, built, named⟩ :=
    testOptionsBuilder_filename plainUri prefs .q8t8SeqRd filePath
  have stripped : stripBlankEnd (stripBlankFront "/sdcard/a:b/Q8T8_SEQ_RDabcdefgh".toList) =
      "/sdcard/a:b/Q8T8_SEQ_RDabcdefgh".toList := by
    decide +kernel
  have files : commandFiles options = ["/sdcard/a", "b/Q8T8_SEQ_RDabcdefgh"] := by
    rw [commandFiles, named, List.flatMap_singleton, path, strFilenameCb, stripped,
      fileNames_cons _ "/sdcard/a".toList (some "b/Q8T8_SEQ_RDabcdefgh".toList) (by decide)
        (by decide +kernel) (by decide),
      fileNames_plain _ (by decide) (by decide)]
    decide
  exact ⟨by decide, path, options, built, files, by rw [files]; simp⟩

end RaptorMark.Fio
