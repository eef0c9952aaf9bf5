import RaptorMark.Fio.Options

/-!
# What fio makes of a number option

The loop of `handle_option` as a function of the numbers in the pieces of a
text: it succeeds if one of them is a number, and what it stores depends on
their positions.
-/

set_option autoImplicit false

namespace RaptorMark.Fio

open Lib.CNumber

/-! ## The pieces -/

theorem strchr_some_length (b : UInt8) (text before after : List UInt8)
    (found : strchr b text = some (before, after)) : after.length < text.length := by
  induction text generalizing before with
  | nil => cases found
  | cons head rest ih =>
      unfold strchr at found
      split at found
      · cases found
        exact Nat.lt_succ_self _
      · obtain ⟨⟨front, back⟩, inner, same⟩ := Option.map_eq_some_iff.mp found
        cases same
        exact Nat.lt_succ_of_lt (ih front inner)

theorem nextPiece_shorter (ptr piece rest : List UInt8) (next : nextPiece ptr = (piece, some rest)) :
    rest.length < ptr.length := by
  unfold nextPiece at next
  split at next
  · rename_i before found
    cases next
    exact strchr_some_length _ _ _ _ found
  · rename_i before after _ found
    cases next
    exact strchr_some_length _ _ _ _ found
  · split at next
    · rename_i before after found
      cases next
      exact strchr_some_length _ _ _ _ found
    · obtain ⟨_, dash⟩ := Prod.mk.inj next
      obtain ⟨⟨before, after⟩, found, rfl⟩ := Option.map_eq_some_iff.mp dash
      exact strchr_some_length _ _ _ _ found

/-- More rounds than bytes change nothing. -/
theorem piecesWithin_enough (fuel : Nat) (text : List UInt8) (enough : text.length < fuel) :
    piecesWithin fuel text = pieces text := by
  induction fuel using Nat.strong_induction_on generalizing text with
  | _ fuel ih =>
      cases fuel with
      | zero => omega
      | succ fuel =>
          unfold pieces
          simp only [piecesWithin]
          cases next : nextPiece text with
          | mk piece later =>
              cases later with
              | none => rfl
              | some rest =>
                  have shorter := nextPiece_shorter text piece rest next
                  dsimp only
                  rw [ih fuel (Nat.lt_succ_self _) rest (by omega)]
                  by_cases same : text.length = fuel
                  · rw [same, ih fuel (Nat.lt_succ_self _) rest (by omega)]
                  · rw [ih text.length (by omega) rest shorter]

/-- The loop of `handle_option` visits the pieces. -/
theorem pieces_eq (text : List UInt8) :
    pieces text =
      (nextPiece text).1 :: ((nextPiece text).2.elim [] pieces) := by
  unfold pieces
  rw [piecesWithin]
  cases next : nextPiece text with
  | mk piece later =>
      cases later with
      | none => rfl
      | some rest =>
          have shorter := nextPiece_shorter text piece rest next
          simp only [Option.elim_some]
          rw [piecesWithin_enough text.length rest shorter]
          rfl

/-! ## The numbers of a text -/

/-- The numbers that are read in the pieces, none for a piece that is rejected. -/
def readPieces (option : NumberOption) (kbBase : UInt64) (staleErange : Nat → Bool) :
    Nat → List (List UInt8) → List (Option UInt64)
  | _, [] => []
  | curr, piece :: rest =>
      readPiece option kbBase (staleErange curr) piece ::
        readPieces option kbBase staleErange (curr + 1) rest

def storeValues (option : NumberOption) :
    Nat → List (Option UInt64) → ThreadOptions → ThreadOptions
  | _, [], td => td
  | curr, value :: rest, td =>
      storeValues option (curr + 1) rest
        (value.elim td fun ull => storeOptionValue option curr (!rest.isEmpty) ull td)

def NumberOption.setters (option : NumberOption) : List Setter :=
  [option.off1, option.off2, option.off3, option.cb].flatMap Option.toList

/-- What every setter of an option keeps, the storing of a value keeps. -/
theorem storeOptionValue_keeps (option : NumberOption) (kept : ThreadOptions → Prop)
    (each : ∀ setter ∈ option.setters, ∀ val td, kept td → kept (setter val td))
    (curr : Nat) (more : Bool) (ull : UInt64) (td : ThreadOptions) (holds : kept td) :
    kept (storeOptionValue option curr more ull td) := by
  have atOffset : ∀ offset ∈ [option.off1, option.off2, option.off3, option.cb], ∀ td, kept td →
      kept (setAt offset ull td) := by
    intro offset member td holds
    cases offset with
    | none => exact holds
    | some setter =>
        exact each setter (List.mem_flatMap.mpr ⟨_, member, Option.mem_toList.mpr rfl⟩) ull td holds
  have first : kept (if curr = 0 then setAt option.off1 ull td else td) := by
    split
    · exact atOffset _ (by simp) td holds
    · exact holds
  unfold storeOptionValue
  split
  · rename_i fn callback
    have called := atOffset option.cb (by simp) td holds
    rwa [callback] at called
  · split
    · have second : kept (if curr = 1 ∨ (more = false ∧ curr < 1) then
          setAt option.off2 ull (if curr = 0 then setAt option.off1 ull td else td)
        else (if curr = 0 then setAt option.off1 ull td else td)) := by
        split
        · exact atOffset _ (by simp) _ first
        · exact first
      dsimp only
      split
      · exact atOffset _ (by simp) _ second
      · exact second
    · dsimp only
      split
      · exact atOffset _ (by simp) _ first
      · exact first

theorem storeValues_keeps (option : NumberOption) (kept : ThreadOptions → Prop)
    (each : ∀ setter ∈ option.setters, ∀ val td, kept td → kept (setter val td))
    (curr : Nat) (numbers : List (Option UInt64)) (td : ThreadOptions) (holds : kept td) :
    kept (storeValues option curr numbers td) := by
  induction numbers generalizing curr td with
  | nil => exact holds
  | cons number rest ih =>
      unfold storeValues
      apply ih
      cases number with
      | none => exact holds
      | some ull => exact storeOptionValue_keeps option kept each curr _ ull td holds

/-- No setter of the option touches `kb_base`. -/
def KeepsKbBase (option : NumberOption) : Prop :=
  ∀ setter ∈ option.setters, ∀ val td, (setter val td).kbBase = td.kbBase

theorem strSizeCb_kbBase (val : UInt64) (td : ThreadOptions) :
    (strSizeCb val td).kbBase = td.kbBase := by
  unfold strSizeCb
  split_ifs <;> rfl

/-- No setter of an entry of the table touches `kb_base`. -/
def FioOption.KeepsKbBase : FioOption → Prop
  | number option => Fio.KeepsKbBase option
  | rw => True
  | store _ set => ∀ text td, (set text td).kbBase = td.kbBase
  | bool set => ∀ il td, (set il td).kbBase = td.kbBase

theorem keepsKbBase_of_found (opt : List UInt8) (entry : FioOption)
    (found : findOption opt = some entry) : entry.KeepsKbBase := by
  have table : ∀ row ∈ fioOptions, row.2.2.KeepsKbBase := by
    simp only [fioOptions, FioOption.KeepsKbBase, KeepsKbBase, NumberOption.setters, iodepthOption,
      sizeOption, blocksizeOption, numjobsOption, runtimeOption, rwmixwriteOption, strRwmixWriteCb,
      strSizeCb_kbBase, List.forall_mem_cons, List.flatMap_cons, List.flatMap_nil,
      Option.toList_some, Option.toList_none, List.cons_append, List.nil_append, List.append_nil,
      List.not_mem_nil, false_imp_iff, implies_true, and_true]
  obtain ⟨row, located, rfl⟩ := Option.map_eq_some_iff.mp found
  exact table row (List.mem_of_find?_eq_some located)

theorem readPieces_isEmpty (option : NumberOption) (kbBase : UInt64) (staleErange : Nat → Bool)
    (curr : Nat) (rest : List (List UInt8)) :
    (readPieces option kbBase staleErange curr rest).isEmpty = rest.isEmpty := by
  cases rest <;> rfl

/-- The induction is on the pieces; the options change on the way, but not the
base that the numbers are read with. -/
theorem handlePieces_eq (option : NumberOption) (keeps : KeepsKbBase option)
    (staleErange : Nat → Bool) (curr : Nat) (rest : List (List UInt8)) (td : ThreadOptions) :
    handlePieces option staleErange curr rest td =
      ((readPieces option td.kbBase staleErange curr rest).any Option.isSome,
        storeValues option curr (readPieces option td.kbBase staleErange curr rest) td) := by
  induction rest generalizing curr td with
  | nil => rfl
  | cons piece rest ih =>
      simp only [handlePieces, readPieces, storeValues, List.any_cons, readPieces_isEmpty]
      unfold handlePiece
      cases readPiece option td.kbBase (staleErange curr) piece with
      | none => simp only [ih (curr + 1) td, Option.isSome_none, Option.elim_none]
      | some ull =>
          have same : (storeOptionValue option curr (!rest.isEmpty) ull td).kbBase = td.kbBase := by
            apply storeOptionValue_keeps option (fun next => next.kbBase = td.kbBase) ?_ _ _ _ _ rfl
            intro setter member val next base
            rw [keeps setter member, base]
          simp only [ih (curr + 1) _, same, Option.isSome_some, Option.elim_some]

/-! ## What is stored -/

/-- The block sizes for the numbers of a text: one for all directions, or one
for each, the last one also for those that are missing. -/
def blockSizes (numbers : List (Option UInt64)) (given : PerDdir) : PerDdir :=
  match numbers with
  | [] => given
  | [every] => ⟨every.getD given.read, every.getD given.write, every.getD given.trim⟩
  | [read, write] => ⟨read.getD given.read, write.getD given.write, write.getD given.trim⟩
  | read :: write :: trim :: _ =>
      ⟨read.getD given.read, write.getD given.write, trim.getD given.trim⟩

/-- A percentage and a count of zones leave the size open. -/
def plainSize (v : UInt64) : UInt64 := if parseIsPercent v || parseIsZone v then 0 else v

/-- The size for the numbers of a text: the last one that is accepted. -/
def sizeGiven (numbers : List (Option UInt64)) (given : UInt64) : UInt64 :=
  numbers.foldl (fun size number => number.elim size plainSize) given

theorem storeValues_runtime (curr : Nat) (numbers : List (Option UInt64)) (td : ThreadOptions) :
    ∃ timeout, storeValues runtimeOption curr numbers td = { td with timeout } := by
  apply storeValues_keeps runtimeOption fun next => ∃ timeout, next = { td with timeout }
  · simp only [NumberOption.setters, runtimeOption, List.flatMap_cons, List.flatMap_nil,
      Option.toList_some, Option.toList_none, List.append_nil, List.forall_mem_singleton]
    rintro val _ ⟨timeout, rfl⟩
    exact ⟨val, rfl⟩
  · exact ⟨td.timeout, rfl⟩

theorem storeOptionValue_blocksize (curr : Nat) (more : Bool) (ull : UInt64)
    (td : ThreadOptions) :
    storeOptionValue blocksizeOption curr more ull td =
      { td with bs :=
        ⟨if curr = 0 then ull else td.bs.read,
          if curr = 1 ∨ (more = false ∧ curr < 1) then ull else td.bs.write,
          if curr = 2 ∨ (more = false ∧ curr < 2) then ull else td.bs.trim⟩ } := by
  unfold storeOptionValue blocksizeOption
  dsimp only [setAt]
  rw [if_pos (Or.inr rfl)]
  split_ifs <;> rfl

/-- Nothing is stored from the fourth piece on. -/
theorem storeValues_blocksize_later (curr : Nat) (later : 3 ≤ curr)
    (numbers : List (Option UInt64)) (td : ThreadOptions) :
    storeValues blocksizeOption curr numbers td = td := by
  induction numbers generalizing curr with
  | nil => rfl
  | cons number rest ih =>
      unfold storeValues
      cases number with
      | none => exact ih (curr + 1) (by omega)
      | some ull =>
          rw [Option.elim_some, storeOptionValue_blocksize, if_neg (by omega), if_neg (by omega),
            if_neg (by omega)]
          exact ih (curr + 1) (by omega)

theorem storeValues_blocksize (numbers : List (Option UInt64)) (td : ThreadOptions) :
    storeValues blocksizeOption 0 numbers td = { td with bs := blockSizes numbers td.bs } := by
  match numbers with
  | [] => rfl
  | [every] =>
      cases every with
      | none => rfl
      | some ull => simp [storeValues, storeOptionValue_blocksize, blockSizes]
  | [read, write] =>
      cases read <;> cases write <;>
        simp [storeValues, storeOptionValue_blocksize, blockSizes]
  | read :: write :: trim :: rest =>
      simp only [storeValues, storeValues_blocksize_later _ (Nat.le_refl 3)]
      cases read <;> cases write <;> cases trim <;>
        simp [storeOptionValue_blocksize, blockSizes]

theorem strSizeCb_plainSize (v : UInt64) (td : ThreadOptions) :
    ∃ sizePercent sizeNz,
      strSizeCb v td = { td with size := plainSize v, sizePercent, sizeNz } := by
  unfold strSizeCb plainSize
  by_cases percent : parseIsPercent v = true
  · rw [if_pos percent, if_pos (by simp [percent])]
    exact ⟨-1 - v, td.sizeNz, rfl⟩
  · by_cases zone : parseIsZone v = true
    · rw [if_neg percent, if_pos zone, if_pos (by simp [zone])]
      exact ⟨0, v - zoneBaseVal, rfl⟩
    · rw [if_neg percent, if_neg zone, if_neg (by simp [percent, zone])]
      exact ⟨td.sizePercent, td.sizeNz, rfl⟩

theorem storeValues_size (curr : Nat) (numbers : List (Option UInt64)) (td : ThreadOptions) :
    ∃ sizePercent sizeNz, storeValues sizeOption curr numbers td =
      { td with size := sizeGiven numbers td.size, sizePercent, sizeNz } := by
  induction numbers generalizing curr td with
  | nil => exact ⟨td.sizePercent, td.sizeNz, rfl⟩
  | cons number rest ih =>
      unfold storeValues
      cases number with
      | none => exact ih (curr + 1) td
      | some ull =>
          obtain ⟨sizePercent, sizeNz, stored⟩ := ih (curr + 1) (strSizeCb ull td)
          obtain ⟨percent, nz, called⟩ := strSizeCb_plainSize ull td
          refine ⟨sizePercent, sizeNz, ?_⟩
          change storeValues sizeOption (curr + 1) rest (strSizeCb ull td) = _
          rw [stored, called]
          rfl

/-! ## Accepting a text -/

/-- The numbers that an option reads in a text, at the default `kb_base`. -/
def numbersRead (option : NumberOption) (staleErange : Nat → Bool) (text : List UInt8) :
    List (Option UInt64) :=
  readPieces option 1024 staleErange 0 (pieces text)

/-- An option takes a text if it reads a number in one of its pieces. -/
def Accepts (option : NumberOption) (staleErange : Nat → Bool) (text : List UInt8) : Prop :=
  ∃ number, some number ∈ numbersRead option staleErange text

theorem handleNumber_eq (option : NumberOption) (keeps : KeepsKbBase option)
    (staleErange : Nat → Bool) (text : List UInt8) (td : ThreadOptions) (base : td.kbBase = 1024) :
    handleNumber option staleErange text td =
      ((numbersRead option staleErange text).any Option.isSome,
        storeValues option 0 (numbersRead option staleErange text) td) := by
  unfold handleNumber numbersRead
  rw [handlePieces_eq option keeps, base]

theorem any_isSome_iff_accepts (option : NumberOption) (staleErange : Nat → Bool)
    (text : List UInt8) :
    (numbersRead option staleErange text).any Option.isSome = true ↔
      Accepts option staleErange text := by
  rw [List.any_eq_true]
  constructor
  · rintro ⟨number, member, isNumber⟩
    obtain ⟨value, rfl⟩ := Option.isSome_iff_exists.mp isNumber
    exact ⟨value, member⟩
  · rintro ⟨value, member⟩
    exact ⟨some value, member, rfl⟩

/-- The loop of `handle_option` handles `piece` in round `curr`. -/
inductive Visits : List UInt8 → Nat → List UInt8 → Prop where
  | first (text : List UInt8) : Visits text 0 (nextPiece text).1
  | later {text rest piece : List UInt8} {curr : Nat} (next : (nextPiece text).2 = some rest)
      (visit : Visits rest curr piece) : Visits text (curr + 1) piece

/-- The induction from left to right is on the visit; from right to left it is
on the round, for every text. -/
theorem visits_iff (text piece : List UInt8) (curr : Nat) :
    Visits text curr piece ↔ (pieces text)[curr]? = some piece := by
  constructor
  · intro visit
    induction visit with
    | first text => rw [pieces_eq, List.getElem?_cons_zero]
    | later next visit ih =>
        rw [pieces_eq, List.getElem?_cons_succ, next, Option.elim_some]
        exact ih
  · intro located
    induction curr generalizing text with
    | zero =>
        rw [pieces_eq, List.getElem?_cons_zero, Option.some.injEq] at located
        rw [← located]
        exact Visits.first text
    | succ curr ih =>
        rw [pieces_eq, List.getElem?_cons_succ] at located
        cases next : (nextPiece text).2 with
        | none =>
            rw [next, Option.elim_none, List.getElem?_nil] at located
            cases located
        | some rest =>
            rw [next, Option.elim_some] at located
            exact Visits.later next (ih rest located)

theorem mem_readPieces_iff (option : NumberOption) (kbBase : UInt64) (staleErange : Nat → Bool)
    (start : Nat) (rest : List (List UInt8)) (number : UInt64) :
    some number ∈ readPieces option kbBase staleErange start rest ↔
      ∃ curr piece, rest[curr]? = some piece ∧
        readPiece option kbBase (staleErange (start + curr)) piece = some number := by
  induction rest generalizing start with
  | nil => simp [readPieces]
  | cons piece rest ih =>
      rw [readPieces, List.mem_cons, ih]
      constructor
      · rintro (read | ⟨curr, other, located, read⟩)
        · exact ⟨0, piece, rfl, read.symm⟩
        · refine ⟨curr + 1, other, located, ?_⟩
          rwa [← Nat.add_assoc, Nat.add_right_comm]
      · rintro ⟨curr, other, located, read⟩
        cases curr with
        | zero =>
            obtain rfl := Option.some.inj located
            exact Or.inl read.symm
        | succ curr =>
            refine Or.inr ⟨curr, other, located, ?_⟩
            rwa [Nat.add_right_comm, Nat.add_assoc]

theorem accepts_iff (option : NumberOption) (staleErange : Nat → Bool) (text : List UInt8) :
    Accepts option staleErange text ↔
      ∃ curr piece, Visits text curr piece ∧
        (readPiece option 1024 (staleErange curr) piece).isSome = true := by
  unfold Accepts numbersRead
  simp only [mem_readPieces_iff, Nat.zero_add, visits_iff, Option.isSome_iff_exists]
  constructor
  · rintro ⟨number, curr, piece, located, read⟩
    exact ⟨curr, piece, located, number, read⟩
  · rintro ⟨curr, piece, located, number, read⟩
    exact ⟨number, curr, piece, located, read⟩

/-- A piece that does not end in `z` and has a number in front of its local copy. -/
def NumberInFront (staleErange : Bool) (piece : List UInt8) : Prop :=
  piece.getLast? ≠ some (ascii 'z') ∧ StartsWithNumber staleErange (tmpText piece)

/-- A decimal number and a `z` behind it. -/
def CountsZones (piece : List UInt8) : Prop :=
  piece.getLast? = some (ascii 'z') ∧
    ∃ converted, strtoul 10 piece = some converted ∧ converted.erange = false ∧
      converted.rest.head? = some (ascii 'z')

theorem readZones_isSome_iff (option : NumberOption) (piece : List UInt8)
    (zones : piece.getLast? = some (ascii 'z')) :
    (readZones option piece).isSome = true ↔ option.type = .strValZone ∧ CountsZones piece := by
  unfold readZones CountsZones
  cases option.type <;> cases strtoul 10 piece <;> simp [zones]

theorem readPiece_isSome_iff (option : NumberOption) (kbBase : UInt64) (staleErange : Bool)
    (piece : List UInt8) :
    (readPiece option kbBase staleErange piece).isSome = true ↔
      (option.type = .strValZone ∧ CountsZones piece) ∨
      (piece.getLast? ≠ some (ascii 'z') ∧ ∃ number,
        strToDecimal (option.quantity kbBase) staleErange (tmpText piece) = some number ∧
        option.valTooLarge number = false ∧ option.valTooSmall number = false) := by
  unfold readPiece
  by_cases zones : piece.getLast? = some (ascii 'z')
  · simp [zones, readZones_isSome_iff option piece zones]
  · have noCount : ¬CountsZones piece := fun counts => zones counts.1
    rw [if_neg zones]
    simp [zones, noCount, Option.any_eq_true, tmpText]

/-- Where an option has no bounds, a number in front is enough. -/
theorem readPiece_unbounded_iff (option : NumberOption) (kbBase : UInt64) (staleErange : Bool)
    (piece : List UInt8) (unbounded : option.maxval = 0 ∧ option.minval = 0) :
    (readPiece option kbBase staleErange piece).isSome = true ↔
      NumberInFront staleErange piece ∨ (option.type = .strValZone ∧ CountsZones piece) := by
  have inside : ∀ number,
      option.valTooLarge number = false ∧ option.valTooSmall number = false := by
    intro number
    simp [NumberOption.valTooLarge, NumberOption.valTooSmall, unbounded]
  simp only [readPiece_isSome_iff, inside, and_true, and_self, ← Option.isSome_iff_exists,
    strToDecimal_isSome_iff]
  exact Or.comm

/-- A block size of zero is below the minimum. -/
theorem readPiece_blocksize_iff (kbBase : UInt64) (staleErange : Bool) (piece : List UInt8) :
    (readPiece blocksizeOption kbBase staleErange piece).isSome = true ↔
      NumberInFront staleErange piece ∧
        strToDecimal (.bytes kbBase) staleErange (tmpText piece) ≠ some 0 := by
  have inside : ∀ number, (blocksizeOption.valTooLarge number = false ∧
      blocksizeOption.valTooSmall number = false) ↔ number ≠ 0 := by
    intro number
    have notLarge : ¬ullongMax < number := by
      have bounded := number.toNat_lt
      rw [UInt64.lt_iff_toNat_lt, show ullongMax.toNat = 2 ^ 64 - 1 from rfl]
      omega
    simp [NumberOption.valTooLarge, NumberOption.valTooSmall, blocksizeOption, notLarge]
  have sort : blocksizeOption.quantity kbBase = .bytes kbBase := rfl
  rw [readPiece_isSome_iff, NumberInFront, ← strToDecimal_isSome_iff (.bytes kbBase)]
  simp only [inside, sort]
  cases strToDecimal (.bytes kbBase) staleErange (tmpText piece) <;> simp [blocksizeOption]

/-- A runtime is accepted if one of the pieces has a number in front. -/
theorem accepts_runtime_iff (staleErange : Nat → Bool) (text : List UInt8) :
    Accepts runtimeOption staleErange text ↔
      ∃ curr piece, Visits text curr piece ∧ NumberInFront (staleErange curr) piece := by
  simp only [accepts_iff, readPiece_unbounded_iff runtimeOption _ _ _ ⟨rfl, rfl⟩]
  simp [runtimeOption]

theorem accepts_size_iff (staleErange : Nat → Bool) (text : List UInt8) :
    Accepts sizeOption staleErange text ↔
      ∃ curr piece, Visits text curr piece ∧
        (NumberInFront (staleErange curr) piece ∨ CountsZones piece) := by
  simp only [accepts_iff, readPiece_unbounded_iff sizeOption _ _ _ ⟨rfl, rfl⟩]
  simp [sizeOption]

theorem accepts_blocksize_iff (staleErange : Nat → Bool) (text : List UInt8) :
    Accepts blocksizeOption staleErange text ↔
      ∃ curr piece, Visits text curr piece ∧ NumberInFront (staleErange curr) piece ∧
        strToDecimal (.bytes 1024) (staleErange curr) (tmpText piece) ≠ some 0 := by
  simp only [accepts_iff, readPiece_blocksize_iff]

end RaptorMark.Fio
