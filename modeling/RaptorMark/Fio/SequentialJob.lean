import RaptorMark.Fio.Libaio

/-!
# Sequential blocks

The sequential side of `io_u.c`, for one file and without zones: each direction
has a position in the file, an I/O starts there and moves it to its end.  What
`get_next_buflen` answers at an offset is a parameter.  `fillSeqIoU` is the path
of `fill_io_u` a sequential read, write or trim takes, with the move of the
position that `get_io_u` makes; it returns the offset and the length of the I/O,
or nothing where the source returns 1.
-/

set_option autoImplicit false

namespace RaptorMark.Fio

/-- The options the sequential path reads; `rw` is `td_rw`. -/
structure SeqOptions where
  timeBased : Bool
  nrFiles : Nat
  rw : Bool
  ioSize : Nat
  size : Nat
  ddirSeqAdd : Int

/-- `startOffset` is what `get_start_offset` answers for the file. -/
structure SeqFile where
  fileOffset : Nat
  startOffset : Nat
  ioSize : Nat
  realFileSize : Nat
  lastPos : IoDirection → Nat

namespace SeqFile

def setPos (f : SeqFile) (ddir : IoDirection) (pos : Nat) : SeqFile :=
  { f with lastPos := Function.update f.lastPos ddir pos }

/-- What `fio_file_reset` does to the positions. -/
def reset (f : SeqFile) : SeqFile := { f with lastPos := fun _ => f.fileOffset }

/-- Where backwards I/O starts over. -/
def backEnd (f : SeqFile) : Nat :=
  if f.ioSize < f.realFileSize then f.ioSize else f.realFileSize

end SeqFile

/-- `pos += ddir_seq_add`, in the arithmetic of `uint64_t`. -/
def addSeq (pos : Nat) (add : Int) : Nat := (((pos : Int) + add) % 18446744073709551616).toNat

/-- A time based run starts over at the end of the file. -/
def startOverTimed (o : SeqOptions) (f : SeqFile) (ddir : IoDirection) : SeqFile :=
  if f.ioSize + f.startOffset ≤ f.lastPos ddir ∧ o.timeBased ∧ o.nrFiles = 1 then
    f.setPos ddir f.fileOffset
  else f

/-- So does a run of reads and writes that is to transfer more than the size. -/
def startOverMixed (o : SeqOptions) (f : SeqFile) (ddir : IoDirection) : SeqFile :=
  if o.rw ∧ o.size < o.ioSize ∧ f.ioSize + f.startOffset ≤ f.lastPos ddir then
    f.setPos ddir f.fileOffset
  else f

/-- Backwards I/O goes to the end first. -/
def rewind (o : SeqOptions) (f : SeqFile) (ddir : IoDirection) : SeqFile :=
  if f.lastPos ddir = f.fileOffset ∧ f.fileOffset ≠ 0 ∧ o.ddirSeqAdd < 0 then
    f.setPos ddir f.backEnd
  else f

/-- The hole between two I/Os, with the wrap at either end of the file. -/
def skipHole (o : SeqOptions) (f : SeqFile) (pos : Nat) : Nat :=
  if pos ≠ 0 ∧ o.ddirSeqAdd ≠ 0 then
    let pos := addSeq pos o.ddirSeqAdd
    if f.realFileSize ≤ pos then
      if 0 < o.ddirSeqAdd then f.fileOffset else addSeq f.backEnd o.ddirSeqAdd
    else pos
  else pos

def getNextSeqOffset (o : SeqOptions) (f : SeqFile) (ddir : IoDirection) :
    Option Nat × SeqFile :=
  let f := startOverTimed o f ddir
  let f := startOverMixed o f ddir
  if f.lastPos ddir < f.realFileSize then
    let f := rewind o f ddir
    let pos := (f.lastPos ddir + 18446744073709551616 - f.fileOffset) % 18446744073709551616
    (some (skipHole o f pos), f)
  else (none, f)

def fillSeqIoU (o : SeqOptions) (nextBuflen : Nat → Nat) (f : SeqFile) (ddir : IoDirection) :
    Option (Nat × Nat) × SeqFile :=
  match getNextSeqOffset o f ddir with
  | (none, f) => (none, f)
  | (some offset, f) =>
      if f.ioSize ≤ offset then (none, f)
      else if f.realFileSize ≤ offset + f.fileOffset then (none, f)
      else
        let offset := offset + f.fileOffset
        let buflen := nextBuflen offset
        if buflen = 0 ∨ f.realFileSize < offset + buflen then (none, f)
        else (some (offset, buflen), f.setPos ddir (offset + buflen))

/-- The I/Os a job fills one after the other, in the directions it chooses. -/
def fillSeqIoUs (o : SeqOptions) :
    List (IoDirection × (Nat → Nat)) → SeqFile →
      List (IoDirection × Option (Nat × Nat)) × SeqFile
  | [], f => ([], f)
  | (ddir, nextBuflen) :: rest, f =>
      let (filled, f) := fillSeqIoU o nextBuflen f ddir
      let (others, f) := fillSeqIoUs o rest f
      ((ddir, filled) :: others, f)

/-! ## Without holes -/

/-- Whether a position at the end of the file is moved to its start. -/
def StartsOver (o : SeqOptions) : Prop :=
  (o.timeBased = true ∧ o.nrFiles = 1) ∨ (o.rw = true ∧ o.size < o.ioSize)

instance (o : SeqOptions) : Decidable (StartsOver o) := inferInstanceAs (Decidable (_ ∨ _))

namespace SeqFile

def withPos (f : SeqFile) (pos : IoDirection → Nat) : SeqFile := { f with lastPos := pos }

def AtEnd (f : SeqFile) (pos : Nat) : Prop := f.ioSize + f.startOffset ≤ pos

instance (f : SeqFile) (pos : Nat) : Decidable (f.AtEnd pos) :=
  inferInstanceAs (Decidable (_ ≤ _))

def Fits (f : SeqFile) (pos buflen : Nat) : Prop :=
  pos < f.fileOffset + f.ioSize ∧ 0 < buflen ∧ pos + buflen ≤ f.realFileSize

instance (f : SeqFile) (pos buflen : Nat) : Decidable (f.Fits pos buflen) :=
  inferInstanceAs (Decidable (_ ∧ _))

end SeqFile

/-- The next I/O of a direction, told by its position alone. -/
def seqNext (o : SeqOptions) (f : SeqFile) (nextBuflen : Nat → Nat) (pos : Nat) :
    Option (Nat × Nat) × Nat :=
  let start := if StartsOver o ∧ f.AtEnd pos then f.fileOffset else pos
  if f.Fits start (nextBuflen start) then
    (some (start, nextBuflen start), start + nextBuflen start)
  else (none, start)

theorem seqNext_eq {o : SeqOptions} {f : SeqFile} {nextBuflen : Nat → Nat} {pos start : Nat}
    (isStart : (if StartsOver o ∧ f.AtEnd pos then f.fileOffset else pos) = start) :
    seqNext o f nextBuflen pos =
      if f.Fits start (nextBuflen start) then
        (some (start, nextBuflen start), start + nextBuflen start)
      else (none, start) := by
  rw [seqNext, isStart]

theorem startOver_withPos (o : SeqOptions) (f : SeqFile) (pos : IoDirection → Nat)
    (ddir : IoDirection) :
    startOverMixed o (startOverTimed o (f.withPos pos) ddir) ddir =
      f.withPos (Function.update pos ddir
        (if StartsOver o ∧ f.AtEnd (pos ddir) then f.fileOffset else pos ddir)) := by
  have unmoved : f.withPos (Function.update pos ddir (pos ddir)) = f.withPos pos := by
    rw [Function.update_eq_self]
  by_cases ends : f.AtEnd (pos ddir)
  · by_cases timed : o.timeBased = true ∧ o.nrFiles = 1
    · have first : startOverTimed o (f.withPos pos) ddir =
          f.withPos (Function.update pos ddir f.fileOffset) := if_pos ⟨ends, timed⟩
      rw [if_pos ⟨Or.inl timed, ends⟩, first, startOverMixed]
      split
      · exact congrArg f.withPos (Function.update_idem ..)
      · rfl
    · have first : startOverTimed o (f.withPos pos) ddir = f.withPos pos :=
        if_neg fun both => timed both.2
      rw [first]
      by_cases mixed : o.rw = true ∧ o.size < o.ioSize
      · rw [if_pos ⟨Or.inr mixed, ends⟩]
        exact if_pos ⟨mixed.1, mixed.2, ends⟩
      · rw [if_neg fun both => both.1.elim timed mixed, unmoved]
        exact if_neg fun all => mixed ⟨all.1, all.2.1⟩
  · have first : startOverTimed o (f.withPos pos) ddir = f.withPos pos :=
      if_neg fun both => ends both.1
    rw [if_neg fun both => ends both.2, first, unmoved]
    exact if_neg fun all => ends all.2.2

theorem getNextSeqOffset_plain {o : SeqOptions} (plain : o.ddirSeqAdd = 0) {f : SeqFile}
    (small : f.realFileSize < 18446744073709551616) {pos : IoDirection → Nat} {ddir : IoDirection}
    {start : Nat} (moved : startOverMixed o (startOverTimed o (f.withPos pos) ddir) ddir =
      f.withPos (Function.update pos ddir start)) (later : f.fileOffset ≤ start) :
    getNextSeqOffset o (f.withPos pos) ddir =
      (if start < f.realFileSize then some (start - f.fileOffset) else none,
        f.withPos (Function.update pos ddir start)) := by
  have own : (f.withPos (Function.update pos ddir start)).lastPos ddir = start :=
    Function.update_self ..
  have still : rewind o (f.withPos (Function.update pos ddir start)) ddir =
      f.withPos (Function.update pos ddir start) :=
    if_neg fun all => absurd all.2.2 (by rw [plain]; decide)
  have whole : ∀ place, skipHole o (f.withPos (Function.update pos ddir start)) place = place :=
    fun place => if_neg fun both => both.2 plain
  simp only [getNextSeqOffset, moved, still, own, whole]
  by_cases inside : start < f.realFileSize
  · rw [if_pos inside]
    have place : (start + 18446744073709551616 - f.fileOffset) % 18446744073709551616 =
        start - f.fileOffset := by
      omega
    rw [← place]
    exact if_pos inside
  · rw [if_neg inside]
    exact if_neg inside

/-- Without holes an I/O depends on the position of its direction alone, and
moves no other. -/
theorem fillSeqIoU_withPos {o : SeqOptions} (plain : o.ddirSeqAdd = 0) {f : SeqFile}
    (small : f.realFileSize < 18446744073709551616) (nextBuflen : Nat → Nat)
    {pos : IoDirection → Nat} (ddir : IoDirection) (after : f.fileOffset ≤ pos ddir) :
    fillSeqIoU o nextBuflen (f.withPos pos) ddir =
      ((seqNext o f nextBuflen (pos ddir)).1,
        f.withPos (Function.update pos ddir (seqNext o f nextBuflen (pos ddir)).2)) := by
  obtain ⟨start, isStart⟩ : ∃ start,
      start = if StartsOver o ∧ f.AtEnd (pos ddir) then f.fileOffset else pos ddir := ⟨_, rfl⟩
  have later : f.fileOffset ≤ start := by
    rw [isStart]
    split
    · exact Nat.le_refl _
    · exact after
  have moved := startOver_withPos o f pos ddir
  rw [← isStart] at moved
  rw [seqNext, ← isStart, fillSeqIoU, getNextSeqOffset_plain plain small moved later]
  by_cases inside : start < f.realFileSize
  · rw [if_pos inside]
    dsimp only
    by_cases before : f.ioSize ≤ start - f.fileOffset
    · rw [if_neg (fun fits : f.Fits _ _ => by
        have := fits.1
        omega)]
      exact if_pos before
    · have place : start - f.fileOffset + f.fileOffset = start := by omega
      rw [if_neg (show ¬ (f.withPos (Function.update pos ddir start)).ioSize ≤ _ from before)]
      simp only [SeqFile.withPos, place]
      rw [if_neg (by omega)]
      by_cases fits : f.Fits start (nextBuflen start)
      · have goes := fits.2
        rw [if_pos fits, if_neg (by omega), SeqFile.setPos]
        simp only [Function.update_idem]
      · have stops : nextBuflen start = 0 ∨ f.realFileSize < start + nextBuflen start := by
          rw [SeqFile.Fits] at fits
          omega
        rw [if_neg fits, if_pos stops]
  · rw [if_neg inside, if_neg (fun fits : f.Fits _ _ => by
      have := fits.2
      omega)]

/-! ## Runs -/

/-- The I/Os of one direction, told by its position alone. -/
def seqNexts (o : SeqOptions) (f : SeqFile) :
    List (Nat → Nat) → Nat → List (Option (Nat × Nat)) × Nat
  | [], pos => ([], pos)
  | nextBuflen :: rest, pos =>
      let (filled, pos) := seqNext o f nextBuflen pos
      let (others, pos) := seqNexts o f rest pos
      (filled :: others, pos)

/-- What belongs to one direction. -/
def ofDirection {β : Type} (ddir : IoDirection) (entries : List (IoDirection × β)) : List β :=
  (entries.filter fun entry => entry.1 = ddir).map Prod.snd

theorem ofDirection_cons_self {β : Type} (ddir : IoDirection) (entry : β)
    (rest : List (IoDirection × β)) :
    ofDirection ddir ((ddir, entry) :: rest) = entry :: ofDirection ddir rest := by
  rw [ofDirection, List.filter_cons_of_pos (by rw [decide_eq_true_eq]), List.map_cons, ofDirection]

theorem ofDirection_cons_other {β : Type} {ddir other : IoDirection} (different : other ≠ ddir)
    (entry : β) (rest : List (IoDirection × β)) :
    ofDirection ddir ((other, entry) :: rest) = ofDirection ddir rest := by
  rw [ofDirection, List.filter_cons_of_neg (by rw [decide_eq_true_eq]; exact different),
    ofDirection]

theorem ofDirection_map {β : Type} (ddir : IoDirection) (ddirs : List IoDirection) (entry : β) :
    ofDirection ddir (ddirs.map fun own => (own, entry)) =
      List.replicate (ddirs.count ddir) entry := by
  induction ddirs with
  | nil => rfl
  | cons head rest inductionHypothesis =>
    rw [List.map_cons]
    by_cases same : head = ddir
    · rw [same, ofDirection_cons_self, inductionHypothesis, List.count_cons_self,
        List.replicate_succ]
    · rw [ofDirection_cons_other same, inductionHypothesis, List.count_cons_of_ne same]

theorem seqNext_after {o : SeqOptions} {f : SeqFile} (nextBuflen : Nat → Nat) {pos : Nat}
    (after : f.fileOffset ≤ pos) : f.fileOffset ≤ (seqNext o f nextBuflen pos).2 := by
  have later : f.fileOffset ≤ if StartsOver o ∧ f.AtEnd pos then f.fileOffset else pos := by
    split
    · exact Nat.le_refl _
    · exact after
  rw [seqNext]
  generalize (if StartsOver o ∧ f.AtEnd pos then f.fileOffset else pos) = start at later ⊢
  by_cases fits : f.Fits start (nextBuflen start)
  · rw [if_pos fits]
    exact Nat.le_add_right_of_le later
  · rw [if_neg fits]
    exact later

/-- Each direction goes through the file on its own. -/
theorem fillSeqIoUs_ofDirection {o : SeqOptions} (plain : o.ddirSeqAdd = 0) {f : SeqFile}
    (small : f.realFileSize < 18446744073709551616) (ddir : IoDirection)
    (asked : List (IoDirection × (Nat → Nat))) {pos : IoDirection → Nat}
    (after : ∀ ddir, f.fileOffset ≤ pos ddir) :
    ofDirection ddir (fillSeqIoUs o asked (f.withPos pos)).1 =
        (seqNexts o f (ofDirection ddir asked) (pos ddir)).1 ∧
      (fillSeqIoUs o asked (f.withPos pos)).2.lastPos ddir =
        (seqNexts o f (ofDirection ddir asked) (pos ddir)).2 := by
  induction asked generalizing pos with
  | nil => exact ⟨rfl, rfl⟩
  | cons entry rest inductionHypothesis =>
    obtain ⟨own, nextBuflen⟩ := entry
    have moved : ∀ ddir, f.fileOffset ≤
        Function.update pos own (seqNext o f nextBuflen (pos own)).2 ddir := by
      intro other
      by_cases same : other = own
      · rw [same, Function.update_self]
        exact seqNext_after nextBuflen (after own)
      · rw [Function.update_of_ne same]
        exact after other
    obtain ⟨filled, reached⟩ := inductionHypothesis moved
    simp only [fillSeqIoUs, fillSeqIoU_withPos plain small nextBuflen own (after own)]
    by_cases same : own = ddir
    · subst same
      rw [Function.update_self] at filled reached
      rw [ofDirection_cons_self, ofDirection_cons_self, filled, reached, seqNexts]
      exact ⟨rfl, rfl⟩
    · rw [Function.update_of_ne (Ne.symm same)] at filled reached
      rw [ofDirection_cons_other same, ofDirection_cons_other same]
      exact ⟨filled, reached⟩

/-! ## Passes through the file -/

/-- The I/Os follow each other without a gap, from `start` to `stop`. -/
def Tiles : Nat → List (Nat × Nat) → Nat → Prop
  | start, [], stop => start = stop
  | start, (offset, buflen) :: rest, stop => offset = start ∧ 0 < buflen ∧
      Tiles (start + buflen) rest stop

theorem Tiles.append {start middle : Nat} {ios : List (Nat × Nat)} (tiles : Tiles start ios middle)
    {buflen : Nat} (positive : 0 < buflen) :
    Tiles start (ios ++ [(middle, buflen)]) (middle + buflen) := by
  induction ios generalizing start with
  | nil =>
    rw [Tiles] at tiles
    exact ⟨tiles.symm, positive, by rw [tiles]; rfl⟩
  | cons io rest inductionHypothesis => exact ⟨tiles.1, tiles.2.1, inductionHypothesis tiles.2.2⟩

/-- The I/Os so far are whole passes and one that has come as far as `pos`. -/
structure Passes (o : SeqOptions) (f : SeqFile) (pos : Nat) (done : List (List (Nat × Nat)))
    (current : List (Nat × Nat)) : Prop where
  whole : ∀ pass ∈ done, ∃ stop, Tiles f.fileOffset pass stop ∧ f.ioSize + f.startOffset ≤ stop
  tiles : Tiles f.fileOffset current pos
  again : done ≠ [] → StartsOver o
  inside : ∀ io ∈ done.flatten ++ current,
    io.1 < f.fileOffset + f.ioSize ∧ io.1 + io.2 ≤ f.realFileSize

/-- A position at the end of the file closes the pass, where the job starts over. -/
theorem Passes.started {o : SeqOptions} {f : SeqFile} {pos : Nat} {done : List (List (Nat × Nat))}
    {current : List (Nat × Nat)} (passes : Passes o f pos done current) :
    ∃ nextDone nextCurrent,
      Passes o f (if StartsOver o ∧ f.AtEnd pos then f.fileOffset else pos) nextDone nextCurrent ∧
        nextDone.flatten ++ nextCurrent = done.flatten ++ current := by
  by_cases ended : StartsOver o ∧ f.AtEnd pos
  · rw [if_pos ended]
    have same : (done ++ [current]).flatten ++ [] = done.flatten ++ current := by
      rw [List.flatten_append, List.flatten_singleton, List.append_nil]
    refine ⟨done ++ [current], [], ⟨?_, rfl, fun _ => ended.1, ?_⟩, same⟩
    · intro pass member
      rcases List.mem_append.mp member with earlier | last
      · exact passes.whole pass earlier
      · rw [List.mem_singleton.mp last]
        exact ⟨pos, passes.tiles, ended.2⟩
    · rw [same]
      exact passes.inside
  · rw [if_neg ended]
    exact ⟨done, current, passes, rfl⟩

theorem Passes.next {o : SeqOptions} {f : SeqFile} {pos : Nat} {done : List (List (Nat × Nat))}
    {current : List (Nat × Nat)} (passes : Passes o f pos done current)
    (nextBuflen : Nat → Nat) :
    ∃ nextDone nextCurrent,
      Passes o f (seqNext o f nextBuflen pos).2 nextDone nextCurrent ∧
        nextDone.flatten ++ nextCurrent =
          done.flatten ++ current ++ (seqNext o f nextBuflen pos).1.toList := by
  obtain ⟨startDone, startCurrent, started, same⟩ := passes.started
  rw [seqNext, ← same]
  generalize (if StartsOver o ∧ f.AtEnd pos then f.fileOffset else pos) = start at started ⊢
  by_cases fits : f.Fits start (nextBuflen start)
  · rw [if_pos fits]
    refine ⟨startDone, startCurrent ++ [(start, nextBuflen start)],
      ⟨started.whole, started.tiles.append fits.2.1, started.again, ?_⟩, ?_⟩
    · intro io member
      rw [← List.append_assoc] at member
      rcases List.mem_append.mp member with earlier | last
      · exact started.inside io earlier
      · rw [List.mem_singleton.mp last]
        exact ⟨fits.1, fits.2.2⟩
    · exact (List.append_assoc ..).symm
  · rw [if_neg fits]
    exact ⟨startDone, startCurrent, started, (List.append_nil _).symm⟩

theorem Passes.nexts {o : SeqOptions} {f : SeqFile} (asked : List (Nat → Nat)) {pos : Nat}
    {done : List (List (Nat × Nat))} {current : List (Nat × Nat)}
    (passes : Passes o f pos done current) :
    ∃ lastDone lastCurrent,
      Passes o f (seqNexts o f asked pos).2 lastDone lastCurrent ∧
        lastDone.flatten ++ lastCurrent =
          done.flatten ++ current ++ (seqNexts o f asked pos).1.filterMap id := by
  induction asked generalizing pos done current with
  | nil => exact ⟨done, current, passes, (List.append_nil _).symm⟩
  | cons nextBuflen rest inductionHypothesis =>
    obtain ⟨nextDone, nextCurrent, next, issued⟩ := passes.next nextBuflen
    obtain ⟨lastDone, lastCurrent, last, others⟩ := inductionHypothesis next
    refine ⟨lastDone, lastCurrent, last, ?_⟩
    rw [others, issued, List.append_assoc]
    cases filled : (seqNext o f nextBuflen pos).1 with
    | none => simp [seqNexts, filled]
    | some io => simp [seqNexts, filled]

/-- A job without holes goes through its file in passes, in each direction on
its own and whatever lengths it asks for: the I/Os of a pass follow each other
without a gap from the start of the file, a pass is left only at the end, and no
I/O starts behind the size of the job or ends behind the file. -/
theorem sequential_job_passes {o : SeqOptions} (plain : o.ddirSeqAdd = 0) (f : SeqFile)
    (small : f.realFileSize < 18446744073709551616) (asked : List (IoDirection × (Nat → Nat)))
    (ddir : IoDirection) :
    ∃ done current,
      (ofDirection ddir (fillSeqIoUs o asked f.reset).1).filterMap id =
        done.flatten ++ current ∧
      (∀ pass ∈ done, ∃ stop, Tiles f.fileOffset pass stop ∧ f.ioSize + f.startOffset ≤ stop) ∧
      Tiles f.fileOffset current ((fillSeqIoUs o asked f.reset).2.lastPos ddir) ∧
      (done ≠ [] → StartsOver o) ∧
      ∀ io ∈ done.flatten ++ current,
        io.1 < f.fileOffset + f.ioSize ∧ io.1 + io.2 ≤ f.realFileSize := by
  have fresh : Passes o f f.fileOffset [] [] :=
    ⟨fun pass absent => (nomatch absent), rfl, fun some' => absurd rfl some',
      fun io absent => (nomatch absent)⟩
  obtain ⟨filled, reached⟩ := fillSeqIoUs_ofDirection plain small ddir asked
    (fun _ => Nat.le_refl f.fileOffset)
  obtain ⟨done, current, passes, issued⟩ := fresh.nexts (ofDirection ddir asked)
  refine ⟨done, current, ?_, passes.whole, ?_, passes.again, passes.inside⟩
  · rw [issued]
    exact congrArg (List.filterMap id) filled
  · have own : (fillSeqIoUs o asked f.reset).2.lastPos ddir =
        (seqNexts o f (ofDirection ddir asked) f.fileOffset).2 := reached
    rw [own]
    exact passes.tiles

theorem sequential_job_passes_three :
    ∃ (done : List (List (Nat × Nat))) (current : List (Nat × Nat)),
      (ofDirection .write (fillSeqIoUs ⟨true, 1, false, 0, 0, 0⟩
        [(.write, fun _ => 3000), (.write, fun _ => 2000), (.write, fun _ => 1000)]
        (SeqFile.reset ⟨0, 0, 5000, 5000, fun _ => 0⟩)).1).filterMap id =
          done.flatten ++ current ∧
      Tiles 0 current 1000 := by
  obtain ⟨done, current, issued, _, tiles, _⟩ := sequential_job_passes
    (show (⟨true, 1, false, 0, 0, 0⟩ : SeqOptions).ddirSeqAdd = 0 from rfl)
    ⟨0, 0, 5000, 5000, fun _ => 0⟩ (by decide)
    [(.write, fun _ => 3000), (.write, fun _ => 2000), (.write, fun _ => 1000)] .write
  exact ⟨done, current, issued, tiles⟩

/-! ## One block size -/

/-- A job of whole blocks, on a file that has all of them. -/
structure BlockJob (f : SeqFile) (bs blocks : Nat) : Prop where
  positive : 0 < bs
  many : 0 < blocks
  sized : f.ioSize = blocks * bs
  starts : f.startOffset = f.fileOffset
  contained : f.fileOffset + f.ioSize ≤ f.realFileSize

section Blocks

variable {o : SeqOptions} {f : SeqFile} {bs blocks : Nat} (job : BlockJob f bs blocks)

include job

theorem BlockJob.fits {number : Nat} (inside : number < blocks) :
    f.Fits (f.fileOffset + number * bs) bs := by
  have positive := job.positive
  have contained := job.contained
  have within : (number + 1) * bs ≤ blocks * bs := Nat.mul_le_mul_right bs inside
  rw [Nat.succ_mul] at within
  rw [job.sized] at contained
  rw [SeqFile.Fits, job.sized]
  omega

theorem BlockJob.atEnd (number : Nat) :
    f.AtEnd (f.fileOffset + number * bs) ↔ blocks ≤ number := by
  rw [SeqFile.AtEnd, job.starts, job.sized, Nat.add_comm (blocks * bs),
    Nat.add_le_add_iff_left, Nat.mul_le_mul_right_iff job.positive]

/-- The position after so many I/Os, counted in blocks. -/
theorem BlockJob.next_cycling (starts : StartsOver o) {number place : Nat}
    (reached : place = number % blocks ∨ (place = blocks ∧ number % blocks = 0)) :
    seqNext o f (fun _ => bs) (f.fileOffset + place * bs) =
      (some (f.fileOffset + number % blocks * bs, bs),
        f.fileOffset + (number % blocks + 1) * bs) := by
  have below := Nat.mod_lt number job.many
  have start : (if StartsOver o ∧ f.AtEnd (f.fileOffset + place * bs) then f.fileOffset
      else f.fileOffset + place * bs) = f.fileOffset + number % blocks * bs := by
    rcases reached with same | ⟨ended, first⟩
    · rw [if_neg fun both => by
        have := (job.atEnd place).mp both.2
        omega, same]
    · rw [if_pos ⟨starts, (job.atEnd place).mpr (by omega)⟩, first]
      omega
  rw [seqNext_eq start, if_pos (job.fits below), Nat.succ_mul, Nat.add_assoc]

theorem BlockJob.nexts_cycling (starts : StartsOver o) (count : Nat) {number place : Nat}
    (reached : place = number % blocks ∨ (place = blocks ∧ number % blocks = 0)) :
    (seqNexts o f (List.replicate count fun _ => bs) (f.fileOffset + place * bs)).1 =
      (List.range' number count).map fun k => some (f.fileOffset + k % blocks * bs, bs) := by
  induction count generalizing number place with
  | zero => rfl
  | succ count inductionHypothesis =>
    have many := job.many
    have below := Nat.mod_lt number many
    have next : number % blocks + 1 = (number + 1) % blocks ∨
        (number % blocks + 1 = blocks ∧ (number + 1) % blocks = 0) := by
      rw [← Nat.mod_add_mod number blocks 1]
      by_cases last : number % blocks + 1 = blocks
      · exact Or.inr ⟨last, by rw [last, Nat.mod_self]⟩
      · exact Or.inl (Nat.mod_eq_of_lt (by omega)).symm
    rw [List.replicate_succ, List.range'_succ, List.map_cons, seqNexts,
      job.next_cycling starts reached]
    exact congrArg _ (inductionHypothesis next)

theorem BlockJob.nexts_once (never : ¬ StartsOver o) (count number : Nat) :
    (seqNexts o f (List.replicate count fun _ => bs) (f.fileOffset + min number blocks * bs)).1 =
      (List.range' number count).map fun k =>
        if k < blocks then some (f.fileOffset + k * bs, bs) else none := by
  induction count generalizing number with
  | zero => rfl
  | succ count inductionHypothesis =>
    have next : seqNext o f (fun _ => bs) (f.fileOffset + min number blocks * bs) =
        (if number < blocks then some (f.fileOffset + number * bs, bs) else none,
          f.fileOffset + min (number + 1) blocks * bs) := by
      rw [seqNext_eq (if_neg fun both => never both.1)]
      by_cases inside : number < blocks
      · rw [Nat.min_eq_left inside.le, Nat.min_eq_left inside, if_pos (job.fits inside),
          if_pos inside, Nat.succ_mul, Nat.add_assoc]
      · have spent : ¬ f.Fits (f.fileOffset + blocks * bs) bs := by
          rw [SeqFile.Fits, job.sized]
          omega
        rw [Nat.min_eq_right (by omega), Nat.min_eq_right (by omega), if_neg spent,
          if_neg inside]
    rw [List.replicate_succ, List.range'_succ, List.map_cons, seqNexts, next]
    exact congrArg _ (inductionHypothesis (number + 1))

/-- A job of whole blocks reads or writes them in order.  One that starts over
goes round and round, and any other stops after the last block. -/
theorem sequential_job_cycles (plain : o.ddirSeqAdd = 0)
    (small : f.realFileSize < 18446744073709551616) (ddirs : List IoDirection)
    (ddir : IoDirection) :
    ofDirection ddir (fillSeqIoUs o (ddirs.map fun own => (own, fun _ => bs)) f.reset).1 =
      (List.range (ddirs.count ddir)).map fun k =>
        if StartsOver o ∨ k < blocks then some (f.fileOffset + k % blocks * bs, bs) else none := by
  have filled := (fillSeqIoUs_ofDirection plain small ddir
    (ddirs.map fun own => (own, fun _ => bs)) fun _ => Nat.le_refl f.fileOffset).1
  rw [ofDirection_map] at filled
  refine filled.trans ?_
  rw [List.range_eq_range']
  by_cases starts : StartsOver o
  · have cycle := job.nexts_cycling starts (ddirs.count ddir) (Or.inl (Nat.zero_mod blocks).symm)
    rw [Nat.zero_mul, Nat.add_zero] at cycle
    rw [cycle]
    apply List.map_congr_left
    intro k member
    rw [if_pos (Or.inl starts)]
  · have once := job.nexts_once starts (ddirs.count ddir) 0
    rw [Nat.zero_min, Nat.zero_mul, Nat.add_zero] at once
    rw [once]
    apply List.map_congr_left
    intro k member
    by_cases inside : k < blocks
    · rw [if_pos inside, if_pos (Or.inr inside), Nat.mod_eq_of_lt inside]
    · rw [if_neg inside, if_neg fun either => either.elim starts inside]

end Blocks

theorem sequential_job_cycles_mixed :
    BlockJob ⟨4096, 4096, 12288, 16384, fun _ => 4096⟩ 4096 3 ∧
      ofDirection .read (fillSeqIoUs ⟨true, 1, true, 0, 0, 0⟩
        ([.read, .write, .read, .read, .read].map fun own => (own, fun _ => 4096))
        (SeqFile.reset ⟨4096, 4096, 12288, 16384, fun _ => 4096⟩)).1 =
          [some (4096, 4096), some (8192, 4096), some (12288, 4096), some (4096, 4096)] := by
  have job : BlockJob ⟨4096, 4096, 12288, 16384, fun _ => 4096⟩ 4096 3 :=
    ⟨by decide, by decide, by decide, by decide, by decide⟩
  exact ⟨job, (sequential_job_cycles job rfl (by decide) _ .read).trans (by decide)⟩

end RaptorMark.Fio
