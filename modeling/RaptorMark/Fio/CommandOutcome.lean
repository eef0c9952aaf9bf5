import RaptorMark.Fio.CommandLine
import RaptorMark.Fio.NumberOptions

/-!
# When fio's command line ends the process

The arguments of one job are parsed one after the other into its options; each
option accepts a value or the process exits, and the job that results is
checked once more.
-/

set_option autoImplicit false

namespace RaptorMark.Fio

open Lib.CNumber

/-! ## Arguments -/

/-- `--name=value`. -/
def argument (opt val : List UInt8) : List UInt8 :=
  asciiText "--" ++ (opt ++ ascii '=' :: val)

theorem strchr_append (b : UInt8) (before after : List UInt8) (absent : b ∉ before) :
    strchr b (before ++ b :: after) = some (before, after) := by
  induction before with
  | nil => simp [strchr]
  | cons head rest ih =>
      rw [List.mem_cons, not_or] at absent
      rw [List.cons_append, strchr, if_neg (Ne.symm absent.1), ih absent.2]
      rfl

theorem longOption_argument (opt val : List UInt8) (plain : ascii '=' ∉ opt) :
    longOption (argument opt val) = some (opt, val) := by
  have dashes : startsWith "--" (argument opt val) = true :=
    List.isPrefixOf_iff_prefix.mpr (List.prefix_append _ _)
  rw [longOption, if_pos dashes]
  exact strchr_append (ascii '=') opt val plain

/-- An option of a job that is being parsed. -/
structure IsJobOption (opt : List UInt8) : Prop where
  plain : ascii '=' ∉ opt
  notEta : opt ≠ asciiText "eta"
  notFormat : opt ≠ asciiText "output-format"
  known : (findOption opt).isSome = true
  notName : startsWith "name" opt = false

variable (host : Host)

theorem parseArgument_job (state : Parsing) (td : ThreadData) (opt val : List UInt8)
    (job : IsJobOption opt) (current : state.td = some td) :
    parseArgument host (.parsing state) (argument opt val) =
      match parseValue host opt val td.o with
      | none => .exited 1
      | some o => .parsing { state with td := some { td with o } } := by
  have closed : closeJob host state opt = some state := by
    simp only [closeJob, current, job.notName, Bool.false_eq_true, if_false]
  have opened : openJob host state opt val = some (td, state.threadNumber) := by
    simp only [openJob, current]
  have reached : parseArgument host (.parsing state) (argument opt val) =
      getoptJob host state opt val := by
    simp only [parseArgument, longOption_argument opt val job.plain, if_neg job.notEta,
      if_neg job.notFormat, job.known, if_true]
  rw [reached]
  cases value : parseValue host opt val td.o with
  | none => simp only [getoptJob, closed, opened, value]
  | some o => simp only [getoptJob, closed, opened, value]

/-- A job's options in order, each with its value. -/
def parseValues (values : List (List UInt8 × List UInt8)) (o : ThreadOptions) :
    Option ThreadOptions :=
  values.foldlM (fun o value => parseValue host value.1 value.2 o) o

theorem foldl_exited (arguments : List (List UInt8)) (status : Nat) :
    arguments.foldl (parseArgument host) (.exited status) = .exited status := by
  induction arguments with
  | nil => rfl
  | cons argument rest ih => exact ih

/-- The loop over the options of one job. -/
theorem foldl_job (values : List (List UInt8 × List UInt8)) (state : Parsing) (td : ThreadData)
    (jobs : ∀ value ∈ values, IsJobOption value.1) (current : state.td = some td) :
    (values.map fun value => argument value.1 value.2).foldl (parseArgument host)
        (.parsing state) =
      match parseValues host values td.o with
      | none => .exited 1
      | some o => .parsing { state with td := some { td with o } } := by
  induction values generalizing state td with
  | nil =>
      simp only [parseValues, List.map_nil, List.foldl_nil, List.foldlM_nil, pure]
      rw [← current]
  | cons value rest ih =>
      rw [List.forall_mem_cons] at jobs
      simp only [parseValues, List.map_cons, List.foldl_cons, List.foldlM_cons]
      rw [parseArgument_job host state td value.1 value.2 jobs.1 current]
      cases parseValue host value.1 value.2 td.o with
      | none => exact foldl_exited host _ 1
      | some o => exact ih _ { td with o } jobs.2 rfl

/-! ## Values -/

theorem strToDecimal_nil (quantity : Quantity) (staleErange : Bool) :
    strToDecimal quantity staleErange [] = none := by
  have unconverted : ∀ base, strtoll base [] = none := fun _ => rfl
  unfold strToDecimal
  dsimp only
  rw [unconverted]

theorem numbersRead_nil (option : NumberOption) (staleErange : Nat → Bool) :
    numbersRead option staleErange [] = [none] := by
  have rejected : readPiece option 1024 (staleErange 0) [] = none := by
    unfold readPiece
    rw [if_neg (by simp)]
    change (strToDecimal _ _ []).filter _ = none
    rw [strToDecimal_nil, Option.filter_none]
  change [readPiece option 1024 (staleErange 0) []] = [none]
  rw [rejected]

theorem parseValue_found (opt val : List UInt8) (option : FioOption) (o : ThreadOptions)
    (found : findOption opt = some option) (notEngine : opt ≠ asciiText "ioengine") :
    parseValue host opt val o =
      if val = [] then none else handleOption (host.staleErange opt) option val o := by
  unfold parseValue parseCmdOption
  rw [found]
  simp only [notEngine, decide_false, Bool.false_and, Bool.not_false]
  cases handleOption (host.staleErange opt) option val o <;> rfl

variable (opt val : List UInt8) (option : NumberOption) (o : ThreadOptions)

theorem parseValue_accepted (found : findOption opt = some (.number option))
    (notEngine : opt ≠ asciiText "ioengine") (base : o.kbBase = 1024)
    (accepted : Accepts option (host.staleErange opt) val) :
    parseValue host opt val o =
      some (storeValues option 0 (numbersRead option (host.staleErange opt) val) o) := by
  have given : val ≠ [] := by
    rintro rfl
    obtain ⟨number, member⟩ := accepted
    rw [numbersRead_nil] at member
    simp at member
  rw [parseValue_found host opt val _ o found notEngine, if_neg given]
  simp only [handleOption]
  rw [handleNumber_eq option (keepsKbBase_of_found opt (.number option) found) _ val o base,
    (any_isSome_iff_accepts option (host.staleErange opt) val).mpr accepted]

theorem accepts_of_parseValue (next : ThreadOptions)
    (found : findOption opt = some (.number option)) (notEngine : opt ≠ asciiText "ioengine")
    (base : o.kbBase = 1024) (parsed : parseValue host opt val o = some next) :
    Accepts option (host.staleErange opt) val := by
  rw [parseValue_found host opt val _ o found notEngine] at parsed
  split at parsed
  · cases parsed
  · simp only [handleOption] at parsed
    rw [handleNumber_eq option (keepsKbBase_of_found opt (.number option) found) _ val o base]
      at parsed
    split at parsed
    · rename_i stored result
      exact (any_isSome_iff_accepts option _ val).mp (Prod.mk.inj result).1
    · cases parsed

/-- A text that is one number, as fio reads it for the option. -/
theorem parseValue_single (number : UInt64) (found : findOption opt = some (.number option))
    (notEngine : opt ≠ asciiText "ioengine") (base : o.kbBase = 1024)
    (read : numbersRead option (host.staleErange opt) val = [some number]) :
    parseValue host opt val o = some (storeOptionValue option 0 false number o) := by
  have accepted : Accepts option (host.staleErange opt) val := by
    refine ⟨number, ?_⟩
    rw [read]
    exact List.mem_singleton.mpr rfl
  rw [parseValue_accepted host opt val option o found notEngine base accepted, read]
  rfl

/-- A file name has room in a path. -/
def FilenameFits (val : List UInt8) : Prop := val ≠ [] ∧ val.length < pathMax

theorem parseValue_filename (fits : FilenameFits val) :
    parseValue host (asciiText "filename") val o = some { o with filename := val } := by
  have found : findOption (asciiText "filename") =
      some (.store pathMax fun text td => { td with filename := text }) := rfl
  obtain ⟨given, short⟩ := fits
  rw [parseValue_found host _ val _ o found (by decide), if_neg given]
  simp only [handleOption, handleStore]
  rw [if_neg given, if_neg (by unfold pathMax at *; omega)]

theorem filenameFits_of_parseValue (next : ThreadOptions)
    (parsed : parseValue host (asciiText "filename") val o = some next) : FilenameFits val := by
  have found : findOption (asciiText "filename") =
      some (.store pathMax fun text td => { td with filename := text }) := rfl
  rw [parseValue_found host _ val _ o found (by decide)] at parsed
  simp only [handleOption, handleStore] at parsed
  split_ifs at parsed with empty long
  refine ⟨empty, ?_⟩
  unfold pathMax at *
  omega

theorem parseValue_ioengine (given : val ≠ []) (loaded : host.loadIoengine val = true) :
    parseValue host (asciiText "ioengine") val o = some { o with ioengine := val } := by
  have found : findOption (asciiText "ioengine") =
      some (.store 0 fun text td => { td with ioengine := text }) := rfl
  unfold parseValue parseCmdOption
  rw [found]
  simp [handleOption, handleStore, given, loaded]

theorem ioengine_of_parseValue (next : ThreadOptions)
    (parsed : parseValue host (asciiText "ioengine") val o = some next) :
    val ≠ [] ∧ host.loadIoengine val = true := by
  have found : findOption (asciiText "ioengine") =
      some (.store 0 fun text td => { td with ioengine := text }) := rfl
  unfold parseValue parseCmdOption at parsed
  rw [found] at parsed
  simp only [handleOption, handleStore] at parsed
  split_ifs at parsed with empty long
  · exact absurd rfl long.1
  · obtain ⟨stored, loads⟩ := Option.filter_eq_some_iff.mp parsed
    obtain rfl := Option.some.inj stored
    exact ⟨empty, by simpa using loads⟩

/-! ## What every option leaves alone -/

theorem handleNumber_kbBase (staleErange : Nat → Bool) (next : ThreadOptions)
    (keeps : KeepsKbBase option)
    (handled : handleOption staleErange (.number option) val o = some next) :
    next.kbBase = o.kbBase := by
  simp only [handleOption, handleNumber, handlePieces_eq option keeps] at handled
  split at handled
  · rename_i stored result
    cases handled
    obtain ⟨_, rfl⟩ := Prod.mk.inj result
    apply storeValues_keeps option fun next => next.kbBase = o.kbBase
    · intro setter member number td base
      rw [keeps setter member, base]
    · rfl
  · cases handled

theorem handleRw_kbBase (staleErange : Bool) (next : ThreadOptions)
    (handled : handleRw staleErange val o = some next) : next.kbBase = o.kbBase := by
  simp only [handleRw, strRwCb] at handled
  split at handled
  · cases handled
  · split at handled
    · cases handled
      rfl
    · split at handled
      · cases handled
      · split_ifs at handled <;> cases handled <;> rfl

theorem handleOption_kbBase (staleErange : Nat → Bool) (entry : FioOption) (next : ThreadOptions)
    (found : findOption opt = some entry)
    (handled : handleOption staleErange entry val o = some next) : next.kbBase = o.kbBase := by
  cases entry with
  | number option =>
      exact handleNumber_kbBase val option o staleErange next
        (keepsKbBase_of_found opt (.number option) found) handled
  | rw => exact handleRw_kbBase val o (staleErange 0) next handled
  | store maxlen set =>
      simp only [handleOption, handleStore] at handled
      split_ifs at handled
      cases handled
      exact keepsKbBase_of_found opt _ found val o
  | bool set =>
      simp only [handleOption, handleBool] at handled
      split at handled
      · cases handled
      · split_ifs at handled
        cases handled
        exact keepsKbBase_of_found opt _ found _ o

theorem parseValue_kbBase (next : ThreadOptions) (parsed : parseValue host opt val o = some next) :
    next.kbBase = o.kbBase := by
  unfold parseValue at parsed
  split_ifs at parsed
  have handled := (Option.filter_eq_some_iff.mp parsed).1
  unfold parseCmdOption at handled
  split at handled
  · rename_i entry found
    exact handleOption_kbBase opt val o _ entry next found handled
  · cases handled

/-- Where all values are parsed, each one is, by options with the default
`kb_base`. -/
theorem parseValues_some_mem (values : List (List UInt8 × List UInt8)) (final : ThreadOptions)
    (base : o.kbBase = 1024) (parsed : parseValues host values o = some final) :
    ∀ value ∈ values, ∃ before after,
      before.kbBase = 1024 ∧ parseValue host value.1 value.2 before = some after := by
  induction values generalizing o with
  | nil => exact fun _ member => nomatch member
  | cons value rest ih =>
      rw [parseValues, List.foldlM_cons] at parsed
      obtain ⟨after, first, others⟩ := Option.bind_eq_some_iff.mp parsed
      rw [List.forall_mem_cons]
      refine ⟨⟨o, after, base, first⟩, ih after ?_ others⟩
      rw [parseValue_kbBase host value.1 value.2 o after first, base]

/-! ## The job -/

theorem fillMinBs_twice (minBs bs : UInt64) :
    fillMinBs (fillMinBs minBs bs) bs = fillMinBs minBs bs := by
  unfold fillMinBs
  split_ifs <;> simp_all

/-- The copies of a job are fixed up a second time, to no effect. -/
theorem fixupOptions_twice : fixupOptions (fixupOptions o).2 = fixupOptions o := by
  simp only [fixupOptions, fillMinBs_twice]
  rfl

theorem addJob_isSome_iff (threadNumber : Nat) :
    (addJob host threadNumber ⟨false, o⟩).isSome = true ↔
      host.loadIoengine o.ioengine = true ∧ (fixupOptions o).1 = true ∧
        ∀ copy < (o.numjobs - 1).toNat, host.newJob (threadNumber + copy) = true := by
  have again := fixupOptions_twice o
  cases loaded : host.loadIoengine o.ioengine with
  | false => simp [addJob, loaded]
  | true =>
      cases fixed : fixupOptions o with
      | mk accepted after =>
          rw [fixed] at again
          have sameEngine : after.ioengine = o.ioengine :=
            (congrArg (fun pair => pair.2.ioengine) fixed).symm
          have sameJobs : after.numjobs = o.numjobs :=
            (congrArg (fun pair => pair.2.numjobs) fixed).symm
          cases accepted with
          | false => simp [addJob, loaded, fixed]
          | true =>
              simp only [addJob, loaded, fixed, again, sameEngine, sameJobs, Bool.false_eq_true,
                if_false, Bool.not_true, Bool.and_true, true_and]
              split
              · rename_i every
                simpa using every
              · rename_i missing
                simpa using missing

/-! ## From option to option -/

/-- The options that `add_job` checks, and the base that numbers are read with. -/
structure Checked where
  kbBase : UInt64
  bs : PerDdir
  minBs : PerDdir
  size : UInt64
  ioengine : List UInt8
  numjobs : UInt32

def ThreadOptions.checked (o : ThreadOptions) : Checked :=
  ⟨o.kbBase, o.bs, o.minBs, o.size, o.ioengine, o.numjobs⟩

/-- Every job with the options `before` accepts the values and has the options
`after` then. -/
def Parses (values : List (List UInt8 × List UInt8)) (before after : Checked) : Prop :=
  ∀ o : ThreadOptions, o.checked = before →
    ∃ final, parseValues host values o = some final ∧ final.checked = after

theorem parses_nil (checked : Checked) : Parses host [] checked checked :=
  fun o same => ⟨o, rfl, same⟩

variable {host} in
theorem parses_append {first second : List (List UInt8 × List UInt8)}
    {before between after : Checked} (one : Parses host first before between)
    (two : Parses host second between after) : Parses host (first ++ second) before after := by
  intro o same
  obtain ⟨next, parsed, reached⟩ := one o same
  obtain ⟨final, rest, finished⟩ := two next reached
  refine ⟨final, ?_, finished⟩
  unfold parseValues at *
  rw [List.foldlM_append, parsed]
  exact rest

variable {host} in
theorem parses_cons {value : List UInt8 × List UInt8} {rest : List (List UInt8 × List UInt8)}
    {before between after : Checked} (one : Parses host [value] before between)
    (two : Parses host rest between after) : Parses host (value :: rest) before after :=
  parses_append one two

theorem parses_single (before after : Checked)
    (parsed : ∀ o : ThreadOptions, o.checked = before →
      ∃ final, parseValue host opt val o = some final ∧ final.checked = after) :
    Parses host [(opt, val)] before after := by
  intro o same
  obtain ⟨final, value, reached⟩ := parsed o same
  refine ⟨final, ?_, reached⟩
  simp only [parseValues, List.foldlM_cons, List.foldlM_nil]
  rw [value]
  rfl

variable (before : Checked)

theorem parses_filename (fits : FilenameFits val) :
    Parses host [(asciiText "filename", val)] before before := by
  apply parses_single
  intro o same
  exact ⟨_, parseValue_filename host val o fits, same⟩

theorem parses_readwrite (value : String × TdDdir) (known : value ∈ rwValues) :
    Parses host [(asciiText "readwrite", asciiText value.1)] before before := by
  have table : ∀ value ∈ rwValues, asciiText value.1 ≠ [] ∧
      (rwValues.find? fun other => matchesValue (asciiText value.1) other.1).isSome = true ∧
      strchr (ascii ':') (asciiText value.1) = none := by
    decide
  obtain ⟨given, isSome, noColon⟩ := table value known
  obtain ⟨matched, located⟩ := Option.isSome_iff_exists.mp isSome
  apply parses_single
  intro o same
  rw [parseValue_found host _ _ .rw o rfl (by decide), if_neg given]
  simp only [handleOption, handleRw, located, strRwCb, noColon]
  exact ⟨_, rfl, same⟩

theorem parses_iodepth (number : UInt64) (base : before.kbBase = 1024)
    (read : numbersRead iodepthOption (host.staleErange (asciiText "iodepth")) val =
      [some number]) :
    Parses host [(asciiText "iodepth", val)] before before := by
  apply parses_single
  rintro o rfl
  exact ⟨_, parseValue_single host _ val iodepthOption o number rfl (by decide) base read, rfl⟩

theorem parses_runtime (base : before.kbBase = 1024)
    (accepted : Accepts runtimeOption (host.staleErange (asciiText "runtime")) val) :
    Parses host [(asciiText "runtime", val)] before before := by
  apply parses_single
  rintro o rfl
  refine ⟨_, parseValue_accepted host _ val runtimeOption o rfl (by decide) base accepted, ?_⟩
  obtain ⟨timeout, stored⟩ := storeValues_runtime 0
    (numbersRead runtimeOption (host.staleErange (asciiText "runtime")) val) o
  rw [stored]
  rfl

theorem parses_blocksize (base : before.kbBase = 1024)
    (accepted : Accepts blocksizeOption (host.staleErange (asciiText "blocksize")) val) :
    Parses host [(asciiText "blocksize", val)] before { before with
      bs := blockSizes (numbersRead blocksizeOption (host.staleErange (asciiText "blocksize")) val)
        before.bs } := by
  apply parses_single
  rintro o rfl
  refine ⟨_, parseValue_accepted host _ val blocksizeOption o rfl (by decide) base accepted, ?_⟩
  rw [storeValues_blocksize]
  rfl

theorem parses_size (base : before.kbBase = 1024)
    (accepted : Accepts sizeOption (host.staleErange (asciiText "size")) val) :
    Parses host [(asciiText "size", val)] before { before with
      size := sizeGiven (numbersRead sizeOption (host.staleErange (asciiText "size")) val)
        before.size } := by
  apply parses_single
  rintro o rfl
  refine ⟨_, parseValue_accepted host _ val sizeOption o rfl (by decide) base accepted, ?_⟩
  obtain ⟨sizePercent, sizeNz, stored⟩ := storeValues_size 0
    (numbersRead sizeOption (host.staleErange (asciiText "size")) val) o
  rw [stored]
  rfl

theorem parses_direct : Parses host [(asciiText "direct", asciiText "1")] before before := by
  have one : checkInt (asciiText "1") = some 1 := by decide
  have found : findOption (asciiText "direct") =
      some (.bool fun il td => { td with odirect := il }) := rfl
  apply parses_single
  intro o same
  rw [parseValue_found host _ _ _ o found (by decide), if_neg (by decide)]
  simp only [handleOption, handleBool, one]
  exact ⟨_, rfl, same⟩

theorem parses_ioengine (given : val ≠ []) (loaded : host.loadIoengine val = true) :
    Parses host [(asciiText "ioengine", val)] before { before with ioengine := val } := by
  apply parses_single
  rintro o rfl
  exact ⟨_, parseValue_ioengine host val o given loaded, rfl⟩

theorem parses_numjobs (number : UInt64) (base : before.kbBase = 1024)
    (read : numbersRead numjobsOption (host.staleErange (asciiText "numjobs")) val =
      [some number]) :
    Parses host [(asciiText "numjobs", val)] before
      { before with numjobs := number.toUInt32 } := by
  apply parses_single
  rintro o rfl
  exact ⟨_, parseValue_single host _ val numjobsOption o number rfl (by decide) base read, rfl⟩

theorem parses_rwmixwrite (number : UInt64) (base : before.kbBase = 1024)
    (read : numbersRead rwmixwriteOption (host.staleErange (asciiText "rwmixwrite")) val =
      [some number]) :
    Parses host [(asciiText "rwmixwrite", val)] before before := by
  apply parses_single
  rintro o rfl
  exact ⟨_, parseValue_single host _ val rwmixwriteOption o number rfl (by decide) base read, rfl⟩

/-! ## The whole line -/

theorem parseArgument_name (given : val ≠ []) (notGlobal : startsWith "global" val = false) :
    parseArgument host (.parsing {}) (argument (asciiText "name") val) =
      if host.loadIoengine (asciiText "psync") && host.newJob 0 then
        .parsing { td := some ⟨false, { name := val }⟩, threadNumber := 1 }
      else
        .exited 1 := by
  have found : findOption (asciiText "name") =
      some (.store 0 fun text td => { td with name := text }) := rfl
  have value : parseValue host (asciiText "name") val {} = some { name := val } := by
    rw [parseValue_found host _ val _ _ found (by decide), if_neg given]
    simp only [handleOption, handleStore]
    rw [if_neg given, if_neg (by simp)]
  have notEta : asciiText "name" ≠ asciiText "eta" := by decide
  have notFormat : asciiText "name" ≠ asciiText "output-format" := by decide
  have isName : startsWith "name" (asciiText "name") = true := by decide
  have closed : closeJob host {} (asciiText "name") = some {} := rfl
  simp only [parseArgument, longOption_argument _ val (show ascii '=' ∉ asciiText "name" by decide),
    if_neg notEta, if_neg notFormat, found, Option.isSome_some, if_true, getoptJob, closed, openJob,
    isName, notGlobal]
  cases host.loadIoengine (asciiText "psync") with
  | false => simp
  | true =>
      cases host.newJob 0 with
      | false => simp
      | true => simp [value]

theorem parseArgument_eta (line : CmdLine) :
    parseArgument host line (argument (asciiText "eta") val) = line := by
  cases line with
  | parsing state =>
      simp only [parseArgument, longOption_argument _ val
        (show ascii '=' ∉ asciiText "eta" by decide), if_true]
  | returned => rfl
  | exited status => rfl

theorem parseArgument_outputFormat (line : CmdLine) (known : parseOutputFormat val = true) :
    parseArgument host line (argument (asciiText "output-format") val) = line := by
  have notEta : asciiText "output-format" ≠ asciiText "eta" := by decide
  cases line with
  | parsing state =>
      simp only [parseArgument, longOption_argument _ val
        (show ascii '=' ∉ asciiText "output-format" by decide), if_neg notEta, known, if_true]
  | returned => rfl
  | exited status => rfl

/-- The command line of one job: nothing but its values and the job they make
decides whether the process survives. -/
theorem parseCmdLine_job (program name eta format : List UInt8)
    (values : List (List UInt8 × List UInt8)) (named : name ≠ [])
    (notGlobal : startsWith "global" name = false) (jobs : ∀ value ∈ values, IsJobOption value.1)
    (known : parseOutputFormat format = true) :
    parseCmdLine host (program :: argument (asciiText "name") name ::
        (values.map fun value => argument value.1 value.2) ++
        [argument (asciiText "eta") eta, argument (asciiText "output-format") format]) =
      if host.loadIoengine (asciiText "psync") && host.newJob 0 then
        match parseValues host values { name } with
        | none => .exited 1
        | some o => if (addJob host 1 ⟨false, o⟩).isSome then .returned else .exited 1
      else
        .exited 1 := by
  unfold parseCmdLine
  simp only [List.cons_append, List.tail_cons, List.foldl_cons, List.foldl_append, List.foldl_nil,
    parseArgument_eta, parseArgument_outputFormat host format _ known,
    parseArgument_name host name named notGlobal]
  split
  · rw [foldl_job host values _ ⟨false, { name }⟩ jobs rfl]
    cases parseValues host values { name } with
    | none => rfl
    | some o => rfl
  · rw [foldl_exited]
    rfl

end RaptorMark.Fio
