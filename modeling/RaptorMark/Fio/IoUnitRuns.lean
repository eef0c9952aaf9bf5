import RaptorMark.Fio.IoUnitLife

/-!
# Runs of a job

Each function keeps the invariant of the units, and so does every run: whatever
the engine answers, whichever units it finishes and in whatever order, and
however issuing and reaping alternate.
-/

set_option autoImplicit false

namespace RaptorMark.Fio

/-- The invariant, wherever the idle units are. -/
def Accounted (iodepth : Nat) (td : IoThread) (held : List Nat) : Prop :=
  ∃ freed requeued, Conserved iodepth td freed requeued held

variable {iodepth : Nat} {td : IoThread} {ioU : Nat} {others : List Nat}

/-! ## Taking a unit -/

/-- The unit is out of its queue and everything else is as it was. -/
structure Picked (iodepth : Nat) (td after : IoThread) (ioU : Nat)
    (idle freedAfter requeuedAfter : List Nat) : Prop where
  freelist : QueueHolds after.ioUFreelist iodepth freedAfter
  requeues : RequeuesHold after.ioURequeues iodepth requeuedAfter
  lost : idle.Perm (ioU :: (freedAfter ++ requeuedAfter))
  same : SameElse ioU td after
  free : (after.ioUs ioU).free = true
  landed : (after.ioUs ioU).flight = false
  depth : after.curDepth = td.curDepth
  engine : after.engine = td.engine
  blocks : after.ioBlocks = td.ioBlocks
  issues : after.ioIssues = td.ioIssues

theorem pickIoU_spec (latencyFull : Bool) {freed requeued : List Nat}
    (conserved : Conserved iodepth td freed requeued []) :
    pickIoU latencyFull td = (none, td) ∨
      ∃ ioU after freedAfter requeuedAfter, pickIoU latencyFull td = (some ioU, after) ∧
        Picked iodepth td after ioU (freed ++ requeued) freedAfter requeuedAfter := by
  have total := conserved.total
  rw [List.length_nil] at total
  cases requeued with
  | cons ioU requeuedAfter =>
      rw [List.length_cons] at total
      have nonempty : ioURempty td.ioURequeues = false := by
        rw [Bool.eq_false_iff, ne_eq,
          conserved.requeues.empty_iff (by rw [List.length_cons]; omega)]
        exact List.cons_ne_nil _ _
      obtain ⟨picked, holds⟩ := conserved.requeues.pop (by omega)
      have idle := conserved.idle ioU (List.mem_append_right _ (List.mem_cons_self ..))
      refine Or.inr ⟨ioU, { td with ioURequeues := (ioURpop td.ioURequeues).2 }, freed,
        requeuedAfter, ?_, conserved.freelist, holds, List.perm_middle, fun _ _ => rfl, idle.1,
        idle.2, rfl, rfl, rfl, rfl⟩
      simp only [pickIoU, nonempty, Bool.not_false, if_true, picked]
  | nil =>
      have empty : ioURempty td.ioURequeues = true :=
        (conserved.requeues.empty_iff (Nat.zero_le _)).mpr rfl
      by_cases available : (!ioUQempty td.ioUFreelist && !latencyFull) = true
      · have some' : freed ≠ [] := by
          rw [Bool.and_eq_true, Bool.not_eq_true', Bool.eq_false_iff, ne_eq,
            conserved.freelist.empty_iff] at available
          exact available.1
        obtain ⟨freedAfter, ioU, rfl⟩ := (List.eq_nil_or_concat freed).resolve_left some'
        rw [List.concat_eq_append] at conserved ⊢
        obtain ⟨picked, holds⟩ := conserved.freelist.pop
        have idle := conserved.idle ioU (by simp)
        refine Or.inr ⟨ioU, IoThread.setIoU { td with ioUFreelist := (ioUQpop td.ioUFreelist).2 }
          ioU fun u => { u with hasFile := false }, freedAfter, [], ?_, holds, conserved.requeues,
          ?_, sameElse_setIoU _ ioU _, ?_, ?_, rfl, rfl, rfl, rfl⟩
        · simp only [pickIoU, empty, Bool.not_true, Bool.false_eq_true, if_false, available,
            if_true, picked]
        · rw [List.append_nil, List.append_nil]
          exact List.perm_append_singleton ..
        · rw [setIoU_self]
          exact idle.1
        · rw [setIoU_self]
          exact idle.2
      · refine Or.inl ?_
        simp only [pickIoU, empty, Bool.not_true, Bool.false_eq_true, if_false, available]

/-- A unit that `__get_io_u` hands out is held by the loop, no longer marked as
free and not in flight. -/
theorem getFreeIoU_spec (stopIo latencyFull : Bool) (accounted : Accounted iodepth td []) :
    ∃ picked after, getFreeIoU stopIo latencyFull td = some (picked, after) ∧
      Accounted iodepth after picked.toList ∧
      ∀ ioU, picked = some ioU →
        (after.ioUs ioU).free = false ∧ (after.ioUs ioU).flight = false := by
  obtain ⟨freed, requeued, conserved⟩ := accounted
  by_cases stopped : stopIo = true
  · exact ⟨none, td, if_pos stopped, ⟨freed, requeued, conserved⟩, by rintro _ ⟨⟩⟩
  · rcases pickIoU_spec latencyFull conserved with none' |
      ⟨ioU, middle, freedAfter, requeuedAfter, picks, picked⟩
    · refine ⟨none, td, ?_, ⟨freed, requeued, conserved⟩, by rintro _ ⟨⟩⟩
      rw [getFreeIoU, if_neg stopped, none']
    · let mark := fun u : IoU =>
        { u with free := false, resid := 0, error := 0, inCurDepth := true }
      refine ⟨some ioU, IoThread.setIoU { middle with curDepth := middle.curDepth + 1 } ioU mark,
        ?_, ⟨freedAfter, requeuedAfter, conserved.take picked.freelist picked.requeues picked.lost
          ?_ picked.engine ?_ ?_ ?_ picked.blocks picked.issues⟩, ?_⟩
      · simp only [getFreeIoU, if_neg stopped, picks, picked.free, if_true]
        rfl
      · change middle.curDepth + 1 = td.curDepth + 1
        rw [picked.depth]
      · exact picked.same.trans fun other differ =>
          sameElse_setIoU { middle with curDepth := middle.curDepth + 1 } ioU mark other differ
      · rw [setIoU_self]
      · rw [setIoU_self]
        exact picked.landed
      · rintro _ ⟨⟩
        rw [setIoU_self]
        exact ⟨rfl, picked.landed⟩

theorem getIoU_spec (stopIo latencyFull : Bool) (fill : FillAnswer) (prepared : Bool)
    (accounted : Accounted iodepth td []) :
    ∃ picked after, getIoU stopIo latencyFull fill prepared td = some (picked, after) ∧
      Accounted iodepth after picked.toList ∧
      ∀ ioU, picked = some ioU →
        (after.ioUs ioU).free = false ∧ (after.ioUs ioU).flight = false := by
  obtain ⟨picked, middle, got, accounted, landed⟩ :=
    getFreeIoU_spec stopIo latencyFull accounted
  cases picked with
  | none => exact ⟨none, middle, by rw [getIoU, got]; rfl, accounted, by rintro _ ⟨⟩⟩
  | some ioU =>
      obtain ⟨freed, requeued, conserved⟩ := accounted
      obtain ⟨owned, grounded⟩ := landed ioU rfl
      have backAgain : ∀ ready : IoThread, Conserved iodepth ready freed requeued [ioU] →
          (ready.ioUs ioU).flight = false →
          ∃ after, putIoU ready ioU = some after ∧ Accounted iodepth after [] := by
        intro ready held flight
        obtain ⟨after, put, conserved, _⟩ := held.putIoU flight
        exact ⟨after, put, _, _, conserved⟩
      have setUp : (if (middle.ioUs ioU).hasFile then some middle else fillUnit middle ioU fill) =
          none ∨ ∃ ready, (if (middle.ioUs ioU).hasFile then some middle
            else fillUnit middle ioU fill) = some ready ∧
              Conserved iodepth ready freed requeued [ioU] ∧
              (ready.ioUs ioU).free = false ∧ (ready.ioUs ioU).flight = false := by
        by_cases requeued' : (middle.ioUs ioU).hasFile = true
        · rw [if_pos requeued']
          exact Or.inr ⟨middle, rfl, conserved, owned, grounded⟩
        · rw [if_neg requeued']
          cases fill with
          | failed => exact Or.inl rfl
          | filled ddir offset buflen =>
              refine Or.inr ⟨_, rfl, conserved.setIoU _ rfl ?_, ?_⟩
              · intro ddir _
                simp only [flying, grounded, Bool.false_eq_true, false_and, if_false, Nat.le_refl]
              · rw [setIoU_self]
                exact ⟨owned, grounded⟩
      rcases setUp with nothing | ⟨ready, set, held, taken, flight⟩
      · obtain ⟨after, put, accounted⟩ := backAgain middle conserved grounded
        refine ⟨none, after, ?_, accounted, by rintro _ ⟨⟩⟩
        simp only [getIoU, got, Option.bind_eq_bind, Option.bind_some, nothing, put]
      · cases prepared with
        | true =>
            refine ⟨some ioU, ready, ?_, ⟨freed, requeued, held⟩, ?_⟩
            · simp only [getIoU, got, Option.bind_eq_bind, Option.bind_some, set, if_true]
            · rintro _ ⟨⟩
              exact ⟨taken, flight⟩
        | false =>
            obtain ⟨after, put, accounted⟩ := backAgain ready held flight
            refine ⟨none, after, ?_, accounted, by rintro _ ⟨⟩⟩
            simp only [getIoU, got, Option.bind_eq_bind, Option.bind_some, set,
              Bool.false_eq_true, if_false, put]

/-! ## Completing a unit -/

theorem flying_of_flight {u : IoU} (flies : u.flight = true) : flying u u.ddir = 1 :=
  if_pos ⟨flies, rfl⟩

theorem counted_le {counter : IoDirection → Nat} {u : IoU} (flies : u.flight = true)
    (ddir : IoDirection) : counted counter u.ddir 1 ddir ≤ counter ddir + flying u ddir := by
  by_cases same : ddir = u.ddir
  · rw [same, counted, Function.update_self, flying_of_flight flies]
  · rw [counted, Function.update_of_ne same]
    exact Nat.le_add_right _ _

theorem sameElse_shortened (td : IoThread) (ioU : Nat) :
    SameElse ioU td (countShort (advanceIoU td ioU) ioU) :=
  fun _ differ => Function.update_of_ne differ ..

/-- A unit in flight is given back or requeued. -/
theorem completeIoU_spec (accounted : Accounted iodepth td (ioU :: others))
    (flies : (td.ioUs ioU).flight = true) :
    ∃ after, completeIoU td ioU = some after ∧ Accounted iodepth after others ∧
      SameElse ioU td after := by
  obtain ⟨freed, requeued, conserved⟩ := accounted
  let clear := fun u : IoU => { u with flight := false }
  have same := sameElse_setIoU td ioU clear
  have landed : ((td.setIoU ioU clear).ioUs ioU).flight = false := by rw [setIoU_self]
  have counts : ((td.setIoU ioU clear).ioUs ioU).inCurDepth = (td.ioUs ioU).inCurDepth := by
    rw [setIoU_self]
  have cleared := conserved.setIoU clear rfl fun ddir _ => by
    rw [flying_landed (clear _) rfl]
    exact Nat.zero_le _
  simp only [completeIoU, ioCompleted, flies, Bool.not_true, Bool.false_eq_true, if_false]
  by_cases noTransfer : ((td.setIoU ioU clear).ioUs ioU).ddir = .sync ∨
      ((td.setIoU ioU clear).ioUs ioU).error ≠ 0
  · rw [if_pos noTransfer]
    obtain ⟨after, put, conserved, rest⟩ := cleared.putIoU landed
    exact ⟨after, put, ⟨_, _, conserved⟩, same.trans rest⟩
  · rw [if_neg noTransfer]
    have blocks : ∀ ddir, counted td.ioBlocks ((td.setIoU ioU clear).ioUs ioU).ddir 1 ddir ≤
        td.ioBlocks ddir + flying (td.ioUs ioU) ddir := by
      rw [setIoU_self]
      exact counted_le flies
    let ready := countShort (advanceIoU (td.setIoU ioU clear) ioU) ioU
    have sameReady : SameElse ioU td ready := same.trans (sameElse_shortened _ ioU)
    have readyLanded : (ready.ioUs ioU).flight = false := by
      simp only [ready, countShort, advanceIoU, setIoU_self, clear]
    have readyCounts : (ready.ioUs ioU).inCurDepth = (td.ioUs ioU).inCurDepth := by
      simp only [ready, countShort, advanceIoU, setIoU_self, clear]
    split_ifs with short inside
    · have shortened : Conserved iodepth ready freed requeued (ioU :: others) :=
        cleared.change rfl rfl rfl rfl (sameElse_shortened _ ioU)
          (by rw [readyCounts]; exact conserved.counted ioU (by simp))
          fun ddir _ elsewhere before => by
            rw [flying_landed _ landed] at before
            rw [flying_landed _ readyLanded]
            exact before
      obtain ⟨after, requeue, conserved, rest⟩ := shortened.requeueIoU
      refine ⟨after, ?_, ⟨_, _, conserved⟩, sameReady.trans rest⟩
      change ((requeueIoU ready ioU).bind fun td => some (none, td)).bind _ = _
      rw [requeue]
      rfl
    · obtain ⟨after, put, conserved, rest⟩ := conserved.finish
        (countBlock ready ((td.setIoU ioU clear).ioUs ioU).ddir _) rfl rfl rfl rfl sameReady
        readyCounts readyLanded rfl blocks
      exact ⟨after, put, ⟨_, _, conserved⟩, rest⟩
    · obtain ⟨after, put, conserved, rest⟩ := conserved.finish
        (countBlock (td.setIoU ioU clear) ((td.setIoU ioU clear).ioUs ioU).ddir _) rfl rfl rfl rfl
        same counts landed rfl blocks
      exact ⟨after, put, ⟨_, _, conserved⟩, rest⟩

/-! ## Issuing a unit -/

theorem launchIoU_units (td : IoThread) (ioU : Nat) :
    (launchIoU td ioU).ioUs =
      (td.setIoU ioU fun u => { u with flight := true, error := 0, resid := 0 }).ioUs := by
  rw [launchIoU]
  split <;> rfl

theorem launchIoU_self (td : IoThread) (ioU : Nat) :
    (launchIoU td ioU).ioUs ioU = { td.ioUs ioU with flight := true, error := 0, resid := 0 } := by
  rw [launchIoU_units, setIoU_self]

theorem launchIoU_fields (td : IoThread) (ioU : Nat) :
    (launchIoU td ioU).ioUFreelist = td.ioUFreelist ∧
      (launchIoU td ioU).ioURequeues = td.ioURequeues ∧ (launchIoU td ioU).engine = td.engine ∧
      (launchIoU td ioU).curDepth = td.curDepth ∧ (launchIoU td ioU).ioBlocks = td.ioBlocks := by
  rw [launchIoU]
  split <;> exact ⟨rfl, rfl, rfl, rfl, rfl⟩

theorem launchIoU_issues (td : IoThread) (ioU : Nat) (isRw : ddirRw (td.ioUs ioU).ddir = true) :
    (launchIoU td ioU).ioIssues = counted td.ioIssues (td.ioUs ioU).ddir 1 := by
  rw [launchIoU, if_pos isRw]

theorem sameElse_launchIoU (td : IoThread) (ioU : Nat) : SameElse ioU td (launchIoU td ioU) := by
  intro other differ
  rw [launchIoU_units]
  exact sameElse_setIoU td ioU _ other differ

theorem Conserved.launch {freed requeued : List Nat}
    (conserved : Conserved iodepth td freed requeued (ioU :: others))
    (landed : (td.ioUs ioU).flight = false) :
    Conserved iodepth (launchIoU td ioU) freed requeued (ioU :: others) := by
  obtain ⟨freelist, requeues, engine, depth, blocks⟩ := launchIoU_fields td ioU
  refine conserved.change freelist requeues engine depth (sameElse_launchIoU td ioU) ?_ ?_
  · rw [launchIoU_self]
    exact conserved.counted ioU (List.mem_append_right _ (List.mem_cons_self ..))
  · intro ddir isRw elsewhere before
    rw [flying_landed _ landed] at before
    rw [blocks, launchIoU_self]
    by_cases same : (td.ioUs ioU).ddir = ddir
    · have counts : (launchIoU td ioU).ioIssues ddir = td.ioIssues ddir + 1 := by
        rw [launchIoU_issues td ioU (by rw [same]; exact isRw), same]
        exact Function.update_self ..
      have flies : flying { td.ioUs ioU with flight := true, error := 0, resid := 0 } ddir = 1 :=
        if_pos ⟨rfl, same⟩
      rw [flies, counts]
      omega
    · have counts : (launchIoU td ioU).ioIssues ddir = td.ioIssues ddir := by
        rw [launchIoU]
        split
        · exact Function.update_of_ne (fun equal => same equal.symm) ..
        · rfl
      have flies : flying { td.ioUs ioU with flight := true, error := 0, resid := 0 } ddir = 0 :=
        if_neg fun both => same both.2
      rw [flies, counts]
      omega

theorem uncounted_counted (counter : IoDirection → Nat) (ddir : IoDirection) :
    uncounted (counted counter ddir 1) ddir = counter := by
  funext other
  by_cases same : other = ddir
  · rw [same, uncounted, Function.update_self, counted, Function.update_self]
    rfl
  · rw [uncounted, Function.update_of_ne same, counted, Function.update_of_ne same]

/-- A unit the engine has not taken is still held by the loop, and in flight if
the engine has finished it. -/
theorem ioUSubmit_spec (answer : QueueAnswer) (accounted : Accounted iodepth td [ioU])
    (owned : (td.ioUs ioU).free = false) (landed : (td.ioUs ioU).flight = false) :
    ∃ status after, ioUSubmit td ioU answer = some (status, after) ∧
      (status = .queued → Accounted iodepth after []) ∧
      (status ≠ .queued → Accounted iodepth after [ioU]) ∧
      (status = .completed → (after.ioUs ioU).flight = true) := by
  obtain ⟨freed, requeued, conserved⟩ := accounted
  have launched := conserved.launch landed
  have flies : ((launchIoU td ioU).ioUs ioU).flight = true := by rw [launchIoU_self]
  have stillOwned : ((launchIoU td ioU).ioUs ioU).free = false := by
    rw [launchIoU_self]
    exact owned
  cases answer with
  | overlaps =>
      exact ⟨.busy, td, rfl, by rintro ⟨⟩, fun _ => ⟨freed, requeued, conserved⟩, by rintro ⟨⟩⟩
  | completed result =>
      refine ⟨.completed, (launchIoU td ioU).setResult ioU result, ?_, by rintro ⟨⟩, fun _ =>
        ⟨freed, requeued, launched.setIoU _ rfl fun _ _ => Nat.le_refl _⟩, fun _ => ?_⟩
      · simp only [ioUSubmit, tdIoQueue, landed, Bool.false_eq_true, if_false]
      · rw [IoThread.setResult, setIoU_self]
        exact flies
  | queued =>
      refine ⟨.queued, { launchIoU td ioU with engine := (launchIoU td ioU).engine ++ [ioU] }, ?_,
        fun _ => ⟨freed, requeued, launched.hand stillOwned flies⟩, fun other => absurd rfl other,
        by rintro ⟨⟩⟩
      simp only [ioUSubmit, tdIoQueue, landed, Bool.false_eq_true, if_false]
  | busy =>
      by_cases isRw : ddirRw (td.ioUs ioU).ddir = true
      · let clear := fun u : IoU => { u with flight := false }
        refine ⟨.busy, IoThread.setIoU { launchIoU td ioU with
          ioIssues := uncounted (launchIoU td ioU).ioIssues (td.ioUs ioU).ddir } ioU clear, ?_,
          by rintro ⟨⟩, fun _ => ⟨freed, requeued, ?_⟩, by rintro ⟨⟩⟩
        · simp only [ioUSubmit, tdIoQueue, landed, Bool.false_eq_true, if_false, isRw, if_true]
          rfl
        · obtain ⟨freelist, requeues, engine, depth, blocks⟩ := launchIoU_fields td ioU
          refine conserved.change freelist requeues engine depth
            ((sameElse_launchIoU td ioU).trans fun other differ =>
              sameElse_setIoU (launchIoU td ioU) ioU clear other differ) ?_ ?_
          · rw [setIoU_self]
            change ((launchIoU td ioU).ioUs ioU).inCurDepth = true
            rw [launchIoU_self]
            exact conserved.counted ioU (by simp)
          · intro ddir _ elsewhere before
            rw [flying_landed _ landed] at before
            rw [setIoU_self, flying_landed _ rfl]
            change (launchIoU td ioU).ioBlocks ddir + (0 + elsewhere) ≤
              uncounted (launchIoU td ioU).ioIssues (td.ioUs ioU).ddir ddir
            rw [blocks, launchIoU_issues td ioU isRw, uncounted_counted]
            exact before
      · refine ⟨.busy, launchIoU td ioU, ?_, by rintro ⟨⟩, fun _ => ⟨freed, requeued, launched⟩,
          by rintro ⟨⟩⟩
        simp only [ioUSubmit, tdIoQueue, landed, Bool.false_eq_true, if_false, isRw]

theorem Conserved.countShort {freed requeued held : List Nat}
    (conserved : Conserved iodepth td freed requeued held) (ioU : Nat) :
    Conserved iodepth (Fio.countShort td ioU) freed requeued held :=
  ⟨conserved.freelist, conserved.requeues, conserved.everywhere, conserved.depth, conserved.idle,
    conserved.taken, conserved.counted, conserved.issued⟩

/-- Whatever became of a unit, the loop holds none afterwards. -/
theorem ioQueueEvent_spec (status : QStatus) (taken : status = .queued → Accounted iodepth td [])
    (held : status ≠ .queued → Accounted iodepth td [ioU])
    (flies : status = .completed → (td.ioUs ioU).flight = true) :
    ∃ after, ioQueueEvent td ioU status = some after ∧ Accounted iodepth after [] := by
  cases status with
  | queued => exact ⟨td, rfl, taken rfl⟩
  | busy =>
      obtain ⟨freed, requeued, conserved⟩ := held (by rintro ⟨⟩)
      obtain ⟨after, requeue, conserved, _⟩ := conserved.requeueIoU
      exact ⟨after, requeue, _, _, conserved⟩
  | completed =>
      obtain ⟨freed, requeued, conserved⟩ := held (by rintro ⟨⟩)
      have cleared : ∃ after, clearIoU td ioU = some after ∧ Accounted iodepth after [] := by
        obtain ⟨after, clear, conserved, _⟩ := conserved.clearIoU
        exact ⟨after, clear, _, _, conserved⟩
      have completed : ∀ ready : IoThread, Conserved iodepth ready freed requeued [ioU] →
          (ready.ioUs ioU).flight = true →
          ∃ after, completeIoU ready ioU = some after ∧ Accounted iodepth after [] := by
        intro ready conserved flight
        obtain ⟨after, complete, accounted, _⟩ :=
          completeIoU_spec ⟨freed, requeued, conserved⟩ flight
        exact ⟨after, complete, accounted⟩
      have settled : ∀ ready : IoThread, Conserved iodepth ready freed requeued [ioU] →
          (ready.ioUs ioU).flight = true →
          ∃ after, (if (ready.ioUs ioU).offset = ready.realFileSize then completeIoU ready ioU
            else requeueIoU ready ioU) = some after ∧ Accounted iodepth after [] := by
        intro ready conserved flight
        split
        · exact completed ready conserved flight
        · obtain ⟨after, requeue, conserved, _⟩ := conserved.requeueIoU
          exact ⟨after, requeue, _, _, conserved⟩
      have advanced : Conserved iodepth (advanceIoU td ioU) freed requeued [ioU] :=
        conserved.setIoU _ rfl fun _ _ => Nat.le_refl _
      have flight : ((advanceIoU td ioU).ioUs ioU).flight = true := by
        rw [advanceIoU, setIoU_self]
        exact flies rfl
      rw [ioQueueEvent]
      dsimp only
      by_cases failed : (td.ioUs ioU).error ≠ 0
      · rw [if_pos failed]
        exact cleared
      · rw [if_neg failed]
        by_cases short : (td.ioUs ioU).resid ≠ 0
        · rw [if_pos short]
          by_cases nothing : (td.ioUs ioU).xferBuflen - (td.ioUs ioU).resid = 0
          · rw [if_pos nothing]
            exact cleared
          · rw [if_neg nothing]
            by_cases isRw : ddirRw (td.ioUs ioU).ddir = true
            · rw [if_pos isRw]
              exact settled _ (advanced.countShort ioU) flight
            · rw [if_neg isRw]
              exact settled _ advanced flight
        · rw [if_neg short]
          exact completed td conserved (flies rfl)

/-! ## Reaping -/

theorem reapEvents_spec (events : List (Nat × IoResult)) (engine : List Nat) :
    engine.Perm ((reapEvents events engine).1.map Prod.fst ++ (reapEvents events engine).2) := by
  induction events generalizing engine with
  | nil => exact List.Perm.refl _
  | cons event rest ih =>
      obtain ⟨index, result⟩ := event
      rw [reapEvents]
      cases found : engine[index]? with
      | none => exact ih engine
      | some ioU =>
          obtain ⟨inside, isUnit⟩ := List.getElem?_eq_some_iff.mp found
          have taken := List.getElem_cons_eraseIdx_perm inside
          rw [isUnit] at taken
          exact taken.symm.trans ((ih (engine.eraseIdx index)).cons ioU)

/-- The units an engine has finished are given back one after the other. -/
theorem iosCompleted_spec (reaped : List (Nat × IoResult))
    (accounted : Accounted iodepth td (reaped.map Prod.fst))
    (flies : ∀ ioU ∈ reaped.map Prod.fst, (td.ioUs ioU).flight = true) :
    ∃ after, iosCompleted reaped td = some after ∧ Accounted iodepth after [] := by
  induction reaped generalizing td with
  | nil => exact ⟨td, rfl, accounted⟩
  | cons event rest ih =>
      obtain ⟨ioU, result⟩ := event
      obtain ⟨freed, requeued, conserved⟩ := accounted
      rw [List.map_cons, List.forall_mem_cons] at flies
      have answered : Conserved iodepth (td.setResult ioU result) freed requeued
          (ioU :: rest.map Prod.fst) :=
        conserved.setIoU _ rfl fun _ _ => Nat.le_refl _
      have flight : ((td.setResult ioU result).ioUs ioU).flight = true := by
        rw [IoThread.setResult, setIoU_self]
        exact flies.1
      obtain ⟨middle, complete, accounted, same⟩ :=
        completeIoU_spec ⟨freed, requeued, answered⟩ flight
      -- the other units are not touched, so they are still in flight
      have others : ∀ other ∈ rest.map Prod.fst, (middle.ioUs other).flight = true := by
        intro other member
        have differ : other ≠ ioU := fun equal => conserved.held_only.2.2 (equal ▸ member)
        rw [same other differ, IoThread.setResult, sameElse_setIoU td ioU _ other differ]
        exact flies.2 other member
      obtain ⟨after, run, accounted⟩ := ih accounted others
      refine ⟨after, ?_, accounted⟩
      rw [iosCompleted]
      change (completeIoU (td.setResult ioU result) ioU).bind (iosCompleted rest) = some after
      rw [complete]
      exact run

/-! ## Runs -/

theorem jobStep_spec (event : JobEvent) (accounted : Accounted iodepth td []) :
    ∃ after, jobStep td event = some after ∧ Accounted iodepth after [] := by
  cases event with
  | issue stopIo latencyFull fill prepared answer =>
      obtain ⟨picked, middle, got, accounted, landed⟩ :=
        getIoU_spec stopIo latencyFull fill prepared accounted
      cases picked with
      | none => exact ⟨middle, by rw [jobStep, got]; rfl, accounted⟩
      | some ioU =>
          obtain ⟨owned, grounded⟩ := landed ioU rfl
          obtain ⟨status, submitted, submit, taken, held, flies⟩ :=
            ioUSubmit_spec answer accounted owned grounded
          obtain ⟨after, handled, accounted⟩ := ioQueueEvent_spec status taken held flies
          refine ⟨after, ?_, accounted⟩
          simp only [jobStep, got, Option.bind_eq_bind, Option.bind_some, submit]
          exact handled
  | reap events =>
      obtain ⟨freed, requeued, conserved⟩ := accounted
      have split := reapEvents_spec events td.engine
      refine iosCompleted_spec (reapEvents events td.engine).1
        ⟨freed, requeued, conserved.collect split⟩ ?_
      intro ioU member
      exact (conserved.taken ioU (split.mem_iff.mpr (List.mem_append_left _ member))).2

theorem jobRun_spec (events : List JobEvent) (accounted : Accounted iodepth td []) :
    ∃ after, jobRun events td = some after ∧ Accounted iodepth after [] := by
  induction events generalizing td with
  | nil => exact ⟨td, rfl, accounted⟩
  | cons event rest ih =>
      obtain ⟨middle, step, accounted⟩ := jobStep_spec event accounted
      obtain ⟨after, run, accounted⟩ := ih accounted
      refine ⟨after, ?_, accounted⟩
      rw [jobRun]
      change (jobStep td event).bind (jobRun rest) = some after
      rw [step]
      exact run

theorem pushIoUs_spec (units : List Nat) {q : IoUQueue} {pushed : List Nat}
    (holds : QueueHolds q iodepth pushed) (room : pushed.length + units.length ≤ iodepth) :
    ∃ full, pushIoUs units q = some full ∧ QueueHolds full iodepth (pushed ++ units) := by
  induction units generalizing q pushed with
  | nil => exact ⟨q, rfl, by rwa [List.append_nil]⟩
  | cons ioU rest ih =>
      rw [List.length_cons] at room
      obtain ⟨middle, push, holds⟩ := holds.push (by omega) ioU
      obtain ⟨full, rest', holds⟩ := ih holds (by
        rw [List.length_append, List.length_singleton]
        omega)
      refine ⟨full, ?_, by rwa [List.append_assoc] at holds⟩
      rw [pushIoUs]
      change (ioUQpush q ioU).bind (pushIoUs rest) = some full
      rw [push]
      exact rest'

theorem initIoU_spec (small : iodepth < 2147483648) (realFileSize : Nat) :
    ∃ td, initIoU iodepth realFileSize = some td ∧ Accounted iodepth td [] := by
  have empty : QueueHolds (ioUQinit iodepth) iodepth [] := ⟨rfl, rfl, by
    intro i inside
    cases inside⟩
  obtain ⟨full, pushed, holds⟩ := pushIoUs_spec (List.range iodepth) empty (by simp)
  rw [List.nil_append] at holds
  obtain ⟨wide, power⟩ := ringSize_spec (show iodepth < 4294967296 by omega)
  refine ⟨_, by rw [initIoU, pushed]; rfl, List.range iodepth, [], holds,
    ⟨wide, power, ?_, ?_, rfl⟩, ?_, rfl, ?_, ?_, ?_, ?_⟩
  · exact Nat.lt_of_le_of_lt (Nat.zero_le _) wide
  · exact (Nat.zero_mod _).symm
  · simp
  · exact fun _ _ => ⟨rfl, rfl⟩
  · rintro _ ⟨⟩
  · rintro _ ⟨⟩
  · intro ddir _
    have none' : ∀ units : List Nat, (units.map fun _ => flying newIoU ddir).sum = 0 := by
      intro units
      rw [flying_landed newIoU rfl]
      simp
    change 0 + _ ≤ 0
    rw [Nat.zero_add]
    exact Nat.le_of_eq (none' (List.range iodepth))

/-- Whatever happens to a job, each of its units is in the free list, in the ring
of requeued units or with the engine, and in one of these only, as its flags say;
the depth is the number of units with the engine, and no more blocks have been
counted as done or are in flight than have been counted as issued. -/
theorem io_units_conserved {iodepth : Nat} (small : iodepth < 2147483648) (realFileSize : Nat)
    (events : List JobEvent) :
    ∃ start td freed requeued, initIoU iodepth realFileSize = some start ∧
      jobRun events start = some td ∧ QueueHolds td.ioUFreelist iodepth freed ∧
      RequeuesHold td.ioURequeues iodepth requeued ∧
      (freed ++ requeued ++ td.engine).Perm (List.range iodepth) ∧
      td.curDepth = td.engine.length ∧
      (∀ ioU ∈ freed ++ requeued, (td.ioUs ioU).free = true ∧ (td.ioUs ioU).flight = false) ∧
      (∀ ioU ∈ td.engine, (td.ioUs ioU).free = false ∧ (td.ioUs ioU).flight = true) ∧
      ∀ ddir, ddirRw ddir = true →
        td.ioBlocks ddir + inFlight iodepth td ddir ≤ td.ioIssues ddir := by
  obtain ⟨start, init, accounted⟩ := initIoU_spec small realFileSize
  obtain ⟨td, run, freed, requeued, conserved⟩ := jobRun_spec events accounted
  have everywhere := conserved.everywhere
  rw [List.append_nil] at everywhere
  exact ⟨start, td, freed, requeued, init, run, conserved.freelist, conserved.requeues, everywhere,
    conserved.depth, conserved.idle, conserved.taken, conserved.issued⟩

/-- A write is taken by the engine and finished short, a read is refused, and the
write is issued again. -/
theorem io_units_conserved_two :
    ∃ start td freed requeued, initIoU 2 8192 = some start ∧
      jobRun [.issue false false (.filled .write 0 4096) true .queued,
        .issue false false (.filled .read 4096 4096) true .busy, .reap [(0, ⟨0, 1024⟩)],
        .issue false false .failed true .queued] start = some td ∧
      QueueHolds td.ioUFreelist 2 freed ∧ RequeuesHold td.ioURequeues 2 requeued ∧
      (freed ++ requeued ++ td.engine).Perm (List.range 2) ∧ td.curDepth = td.engine.length ∧
      (∀ ioU ∈ freed ++ requeued, (td.ioUs ioU).free = true ∧ (td.ioUs ioU).flight = false) ∧
      (∀ ioU ∈ td.engine, (td.ioUs ioU).free = false ∧ (td.ioUs ioU).flight = true) ∧
      ∀ ddir, ddirRw ddir = true → td.ioBlocks ddir + inFlight 2 td ddir ≤ td.ioIssues ddir :=
  io_units_conserved (by decide) 8192 _

end RaptorMark.Fio
