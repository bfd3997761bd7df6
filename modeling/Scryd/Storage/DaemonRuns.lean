import Scryd.Foundation.Autocommit
import Scryd.Storage.SyncState
import Mathlib.Data.List.Induction

/-!
# The `daemon_runs` journal

One row per process start.  A row without `stopped_at` is a run that died.  Old
rows are pruned at every start while the ids keep growing.
-/

namespace Scryd.Storage

open Scryd.Foundation

structure DaemonRunRow where
  runId : Nat
  startedAt : Int
  stoppedAt : Option Int
  clean : Bool
  version : String
  pid : Int
  deriving DecidableEq

/-- The relation in the order of its row ids, with the `AUTOINCREMENT` high-water mark. -/
structure DaemonRuns where
  rows : List DaemonRunRow
  sequence : Nat
  increasing : rows.Pairwise fun earlier later => earlier.runId < later.runId
  assigned : ∀ row ∈ rows, row.runId ≤ sequence

def DaemonRuns.empty : DaemonRuns := ⟨[], 0, .nil, nofun⟩

def keepRuns : Nat := 200

structure DaemonRunStats where
  runId : Nat
  consecutiveUnclean : Nat
  lastCrashUnix : Option Int
  deriving DecidableEq

/-- The loop over the rows, newest first.  The count is a `u32` and saturates. -/
def trailingUnclean : List DaemonRunRow → Nat → Option Int → Nat × Option Int
  | [], consecutiveUnclean, lastCrashUnix => (consecutiveUnclean, lastCrashUnix)
  | row :: rest, consecutiveUnclean, lastCrashUnix =>
      if row.stoppedAt.isSome then
        (consecutiveUnclean, lastCrashUnix)
      else
        trailingUnclean rest (min (consecutiveUnclean + 1) (2 ^ 32 - 1))
          (lastCrashUnix.or (some row.startedAt))

/-- `INSERT INTO daemon_runs ...`, with the next id of the sequence. -/
def insertRun (now : Int) (version : String) (pid : Int) (runs : DaemonRuns) : DaemonRuns where
  rows := runs.rows ++ [⟨runs.sequence + 1, now, none, false, version, pid⟩]
  sequence := runs.sequence + 1
  increasing := by
    refine List.pairwise_append.mpr ⟨runs.increasing, List.pairwise_singleton _ _, ?_⟩
    intro stored membership added isRow
    rw [List.mem_singleton.mp isRow]
    exact Nat.lt_succ_of_le (runs.assigned stored membership)
  assigned := by
    intro row membership
    rcases List.mem_append.mp membership with stored | added
    · exact Nat.le_succ_of_le (runs.assigned row stored)
    · rw [List.mem_singleton.mp added]

/-- `DELETE FROM daemon_runs WHERE run_id <= ?1 - ?2`. -/
def pruneRuns (runId : Nat) (runs : DaemonRuns) : DaemonRuns where
  rows := runs.rows.filter fun row => decide (runId < row.runId + keepRuns)
  sequence := runs.sequence
  increasing := runs.increasing.filter _
  assigned := fun row membership => runs.assigned row (List.mem_filter.mp membership).1

/-- `StorageHandle::begin_run`. -/
def beginRun (now : Int) (version : String) (pid : Int) :
    Script DaemonRuns StorageError DaemonRunStats :=
  .issue .ok fun runs =>
    -- `ORDER BY run_id DESC`.
    let (consecutiveUnclean, lastCrashUnix) := trailingUnclean runs.rows.reverse 0 none
    .issue (fun current => .ok (insertRun now version pid current)) fun inserted =>
      let runId := inserted.sequence
      .issue (fun current => .ok (pruneRuns runId current)) fun _ =>
        .done ⟨runId, consecutiveUnclean, lastCrashUnix⟩

def DaemonRunRow.finish (now : Int) (runId : Nat) (row : DaemonRunRow) : DaemonRunRow :=
  if row.runId = runId then { row with stoppedAt := some now, clean := true } else row

@[simp] theorem DaemonRunRow.finish_runId (now : Int) (runId : Nat) (row : DaemonRunRow) :
    (row.finish now runId).runId = row.runId := by
  unfold finish
  split <;> rfl

/-- `StorageHandle::finish_run`. -/
def finishRun (now : Int) (runId : Nat) (runs : DaemonRuns) : DaemonRuns where
  rows := runs.rows.map (DaemonRunRow.finish now runId)
  sequence := runs.sequence
  increasing := by simpa [List.pairwise_map] using runs.increasing
  assigned := by
    intro row membership
    obtain ⟨stored, inRows, rfl⟩ := List.mem_map.mp membership
    rw [DaemonRunRow.finish_runId]
    exact runs.assigned stored inRows

section History

/-- One process: its start and, if it was shut down cleanly, the time of that. -/
structure DaemonRun where
  startedAt : Int
  version : String
  pid : Int
  finishedAt : Option Int

/-- The row of a run that is over. -/
def DaemonRun.row (run : DaemonRun) (runId : Nat) : DaemonRunRow :=
  ⟨runId, run.startedAt, run.finishedAt, run.finishedAt.isSome, run.version, run.pid⟩

/-- `begin_run` and, for a run that ends cleanly, `finish_run` with the id it returned. -/
def playRun (runs : DaemonRuns) (run : DaemonRun) : DaemonRuns :=
  match (beginRun run.startedAt run.version run.pid).perform ioFailed none runs with
  | (.error _, next) => next
  | (.ok stats, next) =>
      match run.finishedAt with
      | none => next
      | some now => finishRun now stats.runId next

/-- The journal after a history of runs. -/
def play (history : List DaemonRun) : DaemonRuns := history.foldl playRun .empty

/-- The rows of a history, none of them pruned. -/
def journal (history : List DaemonRun) : List DaemonRunRow :=
  history.mapIdx fun index run => run.row (index + 1)

/-- The number of runs without `finish_run` at the end of a history. -/
def uncleanStreak (history : List DaemonRun) : Nat :=
  (history.reverse.takeWhile fun run => run.finishedAt.isNone).length

/-- The rows that survive the pruning: the newest ones. -/
def recentRows (history : List DaemonRun) : List DaemonRunRow :=
  (journal history).drop (history.length - keepRuns)

@[simp] theorem journal_length (history : List DaemonRun) :
    (journal history).length = history.length := by
  simp [journal]

@[simp] theorem journal_concat (history : List DaemonRun) (run : DaemonRun) :
    journal (history ++ [run]) = journal history ++ [run.row (history.length + 1)] := by
  simp [journal]

theorem beginRun_perform (now : Int) (version : String) (pid : Int) (runs : DaemonRuns) :
    (beginRun now version pid).perform ioFailed none runs =
      (.ok ⟨runs.sequence + 1, (trailingUnclean runs.rows.reverse 0 none).1,
        (trailingUnclean runs.rows.reverse 0 none).2⟩,
        pruneRuns (runs.sequence + 1) (insertRun now version pid runs)) := rfl

/-- Ids count up from one, so pruning by id drops a prefix. -/
theorem filter_journal (history : List DaemonRun) (last : Nat) :
    (journal history).filter (fun row => decide (last < row.runId + keepRuns)) =
      (journal history).drop (last - keepRuns) := by
  induction history using List.reverseRecOn with
  | nil => simp [journal]
  | append_singleton history run inductionHypothesis =>
      rw [journal_concat, List.filter_append, inductionHypothesis, List.drop_append,
        journal_length]
      congr 1
      by_cases kept : last < history.length + 1 + keepRuns
      · have reached : last - keepRuns - history.length = 0 := by omega
        simp [DaemonRun.row, kept, reached]
      · have passed : 1 ≤ last - keepRuns - history.length := by omega
        rw [List.drop_of_length_le passed]
        simp [DaemonRun.row, kept]

/-- Dropping a prefix first does not change what pruning leaves. -/
theorem filter_drop_journal (history : List DaemonRun) {last dropped : Nat}
    (older : dropped ≤ last - keepRuns) :
    ((journal history).drop dropped).filter
        (fun row => decide (last < row.runId + keepRuns)) =
      (journal history).drop (last - keepRuns) := by
  rw [← filter_journal]
  conv_rhs => rw [← List.take_append_drop dropped (journal history), List.filter_append]
  have pruned : ((journal history).take dropped).filter
      (fun row => decide (last < row.runId + keepRuns)) = [] := by
    rw [List.filter_eq_nil_iff]
    intro row membership survives
    obtain ⟨index, bound, rfl⟩ := List.mem_take_iff_getElem.mp membership
    simp only [journal, List.getElem_mapIdx, DaemonRun.row, decide_eq_true_eq] at survives
    omega
  rw [pruned, List.nil_append]

theorem finish_of_older {now : Int} {history : List DaemonRun} {row : DaemonRunRow}
    (older : row ∈ journal history) : row.finish now (history.length + 1) = row := by
  obtain ⟨index, bound, rfl⟩ := List.mem_iff_getElem.mp older
  rw [journal_length] at bound
  have different : ((journal history)[index]).runId ≠ history.length + 1 := by
    simp only [journal, List.getElem_mapIdx, DaemonRun.row]
    omega
  exact if_neg different

/-- The journal invariant: the newest rows are there, and every id ever assigned is counted. -/
theorem play_spec (history : List DaemonRun) :
    (play history).rows = recentRows history ∧ (play history).sequence = history.length := by
  induction history using List.reverseRecOn with
  | nil => exact ⟨rfl, rfl⟩
  | append_singleton history run inductionHypothesis =>
      obtain ⟨rows, sequence⟩ := inductionHypothesis
      have played : play (history ++ [run]) = playRun (play history) run := by
        simp [play]
      have pruned : (pruneRuns (history.length + 1)
          (insertRun run.startedAt run.version run.pid (play history))).rows =
            (journal history).drop (history.length + 1 - keepRuns) ++
              [⟨history.length + 1, run.startedAt, none, false, run.version, run.pid⟩] := by
        have kept : history.length + 1 < history.length + 1 + keepRuns := by
          simp [keepRuns]
        simp only [pruneRuns, insertRun, rows, sequence, recentRows, List.filter_append]
        rw [filter_drop_journal history (by omega)]
        simp [kept]
      have recent : recentRows (history ++ [run]) =
          (journal history).drop (history.length + 1 - keepRuns) ++
            [run.row (history.length + 1)] := by
        have short : history.length + 1 - keepRuns ≤ (journal history).length := by
          rw [journal_length]
          simp only [keepRuns]
          omega
        rw [recentRows, journal_concat, List.length_append, List.length_singleton,
          List.drop_append_of_le_length short]
      rw [played, recent]
      simp only [playRun, beginRun_perform, sequence]
      cases finished : run.finishedAt with
      | none =>
          refine ⟨?_, by simp [pruneRuns, insertRun, sequence]⟩
          rw [pruned]
          simp [DaemonRun.row, finished]
      | some now =>
          refine ⟨?_, by simp [finishRun, pruneRuns, insertRun, sequence]⟩
          have unchanged : ((journal history).drop (history.length + 1 - keepRuns)).map
              (DaemonRunRow.finish now (history.length + 1)) =
                (journal history).drop (history.length + 1 - keepRuns) := by
            conv_rhs => rw [← List.map_id ((journal history).drop _)]
            apply List.map_congr_left
            intro row membership
            exact finish_of_older (List.mem_of_mem_drop membership)
          simp only [finishRun]
          rw [pruned, List.map_append, unchanged]
          simp [DaemonRunRow.finish, DaemonRun.row, finished]

/-- The loop counts the rows before the first one that was stopped, and remembers the newest. -/
theorem trailingUnclean_spec (rows : List DaemonRunRow) {count : Nat}
    (small : count + rows.length ≤ 2 ^ 32 - 1) (last : Option Int) :
    trailingUnclean rows count last =
      (count + (rows.takeWhile fun row => row.stoppedAt.isNone).length,
        last.or ((rows.takeWhile fun row => row.stoppedAt.isNone).head?.map (·.startedAt))) := by
  induction rows generalizing count last with
  | nil => cases last <;> rfl
  | cons row rest inductionHypothesis =>
      rw [List.length_cons] at small
      cases stopped : row.stoppedAt with
      | some now => simp [trailingUnclean, stopped]
      | none =>
          have next : min (count + 1) (2 ^ 32 - 1) = count + 1 := by omega
          have later := @inductionHypothesis (count + 1) (by omega)
            (last.or (some row.startedAt))
          simp only [trailingUnclean, stopped, Option.isSome_none, Bool.false_eq_true, if_false,
            next, later, List.takeWhile_cons, Option.isNone_none, if_true, List.length_cons,
            List.head?_cons, Option.map_some]
          refine Prod.ext (by dsimp only; omega) ?_
          cases last <;> rfl

/-- Newest first, the rows of a history look like its runs. -/
theorem takeWhile_journal (history : List DaemonRun) :
    ((journal history).reverse.takeWhile fun row => row.stoppedAt.isNone).map (·.startedAt) =
      (history.reverse.takeWhile fun run => run.finishedAt.isNone).map (·.startedAt) := by
  induction history using List.reverseRecOn with
  | nil => rfl
  | append_singleton history run inductionHypothesis =>
      rw [journal_concat]
      simp only [List.reverse_append, List.reverse_singleton, List.singleton_append,
        List.takeWhile_cons, DaemonRun.row]
      cases run.finishedAt with
      | none => simpa using inductionHypothesis
      | some now => rfl

theorem head?_takeWhile_reverse (history : List DaemonRun) :
    ((history.reverse.takeWhile fun run => run.finishedAt.isNone).map (·.startedAt)).head? =
      if 0 < uncleanStreak history then history.getLast?.map (·.startedAt) else none := by
  unfold uncleanStreak
  rw [List.getLast?_eq_head?_reverse]
  cases history.reverse with
  | nil => rfl
  | cons run rest => cases finished : run.finishedAt <;> simp [finished]

theorem recentRows_length (history : List DaemonRun) :
    (recentRows history).length = min history.length keepRuns := by
  simp only [recentRows, List.length_drop, journal_length]
  omega

/-- What the loop finds after a history: the streak, as far as the rows reach, and the start
of the last run if that run was not stopped. -/
theorem trailingUnclean_recentRows (history : List DaemonRun) :
    trailingUnclean (recentRows history).reverse 0 none =
      (min (uncleanStreak history) keepRuns,
        if 0 < uncleanStreak history then history.getLast?.map (·.startedAt) else none) := by
  have short : 0 + (recentRows history).reverse.length ≤ 2 ^ 32 - 1 := by
    rw [List.length_reverse, recentRows_length]
    simp only [keepRuns]
    omega
  have newest : (recentRows history).reverse = (journal history).reverse.take keepRuns := by
    by_cases pruned : keepRuns ≤ history.length
    · have room : history.length - (history.length - keepRuns) = keepRuns := by omega
      rw [recentRows, List.reverse_drop, journal_length, room]
    · rw [recentRows, Nat.sub_eq_zero_of_le (by omega), List.drop_zero,
        List.take_of_length_le (by simp; omega)]
  have starts := takeWhile_journal history
  have length := congrArg List.length starts
  simp only [List.length_map] at length
  rw [trailingUnclean_spec _ short, newest, ← List.take_takeWhile, Nat.zero_add,
    List.length_take, length, ← uncleanStreak, Nat.min_comm, ← List.head?_map, List.map_take,
    starts, List.head?_take, head?_takeWhile_reverse]
  simp [keepRuns]

end History

end Scryd.Storage
