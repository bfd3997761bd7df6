import Scryd.Storage.DaemonRuns
import Mathlib.Algebra.Group.Int.Defs

/-!
# The startup delay after crashes

`serve` asks the journal how many of the preceding runs died and waits before
it opens the index, longer with every crash of a recent streak.
-/

namespace Scryd.Runtime

open Scryd.Foundation Scryd.Storage

def crashLoopThreshold : Nat := 3

/-- `CRASH_BACKOFF_BASE`, in seconds like the two durations below. -/
def crashBackoffBase : Nat := 5

def crashBackoffCap : Nat := 300

def crashWindow : Int := 600

/-- `i64::saturating_sub`. -/
def saturatingSub (left right : Int) : Int := max (-2 ^ 63) (min (left - right) (2 ^ 63 - 1))

theorem saturatingSub_le_iff (left right : Int) {bound : Int} (low : -2 ^ 63 ≤ bound)
    (high : bound < 2 ^ 63 - 1) : saturatingSub left right ≤ bound ↔ left - right ≤ bound := by
  unfold saturatingSub
  omega

/-- `crash_backoff`, in seconds.  The shift is capped and the product of `u64`s saturates. -/
def crashBackoff (stats : DaemonRunStats) (nowUnix : Int) : Nat :=
  if stats.consecutiveUnclean < crashLoopThreshold then 0
  else
    let recent :=
      match stats.lastCrashUnix with
      | some last => decide (saturatingSub nowUnix last ≤ crashWindow)
      | none => false
    if recent then
      let exp := min (stats.consecutiveUnclean - crashLoopThreshold) 16
      min (min (crashBackoffBase * 2 ^ exp) (2 ^ 64 - 1)) crashBackoffCap
    else 0

/-- The delay that a streak of crashes calls for. -/
def streakBackoff (streak : Nat) (lastCrash : Option Int) (now : Int) : Nat :=
  match lastCrash with
  | none => 0
  | some last =>
      if streak < 3 ∨ now - last > 600 then 0 else min (5 * 2 ^ (streak - 3)) 300

/-- Six doublings reach the cap, so neither the cap of the shift nor a lower bound on the
streak from there on shows. -/
theorem capped_of_six_le {exponent : Nat} (large : 6 ≤ exponent) :
    min (5 * 2 ^ exponent) 300 = 300 := by
  have grows : 2 ^ 6 ≤ 2 ^ exponent := Nat.pow_le_pow_right (by decide) large
  omega

/-- The shift in use gives the delay of the whole streak. -/
theorem delay_of_streak {streak : Nat} (long : 3 ≤ streak) :
    min (min (5 * 2 ^ min (min streak keepRuns - 3) 16) (2 ^ 64 - 1)) 300 =
      min (5 * 2 ^ (streak - 3)) 300 := by
  have fits : min (min streak keepRuns - 3) 16 ≤ 16 := Nat.min_le_right _ _
  have bounded : 2 ^ min (min streak keepRuns - 3) 16 ≤ 2 ^ 16 :=
    Nat.pow_le_pow_right (by decide) fits
  have unsaturated : min (5 * 2 ^ min (min streak keepRuns - 3) 16) (2 ^ 64 - 1) =
      5 * 2 ^ min (min streak keepRuns - 3) 16 := by omega
  rw [unsaturated]
  by_cases short : streak - 3 < 6
  · have same : min (min streak keepRuns - 3) 16 = streak - 3 := by
      simp only [keepRuns]
      omega
    rw [same]
  · have reached : 6 ≤ min (min streak keepRuns - 3) 16 := by
      simp only [keepRuns]
      omega
    rw [capped_of_six_le reached, capped_of_six_le (by omega)]

/-- The pruned count gives the delay of the whole streak. -/
theorem crashBackoff_eq_streakBackoff (runId streak : Nat) (lastCrash : Option Int) (now : Int) :
    crashBackoff ⟨runId, min streak keepRuns, lastCrash⟩ now =
      streakBackoff streak lastCrash now := by
  have threshold : min streak keepRuns < 3 ↔ streak < 3 := by
    simp only [keepRuns]
    omega
  cases lastCrash with
  | none => simp [crashBackoff, streakBackoff]
  | some last =>
      have window := @saturatingSub_le_iff now last crashWindow (by decide) (by decide)
      simp only [crashBackoff, streakBackoff, crashLoopThreshold, threshold]
      by_cases short : streak < 3
      · rw [if_pos short, if_pos (.inl short)]
      · by_cases recent : now - last ≤ 600
        · have inside : saturatingSub now last ≤ crashWindow := window.mpr recent
          rw [if_neg short, if_pos (decide_eq_true inside), if_neg (by omega)]
          exact delay_of_streak (by omega)
        · have outside : ¬ decide (saturatingSub now last ≤ crashWindow) = true := fun inside =>
            recent (window.mp (of_decide_eq_true inside))
          rw [if_neg short, if_neg outside, if_pos (.inr (by omega))]

/-- After any history of runs, the next `begin_run` counts up by one, reports the streak up
to the rows that are kept and the start of the run that crashed last, keeps at most
`KEEP_RUNS` rows, and the startup delay is that of the whole streak at any time. -/
theorem run_accounting (history : List DaemonRun) (now : Int) (version : String) (pid : Int) :
    ∃ stats next,
      (beginRun now version pid).perform ioFailed none (play history) = (.ok stats, next) ∧
      stats.runId = history.length + 1 ∧
      stats.consecutiveUnclean = min (uncleanStreak history) 200 ∧
      stats.lastCrashUnix =
        (if 0 < uncleanStreak history then history.getLast?.map (·.startedAt) else none) ∧
      next.rows.length ≤ 200 ∧
      ∀ t, crashBackoff stats t =
        streakBackoff (uncleanStreak history) stats.lastCrashUnix t := by
  obtain ⟨rows, sequence⟩ := play_spec history
  have found := trailingUnclean_recentRows history
  refine ⟨_, _, beginRun_perform now version pid (play history), ?_⟩
  rw [rows, sequence, found]
  refine ⟨rfl, rfl, rfl, ?_, fun t => crashBackoff_eq_streakBackoff _ _ _ t⟩
  have kept := @filter_drop_journal (history ++ [⟨now, version, pid, none⟩])
    (history.length + 1) (history.length - keepRuns) (by omega)
  have stored : (insertRun now version pid (play history)).rows =
      (journal (history ++ [⟨now, version, pid, none⟩])).drop (history.length - keepRuns) := by
    rw [journal_concat, List.drop_append_of_le_length (by simp)]
    simp [insertRun, rows, sequence, recentRows, DaemonRun.row]
  simp only [pruneRuns, stored]
  rw [kept]
  simp only [List.length_drop, journal_length, List.length_append, List.length_singleton,
    keepRuns]
  omega

end Scryd.Runtime
