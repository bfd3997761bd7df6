import Scryd.Imap.Client
import Mathlib.Data.List.Destutter

/-!
# Tombstone scans

The scan compares the local UIDs with `UID SEARCH ALL` and tombstones the
ones the server no longer has.  It addresses a message by account, folder and
UID.
-/

namespace Scryd.Imap

open Scryd.Foundation Scryd.Storage

/-- `compute_tombstones`: sorted, with neighbouring repetitions removed. -/
def computeTombstones (localUids server : List Nat) : List Nat :=
  (sortBy id (localUids.filter fun uid => decide (uid ∉ server))).destutter (· ≠ ·)

/-- The id under which `scan` tombstones a message. -/
def scanId (conn : Connection) (uid : Nat) : String :=
  conn.accountId.text ++ "/" ++ conn.folder ++ "/" ++ toString uid

theorem mem_computeTombstones {localUids server : List Nat} {uid : Nat}
    (gone : uid ∈ computeTombstones localUids server) : uid ∈ localUids ∧ uid ∉ server := by
  have sorted := (List.destutter_sublist _ _).subset gone
  rw [mem_sortBy, List.mem_filter, decide_eq_true_eq] at sorted
  exact sorted

variable {State : Type}

/-- The loop of `scan`.  The first failing tombstone ends it. -/
def tombstoneAll (sink : MessageSink State) (conn : Connection) :
    List Nat → State → Except ClientError Unit × State
  | [], state => (.ok (), state)
  | uid :: rest, state =>
      match sink.tombstone (scanId conn uid) state with
      | (.error err, next) => (.error err, next)
      | (.ok (), next) => tombstoneAll sink conn rest next

/-- `tombstone::scan`. -/
def scan (sink : MessageSink State) (client : Client) (conn : Connection)
    (localUids : List Nat) (state : State) : Except ClientError Nat × State :=
  match client.uidSearchAll with
  | .error err => (.error err, state)
  | .ok serverUids =>
      let gone := computeTombstones localUids serverUids
      match tombstoneAll sink conn gone state with
      | (.error err, next) => (.error err, next)
      | (.ok (), next) => (.ok (gone.length % 2 ^ 32), next)

/-- A scan asks for the tombstones of the difference, in this order, and for nothing else. -/
theorem scan_state (sink : MessageSink State) (client : Client) (conn : Connection)
    (localUids : List Nat) (state : State) :
    (scan sink client conn localUids state).2 = (tombstoneAll sink conn
      (match client.uidSearchAll with
        | .ok serverUids => computeTombstones localUids serverUids
        | .error _ => []) state).2 := by
  cases answered : client.uidSearchAll with
  | error err => simp only [scan, answered, tombstoneAll]
  | ok serverUids =>
      simp only [scan, answered]
      cases tombstoneAll sink conn (computeTombstones localUids serverUids) state with
      | mk result next => cases result <;> rfl

/-- What the loop of a successful or failing scan preserves of the sink's state. -/
theorem tombstoneAll_preserves (sink : MessageSink State) (conn : Connection)
    {property : State → Prop} {uids : List Nat}
    (preserved : ∀ uid ∈ uids, ∀ state, property state →
      property (sink.tombstone (scanId conn uid) state).2)
    {state : State} (initially : property state) :
    property (tombstoneAll sink conn uids state).2 := by
  induction uids generalizing state with
  | nil => exact initially
  | cons uid rest inductionHypothesis =>
      have next := preserved uid List.mem_cons_self state initially
      unfold tombstoneAll
      split
      next err after failed => rwa [failed] at next
      next after done =>
        rw [done] at next
        exact inductionHypothesis
          (fun other later => preserved other (List.mem_cons_of_mem uid later)) next

theorem scan_preserves (sink : MessageSink State) (client : Client) (conn : Connection)
    (localUids : List Nat) {property : State → Prop}
    (preserved : ∀ uid state, property state →
      property (sink.tombstone (scanId conn uid) state).2)
    {state : State} (initially : property state) :
    property (scan sink client conn localUids state).2 := by
  unfold scan
  split
  next => exact initially
  next serverUids answered =>
    have after := @tombstoneAll_preserves _ sink conn _ (computeTombstones localUids serverUids)
      (fun uid _ => preserved uid) state initially
    dsimp only
    split
    next err next failed => rwa [failed] at after
    next next done => rwa [done] at after

end Scryd.Imap
