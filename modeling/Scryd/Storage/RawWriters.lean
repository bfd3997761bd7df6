import Scryd.Foundation.Publish
import Scryd.Storage.Raw

/-!
# Concurrent writers of the raw store

`write_raw` creates a sidecar, writes the bytes, syncs and renames.  The calls
run beside each other, for different messages or the same one, and each may
fail or be killed at any of these steps.  At the `.eml` paths this is the same
as calls of the atomic `Files.write`.
-/

namespace Scryd.Storage

open Scryd.Foundation

/-- `uuid::Uuid::new_v4()` as text: the hyphenated form. -/
structure Nonce where
  text : String
  hyphenated : text.length = 36

/-- One call of `write_raw` with the nonce it draws. -/
structure RawWrite where
  accountId : AccountId
  messageId : String
  dateUnix : Int
  bytes : List UInt8
  nonce : Nonce

/-- `raw::with_unique_tmp_suffix`. -/
def withUniqueTmpSuffix (nonce : Nonce) (path : String) : String :=
  path ++ ("." ++ nonce.text ++ ".tmp")

theorem withUniqueTmpSuffix_inj {first second : Nonce} {path other : String}
    (same : withUniqueTmpSuffix first path = withUniqueTmpSuffix second other) :
    path = other ∧ first.text = second.text := by
  have chars : path.toList ++ ("." ++ first.text ++ ".tmp").toList =
      other.toList ++ ("." ++ second.text ++ ".tmp").toList := by
    rw [← String.toList_append, ← String.toList_append]
    exact congrArg String.toList same
  have sameLength : ("." ++ first.text ++ ".tmp").toList.length =
      ("." ++ second.text ++ ".tmp").toList.length := by
    simp only [String.length_toList, String.length_append, first.hyphenated, second.hyphenated]
  obtain ⟨samePath, sameSuffix⟩ := List.append_inj' chars sameLength
  refine ⟨String.toList_inj.mp samePath, String.toList_inj.mp ?_⟩
  simpa using sameSuffix

/-- No sidecar is the final path of anything. -/
theorem withUniqueTmpSuffix_ne_eml (nonce : Nonce) (path stem : String) :
    withUniqueTmpSuffix nonce path ≠ stem ++ ".eml" := by
  intro same
  have chars : (path ++ ("." ++ nonce.text)).toList ++ ".tmp".toList =
      stem.toList ++ ".eml".toList := by
    rw [← String.toList_append, ← String.toList_append, String.append_assoc]
    exact congrArg String.toList same
  have sameEnd : ".tmp".toList = ".eml".toList := (List.append_inj' chars (by simp)).2
  simp at sameEnd

section Writers

variable {Writer : Type} (chrono : Chrono) (hexSha256 : String → String) (dataDir : String)

/-- `raw_path` of a call. -/
def RawWrite.path (call : RawWrite) : String :=
  rawPath chrono hexSha256 dataDir call.accountId call.messageId call.dateUnix

theorem RawWrite.path_eml (call : RawWrite) :
    ∃ stem, call.path chrono hexSha256 dataDir = stem ++ ".eml" :=
  ⟨_, rfl⟩

/-- What `write_raw` does with the file system. -/
def RawWrite.publication (call : RawWrite) : Publication String UInt8 where
  sidecar := withUniqueTmpSuffix call.nonce (call.path chrono hexSha256 dataDir)
  target := call.path chrono hexSha256 dataDir
  payload := call.bytes

variable (calls : Writer → RawWrite)

/-- The calls' publications. -/
def publications (writer : Writer) : Publication String UInt8 :=
  (calls writer).publication chrono hexSha256 dataDir

@[simp] theorem publications_sidecar (writer : Writer) :
    (publications chrono hexSha256 dataDir calls writer).sidecar =
      withUniqueTmpSuffix (calls writer).nonce ((calls writer).path chrono hexSha256 dataDir) :=
  rfl

@[simp] theorem publications_target (writer : Writer) :
    (publications chrono hexSha256 dataDir calls writer).target =
      (calls writer).path chrono hexSha256 dataDir := rfl

variable {calls}

/-- Fresh nonces keep the sidecars apart. -/
theorem sidecarsApart_of_fresh
    (fresh : Function.Injective fun writer => (calls writer).nonce.text) :
    SidecarsApart (publications chrono hexSha256 dataDir calls) where
  injective _ _ same := fresh (withUniqueTmpSuffix_inj (by simpa using same)).2
  unpublished writer other := by
    obtain ⟨stem, isEml⟩ := (calls other).path_eml chrono hexSha256 dataDir
    rw [publications_sidecar, publications_target, isEml]
    exact withUniqueTmpSuffix_ne_eml (calls writer).nonce _ stem

/-- The calls one after another, each at once. -/
def writeAll (files : Files) (calls : List RawWrite) : Files :=
  calls.foldl (fun files call => files.write (call.path chrono hexSha256 dataDir) call.bytes) files

theorem foldl_publishAtOnce_eq_writeAll (files : Files) (writers : List Writer) :
    (writers.map (publications chrono hexSha256 dataDir calls)).foldl publishAtOnce files =
      writeAll chrono hexSha256 dataDir files (writers.map calls) := by
  rw [writeAll, List.foldl_map, List.foldl_map]
  congr 1
  funext files writer other
  simp only [publishAtOnce, Function.update_apply, Files.write]
  rfl

variable [DecidableEq Writer]

/-- Calls of `write_raw`, interleaved in any way and cut off anywhere. -/
def runWriters (calls : Writer → RawWrite) (files : Files)
    (events : List (Writer × WriterMove)) : Publishing String UInt8 Writer :=
  run (publishStep (publications chrono hexSha256 dataDir calls)) (.started files) events

theorem runWriters_invariant
    (fresh : Function.Injective fun writer => (calls writer).nonce.text) (files : Files)
    (events : List (Writer × WriterMove)) :
    PublishingInvariant (publications chrono hexSha256 dataDir calls) files
      (runWriters chrono hexSha256 dataDir calls files events) :=
  PublishingInvariant.run (sidecarsApart_of_fresh chrono hexSha256 dataDir fresh) files events

theorem runWriters_eml
    (fresh : Function.Injective fun writer => (calls writer).nonce.text) (files : Files)
    (events : List (Writer × WriterMove)) (stem : String) :
    (runWriters chrono hexSha256 dataDir calls files events).files (stem ++ ".eml") =
      ((runWriters chrono hexSha256 dataDir calls files events).published.map
        (publications chrono hexSha256 dataDir calls)).foldl publishAtOnce files
          (stem ++ ".eml") := by
  apply (runWriters_invariant chrono hexSha256 dataDir fresh files events).targets
  intro writer
  rw [publications_sidecar]
  exact withUniqueTmpSuffix_ne_eml _ _ stem

/-- At every `.eml` path the concurrent calls leave what the atomic write leaves when the calls
that returned a path are made one after another in the order of their renames, an order that
later moves only extend. -/
theorem runWriters_refines_writeAll
    (fresh : Function.Injective fun writer => (calls writer).nonce.text) (files : Files)
    (events later : List (Writer × WriterMove)) :
    let reached := runWriters chrono hexSha256 dataDir calls files events
    (∀ stem, reached.files (stem ++ ".eml") =
      writeAll chrono hexSha256 dataDir files (reached.published.map calls) (stem ++ ".eml")) ∧
    reached.published.Nodup ∧
    (∀ writer, writer ∈ reached.published ↔ reached.stage writer = .done) ∧
    reached.published <+:
      (runWriters chrono hexSha256 dataDir calls files (events ++ later)).published := by
  intro reached
  have invariant := runWriters_invariant chrono hexSha256 dataDir fresh files events
  refine ⟨fun stem => ?_, invariant.once, invariant.done, ?_⟩
  · rw [runWriters_eml chrono hexSha256 dataDir fresh, foldl_publishAtOnce_eq_writeAll]
  · rw [runWriters, run_append]
    exact invariant.published_run (sidecarsApart_of_fresh chrono hexSha256 dataDir fresh) later

/-- The nonces of two calls. -/
def sampleNonce (last : Char) : Nonce where
  text := String.ofList (List.replicate 35 '0' ++ [last])
  hyphenated := String.length_ofList

theorem sampleNonce_inj {first second : Char}
    (same : (sampleNonce first).text = (sampleNonce second).text) : first = second := by
  have tails := List.append_cancel_left (String.ofList_injective same)
  exact List.singleton_inj.mp tails

/-- Two calls for one message. -/
def sampleCall (second : Bool) : RawWrite where
  accountId := sampleAccountId
  messageId := "a@example.org"
  dateUnix := 0
  bytes := if second then [1, 2, 3] else [4, 5]
  nonce := sampleNonce (if second then '2' else '1')

/-- The second call dies with a part of its bytes written. -/
def sampleMoves : List (Bool × WriterMove) :=
  [(true, .create), (false, .create), (true, .write 2), (false, .write 9), (true, .die),
    (false, .sync), (false, .rename)]

theorem runWriters_refines_writeAll_sample :
    let chrono : Chrono := ⟨fun _ => none, fun _ => none, fun _ => none⟩
    let reached := runWriters chrono id "/data" sampleCall Files.none sampleMoves
    (∀ stem, reached.files (stem ++ ".eml") =
      writeAll chrono id "/data" Files.none (reached.published.map sampleCall)
        (stem ++ ".eml")) ∧
    reached.published.Nodup ∧
    (∀ writer, writer ∈ reached.published ↔ reached.stage writer = .done) ∧
    reached.published <+:
      (runWriters chrono id "/data" sampleCall Files.none (sampleMoves ++ [])).published :=
  runWriters_refines_writeAll _ _ _ (by
    intro first second same
    have sameLast := sampleNonce_inj same
    cases first <;> cases second <;> first | rfl | exact absurd sameLast (by decide)) _ _ _

/-- The file of a message is never a mix: nobody has renamed over it, or it holds all the bytes of
the last call that has. -/
theorem runWriters_whole
    (fresh : Function.Injective fun writer => (calls writer).nonce.text) (files : Files)
    (events : List (Writer × WriterMove)) (stem : String) :
    let reached := runWriters chrono hexSha256 dataDir calls files events
    (reached.files (stem ++ ".eml") = files (stem ++ ".eml") ∧
      ∀ writer ∈ reached.published,
        (calls writer).path chrono hexSha256 dataDir ≠ stem ++ ".eml") ∨
    ∃ earlier writer later, reached.published = earlier ++ writer :: later ∧
      (calls writer).path chrono hexSha256 dataDir = stem ++ ".eml" ∧
      reached.files (stem ++ ".eml") = some (calls writer).bytes ∧
      ∀ other ∈ later, (calls other).path chrono hexSha256 dataDir ≠ stem ++ ".eml" := by
  intro reached
  have refined : reached.files (stem ++ ".eml") = _ :=
    runWriters_eml chrono hexSha256 dataDir fresh files events stem
  rcases foldl_publishAtOnce files (reached.published.map
      (publications chrono hexSha256 dataDir calls)) (stem ++ ".eml") with
    ⟨same, untouched⟩ | ⟨earlier, job, later, split, isTarget, content, untouched⟩
  · exact .inl ⟨refined.trans same, fun writer published =>
      untouched _ (List.mem_map_of_mem published)⟩
  · obtain ⟨earlierWriters, rest, sameList, rfl, tail⟩ := List.map_eq_append_iff.mp split
    obtain ⟨writer, laterWriters, rfl, rfl, rfl⟩ := List.map_eq_cons_iff.mp tail
    exact .inr ⟨earlierWriters, writer, laterWriters, sameList, isTarget, refined.trans content,
      fun other isLater => untouched _ (List.mem_map_of_mem isLater)⟩

end Writers

end Scryd.Storage
