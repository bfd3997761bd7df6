import Scryd.Storage.Schema

/-!
# The raw `.eml` store

Layout: `<data_dir>/raw/<account_id>/<YYYY>/<MM>/<sha256-hex(message_id)>.eml`.
A write goes to a sidecar with a fresh name and is renamed over the final path,
so a reader sees the old content or the new one and a failed write leaves the
old one.
-/

namespace Scryd.Storage

/-- The functions of `chrono` the daemon calls on timestamps, each `none` where the
timestamp is out of range. -/
structure Chrono where
  /-- `format("%Y")` and `format("%m")`. -/
  yearMonth : Int → Option (String × String)
  /-- `to_rfc3339()`. -/
  rfc3339 : Int → Option String
  /-- `NaiveDate::parse_from_str(_, "%Y-%m-%d")` at midnight UTC. -/
  parseDate : String → Option Int

/-- Year and month of a timestamp; the epoch's where it is out of range. -/
def Chrono.yearMonthOrEpoch (chrono : Chrono) (dateUnix : Int) : String × String :=
  (chrono.yearMonth dateUnix).getD ("1970", "01")

/-- `raw::raw_path`, as the text `to_string_lossy` stores in the row. -/
def rawPath (chrono : Chrono) (hexSha256 : String → String) (dataDir : String)
    (accountId : AccountId) (messageId : String) (dateUnix : Int) : String :=
  let (yyyy, mm) := chrono.yearMonthOrEpoch dateUnix
  dataDir ++ "/raw/" ++ accountId.text ++ "/" ++ yyyy ++ "/" ++ mm ++ "/" ++
    hexSha256 messageId ++ ".eml"

/-- The files of the data directory, by path. -/
abbrev Files := String → Option (List UInt8)

def Files.none : Files := fun _ => Option.none

def Files.write (files : Files) (path : String) (bytes : List UInt8) : Files :=
  fun other => if other = path then some bytes else files other

@[simp] theorem Files.write_same (files : Files) (path : String) (bytes : List UInt8) :
    files.write path bytes path = some bytes := if_pos rfl

theorem Files.write_other (files : Files) {path other : String} (bytes : List UInt8)
    (different : other ≠ path) : files.write path bytes other = files other :=
  if_neg different

/-- `raw::write_raw`.  `fault` is the I/O error of the write, if it fails. -/
def writeRaw (fault : Option String) (path : String) (bytes : List UInt8) (files : Files) :
    Except StorageError Files :=
  match fault with
  | some message => .error (.io message)
  | .none => .ok (files.write path bytes)

end Scryd.Storage
