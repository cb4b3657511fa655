import NixHomeServer.Filesync.Manifest

/-! The device side: the two-pass estimate and the transfer it predicts. -/
namespace NixHomeServer.Filesync

structure DeviceFile where
  path : Path
  size : Nat
  mtimeUnixMs : Nat
  content : Bytes

/-- The entry of one regular file in the server listing with hashes. -/
structure RemoteEntry where
  path : Path
  size : Nat
  sha256 : String

section Estimate

variable (sha256 : Bytes → String)

def DeviceFile.bare (d : DeviceFile) : LocalFile where
  path := d.path
  size := d.size
  mtimeUnixMs := d.mtimeUnixMs

/-- The second pass sends the digest of exactly the files the server asked for. -/
def DeviceFile.answering (wanted : List Path) (d : DeviceFile) : LocalFile :=
  if d.path ∈ wanted then { d.bare with hash := some (sha256 d.content) } else d.bare

/-- Two requests against the manifests the server holds when they arrive. -/
def twoPasses (folder : Folder) (first second : Manifest) (device : List DeviceFile)
    (direction : Direction) : Except ReadError DiffResult :=
  match diff sha256 folder first (device.map DeviceFile.bare) direction with
  | .error e => .error e
  | .ok (_, data) =>
    if data.needsHash = [] then .ok data
    else
      match diff sha256 folder second (device.map (DeviceFile.answering sha256 data.needsHash))
          direction with
      | .error e => .error e
      | .ok (_, data) => .ok data

structure EstimateResult where
  pendingBytes : Nat
  pendingCount : Nat
  skipped : Nat

def rejected : String := "The server rejected the request (HTTP 500)."

def estimatePair (folder : Folder) (first second : Manifest) (device : List DeviceFile)
    (direction : Direction) : Except String EstimateResult :=
  match twoPasses sha256 folder first second device direction with
  | .error .readFailed => .error rejected
  | .ok data =>
    if data.needsHash ≠ [] then
      .error (String.intercalate ", " data.needsHash ++
        " could not be compared with the server. Sync to review it.")
    else if data.unreadable ≠ [] then
      .error (String.intercalate ", " data.unreadable ++
        " could not be read on the server. Try again in a moment.")
    else .ok ⟨data.pendingBytes, data.pendingCount, data.skipped⟩

end Estimate

section Sync

variable (sha256 : Bytes → String)

def ServerFile.remote (f : ServerFile) : RemoteEntry where
  path := f.path
  size := f.size
  sha256 := sha256 f.content

structure SyncPlan where
  transfer : List (Path × Nat) := []
  skipped : Nat := 0

def SyncPlan.settle (plan : SyncPlan) (path : Path) (size : Nat) (present : Bool) : SyncPlan :=
  if present then { plan with skipped := plan.skipped + 1 }
  else { plan with transfer := plan.transfer ++ [(path, size)] }

/-- Which files a sync moves; every file of the source is settled by full digests. -/
def syncPair (remote : List RemoteEntry) (device : List DeviceFile) (direction : Direction) :
    SyncPlan :=
  match direction with
  | .phoneToServer =>
    device.foldl (fun plan l => plan.settle l.path l.size
      ((collected RemoteEntry.path remote l.path).any (fun r => decide (r.sha256 = sha256 l.content)))) {}
  | .serverToPhone =>
    remote.foldl (fun plan r => plan.settle r.path r.size
      ((collected DeviceFile.path device r.path).any (fun l => decide (sha256 l.content = r.sha256)))) {}

end Sync

end NixHomeServer.Filesync
