import TestWeave.Digest.Sha256
import TestWeave.Host.Launch
import TestWeave.Sdk.Error
import TestWeave.Text.Blank

/-!
# Builds whose work directory is kept

A build is run once for each list of arguments. A key file, named by a digest of the arguments,
holds the work directory, which is used again as long as it is there.

* `BuildCache.goBuild`: the work directory of a build, from the key file or from a new build.
-/

namespace TestWeave.Sdk

open TestWeave.Host

/-- The directory that is built in, and the program that builds. -/
structure BuildCache where
  dir : Path
  go : String
  deriving DecidableEq, Repr

/-- The work directory that the output of a build names. -/
def workDirIn? (output : String) : Option Path :=
  (Text.lines output).findSome? fun line =>
    (Text.dropLead "WORK=" (Text.trim line)).map fun dir => ⟨Text.trim dir⟩

/-- The work directory that a key file holds, if it is still there. -/
def cachedWorkDir? (d : Disk) (key : Path) : Option Path :=
  match d.readText key with
  | .error _ => none
  | .ok text =>
    let work : Path := ⟨Text.trim text⟩
    if d.isDirectory work then some work else none

namespace BuildCache

/-- The file that holds the work directory of a build with given arguments. -/
def keyPath (c : BuildCache) (args : List String) : Path :=
  let digest := Digest.Sha256.hexDigest (String.intercalate "|" args).toUTF8
  c.dir.join ⟨"." ++ digest ++ ".build"⟩

/-- The arguments of a build: the work directory is kept and everything is built anew. -/
def buildArgs (extra : List String) : List String := ["build", "-work", "-a"] ++ extra

/-- Writes a key file; a build is not lost if that fails. -/
def writeKey (d : Disk) (key work : Path) : Disk := (d.save key work.text.toUTF8).2

/-- Runs a build and writes its key file. -/
def runBuild (c : BuildCache) (launch : Launcher) (args : List String) (d : Disk) :
    Except SdkError Path × Disk :=
  match launch ⟨c.go, args, some c.dir⟩ d with
  | (.error e, d) => (.error (.launch c.go e), d)
  | (.ok out, d) =>
    let output := Text.Utf8.decodeLossy out.stdout ++ Text.Utf8.decodeLossy out.stderr
    if out.succeeded then
      match workDirIn? output with
      | none => (.error (.missingWorkDir output), d)
      | some work => (.ok work, writeKey d (c.keyPath args) work)
    else (.error (.failed c.go out.code output), d)

/-- The work directory of a build. -/
def goBuild (c : BuildCache) (launch : Launcher) (extra : List String) (d : Disk) :
    Except SdkError Path × Disk :=
  let args := buildArgs extra
  match cachedWorkDir? d (c.keyPath args) with
  | some work => (.ok work, d)
  | none => c.runBuild launch args d

end BuildCache

end TestWeave.Sdk
