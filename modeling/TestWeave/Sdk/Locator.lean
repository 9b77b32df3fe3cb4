import TestWeave.Host.Launch
import TestWeave.Sdk.Error

/-!
# Finding the instrumentation

* `Locator.locate`: the folder of the instrumentation package, from a checkout there is or from one
  that is made.
-/

namespace TestWeave.Sdk

open TestWeave.Host

/-- Where checkouts are looked for, and what is fetched if there is none. -/
structure Locator where
  /-- A checkout that is looked at first. -/
  configured : Option Path
  tempDir : Path
  repository : String
  revision : String
  deriving DecidableEq, Repr

/-- Where the package folder is, and whether it had to be fetched. -/
inductive SdkLocation
  | found (path : Path)
  | fetched (path : Path)
  deriving DecidableEq, Repr

/-- The package folder. -/
def SdkLocation.path : SdkLocation → Path
  | .found path | .fetched path => path

/-- The package folder inside a checkout. -/
def packageDir : Path := ⟨"autoinstrument"⟩

/-- The name of the checkout that is made. -/
def checkoutDir : Path := ⟨"dd-sdk-go-testing"⟩

/-- The file that is locked while a checkout is looked for or made. -/
def lockFile : Path := ⟨"testinject-sdk.lock"⟩

/-- Runs `git` in a directory. -/
def git (launch : Launcher) (dir : Path) (args : List String) (d : Disk) :
    Except SdkError Unit × Disk :=
  match launch ⟨"git", args, some dir⟩ d with
  | (.error e, d) => (.error (.launch "git" e), d)
  | (.ok out, d) =>
    if out.succeeded then (.ok (), d)
    else (.error (.failed ("git " ++ String.intercalate " " args) out.code
      (Text.Utf8.decodeLossy out.stderr)), d)

namespace Locator

/-- The checkout that is made if there is none. -/
def checkout (l : Locator) : Path := l.tempDir.join checkoutDir

/-- The checkouts that are looked at, in order. -/
def candidates (l : Locator) : List Path := l.configured.toList ++ [l.checkout]

/-- The package folder of the first candidate that has one. -/
def found? (l : Locator) (d : Disk) : Option Path :=
  (l.candidates.map (·.join packageDir)).find? d.isDirectory

/-- Makes a checkout of the configured revision. -/
def fetch (l : Locator) (launch : Launcher) (d : Disk) : Except SdkError SdkLocation × Disk :=
  match git launch l.tempDir ["clone", l.repository, l.checkout.text] d with
  | (.error e, d) => (.error e, d)
  | (.ok (), d) =>
    match git launch l.checkout ["checkout", l.revision] d with
    | (.error e, d) => (.error e, d)
    | (.ok (), d) =>
      let package := l.checkout.join packageDir
      if d.isDirectory package then (.ok (.fetched package), d)
      else (.error (.missingPackage package), d)

/-- The file of the lock is made if that is possible; without it the search goes on unlocked. -/
def takeLock (l : Locator) (d : Disk) : Disk :=
  match d.touch (l.tempDir.join lockFile) with
  | .ok d => d
  | .error _ => d

/-- Finds the package folder, or makes a checkout. -/
def locate (l : Locator) (launch : Launcher) (d : Disk) : Except SdkError SdkLocation × Disk :=
  let d := l.takeLock d
  match l.found? d with
  | some path => (.ok (.found path), d)
  | none => l.fetch launch d

end Locator

end TestWeave.Sdk
