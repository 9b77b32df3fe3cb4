import TestWeave.Build.ImportCfg

/-!
# The work directory of a build

A build that keeps its work directory leaves one directory per package in it, with the archive of
the package and the import configuration it was compiled with. `collectArchives` walks from the
directory of the package that was asked for along these configurations.

The walk comes to a directory once. The directories it may still come to are kept in a list, which
every visit shortens, so it ends although configurations may refer to each other in circles.
-/

namespace TestWeave.Build

open TestWeave.Host

/-- The directory of the package that was asked for. -/
def rootPackageDir : Path := ⟨"b001"⟩

/-- The name of an archive. -/
def archiveName : Path := ⟨"_pkg_.a"⟩

/-- The name of an import configuration. -/
def importcfgName : String := "importcfg"

/-- The directories that the archives of a configuration are in. -/
def archiveDirs (cfg : ImportCfg) : List Path := cfg.packages.filterMap (·.2.parent?)

/-- Every directory that some import configuration on the disk refers to. -/
def mentionedDirs (d : Disk) : List Path :=
  d.nodes.flatMap fun (loc, node) =>
    match node with
    | .file content _ =>
      if loc.getLast? == some importcfgName then
        ((Text.Utf8.decode? content).map fun text => archiveDirs (ImportCfg.parse text)).getD []
      else []
    | .directory => []

/-- Walks to the directories in `pending`, the first one first, and from each to those that its
configuration refers to below `work`. `unseen` holds the directories the walk has not been to. -/
def collectFrom (d : Disk) (work : Path) (unseen pending : List Path) (archives : PackageMap) :
    Except (Path × IoError) PackageMap :=
  match pending with
  | [] => .ok archives
  | dir :: pending =>
    if h : unseen.any dir.same then
      let unseen' := unseen.filter (!dir.same ·)
      have : unseen'.length < unseen.length := by
        obtain ⟨q, hq, hs⟩ := List.any_eq_true.1 h
        exact List.length_filter_lt_length_iff_exists.2 ⟨q, hq, by simp [hs]⟩
      let file := dir.join ⟨importcfgName⟩
      if !d.isFile file then collectFrom d work unseen' pending archives
      else match ImportCfg.read d file with
        | .error e => .error (file, e)
        | .ok cfg =>
          let next := (archiveDirs cfg).filter (·.startsWith work)
          collectFrom d work unseen' (next.reverse ++ pending)
            (cfg.packages.foldl (fun m (package, archive) => m.insertNew package archive) archives)
    else collectFrom d work unseen pending archives
termination_by (unseen.length, pending.length)

/-- The archives of a package and of all that it is built from, or the configuration that could
not be read. -/
def collectArchives (d : Disk) (work : Path) (importPath : String) :
    Except (Path × IoError) PackageMap :=
  let root := work.join rootPackageDir
  collectFrom d work (root :: mentionedDirs d) [root] [(importPath, root.join archiveName)]

end TestWeave.Build
