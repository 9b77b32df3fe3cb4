import TestWeave.Text.Blank

/-!
# Flags of the toolchain programs

A flag is written `-name` or `--name`, with its value behind an equals sign or, for flags that
need one, as the next argument. Only flags that need a value have to be listed: any other is read
as a switch.

* `splitFlag`: the name and the inline value of an argument that is a flag.
* `compileFlags`, `linkFlags`: the flags of the compiler and the linker that need a value.
-/

namespace TestWeave.Command

/-- What is known of a flag. -/
structure FlagDef where
  name : String
  /-- Whether the next argument is its value. -/
  needsValue : Bool
  description : String
  deriving DecidableEq, Repr

/-- A flag that needs a value. -/
def valued (name description : String) : FlagDef := ⟨name, true, description⟩

/-- The flags of the compiler that need a value. -/
def compileFlags : List FlagDef := [
  valued "D" "set relative path for local imports",
  valued "I" "add directory to import search path",
  valued "asmhdr" "write assembly header to file",
  valued "bench" "append benchmark times to file",
  valued "blockprofile" "write block profile to file",
  valued "buildid" "record id as the build id in the export metadata",
  valued "c" "concurrency during compilation",
  valued "coveragecfg" "read coverage configuration from file",
  valued "cpuprofile" "write cpu profile to file",
  valued "d" "enable debugging settings",
  valued "embedcfg" "read go:embed configuration from file",
  valued "env" "add definition of the form key=value to environment",
  valued "gendwarfinl" "generate DWARF inline info records",
  valued "goversion" "required version of the runtime",
  valued "importcfg" "read import configuration from file",
  valued "installsuffix" "set pkg directory suffix",
  valued "json" "version,file for JSON compiler/optimizer detail output",
  valued "lang" "Go language version source code expects",
  valued "linkobj" "write linker-specific object to file",
  valued "memprofile" "write memory profile to file",
  valued "memprofilerate" "set runtime.MemProfileRate to rate",
  valued "mutexprofile" "write mutex profile to file",
  valued "o" "write output to file",
  valued "p" "set expected package import path",
  valued "pgoprofile" "read profile from file",
  valued "spectre" "enable spectre mitigations in list",
  valued "symabis" "read symbol ABIs from file",
  valued "traceprofile" "write an execution trace to file",
  valued "trimpath" "remove prefix from recorded source file paths"]

/-- The flags of the linker that need a value. -/
def linkFlags : List FlagDef := [
  valued "B" "add an ELF NT_GNU_BUILD_ID note",
  valued "E" "set entry symbol name",
  valued "H" "set header type",
  valued "I" "use linker as ELF dynamic linker",
  valued "L" "add specified directory to library path",
  valued "R" "set address rounding quantum",
  valued "T" "set the start address of text symbols",
  valued "X" "add string value definition of the form importpath.name=value",
  valued "benchmark" "set to 'mem' or 'cpu' to enable phase benchmarking",
  valued "benchmarkprofile" "emit phase profiles to base",
  valued "buildid" "record id as Go toolchain build id",
  valued "buildmode" "set build mode",
  valued "cpuprofile" "write cpu profile to file",
  valued "debugtextsize" "debug text section max size",
  valued "debugtramp" "debug trampolines",
  valued "extar" "archive program for buildmode=c-archive",
  valued "extld" "use linker when linking in external mode",
  valued "extldflags" "pass flags to external linker",
  valued "importcfg" "read import configuration from file",
  valued "installsuffix" "set package directory suffix",
  valued "k" "set field tracking symbol",
  valued "libgcc" "compiler support lib for internal linking",
  valued "linkmode" "set link mode",
  valued "memprofile" "write memory profile to file",
  valued "memprofilerate" "set runtime.MemProfileRate to rate",
  valued "o" "write output to file",
  valued "pluginpath" "full path name for plugin",
  valued "r" "set the ELF dynamic linker search path",
  valued "strictdups" "sanity check duplicate symbol contents",
  valued "tmpdir" "use directory for temporary files"]

/-- The first flag of a name. -/
def lookup (registry : List FlagDef) (name : String) : Option FlagDef :=
  registry.find? (·.name == name)

/-- An argument that is a flag, as its name and the value written in it. -/
def splitFlag (arg : String) : Option (String × Option String) :=
  match (Text.dropLead "--" arg).or (Text.dropLead "-" arg) with
  | none => none
  | some body =>
    if body.isEmpty then none
    else match Text.splitOnce '=' body with
      | some (name, value) => some (name, some value)
      | none => some (body, none)

end TestWeave.Command
