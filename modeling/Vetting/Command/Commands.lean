import Vetting.Command.Line
import Vetting.Survey.Kind

/-!
# The commands of the program

The command lines that the program takes: one form for each command.
-/

namespace Vetting.Command

def languageWords : List String := Language.all.map Language.word

def registryWords : List String := Registry.Kind.all.map Registry.Kind.word

def distanceWords : List String := Survey.DistanceKind.all.map Survey.DistanceKind.word

def traceWords : List String := Survey.TraceKind.all.map Survey.TraceKind.word

def dataWords : List String := Survey.DataKind.all.map Survey.DataKind.word

variable (dest : String) (i : Item)

def place : Item := { names := [], dest }

def option (letter : String := "") : Item :=
  { names := (if letter.isEmpty then [] else ["-" ++ letter]) ++ ["--" ++ dest], dest }

def switch (letter : String := "") : Item := { option dest letter with arity := .flag }

def count (letter : String := "") (default : Doc := .null) : Item :=
  { option dest letter with kind := .number, default }

def Item.needed : Item := { i with required := true }

def Item.several : Item := { i with arity := .several }

def Item.among (words : List String) (default : Doc := .null) : Item :=
  { i with kind := .oneOf words, default }

def Item.exclusive : Item := { i with group := some 0 }

def language : Item := (option "language" "l").among languageWords (.str "python")

def packageName : Item := (option "package_name" "n").needed

def packageVersion : Item := option "package_version" "v"

def outDir : Item := (option "out_dir" "o").needed

def registry : Item := (option "package_manager" "m").among registryWords

def sourceItems : List Item := [
  packageName, packageVersion, switch "ignore_dep_version", option "cache_dir" "d", outDir, language,
  option "configpath" "c"]

def commands : List (String × Form) := [
  ("select_pm", { items := [count "threshold" "t" (.int 100000)] }),
  ("select_pkg", { items := [
      place "infile", place "outfile", option "field" "f", (count "top_n_pkgs" "n" (.int 0)).exclusive,
      (count "threshold" "t" (.int 0)).exclusive], requiredGroups := [0] }),
  ("crawl", { items := [
      (place "package_manager").among registryWords (.str "pypi"), option "infile" "i", switch "stats" "s",
      count "processes" "p" (.int 1), place "outfile"] }),
  ("edit_dist", { items := [
      place "source", option "target" "t", place "outfile", option "pair_outfile",
      (option "algorithm" "a").among distanceWords (.str "py_edit_distance"),
      count "batch_size" "b" (.int 10000), count "threshold" "" (.int 2), count "processes" "p" (.int 1)] }),
  ("get_versions", { items := [
      place "infile", place "outfile", option "cache_dir" "c", count "max_num", count "min_gap_days",
      switch "with_time", language] }),
  ("get_author", { items := [place "infile", place "outfile", option "cache_dir" "c", language] }),
  ("get_stats", { items := [place "infile", place "outfile", registry] }),
  ("get_metadata", { items := [
      packageName, option "cache_dir" "c", switch "isolate_pkg_info" "i", packageVersion, language] }),
  ("get_dep", { items := [
      packageName, option "cache_dir" "c", switch "isolate_pkg_info" "i", packageVersion, language] }),
  ("build_dep", { items := [
      place "infile", place "outfile", (option "cache_dir" "c").needed, switch "record_version" "v",
      language] }),
  ("build_author", { items := [
      place "outfile", (option "infiles" "i").several, option "top_authors" "t",
      ((option "languages" "l").among languageWords).several] }),
  ("split_graph", { items := [
      place "infile", place "out_dir", count "k_out_dirs" "k", (count "num_outputs" "n").exclusive,
      (option "seedfile" "s").exclusive, option "dagfile" "d"], requiredGroups := [0] }),
  ("install", { items := [
      packageName, option "install_dir" "i", option "cache_dir" "c", option "out_dir" "o", switch "trace" "t",
      count "trace_string_size", switch "sudo" "s", packageVersion, language] }),
  ("astgen", { items := [
      place "inpath", place "outfile", option "root" "b", language, option "package_name" "n",
      packageVersion, switch "evaluate_smt" "e", option "configpath" "c"] }),
  ("astfilter", { items := [
      packageName, packageVersion, switch "ignore_dep_version", switch "ignore_dep", option "cache_dir" "d",
      outDir, language, registry, option "configpath" "c"] }),
  ("taint", { items := [
      packageName, packageVersion, option "inpath" "i", switch "ignore_dep_version", switch "ignore_dep",
      option "cache_dir" "d", outDir, language, option "configpath" "c"] }),
  ("filter_pkg", { items := [
      place "infile", place "outfile", option "cache_dir" "d", outDir, language, option "configpath" "c"] }),
  ("danger", { items := sourceItems }),
  ("static", { items := sourceItems }),
  ("dynamic", { items := [
      packageName, packageVersion, option "cache_dir" "c", outDir, switch "trace" "t",
      count "trace_string_size", language, switch "sudo" "s"] }),
  ("interpret_trace", { items := [
      (option "trace_type").among traceWords (.str "sysdig"), (option "trace_dir").needed,
      option "package_name" "n", packageVersion, option "cache_dir" "c", outDir, language,
      count "processes" "p" (.int 1), switch "binary" "b", option "skip_file" "s"] }),
  ("interpret_result", { items := [
      place "infile", place "outfile", (option "data_type").among dataWords (.str "api"),
      option "cache_dir" "c", option "skip_file" "s", option "out_dir" "o", language,
      { registry with default := .str "pypi" }, switch "detail_mapping" "d",
      option "compare_ast_options_file", switch "detail_filename"] }),
  ("compare_ast", { items := [
      (option "infiles" "i").several.exclusive, (option "package_names" "n").several.exclusive, language,
      option "cache_dir" "d", outDir, option "configpath" "c", option "outfile"], requiredGroups := [0] }),
  ("filter_versions", { items := [place "versions_infile", place "compare_ast_infile", place "outfile"] }),
  ("compare_hash", { items := [
      (option "infiles" "i").several.needed, (option "cache_dirs" "d").several.needed,
      option "compare_hash_cache", switch "inspect_content", switch "inspect_api", option "configpath" "c",
      option "outfile" "o"] }),
  ("grep_pkg", { items := [
      place "infile", place "outfile", place "pattern", language, count "processes" "p" (.int 1)] }),
  ("cross_check", { items := [place "base_behavior_file", place "base_package_manager"] }),
  ("speedup", { items := [
      place "infile", place "outfile", count "number" "n" (.int 1000), language] })]

/-!
## The command line of the detector

The detector runs one analysis for every package of a list, or one crawl for every address.
-/

/-- What the detector does for every item of a list. -/
inductive Mode where
  | metadata
  | dependency
  | compare
  | astfilterLocal
  | taintLocal
  | install
  | dynamic
  | crawlWebsite
deriving BEq, DecidableEq, Inhabited

namespace Mode

def all : List Mode := [
  .metadata, .dependency, .compare, .astfilterLocal, .taintLocal, .install, .dynamic, .crawlWebsite]

def label : Mode → String
  | .metadata => "Metadata"
  | .dependency => "Dependency"
  | .compare => "Compare"
  | .astfilterLocal => "AstfilterLocal"
  | .taintLocal => "TaintLocal"
  | .install => "Install"
  | .dynamic => "Dynamic"
  | .crawlWebsite => "CrawlWebsite"

def command : Mode → String
  | .metadata => "get_metadata"
  | .dependency => "get_dep"
  | .compare => "compare"
  | .astfilterLocal => "astfilter_local"
  | .taintLocal => "taint_local"
  | .install => "install"
  | .dynamic => "dynamic"
  | .crawlWebsite => "crawl_website"

end Mode

def Mode.form (m : Mode) : Form :=
  { items := [(option "infile" "i").needed, option "skipfile" "s"] ++
      (if m = .dependency then [switch "native" "n"] else []) }

def detectorCommands : List (String × Form) := Mode.all.map fun m => (m.command, m.form)

/-- Reads the detector's mode and arguments, which are added to those of earlier lines. -/
def readDetector (earlier : List Doc) (args : List String) : Except Fault (Mode × List Doc) := do
  let values ← readCommands detectorCommands args
  match Mode.all.find? fun m => values.get? "cmd" == some (.str m.command) with
  | none => throw (.cause .noMember)
  | some m =>
    let value (k : String) : Doc := (values.get? k).getD .null
    return (m, earlier ++ [value "infile", value "skipfile"] ++ (if m = .dependency then [value "native"] else []))

end Vetting.Command
