import Vetting.Catalogue.Packages
import Vetting.Similarity.Matrix
import Vetting.Survey.Authors
import Vetting.Survey.Digests
import Vetting.Survey.Information
import Vetting.Survey.Measure
import Vetting.Survey.Summary
import Vetting.Survey.Traces

/-!
# The program

The program reads its command line and does what the command says.
-/

/-! ## Commands on one package

Looking up a package, installing it, trying it out, and analysing its sources.
-/

namespace Vetting.Program

open Analysis Command Registry

variable (v : Values) (command : String)

def runOptions : RunOptions :=
  { trace := v.flag "trace", stringSize := v.int? "trace_string_size" (some 1024), asRoot := v.flag "sudo"
    installDir := v.text? "install_dir", outdir := v.text? "out_dir", timeout := v.int? "timeout" none }

def searchOf : Search :=
  { inpath := v.text "inpath", outfile := v.text "outfile", root := v.text? "root", config := v.text? "configpath"
    name := v.text? "package_name", version := v.text? "package_version", assess := v.flag "evaluate_smt" }

def target : Except Fault Target := do
  return { name := v.text "package_name", outdir := v.text "out_dir", cacheDir := v.text? "cache_dir"
           config := v.text? "configpath", version := v.text? "package_version", manager := ← v.registry?
           ignoreDepVersion := v.flag "ignore_dep_version", ignoreDep := v.flag "ignore_dep" }

def trial? (v : Values) : Option (Job Unit) :=
  let name := v.text "package_name"
  let version := v.text? "package_version"
  let cacheDir := v.text? "cache_dir"
  match command with
  | "get_metadata" => some do
      Trial.lookUp name (← v.language) cacheDir version (v.flag "isolate_pkg_info")
  | "get_dep" => some do
      Trial.findDeps name (← v.language) cacheDir version (v.flag "isolate_pkg_info")
  | "install" => some do Trial.install name (← v.language) cacheDir version (runOptions v)
  | "dynamic" => some do
      Trial.tryOut name (← v.language) cacheDir version
        { runOptions v with timeout := v.int? "timeout" (some 300) }
  | _ => none

def analysis? (v : Values) : Option (Job Unit) :=
  match command with
  | "astgen" => some do
      let l ← match v.text? "language" with
        | some w => Language.ofWord w
        | none => pure .python
      search (← analysed l) (searchOf v)
  | "astfilter" => some do
      let l ← v.language
      let t ← target v
      filterPackage (← analysed l) t
  | "taint" => some do taint (← v.language) (← target v) (v.text? "inpath")
  | "danger" => some do let _ ← analysed (← v.language)
  | "static" => some do scan (← v.language) (← target v)
  | _ => none

/-! ## Commands on many packages

Lists of packages with what is known about them, graphs, comparisons and summaries.
-/

open Command Registry Survey

def distance? : Except Fault (Option DistanceKind) :=
  match v.text? "algorithm" with
  | some w => (DistanceKind.ofWord w).map some
  | none => .ok none

/-- A command on the list of a registry, or on lists of names. -/
def listing? (v : Values) : Option (Job Unit) :=
  match command with
  | "crawl" => some do
      Catalogue.crawl (← Kind.ofWord (v.text "package_manager")) (v.text "outfile") (v.text? "infile") (v.flag "stats")
        ((v.int? "processes" (some 1)).getD 1)
  | "get_stats" => some do Catalogue.addDownloads (v.text "infile") (v.text "outfile") (← v.registry?)
  | "edit_dist" => some do
      let q : Similarity.Request :=
        { source := v.text "source", target := v.text? "target", outfile := v.text "outfile"
          method := ← distance? v, pairFile := v.text? "pair_outfile"
          batch := v.int? "batch_size" (some 10000), threshold := v.int? "threshold" (some 2) }
      q.run
  | _ => none

def graph? (v : Values) : Option (Job Unit) :=
  match command with
  | "build_dep" => some do
      buildGraph (v.text "infile") (v.text "outfile") (v.text "cache_dir") (← v.language) (v.flag "record_version")
  | "split_graph" => some do
      let cut : Cut :=
        { infile := v.text "infile", outdir := v.text "out_dir", numbered := v.flag "k_out_dirs"
          parts := v.int? "num_outputs" none, seedFile := v.text? "seedfile", program := v.text? "dagfile" }
      cut.run
  | "build_author" => some do
      let some infiles := v.texts? "infiles" | Job.fault .wrongType
      let some words := v.texts? "languages" | Job.fault .wrongType
      buildAuthors infiles (← words.mapM fun w => Language.ofWord w) (v.text "outfile")
        (v.int? "top_n" (some 200)) (v.text? "top_authors")
  | _ => none

/-- A command that chooses packages or versions, or adds to a list of them. -/
def selection? (v : Values) : Option (Job Unit) :=
  match command with
  | "select_pkg" => some do
      selectPackages (v.text "infile") (v.text "outfile")
        { top := v.int? "top_n_pkgs" (some 0), threshold := v.int? "threshold" (some 0), field := v.text? "field" }
  | "select_pm" => some do
      selectRegistries (v.int? "threshold" none) ((v.text? "pm_stats_file").getD "../data/modulecounts.csv")
  | "filter_pkg" => some do
      filterPackages (v.text "infile") (v.text "outfile") (← v.language) (v.text "out_dir") (v.text? "cache_dir")
        (v.text? "configpath")
  | "filter_versions" => some do
      filterVersions (v.text "versions_infile") (v.text "compare_ast_infile") (v.text "outfile")
  | "get_author" => some do
      addAuthors (v.text "infile") (v.text "outfile") (← v.language) (v.text? "cache_dir")
  | "get_versions" => some do
      addVersions (v.text "infile") (v.text "outfile") (← v.language) (v.int? "max_num" none)
        (v.int? "min_gap_days" none) (v.flag "with_time") (v.text? "cache_dir")
  | _ => none

def summary : Job Unit := do
  let kind ← match v.text? "data_type" with
    | some w => some <$> DataKind.ofWord w
    | none => pure none
  let language ← v.language
  let registry ← v.registry?
  let options ← readOptions (v.text? "compare_ast_options_file")
  let s : Summary :=
    { infile := v.text "infile", outfile := v.text "outfile", language, registry, options
      outdir := v.text? "out_dir", cacheDir := v.text? "cache_dir", skipFile := v.text? "skip_file"
      mapping := v.flag "detail_mapping", fileNames := v.flag "detail_filename" }
  s.run kind

def comparison? (v : Values) : Option (Job Unit) :=
  match command with
  | "compare_ast" => some do
      let c : Comparison :=
        { infiles := v.texts "infiles", names := v.texts "package_names", language := ← v.language
          outdir := v.text? "out_dir", cacheDir := v.text? "cache_dir", config := v.text? "configpath"
          outfile := v.text? "outfile", cacheOnly := v.flag "cache_only" true }
      c.run
  | "compare_hash" => some do
      let c : RegistryComparison :=
        { infiles := v.texts "infiles", cacheDirs := (v.value "cache_dirs").itemsOf.map Doc.str?
          outfile := v.text? "outfile", found := v.text? "compare_hash_cache", content := v.flag "inspect_content"
          apis := v.flag "inspect_api", config := v.text? "configpath" }
      c.run
  | "cross_check" => some (pure ())
  | _ => none

/-- A command that reads traces, searches packages or times analyses. -/
def measure? (v : Values) : Option (Job Unit) :=
  match command with
  | "interpret_trace" => some do
      let kind ← match v.text? "trace_type" with
        | some w => some <$> TraceKind.ofWord w
        | none => pure none
      let q : TraceRequest :=
        { language := ← v.language, outdir := v.text "out_dir", cacheDir := v.text? "cache_dir", kind
          traceDir := v.text? "trace_dir", name := v.text? "package_name", version := v.text? "package_version"
          binary := v.flag "binary", skipFile := v.text? "skip_file" }
      q.run
  | "grep_pkg" => some do
      searchPackages (v.text "infile") (v.text "outfile") (v.text "pattern") (← v.language)
  | "speedup" => some do
      let config := match v.lookup "configpath" with
        | some d => d.str?
        | none => some "../config/astgen_python_smt.config"
      timeAnalyses (v.text "infile") (v.text "outfile") (v.int? "number" none) (← v.language) config
  | _ => none

def survey? (v : Values) : Option (Job Unit) :=
  if command = "interpret_result" then some (summary v)
  else (listing? command v).or ((graph? command v).or ((selection? command v).or
    ((comparison? command v).or (measure? command v))))

open Command

def perform? (v : Values) : Option (Job Unit) :=
  (trial? command v).or ((analysis? command v).or (survey? command v))

def run (argv : List String) : Job Unit := do
  let values ← readCommands commands argv
  let v : Values := values
  match v.text? "cmd" with
  | none => Job.stop (.failure "unexpected cmd None")
  | some command =>
    match perform? command v with
    | some j => j
    | none => Job.stop (.failure ("unexpected cmd " ++ command))

end Vetting.Program
