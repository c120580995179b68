import Vetting.Analysis.Packages
import Vetting.Survey.Dependencies

/-!
# Searching and timing

Packages are searched for a pattern, and the analyses are timed with and without what is known of the
packages that a package depends on.
-/

namespace Vetting.Survey

open Registry Job

def foundText (o : Option String) : String := o.getD "-1"

def searchPackage (outfile pattern : String) (l : Language) (name : String) : Job Unit := do
  let dir ← temporaryDir "grep-"
  let c ← Client.forLanguage l
  let _ ← c.download name none (some dir)
  let some first := (← list dir).head? | return
  let file := Path.join dir first
  let i ← Analysis.Input.prepare l file file none none
  let found := foundText (← output? "grep pkg" ["grep", "-r", pattern, i.path])
  if !found.isEmpty then appendText outfile (name ++ "," ++ found ++ "\n")
  i.cleanUp
  removeTree dir

/-- Searches the packages of a list for a pattern; a failed search is passed over. -/
def searchPackages (infile outfile pattern : String) (l : Language) : Job Unit := do
  let names ← (← readSheet infile).rows.mapM fun r => nameOf r
  for name in names do
    orElseOrdinary (searchPackage outfile pattern l name) fun _ => pure ()

def truthText (b : Bool) : String := if b then "True" else "False"

/-- Runs an analysis in a directory of its own and writes down how long it took. -/
def timeAnalysis (name outfile job : String) (l : Language) (config : Option String) (ignoreDep : Bool) : Job Unit := do
  let dir ← temporaryDir
  let about := name ++ " language " ++ l.word ++ " ignore_dep " ++ truthText ignoreDep
  appendText outfile ("processing job " ++ job ++ " pkg " ++ about ++ " at " ++ dir ++ "\n")
  let t : Analysis.Target := { name, outdir := dir, cacheDir := some dir, config, ignoreDep }
  match job with
  | "astfilter" => Analysis.filterPackage (← Analysis.analysed l) t
  | "taint" => Analysis.taint l t none
  | job => stop (.failure ("unknown job " ++ job))
  removeTree dir
  appendText outfile ("processing job " ++ job ++ " for pkg " ++ about ++ " took: 0.0\n")

/-- Times the analyses of the first packages of a list. -/
def timeAnalyses (infile outfile : String) (number : Option Int) (l : Language) (config : Option String) : Job Unit := do
  let names ← (← readSheet infile).rows.mapM fun r => nameOf r
  let chosen := match number with
    | none => names
    | some n => if 0 ≤ n then names.take n.toNat else names.take (names.length - n.natAbs)
  for job in ["astfilter", "taint"] do
    for ignoreDep in [true, false] do
      for name in chosen do
        timeAnalysis name outfile job l config ignoreDep

end Vetting.Survey
