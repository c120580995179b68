import Vetting.Program

/-!
# The command line

Commands, requests and containers are left to the reader: they are listed on the error stream.
-/

open Vetting

def readContent? (path : String) : IO (Option Content) := do
  try
    let bytes ← IO.FS.readBinFile path
    return some (match String.fromUTF8? bytes with
      | some s => .text s
      | none => .bytes bytes.toList)
  catch _ => return none

def hostOf (words : List String) : IO Host := do
  let cwd := (← IO.currentDir).toString
  let mut host : Host := { root := "", cwd, files := [(cwd, .directory)] }
  for w in words do
    if let some c ← readContent? w then
      host := ((Job.writeDeep w c).runOn host).2
  return host

def writeContent (path : String) : Content → IO Unit
  | .text s => IO.FS.writeFile path s
  | .bytes bs => IO.FS.writeBinFile path ⟨bs.toArray⟩
  | .graph .. => return

def writeChanges (before after : Host) : IO Unit := do
  for (path, e) in after.files do
    if let .file c := e then
      if before.files.get? path != some e then writeContent path c

def dueLines (l : Log) : List String :=
  (l.commands.map fun c => match c.words with
    | .line s => s
    | .list ws => Text.join " " (ws.map fun w => w.getD ""))
  ++ l.requests.map ("GET " ++ ·)

/-- The status that a program ends with, and what it says then. -/
def ending : Except Fault Unit → UInt32 × String
  | .ok _ => (0, "")
  | .error (.exit .none) => (0, "")
  | .error (.exit (.number n)) => (n.toNat.toUInt32, "")
  | .error (.exit (.text s)) => (1, s)
  | .error (.failure m) => (1, m)
  | .error (.missingKey k) => (1, k)
  | .error (.cause _) => (1, "failed")

def main (args : List String) : IO UInt32 := do
  let before ← hostOf args
  let (outcome, after) := (Program.run args).runOn before
  writeChanges before after
  IO.print after.log.output
  for line in dueLines after.log do IO.eprintln line
  let (status, message) := ending outcome
  if !message.isEmpty then IO.eprintln message
  return status
