/-!
# Why a job stops

Three causes carry something to show: a failure that the program words itself, a key that a table does not
have, and the code of a program that ends itself.
-/

namespace Vetting

/-- What a program ends with when it ends itself. -/
inductive ExitCode where
  | none
  | number (n : Int)
  | text (s : String)
deriving BEq, DecidableEq, Inhabited

/-- The kinds of causes that carry no text. -/
inductive Cause where
  /-- A value is not of the kind that an operation needs. -/
  | wrongType
  | noMember
  /-- A place beyond the end of a sequence. -/
  | outOfRange
  /-- A value of the right kind that an operation refuses. -/
  | badValue
  | divisionByZero
  | overflow
  | unboundName
  | unboundLocal
  | unparsable
  | badIndent
  | assertion
  | exhausted
  | outOfInput
  | tooDeep
  | noFile
  | isDirectory
  | notDirectory
  | fileExists
  | systemError
  | undecodable
  | unreachable
  | badJson
  | badXml
  | badPage
  | badMessage
  | badMessageText
  | badArchive
  | badPickle
  | badScript
  | badDate
  | badRow
  | badGraph
  | badRequirement
  | noDistribution
  | noModule
  | noImport
  | commandFailed
  | interrupted
  | runtime
  | timeLimit
  | workerLost
  | emptyData
  | badColumns
  | notImplemented
deriving BEq, DecidableEq, Inhabited

/-- Why a job stops. -/
inductive Fault where
  | failure (message : String)
  | missingKey (shown : String)
  | exit (code : ExitCode)
  | cause (c : Cause)
deriving BEq, DecidableEq, Inhabited

namespace Fault

def isOrdinary : Fault → Bool
  | .exit _ => false
  | .cause .interrupted => false
  | _ => true

end Fault

end Vetting
