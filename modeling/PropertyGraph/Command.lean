/-!
# Commands

What a command does with its arguments and the files it can read: the lines it prints, and how it
fails if it does.
-/

namespace PropertyGraph

/-- The outcome of a command: the text that it prints, and how the failure that ends it is shown. -/
structure Outcome where
  output : String := ""
  failure : Option String := none
deriving DecidableEq

/-- The files that a command can read. -/
abbrev Files := String → Option String

namespace Outcome

/-- How a missing file is shown. -/
def missingFile : String := "Os \x7b code: 2, kind: NotFound, message: \"No such file or directory\" \x7d"

def exitCode (o : Outcome) : Nat := if o.failure.isSome then 1 else 0

/-- What a failed command prints about its failure. -/
def errorText (o : Outcome) : String :=
  match o.failure with
  | some shown => "Error: " ++ shown ++ "\n"
  | none => ""

end Outcome

/-- A command prints lines and can fail; what was printed before a failure stays. -/
abbrev Command (α : Type) := ExceptT String (StateM (List String)) α

namespace Command

def line (s : String) : Command Unit := modify (s :: ·)

def lines (ss : List String) : Command Unit := ss.forM line

/-- Goes on with a result, or fails as its error is shown. -/
def require {ε α : Type} (shown : ε → String) : Except ε α → Command α
  | .ok a => pure a
  | .error e => throw (shown e)

def readFile (files : Files) (path : String) : Command String :=
  match files path with
  | some content => pure content
  | none => throw Outcome.missingFile

def run (command : Command Unit) : Outcome :=
  let (result, printed) := Id.run (StateT.run (ExceptT.run command) [])
  { output := String.join (printed.reverse.map (· ++ "\n"))
    failure := match result with
      | .ok _ => none
      | .error shown => some shown }

/-- A text with blanks after it up to a width. -/
def column (width : Nat) (s : String) : String := s ++ String.ofList (List.replicate (width - s.length) ' ')

end Command

end PropertyGraph
