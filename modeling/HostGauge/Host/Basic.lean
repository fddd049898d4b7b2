/-!
A host as its readers see it at one moment: the contents of files, which paths are there, the
names in a directory, what a utility answers, and how the JSON reader in use words its refusals.
Every field is an arbitrary function, so a statement about all hosts covers every combination of
failures.
-/
namespace HostGauge

/-- Why a file, a directory or a program could not be used, or a thread not be had. -/
inductive FileFault where
  | notFound
  | permissionDenied
  | notADirectory
  | isADirectory
  | notExecutable
  | nameTooLong
  | nulInPath
  | nulInArgument
  | argumentTooLong
  /-- The bytes of the file are no UTF-8 text. -/
  | notText
  | other (message : String)
  deriving DecidableEq, Repr

def FileFault.message : FileFault → String
  | notFound => "No such file or directory (os error 2)"
  | permissionDenied => "Permission denied (os error 13)"
  | notADirectory => "Not a directory (os error 20)"
  | isADirectory => "Is a directory (os error 21)"
  | notExecutable => "Exec format error (os error 8)"
  | nameTooLong => "File name too long (os error 36)"
  | nulInPath => "file name contained an unexpected NUL byte"
  | nulInArgument => "nul byte found in provided data"
  | argumentTooLong => "Argument list too long (os error 7)"
  | notText => "stream did not contain valid UTF-8"
  | other message => message

/-- How a program ended. -/
inductive ExitStatus where
  | code (n : Nat)
  | signal (n : Nat)
  deriving DecidableEq, Repr

namespace ExitStatus

/-- The names of the signals from 1 on. -/
def signalNames : List String :=
  ["SIGHUP", "SIGINT", "SIGQUIT", "SIGILL", "SIGTRAP", "SIGABRT", "SIGBUS", "SIGFPE", "SIGKILL",
   "SIGUSR1", "SIGSEGV", "SIGUSR2", "SIGPIPE", "SIGALRM", "SIGTERM", "SIGSTKFLT", "SIGCHLD",
   "SIGCONT", "SIGSTOP", "SIGTSTP", "SIGTTIN", "SIGTTOU", "SIGURG", "SIGXCPU", "SIGXFSZ",
   "SIGVTALRM", "SIGPROF", "SIGWINCH", "SIGIO", "SIGPWR", "SIGSYS"]

def message : ExitStatus → String
  | code n => "exit status: " ++ toString n
  | signal n =>
    match signalNames[n - 1]? with
    | some name => "signal: " ++ toString n ++ " (" ++ name ++ ")"
    | none => "signal: " ++ toString n

end ExitStatus

/-- A program with its arguments and the variables added to its environment. -/
structure Command where
  path : String
  arguments : List String := []
  environment : List (String × String) := []
  deriving DecidableEq, Repr

/-- What running a command came to. -/
inductive Outcome where
  | notStarted (cause : FileFault)
  | ended (status : ExitStatus) (output : List UInt8)
  deriving DecidableEq, Repr

structure Host where
  read : String → Except FileFault (List UInt8)
  isPresent : String → Bool
  isRegularFile : String → Bool
  /-- The names in a directory, in no particular order. -/
  list : String → Except FileFault (List String)
  run : Command → Outcome
  /-- What the JSON reader says of a text that it refuses. -/
  jsonRefusal : List Char → String

end HostGauge
