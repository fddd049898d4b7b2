import HostGauge.Host.Reading
import HostGauge.Text.Line

/-!
Number of logical processors and word width. The number is counted in a listing with one line
per processor, the width read off a summary; the two calls are independent of each other. A
number that could not be had is kept as the fault, and the width is taken to be 64 bits where
there is no summary.
-/
namespace HostGauge

structure ProcessorFacts where
  count : Except Fault Nat
  is64Bit : Bool

namespace ProcessorFacts

/-- The lines that start with an ASCII digit. -/
def countLines (listing : List Char) : Nat :=
  (Text.lines listing).countP fun line => line.head?.any Char.isDigit

def modeLabel : List Char := "CPU op-mode(s):".toList

/-- Whether the first line of operation modes lists 64 bits. -/
def lists64Bit (summary : List Char) : Bool :=
  ((Text.lines summary).find? modeLabel.isPrefixOf).any (Text.contains "64-bit".toList)

def listing (root : String) : Command where
  path := Path.joinAll root ["usr", "bin", "lscpu"]
  arguments := ["-p"]

def summary (root : String) : Command where
  path := Path.joinAll root ["usr", "bin", "lscpu"]
  environment := [("LC_ALL", "C")]

def countOf (listing : List Char) : Except Fault Nat :=
  match countLines listing with
  | 0 => .error (.unavailable .processors)
  | n => .ok n

def read (host : Host) (root : String) : ProcessorFacts where
  count := (host.runText (listing root)).bind countOf
  is64Bit :=
    match host.runText (summary root) with
    | .ok text => lists64Bit text
    | .error _ => true

end ProcessorFacts

end HostGauge
