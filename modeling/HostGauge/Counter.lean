/-!
Cumulative counters that wrap. A counter is read as a 64-bit word; the amount between two
readings is the representative in `[0, m)` of their difference modulo `m`, which corrects for
one wrap. It is formed in 128-bit words, so a modulus near their end leaves no room for the sum of
the modulus and a reading.
-/
namespace HostGauge

/-- The words in which differences are formed. -/
abbrev Wide := BitVec 128

/-- `(modulus + new - old) mod modulus`, after both readings have been reduced. There is no answer
for the modulus zero, nor where `modulus + new` does not fit into a word. -/
def counterDelta? (old new : UInt64) (modulus : Wide) : Option Wide :=
  if modulus = 0 then none
  else
    let old := old.toBitVec.setWidth 128 % modulus
    let new := new.toBitVec.setWidth 128 % modulus
    if modulus.uaddOverflow new then none else some ((modulus + new - old) % modulus)

/-- The word width at which the counters of a host wrap. -/
inductive CounterModulus where
  | bits32
  | bits64
  deriving DecidableEq, Repr, Inhabited

namespace CounterModulus

def ofWordWidth (is64Bit : Bool) : CounterModulus := if is64Bit then bits64 else bits32

/-- Used where no host was asked. -/
def standard : CounterModulus := bits64

def value : CounterModulus → Wide
  | bits32 => 1 <<< 32
  | bits64 => 1 <<< 64

def name : CounterModulus → String
  | bits32 => "Bits32"
  | bits64 => "Bits64"

/-- The amount a counter moved from `old` to `new`. -/
def delta (m : CounterModulus) (old new : UInt64) : UInt64 :=
  match counterDelta? old new m.value with
  | some d => ⟨d.setWidth 64⟩
  | none => 0

end CounterModulus

end HostGauge
