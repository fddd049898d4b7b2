/-!
UTF-8: strict decoding of a file's bytes, and lenient decoding of a program's output, where
each maximal piece that begins no character becomes one replacement character.
-/
namespace HostGauge.Text.Utf8

def replacement : Char := '\uFFFD'

def isContinuation (b : UInt8) : Bool := 0x80 ≤ b && b ≤ 0xBF

/-- The low six bits of a continuation byte. -/
def payload (b : UInt8) : Nat := b.toNat % 64

/-- How the first bytes of a text begin. -/
inductive Start where
  /-- A character, and how many bytes follow its first one. -/
  | char (c : Char) (more : Nat)
  /-- No character; the ill-formed piece has this many bytes after its first one. -/
  | broken (more : Nat)
  deriving DecidableEq, Repr

/-- Whether `b₂` may follow the first byte of a character of three bytes: no surrogates and no
overlong forms. -/
def fitsThree (b₁ b₂ : UInt8) : Bool :=
  if b₁ = 0xE0 then 0xA0 ≤ b₂ && b₂ ≤ 0xBF
  else if b₁ = 0xED then 0x80 ≤ b₂ && b₂ ≤ 0x9F
  else isContinuation b₂

/-- As `fitsThree`, for a character of four bytes, none of which lies above U+10FFFF. -/
def fitsFour (b₁ b₂ : UInt8) : Bool :=
  if b₁ = 0xF0 then 0x90 ≤ b₂ && b₂ ≤ 0xBF
  else if b₁ = 0xF4 then 0x80 ≤ b₂ && b₂ ≤ 0x8F
  else isContinuation b₂

def start (b₁ : UInt8) (rest : List UInt8) : Start :=
  if b₁ < 0x80 then .char (Char.ofNat b₁.toNat) 0
  else if 0xC2 ≤ b₁ && b₁ ≤ 0xDF then
    match rest with
    | b₂ :: _ =>
      if isContinuation b₂ then .char (Char.ofNat (b₁.toNat % 32 * 64 + payload b₂)) 1
      else .broken 0
    | [] => .broken 0
  else if 0xE0 ≤ b₁ && b₁ ≤ 0xEF then
    match rest with
    | b₂ :: rest =>
      if fitsThree b₁ b₂ then
        match rest with
        | b₃ :: _ =>
          if isContinuation b₃ then
            .char (Char.ofNat ((b₁.toNat % 16 * 64 + payload b₂) * 64 + payload b₃)) 2
          else .broken 1
        | [] => .broken 1
      else .broken 0
    | [] => .broken 0
  else if 0xF0 ≤ b₁ && b₁ ≤ 0xF4 then
    match rest with
    | b₂ :: rest =>
      if fitsFour b₁ b₂ then
        match rest with
        | b₃ :: rest =>
          if isContinuation b₃ then
            match rest with
            | b₄ :: _ =>
              if isContinuation b₄ then
                .char (Char.ofNat
                  (((b₁.toNat % 8 * 64 + payload b₂) * 64 + payload b₃) * 64 + payload b₄)) 3
              else .broken 2
            | [] => .broken 2
          else .broken 1
        | [] => .broken 1
      else .broken 0
    | [] => .broken 0
  else .broken 0

theorem length_drop_lt (n : Nat) (b : UInt8) (rest : List UInt8) :
    (rest.drop n).length < (b :: rest).length := by
  rw [List.length_drop, List.length_cons]
  exact Nat.lt_succ_of_le (Nat.sub_le ..)

/-- The text of well-formed bytes. -/
def decode? : List UInt8 → Option (List Char)
  | [] => some []
  | b :: rest =>
    match start b rest with
    | .char c more => (decode? (rest.drop more)).map (c :: ·)
    | .broken _ => none
  termination_by bytes => bytes.length
  decreasing_by exact length_drop_lt ..

/-- The text of any bytes, with a replacement character for each ill-formed piece. -/
def decodeLenient : List UInt8 → List Char
  | [] => []
  | b :: rest =>
    match start b rest with
    | .char c more => c :: decodeLenient (rest.drop more)
    | .broken more => replacement :: decodeLenient (rest.drop more)
  termination_by bytes => bytes.length
  decreasing_by all_goals exact length_drop_lt ..

end HostGauge.Text.Utf8
