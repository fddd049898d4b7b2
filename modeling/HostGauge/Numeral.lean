/-!
Decimal numerals: a run of ASCII digits, read as a 64-bit unsigned word. `word64?` accepts a
plus sign in front, `decimal64?` does not; both refuse a value that does not fit into the word.
-/
namespace HostGauge.Numeral

/-- A non-empty run of ASCII digits. -/
def IsDigits (s : List Char) : Prop := s ≠ [] ∧ ∀ c ∈ s, c.isDigit

-- Named, since another instance would run through all characters.
instance (s : List Char) : Decidable (IsDigits s) :=
  @instDecidableAnd (s ≠ []) (∀ c ∈ s, c.isDigit) _ (List.decidableBAll _ s)

/-- The value of a run of digits, most significant first. -/
def value (s : List Char) : Nat := Nat.ofDigitChars 10 s 0

/-- The shortest run of digits with a value. -/
def write (n : Nat) : List Char := Nat.toDigits 10 n

/-- A run of digits whose value fits into 64 bits; leading zeros are allowed. -/
def decimal64? (s : List Char) : Option UInt64 :=
  if h : IsDigits s ∧ value s < UInt64.size then some (UInt64.ofNatLT (value s) h.2) else none

/-- As `decimal64?`, with an optional plus sign in front. -/
def word64? : List Char → Option UInt64
  | '+' :: s => decimal64? s
  | s => decimal64? s

theorem isDigits_write (n : Nat) : IsDigits (write n) :=
  ⟨Nat.toDigits_ne_nil, fun _ h => Nat.isDigit_of_mem_toDigits (by decide) (by decide) h⟩

theorem value_write (n : Nat) : value (write n) = n :=
  Nat.ofDigitChars_toDigits (by decide) (by decide)

theorem decimal64?_write (w : UInt64) : decimal64? (write w.toNat) = some w := by
  have h : IsDigits (write w.toNat) ∧ value (write w.toNat) < UInt64.size :=
    ⟨isDigits_write _, by rw [value_write]; exact w.toNat_lt⟩
  rw [decimal64?, dif_pos h]
  simp [value_write]

end HostGauge.Numeral
