import HostGauge.Host.Reading
import Mathlib.Data.Nat.Notation

/-!
A text that is encoded and decoded is the same text, so a file that holds an encoded text is read
as this text.
-/
namespace HostGauge

namespace Text.Utf8

theorem between_iff (low high b : UInt8) : (decide (low ≤ b) && decide (b ≤ high)) = true ↔
    low.toNat ≤ b.toNat ∧ b.toNat ≤ high.toNat := by
  simp only [Bool.and_eq_true, decide_eq_true_eq, UInt8.le_iff_toNat_le]

/-! The ranges of the first byte of a character, by the number of its bytes. -/

theorem one_iff (b : UInt8) : b < 0x80 ↔ b.toNat < 0x80 := UInt8.lt_iff_toNat_lt

theorem two_iff (b : UInt8) : (decide (0xC2 ≤ b) && decide (b ≤ 0xDF)) = true ↔
    0xC2 ≤ b.toNat ∧ b.toNat ≤ 0xDF := between_iff 0xC2 0xDF b

theorem three_iff (b : UInt8) : (decide (0xE0 ≤ b) && decide (b ≤ 0xEF)) = true ↔
    0xE0 ≤ b.toNat ∧ b.toNat ≤ 0xEF := between_iff 0xE0 0xEF b

theorem four_iff (b : UInt8) : (decide (0xF0 ≤ b) && decide (b ≤ 0xF4)) = true ↔
    0xF0 ≤ b.toNat ∧ b.toNat ≤ 0xF4 := between_iff 0xF0 0xF4 b

theorem toNat_ofNat {n : ℕ} (h : n < 256) : (UInt8.ofNat n).toNat = n :=
  UInt8.toNat_ofNat_of_lt' h

/-- A byte with six bits of a character, after its first byte. -/
def continuation (n : ℕ) : UInt8 := UInt8.ofNat (n % 0x40 + 0x80)

theorem toNat_continuation (n : ℕ) : (continuation n).toNat = n % 0x40 + 0x80 :=
  toNat_ofNat (by omega)

theorem isContinuation_continuation (n : ℕ) : isContinuation (continuation n) = true := by
  rw [isContinuation, between_iff, toNat_continuation]
  exact ⟨Nat.le_add_left .., by change _ ≤ 0xBF; omega⟩

theorem payload_continuation (n : ℕ) : payload (continuation n) = n % 0x40 := by
  rw [payload, toNat_continuation]
  omega

variable {first : UInt8} {rest : List UInt8}

/-- The second byte of a character of three bytes that is neither overlong nor a surrogate. -/
theorem fitsThree_continuation {n m : ℕ} (hfirst : first.toNat = n + 0xE0) (hm : m < 0x40)
    (hlong : n = 0 → 0x20 ≤ m) (hsurrogate : n = 0xD → m < 0x20) :
    fitsThree first (continuation m) = true := by
  have hsecond := toNat_continuation m
  unfold fitsThree
  simp only [← UInt8.toNat_inj, hfirst]
  split
  case isTrue h =>
    rw [between_iff, hsecond]
    change n + 0xE0 = 0xE0 at h
    change 0xA0 ≤ _ ∧ _ ≤ 0xBF
    omega
  case isFalse =>
    split
    case isTrue h =>
      rw [between_iff, hsecond]
      change n + 0xE0 = 0xED at h
      change 0x80 ≤ _ ∧ _ ≤ 0x9F
      omega
    case isFalse => exact isContinuation_continuation m

/-- The second byte of a character of four bytes that is neither overlong nor beyond the last. -/
theorem fitsFour_continuation {n m : ℕ} (hfirst : first.toNat = n + 0xF0) (hm : m < 0x40)
    (hlong : n = 0 → 0x10 ≤ m) (hbeyond : n = 4 → m < 0x10) :
    fitsFour first (continuation m) = true := by
  have hsecond := toNat_continuation m
  unfold fitsFour
  simp only [← UInt8.toNat_inj, hfirst]
  split
  case isTrue h =>
    rw [between_iff, hsecond]
    change n + 0xF0 = 0xF0 at h
    change 0x90 ≤ _ ∧ _ ≤ 0xBF
    omega
  case isFalse =>
    split
    case isTrue h =>
      rw [between_iff, hsecond]
      change n + 0xF0 = 0xF4 at h
      change 0x80 ≤ _ ∧ _ ≤ 0x8F
      omega
    case isFalse => exact isContinuation_continuation m

theorem start_one {n : ℕ} (hn : n < 0x80) :
    start (UInt8.ofNat n) rest = .char (Char.ofNat n) 0 := by
  have hfirst : (UInt8.ofNat n).toNat = n := toNat_ofNat (by omega)
  have hone : UInt8.ofNat n < 0x80 := (one_iff _).mpr (by rwa [hfirst])
  unfold start
  rw [if_pos hone, hfirst]

theorem start_two {n m : ℕ} (hn : 2 ≤ n ∧ n < 0x20) :
    start (UInt8.ofNat (n + 0xC0)) (continuation m :: rest) =
      .char (Char.ofNat (n * 64 + m % 64)) 1 := by
  have hfirst : (UInt8.ofNat (n + 0xC0)).toNat = n + 0xC0 := toNat_ofNat (by omega)
  have hone := mt (one_iff (UInt8.ofNat (n + 0xC0))).mp (by omega)
  have htwo := (two_iff (UInt8.ofNat (n + 0xC0))).mpr (by omega)
  have hbits : (n + 0xC0) % 32 = n := by omega
  unfold start
  rw [if_neg hone, if_pos htwo]
  dsimp only
  rw [if_pos (isContinuation_continuation m), hfirst, hbits, payload_continuation]

theorem start_three {n m k : ℕ} (hn : n < 0x10) (hm : m < 0x40)
    (hlong : n = 0 → 0x20 ≤ m) (hsurrogate : n = 0xD → m < 0x20) :
    start (UInt8.ofNat (n + 0xE0)) (continuation m :: continuation k :: rest) =
      .char (Char.ofNat ((n * 64 + m) * 64 + k % 64)) 2 := by
  have hfirst : (UInt8.ofNat (n + 0xE0)).toNat = n + 0xE0 := toNat_ofNat (by omega)
  have hone := mt (one_iff (UInt8.ofNat (n + 0xE0))).mp (by omega)
  have htwo := mt (two_iff (UInt8.ofNat (n + 0xE0))).mp (by omega)
  have hthree := (three_iff (UInt8.ofNat (n + 0xE0))).mpr (by omega)
  have hfits := fitsThree_continuation hfirst hm hlong hsurrogate
  have hbits : (n + 0xE0) % 16 = n := by omega
  unfold start
  rw [if_neg hone, if_neg htwo, if_pos hthree]
  dsimp only
  rw [if_pos hfits, if_pos (isContinuation_continuation k), hfirst, hbits, payload_continuation,
    payload_continuation, Nat.mod_eq_of_lt hm]

theorem start_four {n m k l : ℕ} (hn : n < 5) (hm : m < 0x40) (hlong : n = 0 → 0x10 ≤ m)
    (hbeyond : n = 4 → m < 0x10) :
    start (UInt8.ofNat (n + 0xF0)) (continuation m :: continuation k :: continuation l :: rest) =
      .char (Char.ofNat (((n * 64 + m) * 64 + k % 64) * 64 + l % 64)) 3 := by
  have hfirst : (UInt8.ofNat (n + 0xF0)).toNat = n + 0xF0 := toNat_ofNat (by omega)
  have hone := mt (one_iff (UInt8.ofNat (n + 0xF0))).mp (by omega)
  have htwo := mt (two_iff (UInt8.ofNat (n + 0xF0))).mp (by omega)
  have hthree := mt (three_iff (UInt8.ofNat (n + 0xF0))).mp (by omega)
  have hfour := (four_iff (UInt8.ofNat (n + 0xF0))).mpr (by omega)
  have hfits := fitsFour_continuation hfirst hm hlong hbeyond
  have hbits : (n + 0xF0) % 8 = n := by omega
  unfold start
  rw [if_neg hone, if_neg htwo, if_neg hthree, if_pos hfour]
  dsimp only
  rw [if_pos hfits, if_pos (isContinuation_continuation k), if_pos (isContinuation_continuation l),
    hfirst, hbits, payload_continuation, payload_continuation, payload_continuation,
    Nat.mod_eq_of_lt hm]

/-- The encoding of a character begins a text with this character, whatever comes after it. -/
theorem start_encoded (c : Char) : ∃ first more, String.utf8EncodeChar c = first :: more ∧
    ∀ rest, start first (more ++ rest) = .char c more.length := by
  have hvalid : c.val.toNat < 0xD800 ∨ 0xDFFF < c.val.toNat ∧ c.val.toNat < 0x110000 := c.valid
  have hchar : ∀ {n : ℕ}, n = c.val.toNat → Char.ofNat n = c := by
    rintro n rfl
    exact Char.ofNat_toNat c
  unfold String.utf8EncodeChar
  simp only
  generalize c.val.toNat = v at hvalid hchar
  split
  case isTrue h =>
    refine ⟨_, _, rfl, fun rest => (start_one (by omega)).trans ?_⟩
    rw [hchar rfl]
    rfl
  case isFalse =>
    split
    case isTrue h =>
      refine ⟨_, _, rfl, fun rest => (start_two (n := v / 64 % 0x20) (m := v) (by omega)).trans ?_⟩
      rw [hchar (by omega)]
      rfl
    case isFalse =>
      split
      case isTrue h =>
        have hsecond : UInt8.ofNat (v / 64 % 0x40 + 0x80) = continuation (v / 64 % 0x40) := by
          rw [continuation, Nat.mod_mod]
        rw [hsecond]
        refine ⟨_, _, rfl, fun rest => (start_three (n := v / 4096 % 0x10) (m := v / 64 % 0x40)
          (k := v) (by omega) (by omega) (by omega) (by omega)).trans ?_⟩
        rw [hchar (by omega)]
        rfl
      case isFalse =>
        have hsecond : UInt8.ofNat (v / 4096 % 0x40 + 0x80) = continuation (v / 4096 % 0x40) := by
          rw [continuation, Nat.mod_mod]
        rw [hsecond]
        refine ⟨_, _, rfl, fun rest => (start_four (n := v / 262144 % 0x08) (m := v / 4096 % 0x40)
          (k := v / 64) (l := v) (by omega) (by omega) (by omega) (by omega)).trans ?_⟩
        rw [hchar (by omega)]
        rfl

theorem decode?_encoded (s : List Char) : decode? (s.flatMap String.utf8EncodeChar) = some s := by
  induction s with
  | nil => rw [List.flatMap_nil, decode?]
  | cons c s ih =>
      obtain ⟨first, more, hc, hstart⟩ := start_encoded c
      rw [List.flatMap_cons, hc, List.cons_append, decode?, hstart]
      dsimp only
      rw [List.drop_left, ih, Option.map_some]

end Text.Utf8

/-- A file that holds the encoding of a text is read as this text. -/
theorem Host.readText_of_encoded {host : Host} {path : String} {text : List Char}
    (h : host.read path = .ok (text.flatMap String.utf8EncodeChar)) :
    host.readText path = .ok text := by
  rw [readText, h]
  dsimp only
  rw [Text.Utf8.decode?_encoded]

/-- A host on which every file holds the same text. -/
def Host.holding (text : List Char) : Host where
  read _ := .ok (text.flatMap String.utf8EncodeChar)
  isPresent _ := true
  isRegularFile _ := true
  list _ := .error .notADirectory
  run _ := .notStarted .notFound
  jsonRefusal _ := ""

theorem Host.readText_holding (text : List Char) (path : String) :
    (Host.holding text).readText path = .ok text := readText_of_encoded rfl

end HostGauge
