import Mathlib.Data.List.Basic

/-!
# Text — the string functions of the standard library

What the providers use of Rust's `str` and `char`, over the characters of a string. `len` is the
number of UTF-8 bytes.
-/

namespace Permesh.Text

/-- `str::len`. -/
def len (s : String) : Nat := s.utf8ByteSize

/-- `str::as_bytes`. -/
def asBytes (s : String) : List UInt8 := s.toByteArray.data.toList

/-- `str::from_utf8`. -/
def fromUtf8 (bytes : List UInt8) : Option String := String.fromUTF8? ⟨bytes.toArray⟩

/-- `char::is_control`: the general category Cc. -/
def isControl (c : Char) : Bool := c.toNat < 0x20 || (0x7f ≤ c.toNat && c.toNat ≤ 0x9f)

/-- `char::is_whitespace`: the property White_Space. -/
def isWhitespace (c : Char) : Bool :=
  let n := c.toNat
  (9 ≤ n && n ≤ 13) || n == 0x20 || n == 0x85 || n == 0xa0 || n == 0x1680 ||
    (0x2000 ≤ n && n ≤ 0x200a) || n == 0x2028 || n == 0x2029 || n == 0x202f || n == 0x205f ||
    n == 0x3000

/-- Drops from both ends while `p` holds. -/
def trimBy (p : Char → Bool) (s : String) : String :=
  .ofList (((s.toList.dropWhile p).reverse.dropWhile p).reverse)

/-- `str::trim`. -/
def trim (s : String) : String := trimBy isWhitespace s

/-- `str::trim_matches` with a character. -/
def trimMatches (c : Char) (s : String) : String := trimBy (· == c) s

/-- The parts between the separators. -/
def splitChars (p : Char → Bool) : List Char → List (List Char)
  | [] => [[]]
  | c :: rest =>
    if p c then [] :: splitChars p rest
    else match splitChars p rest with
      | [] => [[c]]
      | part :: parts => (c :: part) :: parts

/-- `str::split` with a character. -/
def split (c : Char) (s : String) : List String := (splitChars (· == c) s.toList).map .ofList

/-- `str::split_whitespace`. -/
def splitWhitespace (s : String) : List String :=
  ((splitChars isWhitespace s.toList).filter (· ≠ [])).map .ofList

/-- `str::split_once` with a character. -/
def splitOnce (c : Char) (s : String) : Option (String × String) :=
  let before := s.toList.takeWhile (· != c)
  match s.toList.dropWhile (· != c) with
  | [] => none
  | _ :: after => some (.ofList before, .ofList after)

/-- `str::strip_prefix`. -/
def stripPrefix (pre s : String) : Option String :=
  if pre.toList.isPrefixOf s.toList then some (.ofList (s.toList.drop pre.toList.length)) else none

/-- `str::strip_suffix`. -/
def stripSuffix (suf s : String) : Option String :=
  if suf.toList.isSuffixOf s.toList then
    some (.ofList (s.toList.take (s.toList.length - suf.toList.length)))
  else none

def containsChars (pattern : List Char) : List Char → Bool
  | [] => pattern.isEmpty
  | c :: rest => pattern.isPrefixOf (c :: rest) || containsChars pattern rest

/-- `str::contains` with a string. -/
def contains (pattern : String) (s : String) : Bool := containsChars pattern.toList s.toList

def isAsciiDigit (c : Char) : Bool := '0' ≤ c && c ≤ '9'

def isAsciiUppercase (c : Char) : Bool := 'A' ≤ c && c ≤ 'Z'

def isAsciiAlphanumeric (c : Char) : Bool :=
  isAsciiDigit c || isAsciiUppercase c || ('a' ≤ c && c ≤ 'z')

def isAsciiHexdigit (c : Char) : Bool :=
  isAsciiDigit c || ('a' ≤ c && c ≤ 'f') || ('A' ≤ c && c ≤ 'F')

/-- The number that decimal digits write. -/
def digits (cs : List Char) : Option Nat :=
  if cs = [] ∨ ¬ cs.all isAsciiDigit then none
  else some (cs.foldl (fun n c => 10 * n + (c.toNat - '0'.toNat)) 0)

/-- `str::parse` into an unsigned type: digits behind at most one plus sign, below the bound. -/
def parseUnsigned (bound : Nat) (s : String) : Option Nat :=
  let value := match s.toList with
    | '+' :: rest => digits rest
    | cs => digits cs
  value.filter (· < bound)

/-- `str::parse::<u64>`, and `usize` on a 64-bit target. -/
def parseU64 (s : String) : Option Nat := parseUnsigned UInt64.size s

/-- `u8::to_ascii_lowercase`. -/
def toAsciiLowercase (c : Char) : Char :=
  if isAsciiUppercase c then Char.ofNat (c.toNat + 32) else c

/-- `str::to_ascii_lowercase`. -/
def lowercase (s : String) : String := .ofList (s.toList.map toAsciiLowercase)

/-- `str::eq_ignore_ascii_case`. -/
def eqIgnoreAsciiCase (s t : String) : Bool := lowercase s == lowercase t

/-- A number is read back from its decimal digits. -/
theorem toString_injective : Function.Injective (toString : Nat → String) := by
  intro a b h
  have digits : Nat.toDigits 10 a = Nat.toDigits 10 b := by
    rw [← Nat.toList_repr, ← Nat.toList_repr]
    exact congrArg String.toList h
  calc a = Nat.ofDigitChars 10 (Nat.toDigits 10 a) 0 := Nat.ofDigitChars_ten_toDigits.symm
    _ = Nat.ofDigitChars 10 (Nat.toDigits 10 b) 0 := by rw [digits]
    _ = b := Nat.ofDigitChars_ten_toDigits

end Permesh.Text
