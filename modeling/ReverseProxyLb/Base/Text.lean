import Mathlib.Tactic

/-! Strings and header maps as the source's standard library treats them. -/
namespace ReverseProxyLb
namespace Text

/-- `unicode.IsSpace`. -/
def isSpace (c : Char) : Bool :=
  let n := c.toNat
  n == 0x20 || (0x09 ≤ n && n ≤ 0x0d) || n == 0x85 || n == 0xa0 || n == 0x1680 ||
    (0x2000 ≤ n && n ≤ 0x200a) || n == 0x2028 || n == 0x2029 || n == 0x202f || n == 0x205f ||
    n == 0x3000

def trimLeft (s : List Char) : List Char := s.dropWhile isSpace

/-- `strings.TrimSpace`. -/
def trimSpace (s : String) : String :=
  String.ofList (trimLeft (trimLeft s.toList).reverse).reverse

/-- `unicode.ToLower` where the lower case is an ASCII letter: also of the dotted capital I and
the Kelvin sign. -/
def lowerChar (c : Char) : Char :=
  if c.toNat = 0x130 then 'i' else if c.toNat = 0x212a then 'k' else c.toLower

/-- `strings.ToLower`. -/
def toLower (s : String) : String := String.ofList (s.toList.map lowerChar)

/-- `unicode.ToUpper` where the upper case is an ASCII letter: also of the dotless i and the long
s. -/
def upperChar (c : Char) : Char :=
  if c.toNat = 0x131 then 'I' else if c.toNat = 0x17f then 'S' else c.toUpper

/-- `strings.ToUpper`. -/
def toUpper (s : String) : String := String.ofList (s.toList.map upperChar)

/-- The least member of a class of `unicode.SimpleFold` that has an ASCII letter. -/
def foldChar (c : Char) : Char :=
  if c.toNat = 0x17f then 's' else if c.toNat = 0x212a then 'k' else c.toLower

/-- `strings.EqualFold`. -/
def equalFold (s t : String) : Bool := s.toList.map foldChar == t.toList.map foldChar

def splitChars (sep : Char) : List Char → List (List Char)
  | [] => [[]]
  | c :: cs =>
    if c = sep then [] :: splitChars sep cs
    else match splitChars sep cs with
      | [] => [[c]]
      | part :: parts => (c :: part) :: parts

/-- `strings.Split` at a one-character separator. -/
def split (s : String) (sep : Char) : List String :=
  (splitChars sep s.toList).map String.ofList

/-- `strings.TrimRight` with a one-character cutset. -/
def trimRight (s : String) (c : Char) : String :=
  String.ofList (s.toList.reverse.dropWhile (· = c)).reverse

/-- `strings.Contains`. -/
def contains (s part : String) : Bool := decide (part.toList <:+: s.toList)

/-- What follows the leading text, where `strings.HasPrefix` holds of it. -/
def after? (lead s : String) : Option String :=
  if lead.toList <+: s.toList then some (String.ofList (s.toList.drop lead.toList.length)) else none

def digits? : List Char → ℕ → Option ℕ
  | [], n => some n
  | c :: cs, n => if c.isDigit then digits? cs (10 * n + (c.toNat - 48)) else none

/-- `strconv.Atoi`: an optional sign and decimal digits, within an `int64`. -/
def atoi (s : String) : Option ℤ :=
  let unsigned (cs : List Char) : Option ℕ := if cs = [] then none else digits? cs 0
  match s.toList with
  | '-' :: cs => (unsigned cs).bind fun n => if n ≤ 2 ^ 63 then some (-n) else none
  | '+' :: cs => (unsigned cs).bind fun n => if n < 2 ^ 63 then some n else none
  | cs => (unsigned cs).bind fun n => if n < 2 ^ 63 then some n else none

def isFieldChar (c : Char) : Bool := c.isAlphanum || "!#$%&'*+-.^_`|~".toList.contains c

def isToken (s : String) : Bool := s != "" && s.toList.all isFieldChar

def canonicalChars : Bool → List Char → List Char
  | _, [] => []
  | upper, c :: cs =>
    (if upper then c.toUpper else c.toLower) :: canonicalChars (c == '-') cs

/-- `http.CanonicalHeaderKey`: a name with a character no field name has stays as it is. -/
def canonicalHeaderKey (s : String) : String :=
  if s.toList.all isFieldChar then String.ofList (canonicalChars true s.toList) else s

theorem toUpper_toNat (c : Char) :
    c.toUpper.toNat = if 97 ≤ c.toNat ∧ c.toNat ≤ 122 then c.toNat - 32 else c.toNat := by
  unfold Char.toUpper Char.toNat
  simp only [UInt32.le_iff_toNat_le]
  change (if h : 97 ≤ c.val.toNat ∧ c.val.toNat ≤ 122 then _ else c : Char).val.toNat = _
  split
  · simp only [UInt32.toNat_add]
    have hd : ('A'.val - 'a'.val).toNat = 4294967264 := rfl
    omega
  · rfl

theorem toLower_toNat (c : Char) :
    c.toLower.toNat = if 65 ≤ c.toNat ∧ c.toNat ≤ 90 then c.toNat + 32 else c.toNat := by
  unfold Char.toLower Char.toNat
  simp only [ge_iff_le, UInt32.le_iff_toNat_le]
  change (if h : 65 ≤ c.val.toNat ∧ c.val.toNat ≤ 90 then _ else c : Char).val.toNat = _
  split
  · simp only [UInt32.toNat_add]
    have hd : ('a'.val - 'A'.val).toNat = 32 := rfl
    omega
  · rfl

theorem recase_idem (upper : Bool) (c : Char) :
    (let c' := if upper then c.toUpper else c.toLower
    (if upper then c'.toUpper else c'.toLower) = c' ∧ ((c' == '-') = (c == '-'))) := by
  have hdash : '-'.toNat = 45 := rfl
  cases upper with
  | true =>
    have h := toUpper_toNat c
    have h' := toUpper_toNat c.toUpper
    simp only [if_true]
    rw [Bool.eq_iff_iff, beq_iff_eq, beq_iff_eq]
    simp only [← Char.toNat_inj, hdash]
    split_ifs at h h' <;> omega
  | false =>
    have h := toLower_toNat c
    have h' := toLower_toNat c.toLower
    simp only [Bool.false_eq_true, if_false]
    rw [Bool.eq_iff_iff, beq_iff_eq, beq_iff_eq]
    simp only [← Char.toNat_inj, hdash]
    split_ifs at h h' <;> omega

theorem canonicalChars_idem (upper : Bool) (cs : List Char) :
    canonicalChars upper (canonicalChars upper cs) = canonicalChars upper cs := by
  induction cs generalizing upper with
  | nil => rfl
  | cons c cs ih =>
    obtain ⟨hcase, hdash⟩ := recase_idem upper c
    simp only [canonicalChars, hcase, hdash, ih]

theorem canonicalHeaderKey_idem (s : String) :
    canonicalHeaderKey (canonicalHeaderKey s) = canonicalHeaderKey s := by
  unfold canonicalHeaderKey
  by_cases h : s.toList.all isFieldChar
  · rw [if_pos h]
    split
    · rw [String.toList_ofList, canonicalChars_idem]
    · rfl
  · rw [if_neg h, if_neg h]

theorem canonicalHeaderKey_eq_empty (s : String) : canonicalHeaderKey s = "" ↔ s = "" := by
  unfold canonicalHeaderKey
  split
  · rw [← String.toList_inj, ← String.toList_inj, String.toList_ofList]
    cases s.toList with
    | nil => simp [canonicalChars]
    | cons c cs => simp [canonicalChars]
  · rfl

end Text

def Header := String → List String

namespace Header

/-- `h.Values(name)`. -/
def values (h : Header) (name : String) : List String := h (Text.canonicalHeaderKey name)

@[simp] theorem values_canonical (h : Header) (name : String) :
    h.values (Text.canonicalHeaderKey name) = h.values name := by
  unfold values
  rw [Text.canonicalHeaderKey_idem]

/-- `h.Get(name)`, the first field value only. -/
def get (h : Header) (name : String) : String := (h.values name).headD ""

def ofList (fields : List (String × List String)) : Header := fun k => (fields.lookup k).getD []

end Header
end ReverseProxyLb
