/-
String functions of the host language, over lists of characters: white space and trimming, splitting, fields, whole-word
search, decimal numerals of a 64-bit integer. They follow the documented behaviour of `strings` and `strconv`.
-/
import Mathlib.Tactic

namespace AccessPoint.Text

/-- `unicode.IsSpace` -/
def isSpace (c : Char) : Bool :=
  c.toNat ∈ [0x09, 0x0a, 0x0b, 0x0c, 0x0d, 0x20, 0x85, 0xa0, 0x1680, 0x2028, 0x2029, 0x202f, 0x205f, 0x3000] ||
    (0x2000 ≤ c.toNat && c.toNat ≤ 0x200a)

def trimLeft (p : Char → Bool) (s : List Char) : List Char := s.dropWhile p

def trimRight (p : Char → Bool) (s : List Char) : List Char := (s.reverse.dropWhile p).reverse

/-- `strings.TrimSpace` -/
def trimSpace (s : List Char) : List Char := trimRight isSpace (trimLeft isSpace s)

/-- `strings.Split` at one character: always at least one part -/
def splitAt (sep : Char) : List Char → List (List Char)
  | [] => [[]]
  | c :: cs =>
    if c = sep then [] :: splitAt sep cs
    else
      match splitAt sep cs with
      | [] => [[c]]
      | part :: parts => (c :: part) :: parts

/-- `strings.Join` with one character -/
def joinWith (sep : Char) : List (List Char) → List Char
  | [] => []
  | [part] => part
  | part :: parts => part ++ sep :: joinWith sep parts

/-- `strings.FieldsFunc`: the maximal runs of characters outside `p` -/
def fieldsFunc (p : Char → Bool) (s : List Char) : List (List Char) :=
  let parts := s.foldr (fun c acc =>
    match acc with
    | [] => if p c then [[]] else [[c]]
    | part :: parts => if p c then [] :: part :: parts else (c :: part) :: parts) [[]]
  parts.filter (· ≠ [])

/-- `strings.Fields` -/
def fields (s : List Char) : List (List Char) := fieldsFunc isSpace s

/-- `w` stands at the head of `s`, ASCII case ignored -/
def startsWithFold (w s : List Char) : Bool := (s.take w.length).map Char.toLower = w

/-- the value of a run of decimal digits -/
def digits (cs : List Char) : Option ℤ :=
  if cs ≠ [] ∧ cs.all Char.isDigit then some (cs.foldl (fun n c => 10 * n + (c.toNat - '0'.toNat : ℕ)) 0) else none

/-- `strconv.Atoi`: an optional sign and digits, within 64 bits -/
def atoi (s : List Char) : Option ℤ :=
  let v := match s with
    | '-' :: ds => (digits ds).map fun n => -n
    | '+' :: ds => digits ds
    | ds => digits ds
  match v with
  | some n => if -2 ^ 63 ≤ n ∧ n < 2 ^ 63 then some n else none
  | none => none

/-- two's complement 64-bit wrap-around -/
def wrap64 (n : ℤ) : ℤ := n.bmod (2 ^ 64)

/-- a 64-bit number stays -/
theorem wrap64_eq {n : ℤ} (hlow : -2 ^ 63 ≤ n) (hhigh : n < 2 ^ 63) : wrap64 n = n := by
  unfold wrap64
  rw [Int.bmod_eq_of_le (by omega) (by omega)]

theorem wrap64_over {n : ℤ} (hlow : 2 ^ 63 ≤ n) (hhigh : n < 2 ^ 64 + 2 ^ 63) : wrap64 n = n - 2 ^ 64 := by
  unfold wrap64
  rw [Int.bmod_def]
  push_cast
  split_ifs <;> omega

theorem le_wrap64 (n : ℤ) : -2 ^ 63 ≤ wrap64 n := by
  unfold wrap64
  rw [Int.bmod_def]
  push_cast
  split_ifs <;> omega

theorem wrap64_lt (n : ℤ) : wrap64 n < 2 ^ 63 := by
  unfold wrap64
  rw [Int.bmod_def]
  push_cast
  split_ifs <;> omega

/-- wrapping around never makes a number larger, unless it is too small -/
theorem wrap64_le {n : ℤ} (h : -2 ^ 63 ≤ n) : wrap64 n ≤ n := by
  unfold wrap64
  rw [Int.bmod_def]
  push_cast
  split_ifs <;> omega

/-- `strings.ReplaceAll(s, "\"\"", "\"")` -/
def undoubleQuotes : List Char → List Char
  | '"' :: '"' :: cs => '"' :: undoubleQuotes cs
  | c :: cs => c :: undoubleQuotes cs
  | [] => []

end AccessPoint.Text
