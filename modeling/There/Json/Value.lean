import Mathlib.Data.List.TakeWhile

/-!
# JSON values and how they are written

A value says what its text says and no more. A number is the token that it is written
with, and the members of an object stand in the order of the text, where a name may occur
more than once. What to make of either is up to the reader of the value.

Values are written without blanks. In a string only quotes, backslashes and control
characters are escaped.
-/

namespace Json

def isDigits (cs : List Char) : Bool := !cs.isEmpty && cs.all Char.isDigit

/-- A sequence of digits that does not begin with a zero, unless it is one. -/
def isInteger (cs : List Char) : Bool := isDigits cs && (cs.head? != some '0' || cs.length == 1)

/-- The characters that a number is made of. -/
def isNumberChar (c : Char) : Bool := c.isDigit || ['-', '+', '.', 'e', 'E'].contains c

/-- An optional sign, an integer, an optional fraction and an optional exponent. -/
def isNumber (token : List Char) : Bool :=
  let unsigned := if token.head? = some '-' then token.tail else token
  let mantissa := unsigned.takeWhile fun c => c != 'e' && c != 'E'
  let fraction := mantissa.dropWhile (· != '.')
  let exponent := unsigned.dropWhile fun c => c != 'e' && c != 'E'
  let signed := exponent.tail.head? = some '+' ∨ exponent.tail.head? = some '-'
  token.all isNumberChar && isInteger (mantissa.takeWhile (· != '.')) &&
    (fraction.isEmpty || isDigits fraction.tail) &&
    (exponent.isEmpty || isDigits (if signed then exponent.tail.tail else exponent.tail))

/-- A number as it is written. -/
structure Number where
  token : List Char
  isNumber : isNumber token = true

inductive Value where
  | null
  | bool (b : Bool)
  | number (n : Number)
  | string (s : String)
  | array (elements : List Value)
  | object (members : List (String × Value))

section Numbers

theorem isDigit_of_isDigits {cs : List Char} {c : Char} (digits : isDigits cs) (member : c ∈ cs) :
    c.isDigit := by
  rw [isDigits, Bool.and_eq_true] at digits
  exact List.all_eq_true.mp digits.2 c member

theorem isDigits_toDigits (n : Nat) : isDigits (Nat.toDigits 10 n) := by
  have digits : (Nat.toDigits 10 n).all Char.isDigit := List.all_eq_true.mpr fun c member =>
    Nat.isDigit_of_mem_toDigits (by decide) (by decide) member
  simp [isDigits, Nat.toDigits_ne_nil, digits]

/-- Only zero is written with a leading zero. -/
theorem isInteger_toDigits (n : Nat) : isInteger (Nat.toDigits 10 n) := by
  have leading : ∀ n, (Nat.toDigits 10 n).head? = some '0' → n = 0 := by
    intro n
    induction n using Nat.strongRecOn with
    | _ n ih =>
        rcases Nat.lt_or_ge n 10 with small | large
        · rw [Nat.toDigits_of_lt_base small, List.head?_cons, Option.some.injEq]
          exact (by decide : ∀ n < 10, Nat.digitChar n = '0' → n = 0) n small
        · rw [Nat.toDigits_of_base_le (by decide) large, List.head?_append]
          intro zero
          cases head : (Nat.toDigits 10 (n / 10)).head? with
          | none => exact absurd (List.head?_eq_none_iff.mp head) Nat.toDigits_ne_nil
          | some c =>
              have := ih (n / 10) (by omega) (by rw [head] at zero ⊢; exact zero)
              omega
  rw [isInteger, isDigits_toDigits, Bool.true_and, Bool.or_eq_true]
  by_cases zero : n = 0
  · exact .inr (by simp [zero])
  · exact .inl (by simpa using mt (leading n) zero)

/-- A digit is none of the characters that structure a number. -/
theorem ne_of_isDigit {c : Char} (digit : c.isDigit) :
    c ≠ '-' ∧ c ≠ '.' ∧ c ≠ 'e' ∧ c ≠ 'E' := by
  refine ⟨?_, ?_, ?_, ?_⟩ <;> rintro rfl <;> revert digit <;> decide

/-- A sequence of digits is a number if it is an integer. -/
theorem isNumber_of_isInteger {cs : List Char} (integer : isInteger cs) : isNumber cs := by
  have digits : isDigits cs := (Bool.and_eq_true_iff.mp integer).1
  have digit : ∀ c ∈ cs, c.isDigit := fun c => isDigit_of_isDigits digits
  have unsigned : (if cs.head? = some '-' then cs.tail else cs) = cs := by
    rw [if_neg]
    intro sign
    exact (ne_of_isDigit (digit '-' (List.mem_of_mem_head? sign))).1 rfl
  have mantissa : (cs.takeWhile fun c => c != 'e' && c != 'E') = cs :=
    List.takeWhile_eq_self_iff.mpr fun c member => by
      simp [(ne_of_isDigit (digit c member)).2.2]
  have exponent : (cs.dropWhile fun c => c != 'e' && c != 'E') = [] :=
    List.dropWhile_eq_nil_iff.mpr fun c member => by
      simp [(ne_of_isDigit (digit c member)).2.2]
  have whole : cs.takeWhile (· != '.') = cs :=
    List.takeWhile_eq_self_iff.mpr fun c member => by
      simp [(ne_of_isDigit (digit c member)).2.1]
  have fraction : cs.dropWhile (· != '.') = [] :=
    List.dropWhile_eq_nil_iff.mpr fun c member => by
      simp [(ne_of_isDigit (digit c member)).2.1]
  have chars : cs.all isNumberChar :=
    List.all_eq_true.mpr fun c member => by simp [isNumberChar, digit c member]
  rw [isNumber]
  simp only [unsigned, mantissa, exponent, whole, fraction, chars, integer, List.isEmpty_nil,
    Bool.true_or, Bool.and_self]

theorem Number.isNumberChar (n : Number) {c : Char} (member : c ∈ n.token) :
    Json.isNumberChar c := by
  have h := n.isNumber
  simp only [Json.isNumber, Bool.and_eq_true] at h
  exact List.all_eq_true.mp h.1.1.1 c member

theorem Number.token_ne_nil (n : Number) : n.token ≠ [] := by
  intro empty
  have h := n.isNumber
  rw [empty] at h
  revert h
  decide

def Number.ofNat (n : Nat) : Number :=
  ⟨Nat.toDigits 10 n, isNumber_of_isInteger (isInteger_toDigits n)⟩

/-- The value of a number that is written with digits only. -/
def Number.toNat? (n : Number) : Option Nat :=
  if n.token.all Char.isDigit then some (Nat.ofDigitChars 10 n.token 0) else none

@[simp] theorem Number.toNat?_ofNat (n : Nat) : (Number.ofNat n).toNat? = some n := by
  have digits : (Nat.toDigits 10 n).all Char.isDigit :=
    (Bool.and_eq_true_iff.mp (isDigits_toDigits n)).2
  rw [toNat?, ofNat, if_pos digits, Nat.ofDigitChars_ten_toDigits]

end Numbers

/-- A digit of an escape, in lower case. -/
def hexDigit (n : Nat) : Char := (Nat.toDigits 16 n).headD '0'

/-- A character as it is written inside a string. -/
def escaped (c : Char) : List Char :=
  if c = '"' then ['\\', '"']
  else if c = '\\' then ['\\', '\\']
  else if c = '\x08' then ['\\', 'b']
  else if c = '\t' then ['\\', 't']
  else if c = '\n' then ['\\', 'n']
  else if c = '\x0c' then ['\\', 'f']
  else if c = '\r' then ['\\', 'r']
  else if c.toNat < 32 then ['\\', 'u', '0', '0', hexDigit (c.toNat / 16), hexDigit (c.toNat % 16)]
  else [c]

def quoted (s : String) : List Char := '"' :: (s.toList.flatMap escaped ++ ['"'])

namespace Value

mutual

def print : Value → List Char
  | null => ['n', 'u', 'l', 'l']
  | bool true => ['t', 'r', 'u', 'e']
  | bool false => ['f', 'a', 'l', 's', 'e']
  | number n => n.token
  | string s => quoted s
  | array vs => '[' :: (printElements vs ++ [']'])
  | object ms => '{' :: (printMembers ms ++ ['}'])

def printElements : List Value → List Char
  | [] => []
  | [v] => v.print
  | v :: w :: vs => v.print ++ ',' :: printElements (w :: vs)

def printMembers : List (String × Value) → List Char
  | [] => []
  | [(name, v)] => quoted name ++ ':' :: v.print
  | (name, v) :: m :: ms => quoted name ++ ':' :: (v.print ++ ',' :: printMembers (m :: ms))

end

mutual

/-- How deep arrays and objects are nested in a value. -/
def depth : Value → Nat
  | array vs => depthElements vs + 1
  | object ms => depthMembers ms + 1
  | _ => 0

def depthElements : List Value → Nat
  | [] => 0
  | v :: vs => max v.depth (depthElements vs)

def depthMembers : List (String × Value) → Nat
  | [] => 0
  | (_, v) :: ms => max v.depth (depthMembers ms)

end

end Value

end Json
