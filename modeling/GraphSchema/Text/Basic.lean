/-!
# Text as code points

Schema documents are counted in Unicode code points, and an escape sequence in a string literal may
name a surrogate on its own. A text is therefore a list of code points, surrogates included.

## Main definitions

* `CodePoint`: a number below `0x110000`; characters coerce to it.
* `Text`: a list of code points; string literals coerce to it.
* `Text.ofNat`, `Text.ofInt`: decimal numerals.
* `Text.intercalate`, `Text.splitOn`, `Text.remove`: joining, cutting and deleting.
-/

namespace GraphSchema

/-- A Unicode code point; surrogates are allowed. -/
structure CodePoint where
  val : Nat
  isLt : val < 0x110000 := by decide
deriving DecidableEq

namespace CodePoint

theorem toNat_lt (c : Char) : c.toNat < 0x110000 := by
  have h := c.valid
  simp only [UInt32.isValidChar, Nat.isValidChar] at h
  change c.val.toNat < 0x110000
  omega

/-- The code point of a character. -/
def ofChar (c : Char) : CodePoint := ⟨c.toNat, toNat_lt c⟩

instance : Coe Char CodePoint := ⟨ofChar⟩

instance : Inhabited CodePoint := ⟨'\x00'⟩

/-- The code point with a given number; numbers out of range give the replacement character. -/
def ofNat (n : Nat) : CodePoint :=
  if h : n < 0x110000 then ⟨n, h⟩ else ⟨0xFFFD, by decide⟩

/-- The code point lies between two characters, both included. -/
def between (c : CodePoint) (lo hi : Char) : Bool := lo.toNat ≤ c.val && c.val ≤ hi.toNat

/-- An ASCII letter. -/
def isLetter (c : CodePoint) : Bool := c.between 'a' 'z' || c.between 'A' 'Z'

/-- An ASCII small letter becomes a capital; all else is unchanged. -/
def upper (c : CodePoint) : CodePoint :=
  if c.between 'a' 'z' then ofNat (c.val - 32) else c

/-- An ASCII capital becomes a small letter; all else is unchanged. -/
def lower (c : CodePoint) : CodePoint :=
  if c.between 'A' 'Z' then ofNat (c.val + 32) else c

/-- One of the code points that cannot stand in a well-formed Unicode string. -/
def isSurrogate (c : CodePoint) : Bool := 0xD800 ≤ c.val && c.val ≤ 0xDFFF

/-- The member of a sorted list of ranges that holds `n`, if one does. -/
def inRanges (n : Nat) : List (Nat × Nat) → Bool
  | [] => false
  | (lo, hi) :: rest => if n < lo then false else n ≤ hi || inRanges n rest

end CodePoint

/-- A text: its code points in order. -/
abbrev Text := List CodePoint

instance : LawfulBEq Text := inferInstance

namespace Text

/-- The code points of a string. -/
def ofString (s : String) : Text := s.toList.map CodePoint.ofChar

instance : Coe String Text := ⟨ofString⟩

/-- The decimal numeral of a natural number. -/
def ofNat (n : Nat) : Text := ofString (toString n)

/-- The decimal numeral of an integer, with a minus sign in front of a negative one. -/
def ofInt : Int → Text
  | .ofNat n => ofNat n
  | .negSucc n => CodePoint.ofChar '-' :: ofNat (n + 1)

/-- The texts one after the other, with a separator between neighbours. -/
def intercalate (sep : Text) : List Text → Text
  | [] => []
  | [t] => t
  | t :: rest => t ++ sep ++ intercalate sep rest

/-- ASCII capitals become small letters. -/
def lower (t : Text) : Text := t.map CodePoint.lower

/-- `n` spaces. -/
def spaces (n : Nat) : Text := List.replicate n ' '

/-- The rest of a text that begins with `p`. -/
def after? (p t : Text) : Option Text := if p.isPrefixOf t then some (t.drop p.length) else none

/-- The pieces of a text between the occurrences of a code point; always at least one. -/
def splitOn (sep : CodePoint) : Text → List Text
  | [] => [[]]
  | c :: rest =>
    match splitOn sep rest with
    | [] => [[c]]
    | piece :: pieces => if c = sep then [] :: piece :: pieces else (c :: piece) :: pieces

/-- Cut at one end: the longest run at the end that satisfies `p` goes. -/
def dropWhileEnd (p : CodePoint → Bool) (t : Text) : Text := (t.reverse.dropWhile p).reverse

/-- Deletes the occurrences of a nonempty word, from left to right, without rescanning. -/
def remove (word : Text) : Text → Text
  | [] => []
  | c :: rest =>
    if word ≠ [] ∧ word.isPrefixOf (c :: rest) then remove word (rest.drop (word.length - 1))
    else c :: remove word rest
termination_by t => t.length
decreasing_by all_goals (simp only [List.length_drop, List.length_cons]; omega)

/-- The string of a text without surrogates. -/
def toString? (t : Text) : Option String :=
  if t.any CodePoint.isSurrogate then none
  else some (String.ofList (t.map fun c => Char.ofNat c.val))

end Text

end GraphSchema
