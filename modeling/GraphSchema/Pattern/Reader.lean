import GraphSchema.Number.Decimal
import GraphSchema.Pattern

/-!
# Written patterns

Patterns are written as usual: `.` for any code point but a line feed, `[a-z]` and `[^a-z]` for
classes, `+`, `*`, `?` and `{m,n}` for repetition, `|` between alternatives, parentheses for
grouping, `^` and `$` for the start and the end, where the end may have a line feed behind it. All
else stands for itself, and so does what follows a backslash, the letters of control characters
such as `\n` excepted.

This is a part of regular expressions. Not covered are classes and marks that a backslash and a
letter write (`\d`, `\w`, `\s`, `\b`), code points by their numbers (`\x41`), references to groups
(`\1`), all that `(?` begins, such as `(?:`, and texts that write no pattern: they are read sign by
sign, so that `\d` stands for the letter.

## Main definitions

* `Pattern.Sign`: a code point of a written pattern, which may be special.
* `Pattern.Piece`, `Pattern.alternatives`: parts of sequences, and one of some sequences.
* `Pattern.ofText`: the pattern that a text writes.
-/

namespace GraphSchema.Pattern

/-- A code point of a written pattern; `special` says that it may stand for more than itself. -/
structure Sign where
  special : Bool
  code : CodePoint

namespace Sign

/-- Whether a sign is special and is a given character. -/
def is (x : Sign) (c : Char) : Bool := x.special && x.code = c

/-- The code point that a letter after a backslash stands for. -/
def escapes : List (CodePoint × CodePoint) :=
  [('n', '\n'), ('t', '\t'), ('r', '\r'), ('f', '\x0c'), ('v', '\x0b'), ('a', '\x07')]

/-- The signs of a written pattern. -/
def ofText : Text → List Sign
  | [] => []
  | [c] => [⟨true, c⟩]
  | c :: d :: rest =>
    if c = '\\' then ⟨false, (escapes.lookup d).getD d⟩ :: ofText rest
    else ⟨true, c⟩ :: ofText (d :: rest)

end Sign

/-- The members of a class up to its closing bracket, and what follows; `opened` says that nothing
of the class was read yet, so that a bracket stands for itself. -/
def readMembers (opened : Bool) : List Sign → List Member × List Sign
  | [] => ([], [])
  | [x] => if x.is ']' then ([], []) else ([.one x.code], [])
  | [x, y] =>
    if x.is ']' ∧ !opened then ([], [y])
    else
      let (members, rest) := readMembers false [y]
      (.one x.code :: members, rest)
  | x :: y :: z :: rest =>
    if x.is ']' ∧ !opened then ([], y :: z :: rest)
    else if y.is '-' ∧ !z.is ']' then
      let (members, rest) := readMembers false rest
      (.range x.code z.code :: members, rest)
    else
      let (members, rest) := readMembers false (y :: z :: rest)
      (.one x.code :: members, rest)

/-- A class after its opening bracket, and what follows. -/
def readClass (xs : List Sign) : Class × List Sign :=
  let negated := xs.head?.any fun x => x.is '^'
  let (members, rest) := readMembers true (if negated then xs.drop 1 else xs)
  (⟨negated, members.eraseDups⟩, rest)

/-- The number that digits at the start write, if there are any, and what follows. -/
def readNumber (xs : List Sign) : Option Nat × List Sign :=
  let isDigit (x : Sign) : Bool := x.special && x.code.isAsciiDigit
  let digits := (xs.takeWhile isDigit).map Sign.code
  (if digits = [] then none else some (Numeral.digitsValue digits), xs.dropWhile isDigit)

/-- The bounds of a repetition after an opening brace, and what follows the closing one. -/
def readBounds? (xs : List Sign) : Option (Nat × Option Nat × List Sign) :=
  let (least, rest) := readNumber xs
  match rest with
  | [] => none
  | x :: rest =>
    if x.is '\x7d' then least.map fun n => (n, some n, rest)
    else if x.is ',' then
      let (most, rest) := readNumber rest
      match rest with
      | [] => none
      | y :: rest => if y.is '\x7d' then some (least.getD 0, most, rest) else none
    else none

/-- The bounds of a repetition, if one is written at the start, and what follows. -/
def readRepetition? (xs : List Sign) : Option (Nat × Option Nat × List Sign) :=
  match xs with
  | [] => none
  | x :: rest =>
    if x.is '*' then some (0, none, rest)
    else if x.is '+' then some (1, none, rest)
    else if x.is '?' then some (0, some 1, rest)
    else if x.is '\x7b' then readBounds? rest
    else none

/-- A part of a sequence. A simple one is a class or a mark, neither repeated nor in parentheses. -/
structure Piece where
  pattern : Pattern
  simple : Bool
deriving DecidableEq

/-- A piece with the repetition that follows it, and what follows that. A question mark after a
repetition asks for as few rounds as possible, which does not change what is accepted. -/
def readRepeated (p : Piece) (xs : List Sign) : Piece × List Sign :=
  match readRepetition? xs with
  | some (least, most, rest) =>
    (⟨.repeated p.pattern least most, false⟩,
      if rest.head?.any fun x => x.is '?' then rest.drop 1 else rest)
  | none => (p, xs)

/-- Pieces one after the other, and a pattern after them. -/
def sequence (ps : List Piece) (last : Pattern) : Pattern :=
  ps.foldr (fun p q => .both p.pattern q) last

/-- One of some patterns. -/
def oneAmong : List Pattern → Pattern
  | [] => .empty
  | [p] => p
  | p :: rest => .either p (oneAmong rest)

/-- The simple pieces with which a sequence and some others begin, and what is left of all of
them. -/
def commonStart : List Piece → List (List Piece) → List Piece × List (List Piece)
  | [], others => ([], [] :: others)
  | p :: rest, others =>
    if p.simple && others.all fun ps => ps.head? = some p then
      let (start, left) := commonStart rest (others.map (List.drop 1))
      (p :: start, left)
    else ([], (p :: rest) :: others)

/-- The members of a class that is not negated, if a sequence is just that. -/
def members? : List Piece → Option (List Member)
  | [⟨.oneOf ⟨false, members⟩, true⟩] => some members
  | _ => none

/-- One of some sequences. Classes become one class, also where the sequences have the same start;
code points beyond the basic plane then count as members of it. -/
def alternatives : List (List Piece) → Pattern
  | [] => .empty
  | [ps] => sequence ps .empty
  | ps :: others =>
    let (start, left) := commonStart ps others
    sequence start (match left.mapM members? with
      | some members => .oneOf ⟨false, members.flatten.eraseDups⟩
      | none => oneAmong (left.map fun ps => sequence ps .empty))

mutual

/-- The sequences of an alternative, and what follows them. -/
def readAlternatives : (fuel : Nat) → List Sign → List (List Piece) × List Sign
  | 0, xs => ([], xs)
  | fuel + 1, xs =>
    let (ps, rest) := readSequence fuel xs
    match rest with
    | [] => ([ps], [])
    | x :: more =>
      if x.is '|' then
        let (others, rest) := readAlternatives fuel more
        (ps :: others, rest)
      else ([ps], rest)

/-- The pieces of a sequence, and what follows them. -/
def readSequence : (fuel : Nat) → List Sign → List Piece × List Sign
  | 0, xs => ([], xs)
  | _ + 1, [] => ([], [])
  | fuel + 1, x :: rest =>
    if x.is '|' ∨ x.is ')' then ([], x :: rest)
    else
      let (p, rest) := readOne fuel x rest
      let (p, rest) := readRepeated p rest
      let (ps, rest) := readSequence fuel rest
      (p :: ps, rest)

/-- The piece that starts with a sign, and what follows it. -/
def readOne : (fuel : Nat) → Sign → List Sign → Piece × List Sign
  | 0, x, xs => (⟨single x.code, true⟩, xs)
  | fuel + 1, x, xs =>
    if x.is '(' then
      let (sequences, rest) := readAlternatives fuel xs
      (⟨alternatives sequences, false⟩, rest.drop 1)
    else if x.is '[' then
      let (k, rest) := readClass xs
      (⟨.oneOf k, true⟩, rest)
    else if x.is '.' then (⟨.any, true⟩, xs)
    else if x.is '^' then (⟨.startMark, true⟩, xs)
    else if x.is '$' then (⟨.endMark, true⟩, xs)
    else (⟨single x.code, true⟩, xs)

end

/-- The pattern that a text writes, as far as it keeps to the signs above. Each sign takes at most
three steps of reading. -/
def ofText (t : Text) : Pattern :=
  alternatives (readAlternatives (3 * t.length + 3) (Sign.ofText t)).1

end GraphSchema.Pattern
