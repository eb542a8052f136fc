import ExprLine.Record.Checked
import ExprLine.Text.Charset

namespace ExprLine.Checked

def string : Json → Checked String
  | .str s => .ok s
  | _ => flaw .string

/-- One of a closed set of names. -/
def named {α : Type} (ofName? : String → Option α) : Json → Checked α
  | .str s => match ofName? s with
    | some a => .ok a
    | none => flaw .enum
  | _ => flaw .enum

/-- What is left when zeros, and underscores among them, are passed over: from the first other
digit or a sign on, or from the character before a point or the end, which is `last`. -/
def passZeros (last : Char) : List Char → Option (List Char)
  | [] => some [last]
  | c :: r =>
    if c = '0' ∨ c = '_' then passZeros c r
    else if c.isDigit ∨ c = '-' then some (c :: r)
    else if c = '.' then some (last :: c :: r)
    else none

/-- A numeral without the zeros in front. -/
def dropLeadingZeros : List Char → Option (List Char)
  | '0' :: r => passZeros '0' r
  | c :: r => if c.isDigit then some (c :: r) else none
  | [] => none

/-- A point and the zeros after it, at least one, change nothing. -/
def dropZeroFraction (s : List Char) : List Char :=
  match s.dropWhile (· ≠ '.') with
  | _ :: zeros => if !zeros.isEmpty && zeros.all (· = '0') then s.takeWhile (· ≠ '.') else s
  | [] => s

/-- Underscores go if they stand alone and inside. -/
def dropUnderscores (s : List Char) : Option (List Char) :=
  if s.head? = some '_' ∨ s.getLast? = some '_' ∨ ('_', '_') ∈ s.zip s.tail then none
  else some (s.filter (· ≠ '_'))

/-- The number that a numeral without needless zeros denotes. -/
def plain? (s : List Char) : Option Int :=
  let natural? (ds : List Char) : Option Nat :=
    if ds ≠ [] ∧ ds.all Char.isDigit ∧ (ds.head? = some '0' → ds = ['0']) then
      some (ds.foldl (fun n d => n * 10 + (d.toNat - '0'.toNat)) 0)
    else none
  match s with
  | '-' :: ds => (natural? ds).map fun n => -(n : Int)
  | ds => (natural? ds).map fun n => (n : Int)

/-- A numeral in its plain form, white space around it aside. -/
def numeral? (s : List Char) : Option (List Char) :=
  let unsigned (r : List Char) : Option (List Char) :=
    (dropLeadingZeros r).bind fun z => dropUnderscores (dropZeroFraction z)
  match Text.trim Text.whiteSpace s with
  | '-' :: r => (unsigned r).map ('-' :: ·)
  | '+' :: '-' :: _ => none
  | '+' :: r => unsigned r
  | r => unsigned r

/-- The integer a text spells. -/
def integer? (s : List Char) : Option Int := (numeral? s).bind plain?

/-- A numeral takes no more characters than this, its sign among them. -/
def lengthLimit : Nat := 4300

/-- Whether a text begins with a numeral that is too long to be read, whatever stands after it. -/
def beginsTooLong (s : List Char) : Bool :=
  let (sign, digits) := if s.head? = some '-' then (1, s.tail) else (0, s)
  digits.head? ≠ some '0' && lengthLimit < sign + (digits.takeWhile Char.isDigit).length

def int : Json → Checked Int
  | .int i => .ok i
  | .bool b => .ok (if b then 1 else 0)
  | .str s =>
    if beginsTooLong s.toList || (numeral? s.toList).any beginsTooLong then flaw .intSize
    else match integer? s.toList with
      | some i => .ok i
      | none => flaw .intText
  | _ => flaw .int

/-- The truth value a word spells, in either case. -/
def truth? (s : String) : Option Bool :=
  let w := s.map Char.toLower
  if w ∈ ["1", "on", "t", "true", "y", "yes"] then some true
  else if w ∈ ["0", "off", "f", "false", "n", "no"] then some false
  else none

/-- A number that fits in 64 bits is read like a word: 1 and 0 are truth values, others are not. -/
def bool : Json → Checked Bool
  | .bool b => .ok b
  | .int i =>
    if i = 1 then .ok true else if i = 0 then .ok false
    else if -0x8000000000000000 ≤ i ∧ i < 0x8000000000000000 then flaw .boolText else flaw .bool
  | .str s => match truth? s with
    | some b => .ok b
    | none => flaw .boolText
  | _ => flaw .bool

end ExprLine.Checked
