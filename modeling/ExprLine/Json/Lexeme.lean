import ExprLine.Json.Basic

namespace ExprLine.Json

/-- The lexemes of a document. A scalar other than a text is one lexeme with its value. -/
inductive Lexeme where
  | openList | closeList | openObject | closeObject | comma | colon
  | text (s : String)
  | scalar (v : Json)
deriving Repr, BEq

def isSpace (c : Char) : Bool := c = ' ' || c = '\n' || c = '\r' || c = '\t'

def hexValue? (c : Char) : Option Nat :=
  if '0' ≤ c ∧ c ≤ '9' then some (c.toNat - '0'.toNat)
  else if 'a' ≤ c ∧ c ≤ 'f' then some (c.toNat - 'a'.toNat + 10)
  else if 'A' ≤ c ∧ c ≤ 'F' then some (c.toNat - 'A'.toNat + 10)
  else none

def hexUnit? (a b c d : Char) : Option Nat := do
  return (((← hexValue? a) * 16 + (← hexValue? b)) * 16 + (← hexValue? c)) * 16 + (← hexValue? d)

/-- What one character after a backslash stands for. -/
def unescape? : Char → Option Char
  | '"' => some '"'
  | '\\' => some '\\'
  | '/' => some '/'
  | 'b' => some '\x08'
  | 'f' => some '\x0c'
  | 'n' => some '\n'
  | 'r' => some '\r'
  | 't' => some '\t'
  | _ => none

/-- A quoted text after its opening quote: the code points and UTF-16 units it is written with,
and what follows the closing quote. -/
def quoted? : List Char → Option (List Nat × List Char)
  | [] => none
  | '"' :: r => some ([], r)
  | '\\' :: 'u' :: a :: b :: c :: d :: r => do
    let u ← hexUnit? a b c d
    let (us, rest) ← quoted? r
    return (u :: us, rest)
  | '\\' :: e :: r => do
    let c ← unescape? e
    let (us, rest) ← quoted? r
    return (c.toNat :: us, rest)
  | c :: r =>
    if c.toNat < 0x20 then none
    else do
      let (us, rest) ← quoted? r
      return (c.toNat :: us, rest)

/-- The characters of a quoted text: two surrogates are one character, and one alone is none. -/
def characters? : List Nat → Option (List Char)
  | [] => some []
  | h :: l :: us =>
    if 0xD800 ≤ h ∧ h < 0xDC00 ∧ 0xDC00 ≤ l ∧ l < 0xE000 then do
      return Char.ofNat (0x10000 + (h - 0xD800) * 0x400 + (l - 0xDC00)) :: (← characters? us)
    else if h.isValidChar then do return Char.ofNat h :: (← characters? (l :: us))
    else none
  | [u] => if u.isValidChar then some [Char.ofNat u] else none

theorem length_lt_of_quoted? {s : List Char} {us : List Nat} {rest : List Char}
    (h : quoted? s = some (us, rest)) : rest.length < s.length := by
  fun_induction quoted? s generalizing us with
  | case1 => simp at h
  | case2 r => simp only [Option.some.injEq, Prod.mk.injEq] at h; simp [← h.2]
  | case3 a b c d r ih =>
    simp only [bind, pure, Option.bind_eq_some_iff, Option.some.injEq, Prod.mk.injEq] at h
    obtain ⟨_, -, ⟨vs, q⟩, hq, -, rfl⟩ := h
    have hlt : q.length < r.length := ih hq
    simp only [List.length_cons]; omega
  | case4 e r _ ih =>
    simp only [bind, pure, Option.bind_eq_some_iff, Option.some.injEq, Prod.mk.injEq] at h
    obtain ⟨_, -, ⟨vs, q⟩, hq, -, rfl⟩ := h
    have hlt : q.length < r.length := ih hq
    simp only [List.length_cons]; omega
  | case5 => simp at h
  | case6 c r _ _ _ _ ih =>
    simp only [bind, pure, Option.bind_eq_some_iff, Option.some.injEq, Prod.mk.injEq] at h
    obtain ⟨⟨vs, q⟩, hq, -, rfl⟩ := h
    have hlt : q.length < r.length := ih hq
    simp only [List.length_cons]; omega

def digitsValue (ds : List Char) : Nat := ds.foldl (fun n d => n * 10 + (d.toNat - '0'.toNat)) 0

/-- The integer with these digits. A number has no leading zero. -/
def number? (negative : Bool) (ds : List Char) : Option Json :=
  match ds with
  | [] => none
  | '0' :: _ :: _ => none
  | _ => some (int (if negative then -(digitsValue ds : Int) else digitsValue ds))

/-- The lexemes of a text. A fraction or an exponent is refused: integers are all there is. -/
def lexemes? : List Char → Option (List Lexeme)
  | [] => some []
  | '[' :: r => (lexemes? r).map (.openList :: ·)
  | ']' :: r => (lexemes? r).map (.closeList :: ·)
  | '\x7b' :: r => (lexemes? r).map (.openObject :: ·)
  | '\x7d' :: r => (lexemes? r).map (.closeObject :: ·)
  | ',' :: r => (lexemes? r).map (.comma :: ·)
  | ':' :: r => (lexemes? r).map (.colon :: ·)
  | 'n' :: 'u' :: 'l' :: 'l' :: r => (lexemes? r).map (.scalar .null :: ·)
  | 't' :: 'r' :: 'u' :: 'e' :: r => (lexemes? r).map (.scalar (.bool true) :: ·)
  | 'f' :: 'a' :: 'l' :: 's' :: 'e' :: r => (lexemes? r).map (.scalar (.bool false) :: ·)
  | '"' :: r =>
    match h : quoted? r with
    | none => none
    | some (us, rest) =>
      match characters? us with
      | none => none
      | some cs =>
        have := length_lt_of_quoted? h
        (lexemes? rest).map (.text (String.ofList cs) :: ·)
  | '-' :: r =>
    match number? true (r.takeWhile Char.isDigit) with
    | none => none
    | some n => (lexemes? (r.dropWhile Char.isDigit)).map (.scalar n :: ·)
  | c :: r =>
    if isSpace c then lexemes? r
    else if c.isDigit then
      match number? false (c :: r.takeWhile Char.isDigit) with
      | none => none
      | some n => (lexemes? (r.dropWhile Char.isDigit)).map (.scalar n :: ·)
    else none
termination_by s => s.length
decreasing_by
  all_goals simp only [List.length_cons]
  all_goals have := (r.dropWhile_sublist Char.isDigit).length_le
  all_goals omega

end ExprLine.Json
