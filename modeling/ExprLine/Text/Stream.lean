namespace ExprLine.Text

/-- Every way to end a line becomes a line feed: a carriage return, or one with a line feed. -/
def unifyNewlines : List Char → List Char
  | [] => []
  | '\r' :: '\n' :: r => '\n' :: unifyNewlines r
  | '\r' :: r => '\n' :: unifyNewlines r
  | c :: r => c :: unifyNewlines r

/-- A text without the ends of lines at its end. -/
def dropFinalNewlines (s : List Char) : List Char :=
  (s.reverse.dropWhile fun c => c = '\r' ∨ c = '\n').reverse

/-- The text of a stream of bytes, without its last line ends. Bytes that are not UTF-8 are none. -/
def ofBytes? (b : ByteArray) : Option (List Char) :=
  (String.fromUTF8? b).map fun s => dropFinalNewlines (unifyNewlines s.toList)

end ExprLine.Text
