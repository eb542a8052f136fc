namespace ExprLine.Command

/-- The options of the command line. -/
inductive Flag where
  | help | file | output | json | stage
deriving DecidableEq, Repr

namespace Flag

def all : List Flag := [help, file, output, json, stage]

/-- All spellings, the short one first. -/
def spellings : Flag → List String
  | help => ["-h", "--help"]
  | file => ["-f", "--file"]
  | output => ["-o", "--output"]
  | json => ["--json"]
  | stage => ["-c", "--stage"]

def takesValue : Flag → Bool
  | help | json => false
  | file | output | stage => true

def title (f : Flag) : String := "/".intercalate f.spellings

/-- Every spelling with its flag, in the order in which the help lists them. -/
def dictionary : List (String × Flag) := all.flatMap fun f => f.spellings.map (·, f)

def ofSpelling? (s : String) : Option Flag := dictionary.lookup s

theorem ofSpelling?_of_mem {f : Flag} {s : String} (h : s ∈ f.spellings) : ofSpelling? s = some f := by
  have all_found : ∀ f ∈ all, ∀ s ∈ f.spellings, ofSpelling? s = some f := by decide
  exact all_found f (by cases f <;> decide) s h

end Flag
end ExprLine.Command
