import ExprLine.Command.Flag
import ExprLine.Text.Quoted

namespace ExprLine.Command

/-- Why a command line cannot be followed. -/
inductive UsageFault where
  | lacksValue (f : Flag)
  | takesNoValue (f : Flag) (text : String)
  | badStage (text : String)
  | ambiguous (word : String) (spellings : List String)
  | unrecognized (words : List String)
  | twoSources
  | noSource
deriving DecidableEq, Repr

/-- A fault of one flag's value is reported under the flag's name. -/
def ofFlag (f : Flag) (s : String) : String := "argument " ++ f.title ++ ": " ++ s

def UsageFault.message : UsageFault → String
  | lacksValue f => ofFlag f "expected one argument"
  | takesNoValue f s => ofFlag f ("ignored explicit argument " ++ Text.quoted s)
  | badStage s =>
    ofFlag .stage ("invalid choice: " ++ Text.quoted s ++ " (choose from '1', '2', '3')")
  | ambiguous w ss => "ambiguous option: " ++ w ++ " could match " ++ ", ".intercalate ss
  | unrecognized ws => "unrecognized arguments: " ++ " ".intercalate ws
  | twoSources => "give either an expression or --file, not both."
  | noSource => "an expression is required when not reading from a file or a pipe."

def usageLine : String :=
  "usage: exa [-h] [-f INPUT_FILE] [-o OUTPUT_FILE] [--json] [-c \x7b1,2,3\x7d]\n           [expression]\n"

/-- What is printed on a usage fault. -/
def UsageFault.report (f : UsageFault) : String := usageLine ++ "exa: error: " ++ f.message ++ "\n"

def helpText : String :=
  usageLine ++ "\nAnalyze a single-line arithmetic expression.\n" ++
  "\npositional arguments:\n" ++
  "  expression            The expression to analyze. Omit to read it from --file\n" ++
  "                        or stdin.\n" ++
  "\noptions:\n" ++
  "  -h, --help            show this help message and exit\n" ++
  "  -f INPUT_FILE, --file INPUT_FILE\n" ++
  "                        Read the expression from this file.\n" ++
  "  -o OUTPUT_FILE, --output OUTPUT_FILE\n" ++
  "                        Write the JSON result to this file.\n" ++
  "  --json                Print the JSON result instead of the report.\n" ++
  "  -c \x7b1,2,3\x7d, --stage \x7b1,2,3\x7d\n" ++
  "                        Stop after a specific stage and save its artifact. '1'\n" ++
  "                        for Token Stream. '2' for Symbol Table. '3' for\n" ++
  "                        Derivation Tree. Omitting this flag runs the full\n" ++
  "                        analysis.\n"

end ExprLine.Command
