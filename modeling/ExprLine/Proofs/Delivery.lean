import ExprLine.Proofs.Calls

namespace ExprLine.Command

def Options.inJson (o : Options) : Options := { o with json := true }

def Progress.inJson (p : Progress) : Progress := { p with options := p.options.inJson }

def Reading.inJson : Reading → Reading
  | .help => .help
  | .options o => .options o.inJson

namespace Progress

variable (p : Progress)

end Progress

/-- The same call, with JSON asked for. -/
def Invocation.inJson (i : Invocation) : Invocation := { i with arguments := "--json" :: i.arguments }

namespace Concludes

variable {i : Invocation} {o : Options} {s : List Char} {d : Disk}
  {r : Disk × Option FileFault × String} (h : Concludes i o s d r)
include h

end Concludes

end ExprLine.Command
