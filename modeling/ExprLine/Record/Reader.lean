import ExprLine.Analysis.Basic
import ExprLine.Record.Scalar

namespace ExprLine

open Checked

/-- Runs a reader on the members of an object. -/
def Checked.record {α : Type} (read : Json.Members → Checked α) : Json → Checked α
  | .obj ms => read ms
  | _ => flaw .model

def Token.ofJson : Json → Checked Token := record fun ms =>
  ap (ap (map Token.mk ((FieldName.word "type").required (named Kind.ofName?) ms))
    ((FieldName.word "value").optional none (nullable string) ms))
    ((FieldName.word "position").required int ms)

/-- A node from its members and, under the same keys, the trees its members are lists of. -/
def Tree.ofMembers (ms : Json.Members) (lists : List (String × Checked (List Tree))) : Checked Tree :=
  ap (ap (map Tree.node ((FieldName.word "label").required string ms))
    ((FieldName.word "value").optional none (nullable string) ms))
    ((FieldName.word "children").optional [] id lists)

mutual

def Tree.ofJson : Json → Checked Tree
  | .obj ms => Tree.ofMembers ms (Tree.listsOf ms)
  | _ => flaw .model

/-- Each member read as a list of trees; only `children` is asked for. -/
def Tree.listsOf : Json.Members → List (String × Checked (List Tree))
  | [] => []
  | (k, v) :: ms => (k, Tree.listOfJson v) :: Tree.listsOf ms

def Tree.listOfJson : Json → Checked (List Tree)
  | .arr vs => Tree.itemsOf 0 vs
  | _ => flaw .list

def Tree.itemsOf : Nat → List Json → Checked (List Tree)
  | _, [] => .ok []
  | n, v :: vs => ap (map List.cons (within (toString n) (Tree.ofJson v))) (Tree.itemsOf (n + 1) vs)

end

def Symbol.ofJson : Json → Checked Symbol := record fun ms =>
  ap (ap (ap (map Symbol.mk ((FieldName.word "token").required string ms))
    ((FieldName.word "type").required (named Kind.ofName?) ms))
    ((FieldName.mk "firstOccurrence" "first_occurrence").required int ms))
    ((FieldName.word "occurrences").optional [] (listOf int) ms)

def Tally.ofJson : Json → Checked Tally := record fun ms =>
  ap (map Tally.mk ((FieldName.mk "totalTokens" "total_tokens").required int ms))
    ((FieldName.mk "tokensByType" "tokens_by_type").optional [] (dictOf int) ms)

def Diagnostic.ofJson : Json → Checked Diagnostic := record fun ms =>
  ap (ap (map Diagnostic.mk ((FieldName.word "message").required string ms))
    ((FieldName.word "position").optional none (nullable int) ms))
    ((FieldName.word "token").optional none (nullable string) ms)

def Verdict.ofJson : Json → Checked Verdict := record fun ms =>
  ap (ap (map Verdict.mk ((FieldName.word "success").required bool ms))
    ((FieldName.mk "parseTree" "parse_tree").optional none (nullable Tree.ofJson) ms))
    ((FieldName.word "errors").optional [] (listOf Diagnostic.ofJson) ms)

def Analysis.ofJson : Json → Checked Analysis := record fun ms =>
  ap (ap (ap (ap (ap (ap (ap (map Analysis.mk ((FieldName.word "success").required bool ms))
    ((FieldName.mk "errorType" "error_type").optional none (nullable (named ErrorType.ofName?)) ms))
    ((FieldName.word "message").required string ms))
    ((FieldName.word "tokens").optional [] (listOf Token.ofJson) ms))
    ((FieldName.mk "symbolTable" "symbol_table").optional [] (listOf Symbol.ofJson) ms))
    ((FieldName.word "statistics").optional none (nullable Tally.ofJson) ms))
    ((FieldName.word "errors").optional none (nullable (listOf Diagnostic.ofJson)) ms))
    ((FieldName.mk "parseTree" "parse_tree").optional none (nullable Tree.ofJson) ms)

end ExprLine
