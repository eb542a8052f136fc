import ExprLine.Proofs.Outcome
import ExprLine.Proofs.Tabulation

namespace ExprLine

open Descent (Accepts)
open Token (lexemes stream)

theorem nodup_position {log : List Token}
    (h : log.Pairwise fun a b => a.position < b.position) : (log.map Token.position).Nodup :=
  h.map Token.position fun _ _ hab => Int.ne_of_lt hab

namespace SymbolTable.Tabulates

section

variable {log : List Token} {t : SymbolTable} (h : Tabulates log t)
  (hlog : log.Pairwise fun a b => a.position < b.position)
include h hlog

theorem ascending {e : Symbol} (he : e ∈ t.symbols) : e.occurrences.Pairwise (· < ·) := by
  rw [h.occurrences e he]
  exact (hlog.filter _).map Token.position fun _ _ hab => hab

theorem pairwise_not_mem :
    t.symbols.Pairwise fun e f => ∀ p ∈ e.occurrences, p ∉ f.occurrences := by
  have hlists : (t.symbols.flatMap Symbol.tokens).map Token.position =
      t.symbols.flatMap Symbol.occurrences := by
    rw [List.map_flatMap]
    apply List.flatMap_congr
    intro e _
    rw [Symbol.tokens, List.map_map]
    exact List.map_id _
  have hperm := h.perm.map Token.position
  rw [hlists] at hperm
  exact (List.nodup_flatMap.mp (hperm.nodup_iff.mpr (nodup_position hlog))).2

/-- Sorted by their offsets, the tokens of all symbols are the tokens that were added. -/
theorem mergeSort_tokens : (t.symbols.flatMap Symbol.tokens).mergeSort
    (fun a b => decide (a.position ≤ b.position)) = log := by
  have hsorted : ((t.symbols.flatMap Symbol.tokens).mergeSort
      fun a b => decide (a.position ≤ b.position)).Pairwise
      fun a b => decide (a.position ≤ b.position) = true := by
    apply List.pairwise_mergeSort
    · intro a b c hab hbc
      exact decide_eq_true (Int.le_trans (of_decide_eq_true hab) (of_decide_eq_true hbc))
    · intro a b
      simpa using Int.le_total a.position b.position
  have hle : log.Pairwise fun a b => decide (a.position ≤ b.position) = true :=
    hlog.imp fun hab => decide_eq_true (Int.le_of_lt hab)
  have hperm := (List.mergeSort_perm (t.symbols.flatMap Symbol.tokens)
    fun a b => decide (a.position ≤ b.position)).trans h.perm
  refine List.Perm.eq_of_pairwise ?_ hsorted hle hperm
  -- two tokens at one offset are one token
  intro a b ha hb hab hba
  have hpos := Int.le_antisymm (of_decide_eq_true hab) (of_decide_eq_true hba)
  exact List.inj_on_of_nodup_map (nodup_position hlog) (hperm.mem_iff.mp ha) hb hpos

end

end SymbolTable.Tabulates

namespace Analysis

/-- The tokens, the symbols, the tally and the tree of an analysis tell the same of the text. -/
structure Agrees (s : List Char) (a : Analysis) : Prop where
  tokens : Token.ofText s = .ok a.tokens
  getLast : a.tokens.getLast? = some (Token.endAt s.length)
  isEnd : ∀ b ∈ a.tokens.dropLast, b.isEnd = false
  sorted : (a.symbols.flatMap Symbol.tokens).mergeSort
    (fun x y => decide (x.position ≤ y.position)) = a.tokens.dropLast
  disjoint : a.symbols.Pairwise fun e f => ∀ p ∈ e.occurrences, p ∉ f.occurrences
  ascending : ∀ e ∈ a.symbols,
    e.occurrences.Pairwise (· < ·) ∧ e.occurrences.head? = some e.first
  tally : a.success = true → a.tally = some ⟨a.tokens.dropLast.length,
    (a.tokens.dropLast.map Token.kind).eraseDups.map fun k =>
      (k.name, (a.tokens.dropLast.countP fun b => b.kind = k : Nat))⟩
  tree : a.success = true → ∃ t, a.tree = some t ∧
    t.yield.map Tree.value = (s.filter (!Text.isBlank ·)).map fun c => some (String.singleton c)

/-- What an analysis of a readable text shows of its stages. -/
theorem exists_views {s : List Char} (hb : ¬∀ c ∈ s, Text.isBlank c = true)
    (hr : ∀ c ∈ s, IsReadable c) (limit : Int) : ∃ table,
      SymbolTable.ofTokens (stream s) = .ok table ∧ (ofText s limit).tokens = stream s ∧
      (ofText s limit).symbols = table.symbols ∧
      ((ofText s limit).success = true → (ofText s limit).tally = some table.tally ∧
        ∃ t, (ofText s limit).tree = some t ∧ Accepts (stream s) limit t) := by
  obtain ⟨table, ht, ⟨t, -, hacc, ha⟩ | ⟨p, -, -, ha⟩⟩ := run_readable hb hr limit
  · rw [ofText, ha]
    exact ⟨table, ht, rfl, rfl, fun _ => ⟨rfl, t, rfl, hacc⟩⟩
  · rw [ofText, ha]
    exact ⟨table, ht, rfl, rfl, by simp [ofVerdict]⟩

theorem values_of_accepts {s : List Char} (hr : ∀ c ∈ s, IsReadable c) {limit : Int} {t : Tree}
    (h : Accepts (stream s) limit t) : t.yield.map Tree.value =
      (s.filter (!Text.isBlank ·)).map fun c => some (String.singleton c) := by
  obtain ⟨-, hy, -⟩ := Descent.derives_of_accepts h
  rw [hy, sentence_stream, List.map_map]
  exact Token.map_lexemes (fun c k _ p => rfl) hr 0

/-- All views of one analysis agree. The symbols hold every token, each of them once, and the tree
every character that is not blank. -/
theorem agrees_of_readable (s : List Char) (hb : ¬∀ c ∈ s, Text.isBlank c = true)
    (hs : ∃ ts, Token.ofText s = .ok ts) (limit : Int) : Agrees s (ofText s limit) := by
  obtain ⟨ts, hts⟩ := hs
  have hr := Token.readable_of_ofText hts
  obtain ⟨table, ht, htokens, hsymbols, hsuccess⟩ := exists_views hb hr limit
  have htab := SymbolTable.tabulates_ofTokens ht
  rw [Token.filter_stream] at htab
  have hpos := Token.pairwise_lexemes s 0
  have hdrop : (stream s).dropLast = lexemes s 0 := List.dropLast_concat
  constructor
  case tokens =>
    rw [htokens]
    exact Token.ofText_readable hr
  case getLast =>
    rw [htokens]
    exact List.getLast?_concat
  case isEnd =>
    rw [htokens, hdrop]
    exact fun b hb => (Token.of_mem_lexemes hb).1
  case sorted =>
    rw [htokens, hsymbols, hdrop]
    exact htab.mergeSort_tokens hpos
  case disjoint =>
    rw [hsymbols]
    exact htab.pairwise_not_mem hpos
  case ascending =>
    rw [hsymbols]
    exact fun e he => ⟨htab.ascending hpos he, htab.first e he⟩
  case tally =>
    intro hsucc
    rw [(hsuccess hsucc).1, htokens, hdrop, htab.tally_eq]
  case tree =>
    intro hsucc
    obtain ⟨t, htree, hacc⟩ := (hsuccess hsucc).2
    exact ⟨t, htree, values_of_accepts hr hacc⟩

theorem agrees_of_readable_repeated :
    let s := ['a', ' ', '+', ' ', 'a', '*', '1']
    Agrees s (ofText s 9) ∧ (ofText s 9).tally =
      some ⟨5, [("IDENTIFIER", 2), ("PLUS", 1), ("MULTIPLY", 1), ("NUMBER", 1)]⟩ := by
  intro s
  have hblank : ¬∀ c ∈ s, Text.isBlank c = true := not_blank_of_mem (c := 'a') (by simp [s]) rfl
  have hagrees := agrees_of_readable s hblank ⟨_, rfl⟩ 9
  exact ⟨hagrees, hagrees.tally rfl⟩

end Analysis
end ExprLine
