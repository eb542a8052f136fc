import ExprLine.Editor.Workspace
import ExprLine.Proofs.Agreement
import ExprLine.Proofs.Marking
import ExprLine.Proofs.TokenStream

namespace ExprLine

open Token (lexemes stream)

/-- The symbol stands for the character `c` wherever it is in `s`, and for nothing else. -/
structure Symbol.Depicts (s : List Char) (c : Char) (e : Symbol) : Prop where
  kind : e.kind.Covers c
  lexeme : e.lexeme = String.singleton c
  first : ∃ q : Nat, e.first = q ∧ s[q]? = some c ∧ ∀ i < q, s[i]? ≠ some c
  mem_iff : ∀ p : Int, p ∈ e.occurrences ↔ ∃ q : Nat, p = q ∧ s[q]? = some c
  ascending : e.occurrences.Pairwise (· < ·)
  length : e.occurrences.length = s.count c

namespace Token

section

variable {k : Kind} {c : Char} (hk : k.Covers c)
include hk

theorem mem_lexemes_iff {s : List Char} {p : Int} :
    ⟨k, some (String.singleton c), p⟩ ∈ lexemes s 0 ↔ ∃ q : Nat, p = q ∧ s[q]? = some c := by
  constructor
  · intro h
    obtain ⟨us, vs, hsplit⟩ := List.append_of_mem h
    obtain ⟨q, d, r, l, rfl, -, -, ha⟩ := split_lexemes hsplit
    rw [Nat.zero_add] at ha
    obtain ⟨-, hlexeme, hp⟩ := Token.mk.inj ha
    obtain rfl := String.singleton_inj.mp (Option.some.inj hlexeme)
    exact ⟨q.length, hp, by simp⟩
  · rintro ⟨q, rfl, hq⟩
    obtain ⟨q, r, rfl, rfl⟩ := eq_append_of_getElem? hq
    rw [lexemes_append, lexemes_cons_some (Kind.ofChar?_of_covers hk), Nat.zero_add]
    simp

theorem countP_lexemes (s : List Char) (p : Nat) :
    ((lexemes s p).countP fun a => a.key = (k, some (String.singleton c))) = s.count c := by
  have hc := Kind.ofChar?_of_covers hk
  induction s generalizing p with
  | nil => rfl
  | cons d r ih =>
    by_cases hd : d = c
    · have hkey : Token.key ⟨k, some (String.singleton c), p⟩ = (k, some (String.singleton c)) := rfl
      rw [hd, lexemes_cons_some hc, List.countP_cons_of_pos (by simp [hkey]), ih,
        List.count_cons_self]
    · rw [List.count_cons_of_ne hd, ← ih (p + 1)]
      cases hl : Kind.ofChar? d with
      | none => rw [lexemes_cons_none hl]
      | some l =>
        have hkey : Token.key ⟨l, some (String.singleton d), p⟩ ≠ (k, some (String.singleton c)) := by
          intro hkey
          exact hd (String.singleton_inj.mp (Option.some.inj (Prod.mk.inj hkey).2))
        rw [lexemes_cons_some hl, List.countP_cons_of_neg (by simpa using hkey)]

end

end Token

namespace SymbolTable.Tabulates

section

variable {s : List Char} {t : SymbolTable} (h : Tabulates (lexemes s 0) t)
include h

theorem depicts_of_key {e : Symbol} (he : e ∈ t.symbols) {k : Kind} {c : Char} (hk : k.Covers c)
    (hkey : e.key = (k, some (String.singleton c))) : e.Depicts s c := by
  have hoccurrences := h.occurrences e he
  rw [hkey] at hoccurrences
  obtain ⟨hkind, hlexeme⟩ := Symbol.key_eq_iff.mp hkey
  have hmem : ∀ p : Int, p ∈ e.occurrences ↔ ∃ q : Nat, p = q ∧ s[q]? = some c := by
    intro p
    rw [← Token.mem_lexemes_iff hk, hoccurrences, List.mem_map]
    constructor
    · rintro ⟨a, ha, rfl⟩
      obtain ⟨ha, hakey⟩ := List.mem_filter.mp ha
      obtain ⟨hak, hax⟩ := Prod.mk.inj (of_decide_eq_true hakey)
      rw [← hak, ← hax]
      exact ha
    · intro ha
      exact ⟨_, List.mem_filter.mpr ⟨ha, by simp [Token.key]⟩, rfl⟩
  have hascending := h.ascending (Token.pairwise_lexemes s 0) he
  have hhead := h.first e he
  refine ⟨by rw [hkind]; exact hk, hlexeme, ?_, hmem, hascending, ?_⟩
  · obtain ⟨q, hq, hc⟩ := (hmem e.first).mp (List.mem_of_head? hhead)
    refine ⟨q, hq, hc, ?_⟩
    intro i hi hic
    -- an earlier one would be an occurrence before the first
    obtain ⟨ps, hps⟩ := List.head?_eq_some_iff.mp hhead
    have hmemi : (i : Int) ∈ e.occurrences := (hmem i).mpr ⟨i, rfl, hic⟩
    rw [hps] at hascending hmemi
    rcases List.mem_cons.mp hmemi with heq | htail
    · omega
    · have hlt := (List.pairwise_cons.mp hascending).1 i htail
      omega
  · rw [hoccurrences, List.length_map, ← List.countP_eq_length_filter, Token.countP_lexemes hk]

theorem exists_depicts {e : Symbol} (he : e ∈ t.symbols) : ∃ c, e.Depicts s c := by
  obtain ⟨a, ha, hkey⟩ := h.mem_keys_iff.mp (List.mem_map_of_mem he)
  obtain ⟨us, vs, hsplit⟩ := List.append_of_mem ha
  obtain ⟨q, c, r, k, -, hk, -, rfl⟩ := Token.split_lexemes hsplit
  exact ⟨c, h.depicts_of_key he (Kind.covers_of_ofChar? hk) hkey.symm⟩

theorem exists_symbol {o : Nat} {c : Char} (hc : s[o]? = some c) (hl : IsLexeme c) :
    ∃ e ∈ t.symbols, e.Depicts s c := by
  obtain ⟨k, hk⟩ := Kind.exists_covers_iff.mpr hl
  have ha := (Token.mem_lexemes_iff hk (p := o)).mpr ⟨o, rfl, hc⟩
  obtain ⟨e, he, hkey⟩ := List.mem_map.mp (h.mem_keys_iff.mpr ⟨_, ha, rfl⟩)
  exact ⟨e, he, h.depicts_of_key he hk hkey⟩

/-- One symbol at most occurs at an offset. -/
theorem filter_occurrences {e : Symbol} (he : e ∈ t.symbols) {p : Int} (hp : p ∈ e.occurrences) :
    t.symbols.filter (fun f => p ∈ f.occurrences) = [e] := by
  obtain ⟨us, vs, hsplit⟩ := List.append_of_mem he
  have hdisjoint := h.pairwise_not_mem (Token.pairwise_lexemes s 0)
  rw [hsplit] at hdisjoint ⊢
  apply filter_eq_singleton (by simpa using hp)
  refine hdisjoint.imp ?_
  intro f g hfg hboth
  exact hfg p (of_decide_eq_true hboth.1) (of_decide_eq_true hboth.2)

end

end SymbolTable.Tabulates

namespace Editor

theorem symbolAt?_of_unreadable {s : List Char} (h : ¬∀ c ∈ s, IsReadable c) (p : Int) :
    symbolAt? s p = none := by
  obtain ⟨q, c, r, rfl, hq, hc⟩ := Token.exists_first_unreadable h
  rw [symbolAt?, Token.ofText_unreadable hq hc]

theorem symbolAt?_of_readable {s : List Char} (h : ∀ c ∈ s, IsReadable c) : ∃ table,
    SymbolTable.ofTokens (stream s) = .ok table ∧ table.Tabulates (lexemes s 0) ∧
    ∀ p, symbolAt? s p = table.symbols.find? fun e => p ∈ e.occurrences := by
  obtain ⟨table, ht⟩ := SymbolTable.exists_ofTokens_stream s
  have htab := SymbolTable.tabulates_ofTokens ht
  rw [Token.filter_stream] at htab
  refine ⟨table, ht, htab, ?_⟩
  intro p
  simp only [symbolAt?, Token.ofText_readable h, ht]
  rfl

section

variable {s : List Char} {o : Nat}

/-- What is found at an offset is the symbol of the character there, and the one symbol that any
analysis of the text has there. -/
theorem of_symbolAt? {e : Symbol} (h : symbolAt? s o = some e) : ∃ c, s[o]? = some c ∧
    e.Depicts s c ∧
    ∀ limit, (Analysis.ofText s limit).symbols.filter (fun f => (o : Int) ∈ f.occurrences) = [e] := by
  by_cases hr : ∀ c ∈ s, IsReadable c
  · obtain ⟨table, ht, htab, hfind⟩ := symbolAt?_of_readable hr
    rw [hfind] at h
    have he := List.mem_of_find?_eq_some h
    have hoccurs : (o : Int) ∈ e.occurrences := by simpa using List.find?_some h
    obtain ⟨c, hdepicts⟩ := htab.exists_depicts he
    obtain ⟨q, hq, hc⟩ := (hdepicts.mem_iff o).mp hoccurs
    obtain rfl : o = q := Int.ofNat.inj hq
    refine ⟨c, hc, hdepicts, ?_⟩
    intro limit
    have hl : IsLexeme c := Kind.exists_covers_iff.mp ⟨_, hdepicts.kind⟩
    have hb := Analysis.not_blank_of_mem (List.mem_of_getElem? hc) (Kind.not_isBlank_of_isLexeme hl)
    obtain ⟨table', ht', -, hsymbols, -⟩ := Analysis.exists_views hb hr limit
    obtain rfl := Except.ok.inj (ht.symm.trans ht')
    rw [hsymbols]
    exact htab.filter_occurrences he hoccurs
  · rw [symbolAt?_of_unreadable hr] at h
    simp at h

theorem symbolAt?_eq_none_iff (ho : o ≤ s.length) : symbolAt? s o = none ↔
    (∃ c ∈ s, ¬IsReadable c) ∨ o = s.length ∨ ∃ c, s[o]? = some c ∧ Text.isBlank c = true := by
  constructor
  · intro h
    by_contra hnot
    simp only [not_or, not_exists, not_and, not_not] at hnot
    obtain ⟨hr, hlength, hb⟩ := hnot
    have hlt : o < s.length := Nat.lt_of_le_of_ne ho hlength
    have hc : s[o]? = some s[o] := List.getElem?_eq_getElem hlt
    have hl : IsLexeme s[o] := (hr _ (List.getElem_mem hlt)).resolve_left (hb _ hc)
    obtain ⟨table, -, htab, hfind⟩ := symbolAt?_of_readable hr
    obtain ⟨e, he, hdepicts⟩ := htab.exists_symbol hc hl
    have hoccurs : (o : Int) ∈ e.occurrences := (hdepicts.mem_iff o).mpr ⟨o, rfl, hc⟩
    rw [hfind] at h
    exact absurd hoccurs (by simpa using List.find?_eq_none.mp h e he)
  · intro h
    cases hs : symbolAt? s o with
    | none => rfl
    | some e =>
      obtain ⟨c, hc, hdepicts, -⟩ := of_symbolAt? hs
      have hl : IsLexeme c := Kind.exists_covers_iff.mp ⟨_, hdepicts.kind⟩
      rcases h with ⟨d, hd, hu⟩ | rfl | ⟨d, hd, hb⟩
      · rw [symbolAt?_of_unreadable (fun hr => hu (hr d hd))] at hs
        simp at hs
      · simp at hc
      · obtain rfl := Option.some.inj (hc.symm.trans hd)
        rw [Kind.not_isBlank_of_isLexeme hl] at hb
        simp at hb

end

theorem Position.toOffset_le (s : List Char) (p : Position) : p.toOffset s ≤ s.length := by
  obtain ⟨above, line, below, hlines, -, ho⟩ := Text.exists_offsetOf s p.line p.character
  rw [toOffset, ho]
  exact Text.extent_add_le hlines (Nat.min_le_right _ _)

/-- After the last character of its line a position is at a line feed or at the end of the text. -/
theorem Position.eq_newline_of_past {s : List Char} {p : Position} {line : List Char}
    (h : (Text.lines s)[min p.line ((Text.lines s).length - 1)]? = some line)
    (hp : line.length ≤ p.character) {c : Char} (hc : s[p.toOffset s]? = some c) : c = '\n' := by
  obtain ⟨above, l, below, hlines, habove, ho⟩ := Text.exists_offsetOf s p.line p.character
  rw [← habove, hlines, List.getElem?_append_right (Nat.le_refl _), Nat.sub_self,
    List.getElem?_cons_zero] at h
  obtain rfl := Option.some.inj h
  rw [toOffset, ho, Nat.min_eq_right hp] at hc
  exact (Text.getElem?_of_lines hlines).2 c hc

/-- What is shown at a position of a text `s`. -/
structure Hovered (s : List Char) (p : Position) : Prop where
  none_iff : describeAt? s (p.toOffset s) = none ↔ (∃ c ∈ s, ¬IsReadable c) ∨
    p.toOffset s = s.length ∨ ∃ c, s[p.toOffset s]? = some c ∧ Text.isBlank c = true
  past : ∀ line, (Text.lines s)[min p.line ((Text.lines s).length - 1)]? = some line →
    line.length ≤ p.character → describeAt? s (p.toOffset s) = none
  shown : ∀ text, describeAt? s (p.toOffset s) = some text → ∃ c e, s[p.toOffset s]? = some c ∧
    e.Depicts s c ∧
    text = "```\n(" ++ e.kind.name ++ ") " ++ String.singleton c ++ "\n```\n---\nFirst occurrence: " ++
      toString e.first ++ "\nOccurrences (" ++ toString (s.count c) ++ "): " ++
      ", ".intercalate (e.occurrences.map toString) ∧
    ∀ limit, (Analysis.ofText s limit).symbols.filter
      (fun f => (p.toOffset s : Int) ∈ f.occurrences) = [e]

theorem hovered (s : List Char) (p : Position) : Hovered s p := by
  have hnone : describeAt? s (p.toOffset s) = none ↔ symbolAt? s (p.toOffset s) = none := by
    rw [describeAt?, Option.map_eq_none_iff]
  constructor
  case none_iff =>
    rw [hnone]
    exact symbolAt?_eq_none_iff (p.toOffset_le s)
  case past =>
    intro line hline hp
    rw [hnone, symbolAt?_eq_none_iff (p.toOffset_le s)]
    by_cases hlt : p.toOffset s < s.length
    · have hc : s[p.toOffset s]? = some s[p.toOffset s] := List.getElem?_eq_getElem hlt
      have hnewline := Position.eq_newline_of_past hline hp hc
      exact Or.inr (Or.inr ⟨_, hc, by rw [hnewline]; rfl⟩)
    · exact Or.inr (Or.inl (Nat.le_antisymm (p.toOffset_le s) (Nat.le_of_not_lt hlt)))
  case shown =>
    intro text htext
    obtain ⟨e, he, rfl⟩ := Option.map_eq_some_iff.mp htext
    obtain ⟨c, hc, hdepicts, hanalysis⟩ := of_symbolAt? he
    refine ⟨c, e, hc, hdepicts, ?_, hanalysis⟩
    rw [← hdepicts.lexeme, ← hdepicts.length]
    rfl

section

variable {w : Workspace} {uri : String} {s : List Char} (h : w.text? uri = some s) {p : Position}
include h

theorem hover_eq_describeAt? (hl : p.line ≤ Position.largest) (hc : p.character ≤ Position.largest) :
    w.hover uri p.line p.character = .ok (describeAt? s (p.toOffset s)) := by
  simp only [Workspace.hover, make_natCast hl hc, h]

omit h in
theorem hover_error (hout : ¬(p.line ≤ Position.largest ∧ p.character ≤ Position.largest)) :
    ∃ f, w.hover uri p.line p.character = .error (.position f) := by
  obtain ⟨f, hf⟩ := make_error hout
  exact ⟨f, by simp only [Workspace.hover, hf]⟩

end

/-- An open document answers for every position that an editor can name, and what it answers is the
symbol of the character there, whether the document is an expression or not. -/
theorem hover_of_text {w : Workspace} {uri : String} {s : List Char} (h : w.text? uri = some s)
    (p : Position) : Hovered s p ∧
      (p.line ≤ Position.largest ∧ p.character ≤ Position.largest →
        w.hover uri p.line p.character = .ok (describeAt? s (p.toOffset s))) ∧
      (¬(p.line ≤ Position.largest ∧ p.character ≤ Position.largest) →
        ∃ f, w.hover uri p.line p.character = .error (.position f)) :=
  ⟨hovered s p, fun hin => hover_eq_describeAt? h hin.1 hin.2, hover_error⟩

/-- The text is no expression. Its second line shows the letter of its first line too. -/
theorem hover_of_text_unfinished :
    let s := ['a', '+', '\n', ' ', 'a', '*']
    let w := Workspace.empty.set "file" s
    w.text? "file" = some s ∧ Hovered s ⟨1, 1⟩ ∧ w.hover "file" 1 1 =
      .ok (some "```\n(IDENTIFIER) a\n```\n---\nFirst occurrence: 0\nOccurrences (2): 0, 4") := by
  intro s w
  have hw : w.text? "file" = some s := rfl
  obtain ⟨hhovered, hanswer, -⟩ := hover_of_text hw ⟨1, 1⟩
  have htext : describeAt? s (Position.toOffset s ⟨1, 1⟩) =
      some "```\n(IDENTIFIER) a\n```\n---\nFirst occurrence: 0\nOccurrences (2): 0, 4" := by decide
  exact ⟨hw, hhovered, (hanswer (by decide)).trans (congrArg Except.ok htext)⟩

end Editor
end ExprLine
