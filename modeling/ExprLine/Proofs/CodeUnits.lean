import ExprLine.Proofs.Hovering

namespace ExprLine

namespace Text

/-- The UTF-16 code units of a character: one in the basic plane, a pair of surrogates above it. -/
def codeUnits (c : Char) : List UInt16 :=
  if c.toNat < 0x10000 then [c.toNat.toUInt16]
  else [(0xD800 + (c.toNat - 0x10000) / 0x400).toUInt16,
    (0xDC00 + (c.toNat - 0x10000) % 0x400).toUInt16]

/-- The index of the character of a line to which code unit `u` of the line belongs. -/
def holder? : List Char → Nat → Option Nat
  | [], _ => none
  | c :: r, u =>
    if u < (codeUnits c).length then some 0
    else (holder? r (u - (codeUnits c).length)).map (· + 1)

theorem length_codeUnits {c : Char} (h : c.toNat < 0x10000) : (codeUnits c).length = 1 := by
  rw [codeUnits, if_pos h]
  rfl

section

variable {s : List Char} (h : ∀ c ∈ s, c.toNat < 0x10000)
include h

theorem length_flatMap_codeUnits : (s.flatMap codeUnits).length = s.length := by
  have hone : s.map (fun c => (codeUnits c).length) = s.map fun _ => 1 :=
    List.map_congr_left fun c hc => length_codeUnits (h c hc)
  rw [List.length_flatMap, hone]
  simp

/-- In the basic plane a code unit and a character are the same. -/
theorem holder?_eq {u : Nat} (hu : u < s.length) : holder? s u = some u := by
  induction s generalizing u with
  | nil => simp at hu
  | cons c r ih =>
    rw [holder?, length_codeUnits (h c List.mem_cons_self)]
    cases u with
    | zero => rfl
    | succ u =>
      have hrest := ih (fun d hd => h d (List.mem_cons_of_mem c hd)) (Nat.lt_of_succ_lt_succ hu)
      rw [if_neg (by omega), Nat.add_sub_cancel, hrest]
      rfl

end

end Text

/-- No character of an expression needs a pair of surrogates. -/
theorem toNat_lt_of_isReadable {c : Char} (h : IsReadable c) : c.toNat < 0x10000 := by
  rcases h with hb | hl
  · exact Text.toNat_lt_of_isBlank hb
  · have hle := (Kind.toNat_of_isLexeme hl).2
    omega

namespace Analysis.Blames

/-- What stands before a blamed offset is readable. -/
theorem readable_take {s : List Char} {limit : Int} {o : Nat} (h : (ofText s limit).Blames s o) :
    ∀ c ∈ s.take o, IsReadable c := by
  cases h with
  | syntaxError d he hd ho =>
    obtain ⟨hr, -⟩ := exists_stop_of_syntaxError he
    exact fun c hc => hr c (List.mem_of_mem_take hc)
  | lexicalError q r c he hd hs hq hc ho =>
    subst ho
    rw [hs, List.take_left]
    exact hq

end Analysis.Blames

namespace Editor

/-- The offset that a line and a code unit in it name: that of the character with this unit. -/
def offsetOfUnit? (s : List Char) (line unit : Nat) : Option Nat :=
  let row := (Text.lines s).getD (min line ((Text.lines s).length - 1)) []
  (Text.holder? row unit).map (Text.offsetOf s line)

/-- Places that are counted in characters are right for an editor that counts code units. Only the
end of a marker may be wrong for it, on a character that takes two units. -/
structure CountsUnits (s : List Char) : Prop where
  marker : ∀ ms, markersOf s = .ok ms → ∀ m ∈ ms, ∃ q l r,
    (Analysis.ofText s defaultLimit).Blames s (q ++ l).length ∧ s = q ++ l ++ r ∧
    (q = [] ∨ ∃ q', q = q' ++ ['\n']) ∧ '\n' ∉ l ∧ m.start.line = q.count '\n' ∧
    m.start.character = (l.flatMap Text.codeUnits).length
  hover : ∀ (w : Workspace) (uri : String), w.text? uri = some s → ∀ (line unit : Nat) (text : String),
    w.hover uri line unit = .ok (some text) →
    offsetOfUnit? s line unit = some (Position.toOffset s ⟨line, unit⟩)

theorem start_eq_codeUnits {s : List Char} {ms : List Marker} {m : Marker}
    (h : markersOf s = .ok ms) (hm : m ∈ ms) : ∃ q l r,
    (Analysis.ofText s defaultLimit).Blames s (q ++ l).length ∧ s = q ++ l ++ r ∧
    (q = [] ∨ ∃ q', q = q' ++ ['\n']) ∧ '\n' ∉ l ∧ m.start.line = q.count '\n' ∧
    m.start.character = (l.flatMap Text.codeUnits).length := by
  obtain ⟨o, ho, hblames, hstart⟩ := start_of_mem_markersOf h hm
  obtain ⟨q, l, hsplit, hends, hl, hplace⟩ := Text.exists_place_eq ho
  have hlength : (q ++ l).length = o := by rw [← hsplit, List.length_take_of_le ho]
  have hplane : ∀ c ∈ l, c.toNat < 0x10000 := by
    intro c hc
    have hc : c ∈ s.take o := hsplit ▸ List.mem_append_right q hc
    exact toNat_lt_of_isReadable (hblames.readable_take c hc)
  refine ⟨q, l, s.drop o, by rwa [hlength], ?_, hends, hl, ?_, ?_⟩
  · rw [← hsplit, List.take_append_drop]
  · rw [hstart _ _ hplace]
  · rw [hstart _ _ hplace, Text.length_flatMap_codeUnits hplane]

theorem offsetOfUnit?_of_hover {w : Workspace} {uri : String} {s : List Char}
    (hw : w.text? uri = some s) {line unit : Nat} {text : String}
    (h : w.hover uri line unit = .ok (some text)) :
    offsetOfUnit? s line unit = some (Position.toOffset s ⟨line, unit⟩) := by
  obtain ⟨hnone, hpast, -⟩ := hovered s ⟨line, unit⟩
  have hsome : describeAt? s (Position.toOffset s ⟨line, unit⟩) = some text := by
    by_cases hin : line ≤ Position.largest ∧ unit ≤ Position.largest
    · have heq := hover_eq_describeAt? hw (p := ⟨line, unit⟩) hin.1 hin.2
      exact Except.ok.inj (heq.symm.trans h)
    · obtain ⟨f, hf⟩ : ∃ f, w.hover uri line unit = .error (.position f) :=
        hover_error (p := ⟨line, unit⟩) hin
      rw [h] at hf
      simp at hf
  have hreadable : ∀ c ∈ s, IsReadable c := by
    intro c hc
    by_contra hu
    rw [hnone.mpr (Or.inl ⟨c, hc, hu⟩)] at hsome
    simp at hsome
  obtain ⟨above, row, below, hlines, habove, -⟩ := Text.exists_offsetOf s line unit
  have hrow : (Text.lines s)[min line ((Text.lines s).length - 1)]? = some row := by
    rw [← habove, hlines]
    simp
  have hunit : unit < row.length := by
    by_contra hle
    rw [hpast row hrow (Nat.le_of_not_lt hle)] at hsome
    simp at hsome
  have hplane : ∀ c ∈ row, c.toNat < 0x10000 := by
    intro c hc
    have hmem : row ∈ Text.lines s := List.mem_of_getElem? hrow
    exact toNat_lt_of_isReadable (hreadable c (Text.mem_of_mem_pieces hmem hc))
  rw [offsetOfUnit?, List.getD_eq_getElem?_getD, hrow, Option.getD_some,
    Text.holder?_eq hplane hunit]
  rfl

/-- No character before a blamed one, and none of a text that an answer is given for, takes more than
one unit. -/
theorem countsUnits_of_text (s : List Char) : CountsUnits s where
  marker := fun _ hms _ hm => start_eq_codeUnits hms hm
  hover := fun _ _ hw _ _ _ htext => offsetOfUnit?_of_hover hw htext

/-- The unit in the middle of a character that takes two names this character. -/
example : offsetOfUnit? ['a', '\n', '𝒳', 'b'] 1 1 = some 2 ∧
    offsetOfUnit? ['a', '\n', '𝒳', 'b'] 1 2 = some 3 ∧
    Position.toOffset ['a', '\n', '𝒳', 'b'] ⟨1, 2⟩ = 4 := by decide

end Editor
end ExprLine
