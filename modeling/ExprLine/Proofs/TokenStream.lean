import ExprLine.Proofs.Lexing
import ExprLine.Proofs.Relocation
import Mathlib.Data.List.TakeWhile

namespace ExprLine

open Text (isBlank)

/-- A member that has a property of which no two members have it is all that the property selects. -/
theorem filter_eq_singleton {α : Type} {P : α → Bool} {us vs : List α} {a : α} (ha : P a = true)
    (h : (us ++ a :: vs).Pairwise fun b c => ¬(P b = true ∧ P c = true)) :
    (us ++ a :: vs).filter P = [a] := by
  obtain ⟨-, hvs, hall⟩ := List.pairwise_append.mp h
  have hbefore : us.filter P = [] :=
    List.filter_eq_nil_iff.mpr fun b hb hP => hall b hb a List.mem_cons_self ⟨hP, ha⟩
  have hafter : vs.filter P = [] :=
    List.filter_eq_nil_iff.mpr fun b hb hP => (List.pairwise_cons.mp hvs).1 b hb ⟨ha, hP⟩
  rw [List.filter_append, List.filter_cons_of_pos ha, hbefore, hafter, List.nil_append]

/-- The characters of each kind. The end of input has none. -/
def Kind.Covers : Kind → Char → Prop
  | number, c => '0' ≤ c ∧ c ≤ '9'
  | identifier, c => ('A' ≤ c ∧ c ≤ 'Z') ∨ ('a' ≤ c ∧ c ≤ 'z')
  | plus, c => c = '+'
  | minus, c => c = '-'
  | multiply, c => c = '*'
  | divide, c => c = '/'
  | leftParen, c => c = '('
  | rightParen, c => c = ')'
  | endOfInput, _ => False

namespace Kind

theorem covers_of_ofChar? {c : Char} {k : Kind} (h : ofChar? c = some k) : k.Covers c := by
  unfold ofChar? at h
  split at h
  · next hd =>
    obtain rfl := Option.some.inj h
    exact isDigit_iff.mp hd
  split at h
  · next ha =>
    obtain rfl := Option.some.inj h
    exact isAlpha_iff.mp ha
  split at h <;> first | (obtain rfl := Option.some.inj h; rfl) | simp at h

theorem not_isDigit_of_isAlpha {c : Char} (h : c.isAlpha = true) : ¬c.isDigit = true := by
  rw [isDigit_iff]
  rintro ⟨-, hnine⟩
  have hnine : c.toNat ≤ 57 := hnine
  rcases isAlpha_iff.mp h with ⟨ha, -⟩ | ⟨ha, -⟩
  · have ha : 65 ≤ c.toNat := ha
    omega
  · have ha : 97 ≤ c.toNat := ha
    omega

theorem ofChar?_of_covers {c : Char} {k : Kind} (h : k.Covers c) : ofChar? c = some k := by
  unfold ofChar?
  cases k with
  | number => rw [if_pos (isDigit_iff.mpr h)]
  | identifier =>
    have ha : c.isAlpha = true := isAlpha_iff.mpr h
    rw [if_neg (not_isDigit_of_isAlpha ha), if_pos ha]
  | endOfInput => exact h.elim
  | _ =>
    obtain rfl : c = _ := h
    rfl

theorem ofChar?_eq_some_iff {c : Char} {k : Kind} : ofChar? c = some k ↔ k.Covers c :=
  ⟨covers_of_ofChar?, ofChar?_of_covers⟩

theorem exists_covers_iff {c : Char} : (∃ k : Kind, k.Covers c) ↔ IsLexeme c := by
  rw [← isSome_ofChar?_iff, Option.isSome_iff_exists]
  exact exists_congr fun _ => ofChar?_eq_some_iff.symm

end Kind

namespace Token

/-- The tokens of a text whose first character has offset `p`, match by match: what matches at an
offset is one lexeme or a run of blanks, as long as it can be. Where nothing matches there are no
tokens. -/
inductive Munches : List Char → Nat → Except BadCharacter (List Token) → Prop
  | finish (p : Nat) : Munches [] p (.ok [endAt p])
  | lexeme {c : Char} {k : Kind} {r : List Char} {p : Nat} {x : Except BadCharacter (List Token)}
      (hk : k.Covers c) (h : Munches r (p + 1) x) :
      Munches (c :: r) p (x.map (⟨k, some (String.singleton c), p⟩ :: ·))
  | blanks {run r : List Char} {p : Nat} {x : Except BadCharacter (List Token)} (hne : run ≠ [])
      (hrun : ∀ c ∈ run, isBlank c = true) (hlongest : ∀ c ∈ r.head?, isBlank c = false)
      (h : Munches r (p + run.length) x) : Munches (run ++ r) p x
  | refuse {c : Char} {r : List Char} {p : Nat} (hb : isBlank c = false)
      (hk : ∀ k : Kind, ¬k.Covers c) : Munches (c :: r) p (.error ⟨c, p⟩)

section

variable {c : Char} {r : List Char} (p : Nat)

theorem scan_lexeme {k : Kind} (h : k.Covers c) :
    scan (c :: r) p = (scan r (p + 1)).map (⟨k, some (String.singleton c), p⟩ :: ·) := by
  have hb := Kind.not_isBlank_of_isLexeme (Kind.exists_covers_iff.mp ⟨k, h⟩)
  rw [scan, if_neg (by simp [hb]), Kind.ofChar?_of_covers h]

theorem scan_refuse (hb : isBlank c = false) (hk : ∀ k : Kind, ¬k.Covers c) :
    scan (c :: r) p = .error ⟨c, p⟩ := by
  have hnone : Kind.ofChar? c = none := by
    rw [Option.eq_none_iff_forall_ne_some]
    intro k hck
    exact hk k (Kind.covers_of_ofChar? hck)
  rw [scan, if_neg (by simp [hb]), hnone]

theorem scan_blanks {run : List Char} (h : ∀ c ∈ run, isBlank c = true) :
    scan (run ++ r) p = scan r (p + run.length) := by
  induction run generalizing p with
  | nil => rfl
  | cons d run ih =>
    have hrest := ih (p + 1) fun e he => h e (List.mem_cons_of_mem d he)
    rw [List.cons_append, scan, if_pos (h d List.mem_cons_self), hrest, List.length_cons,
      Nat.add_assoc, Nat.add_comm 1]

end

theorem scan_of_munches {s : List Char} {p : Nat} {x : Except BadCharacter (List Token)}
    (h : Munches s p x) : scan s p = x := by
  induction h with
  | finish p => rfl
  | lexeme hk h ih => rw [scan_lexeme _ hk, ih]
  | blanks hne hrun hlongest h ih => rw [scan_blanks _ hrun, ih]
  | refuse hb hk => exact scan_refuse _ hb hk

theorem munches_scan (s : List Char) (p : Nat) : Munches s p (scan s p) := by
  -- on the length, since a run of blanks is passed over at once
  induction hn : s.length using Nat.strongRecOn generalizing s p with
  | ind n ih =>
    subst hn
    cases s with
    | nil => exact .finish p
    | cons c r =>
      by_cases hb : isBlank c = true
      · have hsplit := List.takeWhile_append_dropWhile (p := isBlank) (l := c :: r)
        have hne : (c :: r).takeWhile isBlank ≠ [] := by simp [hb]
        have hshorter : ((c :: r).dropWhile isBlank).length < (c :: r).length := by
          rw [List.dropWhile_cons_of_pos hb, List.length_cons]
          exact Nat.lt_succ_of_le (List.dropWhile_sublist _).length_le
        have hrun : ∀ d ∈ (c :: r).takeWhile isBlank, isBlank d = true := by
          intro d hd
          exact List.mem_takeWhile_imp hd
        have hlongest : ∀ d ∈ ((c :: r).dropWhile isBlank).head?, isBlank d = false := by
          intro d hd
          have hnot := List.head?_dropWhile_not isBlank (c :: r)
          rw [Option.mem_def.mp hd] at hnot
          exact hnot
        rw [← hsplit, scan_blanks p hrun]
        exact .blanks hne hrun hlongest (ih _ hshorter _ _ rfl)
      · have hb : isBlank c = false := by simpa using hb
        by_cases hk : ∃ k : Kind, k.Covers c
        · obtain ⟨k, hk⟩ := hk
          rw [scan_lexeme p hk]
          exact .lexeme hk (ih _ (Nat.lt_succ_self _) _ _ rfl)
        · have hk : ∀ k : Kind, ¬k.Covers c := not_exists.mp hk
          rw [scan_refuse p hb hk]
          exact .refuse hb hk

theorem munches_iff {s : List Char} {p : Nat} {x : Except BadCharacter (List Token)} :
    Munches s p x ↔ scan s p = x :=
  ⟨scan_of_munches, fun h => h ▸ munches_scan s p⟩

/-- Tokens that ascend are told apart by their offsets. -/
theorem filter_position {us vs : List Token} {a : Token}
    (h : (us ++ a :: vs).Pairwise fun b c => b.position < c.position) :
    (us ++ a :: vs).filter (fun b => b.position = a.position) = [a] := by
  apply filter_eq_singleton (by simp)
  refine h.imp ?_
  intro b c hbc hboth
  have hb : b.position = a.position := of_decide_eq_true hboth.1
  have hc : c.position = a.position := of_decide_eq_true hboth.2
  omega

/-- The tokens are the characters that are not blank, each of them once and where it stands, and
after them the end of input. -/
structure Records (s : List Char) (ts : List Token) : Prop where
  visible : ∀ (i : Nat) (c : Char), s[i]? = some c → isBlank c = false → ∃ k : Kind, k.Covers c ∧
    ts.filter (fun a => a.position = (i : Int)) = [⟨k, some (String.singleton c), i⟩]
  blank : ∀ (i : Nat) (c : Char), s[i]? = some c → isBlank c = true →
    ts.filter (fun a => a.position = (i : Int)) = []
  inside : ∀ a ∈ ts, ∃ i ≤ s.length, a.position = (i : Int)
  ascending : ts.Pairwise fun a b => a.position < b.position
  getLast : ts.getLast? = some ⟨.endOfInput, none, s.length⟩
  kind : ∀ a ∈ ts.dropLast, a.kind ≠ .endOfInput

theorem eq_append_of_getElem? {s : List Char} {i : Nat} {c : Char} (h : s[i]? = some c) :
    ∃ q r, s = q ++ c :: r ∧ q.length = i := by
  obtain ⟨hi, rfl⟩ := List.getElem?_eq_some_iff.mp h
  refine ⟨s.take i, s.drop (i + 1), ?_, List.length_take_of_le (Nat.le_of_lt hi)⟩
  rw [List.getElem_cons_drop, List.take_append_drop]

theorem records_stream {s : List Char} (h : ∀ c ∈ s, IsReadable c) : Records s (stream s) where
  visible := by
    intro i c hc hb
    obtain ⟨q, r, rfl, rfl⟩ := eq_append_of_getElem? hc
    have hl : IsLexeme c := (h c (by simp)).resolve_left (by simp [hb])
    obtain ⟨k, hk⟩ := Kind.exists_covers_iff.mpr hl
    have hsplit := stream_append_cons (Kind.ofChar?_of_covers hk) q r
    have hascending := pairwise_stream (q ++ c :: r)
    rw [hsplit] at hascending ⊢
    exact ⟨k, hk, filter_position hascending⟩
  blank := by
    intro i c hc hb
    refine List.filter_eq_nil_iff.mpr ?_
    intro a ha hposition
    have hposition : a.position = (i : Int) := of_decide_eq_true hposition
    obtain ⟨us, vs, hsplit⟩ := List.append_of_mem ha
    rcases split_stream hsplit with ⟨-, rfl, -⟩ | ⟨q, d, r, k, rfl, hk, -, rfl⟩
    · obtain ⟨hi, -⟩ := List.getElem?_eq_some_iff.mp hc
      have hlength : (s.length : Int) = i := hposition
      omega
    · have hlength : (q.length : Int) = i := hposition
      obtain rfl : q.length = i := by omega
      obtain rfl : d = c := by simpa using hc
      rw [Kind.ofChar?_eq_none_of_isBlank hb] at hk
      simp at hk
  inside := by
    intro a ha
    obtain ⟨us, vs, hsplit⟩ := List.append_of_mem ha
    rcases split_stream hsplit with ⟨-, rfl, -⟩ | ⟨q, d, r, k, rfl, -, -, rfl⟩
    · exact ⟨s.length, Nat.le_refl _, rfl⟩
    · exact ⟨q.length, by simp, rfl⟩
  ascending := pairwise_stream s
  getLast := List.getLast?_concat
  kind := by
    intro a ha
    rw [stream, List.dropLast_concat] at ha
    exact of_decide_eq_false (of_mem_lexemes ha).1

theorem exists_split_of_error {s : List Char} {e : BadCharacter} (h : ofText s = .error e) :
    ∃ q r, s = q ++ e.char :: r ∧ (∀ d ∈ q, IsReadable d) ∧ ¬IsReadable e.char ∧
      q.length = e.position := by
  have hr : ¬∀ c ∈ s, IsReadable c := by
    intro hr
    rw [ofText_readable hr] at h
    simp at h
  obtain ⟨q, c, r, rfl, hq, hc⟩ := exists_first_unreadable hr
  rw [ofText_unreadable hq hc] at h
  obtain rfl := Except.error.inj h
  exact ⟨q, r, rfl, hq, hc, rfl⟩

/-- All that is refused is the first character that no text may hold. -/
theorem ofText_error_iff {s : List Char} {e : BadCharacter} : ofText s = .error e ↔
    s[e.position]? = some e.char ∧ ¬IsReadable e.char ∧
      ∀ i < e.position, ∀ c, s[i]? = some c → IsReadable c := by
  constructor
  · intro h
    obtain ⟨q, r, rfl, hq, hc, hp⟩ := exists_split_of_error h
    refine ⟨by simp [← hp], hc, ?_⟩
    intro i hi c hic
    rw [← hp] at hi
    rw [List.getElem?_append_left hi] at hic
    exact hq c (List.mem_of_getElem? hic)
  · rintro ⟨hc, hbad, hfirst⟩
    obtain ⟨c, p⟩ := e
    obtain ⟨q, r, rfl, rfl⟩ := eq_append_of_getElem? hc
    refine ofText_unreadable ?_ hbad
    intro d hd
    obtain ⟨i, hi, rfl⟩ := List.mem_iff_getElem.mp hd
    refine hfirst i hi _ ?_
    rw [List.getElem?_append_left hi, List.getElem?_eq_getElem hi]

/-- Tokens of two texts, put one after the other. The end of the first is no end any more. -/
structure Joins (s t : List Char) : Prop where
  ok : ∀ ts us, ofText s = .ok ts → ofText t = .ok us →
    ofText (s ++ t) = .ok (ts.dropLast ++ us.map (moved (· + s.length)))
  left : ∀ e, ofText s = .error e → ofText (s ++ t) = .error e
  right : ∀ ts e, ofText s = .ok ts → ofText t = .error e →
    ofText (s ++ t) = .error ⟨e.char, s.length + e.position⟩

theorem map_moved_lexemes (s : List Char) (p n : Nat) :
    (lexemes s p).map (moved (· + n)) = lexemes s (p + n) := by
  induction s generalizing p with
  | nil => rfl
  | cons c r ih =>
    cases hk : Kind.ofChar? c with
    | none => rw [lexemes_cons_none hk, lexemes_cons_none hk, ih, Nat.add_right_comm]
    | some k =>
      rw [lexemes_cons_some hk, lexemes_cons_some hk, List.map_cons, ih, Nat.add_right_comm]
      rfl

theorem stream_append (s t : List Char) :
    stream (s ++ t) = (stream s).dropLast ++ (stream t).map (moved (· + s.length)) := by
  have hend : (endAt t.length).moved (· + s.length) = endAt (s ++ t).length := by
    rw [List.length_append, Nat.add_comm]
    rfl
  rw [stream, stream, stream, List.dropLast_concat, List.map_append, map_moved_lexemes,
    lexemes_append, List.map_singleton, hend, List.append_assoc]

theorem joins (s t : List Char) : Joins s t where
  ok := by
    intro ts us hs ht
    have hsr := readable_of_ofText hs
    have htr := readable_of_ofText ht
    have hr : ∀ c ∈ s ++ t, IsReadable c := by
      intro c hc
      exact (List.mem_append.mp hc).elim (hsr c) (htr c)
    obtain rfl := Except.ok.inj ((ofText_readable hsr).symm.trans hs)
    obtain rfl := Except.ok.inj ((ofText_readable htr).symm.trans ht)
    rw [ofText_readable hr, stream_append]
  left := by
    intro e hs
    obtain ⟨q, r, rfl, hq, hc, hp⟩ := exists_split_of_error hs
    rw [List.append_assoc, List.cons_append, ofText_unreadable hq hc, hp]
  right := by
    intro ts e hs ht
    obtain ⟨q, r, rfl, hq, hc, hp⟩ := exists_split_of_error ht
    have hsq : ∀ d ∈ s ++ q, IsReadable d := by
      intro d hd
      exact (List.mem_append.mp hd).elim (readable_of_ofText hs d) (hq d)
    rw [← List.append_assoc, ofText_unreadable hsq hc, List.length_append, hp]

/-- Which texts have tokens, which tokens these are, and what is refused of any other text. -/
structure Lexes (s : List Char) : Prop where
  munches_iff : ∀ x, Munches s 0 x ↔ ofText s = x
  ok_iff : (∃ ts, ofText s = .ok ts) ↔ ∀ c ∈ s, IsReadable c
  records : ∀ ts, ofText s = .ok ts → Records s ts
  error_iff : ∀ e, ofText s = .error e ↔ s[e.position]? = some e.char ∧ ¬IsReadable e.char ∧
    ∀ i < e.position, ∀ c, s[i]? = some c → IsReadable c

/-- The tokens of a text hold all its characters but the blanks, and a cut anywhere in a text, also
within a run of blanks, cuts its tokens and nothing else. -/
theorem lexes_and_joins (s t : List Char) : Lexes s ∧ Joins s t := by
  refine ⟨⟨fun _ => munches_iff, ?_, ?_, fun _ => ofText_error_iff⟩, joins s t⟩
  · constructor
    · rintro ⟨ts, hts⟩
      exact readable_of_ofText hts
    · intro hr
      exact ⟨stream s, ofText_readable hr⟩
  · intro ts hts
    have hr := readable_of_ofText hts
    obtain rfl := Except.ok.inj ((ofText_readable hr).symm.trans hts)
    exact records_stream hr

/-- The cut is within the blanks. -/
example : ofText (['a', ' '] ++ ['\n', ' ', '1']) = .ok [⟨.identifier, some "a", 0⟩,
    ⟨.number, some "1", 4⟩, ⟨.endOfInput, none, 5⟩] := by decide

end Token
end ExprLine
