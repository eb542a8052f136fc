import ExprLine.SymbolTable
import Mathlib.Algebra.GroupWithZero.Nat
import Mathlib.Data.List.Induction
import Mathlib.Data.List.Nodup
import Mathlib.Data.List.Perm.Basic

namespace ExprLine

section

variable {α : Type} [BEq α] [LawfulBEq α]

theorem eraseDups_concat_of_mem {l : List α} {a : α} (h : a ∈ l) :
    (l ++ [a]).eraseDups = l.eraseDups := by
  rw [List.eraseDups_append]
  simp [List.removeAll, h]

theorem eraseDups_concat_of_not_mem {l : List α} {a : α} (h : a ∉ l) :
    (l ++ [a]).eraseDups = l.eraseDups ++ [a] := by
  have hone : [a].eraseDups = [a] := by rw [List.eraseDups_cons]; rfl
  rw [List.eraseDups_append]
  simp [List.removeAll, h, hone]

theorem nodup_eraseDups (l : List α) : l.eraseDups.Nodup := by
  -- from the right, as the members come in
  induction l using List.reverseRecOn with
  | nil => exact List.nodup_nil
  | append_singleton l a ih =>
    by_cases h : a ∈ l
    · rw [eraseDups_concat_of_mem h]
      exact ih
    · rw [eraseDups_concat_of_not_mem h]
      have hnot : a ∉ l.eraseDups := fun ha => h (List.mem_eraseDups.mp ha)
      exact List.nodup_append.mpr ⟨ih, List.nodup_singleton a, by
        intro b hb c hc
        rw [List.mem_singleton.mp hc]
        rintro rfl
        exact hnot hb⟩

end

section

variable {α β : Type} [BEq α] [LawfulBEq α] [BEq β] [LawfulBEq β]

theorem eraseDups_map_eraseDups (f : α → β) (l : List α) :
    (l.eraseDups.map f).eraseDups = (l.map f).eraseDups := by
  induction l using List.reverseRecOn with
  | nil => rfl
  | append_singleton l a ih =>
    rw [List.map_append, List.map_singleton]
    by_cases ha : a ∈ l
    · have hf : f a ∈ l.map f := List.mem_map_of_mem ha
      rw [eraseDups_concat_of_mem ha, eraseDups_concat_of_mem hf, ih]
    · rw [eraseDups_concat_of_not_mem ha, List.map_append, List.map_singleton]
      by_cases hf : f a ∈ l.map f
      · have hf' : f a ∈ l.eraseDups.map f := by simpa using hf
        rw [eraseDups_concat_of_mem hf, eraseDups_concat_of_mem hf', ih]
      · have hf' : f a ∉ l.eraseDups.map f := by simpa using hf
        rw [eraseDups_concat_of_not_mem hf, eraseDups_concat_of_not_mem hf', ih]

end

/-- To collect the members of a list by keys is to reorder it, if every key is there once. -/
theorem perm_flatMap_filter {α κ : Type} [DecidableEq κ] {f : α → κ} {ks : List κ}
    (hn : ks.Nodup) {l : List α} (h : ∀ a ∈ l, f a ∈ ks) :
    (ks.flatMap fun k => l.filter fun a => f a = k).Perm l := by
  induction ks generalizing l with
  | nil =>
    cases l with
    | nil => exact .refl _
    | cons a l => exact absurd (h a List.mem_cons_self) List.not_mem_nil
  | cons k ks ih =>
    obtain ⟨hk, hks⟩ := List.nodup_cons.mp hn
    have hrest := ih hks (l := l.filter fun a => !decide (f a = k)) (by
      intro a ha
      obtain ⟨hal, hne⟩ := List.mem_filter.mp ha
      refine (List.mem_cons.mp (h a hal)).resolve_left ?_
      simpa using hne)
    -- the other keys do not see what the first one has taken
    have hsame : (ks.flatMap fun j => (l.filter fun a => !decide (f a = k)).filter fun a => f a = j)
        = ks.flatMap fun j => l.filter fun a => f a = j := by
      apply List.flatMap_congr
      intro j hj
      rw [List.filter_filter]
      apply List.filter_congr
      intro a _
      by_cases hfa : f a = j
      · have hne : j ≠ k := by
          rintro rfl
          exact hk hj
        simp [hfa, hne]
      · simp [hfa]
    rw [hsame] at hrest
    rw [List.flatMap_cons]
    exact (hrest.append_left _).trans (List.filter_append_perm _ l)

section

variable {ε κ : Type} [DecidableEq κ]

/-- Changes the first entry of key `k`, or puts a new entry at the end if there is none. -/
def upsert (key : ε → κ) (k : κ) (change : ε → ε) (new : ε) : List ε → List ε
  | [] => [new]
  | e :: es => if key e = k then change e :: es else e :: upsert key k change new es

variable {key : ε → κ} {k : κ} {change : ε → ε} {new : ε} {es : List ε}

theorem map_key_upsert_of_mem (hc : ∀ e, key (change e) = key e) (h : k ∈ es.map key) :
    (upsert key k change new es).map key = es.map key := by
  induction es with
  | nil => exact absurd h List.not_mem_nil
  | cons e es ih =>
    rw [upsert]
    by_cases he : key e = k
    · rw [if_pos he, List.map_cons, List.map_cons, hc]
    · rw [List.map_cons] at h
      have hrest := (List.mem_cons.mp h).resolve_left fun hk => he hk.symm
      rw [if_neg he, List.map_cons, ih hrest, List.map_cons]

theorem map_key_upsert_of_not_mem (hnew : key new = k) (h : k ∉ es.map key) :
    (upsert key k change new es).map key = es.map key ++ [k] := by
  induction es with
  | nil =>
    rw [upsert, List.map_singleton, hnew]
    rfl
  | cons e es ih =>
    rw [List.map_cons, List.mem_cons, not_or] at h
    rw [upsert, if_neg fun he => h.1 he.symm, List.map_cons, ih h.2, List.map_cons, List.cons_append]

/-- The keys stay those seen so far, each once and in the order they were first seen. -/
theorem map_key_upsert [BEq κ] [LawfulBEq κ] (hc : ∀ e, key (change e) = key e)
    (hnew : key new = k) {ks : List κ} (h : es.map key = ks.eraseDups) :
    (upsert key k change new es).map key = (ks ++ [k]).eraseDups := by
  by_cases hk : k ∈ ks
  · have hmem : k ∈ es.map key := by
      rw [h]
      exact List.mem_eraseDups.mpr hk
    rw [eraseDups_concat_of_mem hk, ← h]
    exact map_key_upsert_of_mem hc hmem
  · have hmem : k ∉ es.map key := by
      rw [h]
      exact fun hm => hk (List.mem_eraseDups.mp hm)
    rw [eraseDups_concat_of_not_mem hk, ← h]
    exact map_key_upsert_of_not_mem hnew hmem

/-- An entry was there before under another key, or it was changed, or it is the new one. -/
theorem of_mem_upsert (hn : (es.map key).Nodup) {e : ε} (h : e ∈ upsert key k change new es) :
    (e ∈ es ∧ key e ≠ k) ∨ (∃ d ∈ es, key d = k ∧ e = change d) ∨
      (k ∉ es.map key ∧ e = new) := by
  induction es with
  | nil => exact Or.inr (Or.inr ⟨List.not_mem_nil, List.mem_singleton.mp h⟩)
  | cons d es ih =>
    rw [List.map_cons] at hn
    obtain ⟨hd, hn⟩ := List.nodup_cons.mp hn
    rw [upsert] at h
    by_cases hk : key d = k
    · rw [if_pos hk] at h
      rcases List.mem_cons.mp h with rfl | h
      · exact Or.inr (Or.inl ⟨d, List.mem_cons_self, hk, rfl⟩)
      · refine Or.inl ⟨List.mem_cons_of_mem d h, ?_⟩
        intro he
        exact hd (List.mem_map.mpr ⟨e, h, he.trans hk.symm⟩)
    · rw [if_neg hk] at h
      rcases List.mem_cons.mp h with rfl | h
      · exact Or.inl ⟨List.mem_cons_self, hk⟩
      rcases ih hn h with ⟨hmem, hne⟩ | ⟨c, hc, hck, rfl⟩ | ⟨hnew, rfl⟩
      · exact Or.inl ⟨List.mem_cons_of_mem d hmem, hne⟩
      · exact Or.inr (Or.inl ⟨c, List.mem_cons_of_mem d hc, hck, rfl⟩)
      · refine Or.inr (Or.inr ⟨?_, rfl⟩)
        rw [List.map_cons, List.mem_cons, not_or]
        exact ⟨fun h => hk h.symm, hnew⟩

end

def Token.key (a : Token) : Kind × Option String := (a.kind, a.lexeme)

def Symbol.key (e : Symbol) : Kind × Option String := (e.kind, some e.lexeme)

theorem Symbol.key_eq_iff {e : Symbol} {k : Kind} {x : String} :
    e.key = (k, some x) ↔ e.kind = k ∧ e.lexeme = x := by simp [key]

/-- The tokens that a symbol stands for. -/
def Symbol.tokens (e : Symbol) : List Token :=
  e.occurrences.map fun p => ⟨e.kind, some e.lexeme, p⟩

/-- The tally of symbols by themselves: how often they occur, and how often those of each kind. -/
def Tally.ofSymbols (es : List Symbol) : Tally :=
  ⟨((es.map fun e => e.occurrences.length).sum : Nat), (es.map Symbol.kind).eraseDups.map fun k =>
    (k.name, (((es.filter fun e => e.kind = k).map fun e => e.occurrences.length).sum : Nat))⟩

namespace SymbolTable

theorem insert_eq_upsert (k : Kind) (x : String) (p : Int) (es : List Symbol) :
    insert k x p es = upsert Symbol.key (k, some x)
      (fun e => { e with occurrences := e.occurrences ++ [p] }) ⟨x, k, p, [p]⟩ es := by
  induction es with
  | nil => rfl
  | cons e es ih =>
    rw [insert, upsert, ih]
    simp only [Symbol.key_eq_iff]

theorem count_eq_upsert (k : Kind) (cs : List (Kind × Nat)) :
    count k cs = upsert Prod.fst k (fun c => (c.1, c.2 + 1)) (k, 1) cs := by
  induction cs with
  | nil => rfl
  | cons c cs ih => rw [count, upsert, ih]

/-- The table `t` is the list `log` of the tokens added to it, grouped by kind and lexeme, and
counted by kind. -/
structure Tabulates (log : List Token) (t : SymbolTable) : Prop where
  keys : t.symbols.map Symbol.key = (log.map Token.key).eraseDups
  occurrences : ∀ e ∈ t.symbols,
    e.occurrences = (log.filter fun a => a.key = e.key).map Token.position
  first : ∀ e ∈ t.symbols, e.occurrences.head? = some e.first
  kinds : t.counts.map Prod.fst = (log.map Token.kind).eraseDups
  counts : ∀ c ∈ t.counts, c.2 = log.countP fun a => a.kind = c.1

namespace Tabulates

theorem empty : Tabulates [] SymbolTable.empty :=
  ⟨rfl, by simp [SymbolTable.empty], by simp [SymbolTable.empty], rfl, by simp [SymbolTable.empty]⟩

variable {log : List Token} {t : SymbolTable}

theorem nodup_keys (h : Tabulates log t) : (t.symbols.map Symbol.key).Nodup := by
  rw [h.keys]
  exact nodup_eraseDups _

theorem nodup_kinds (h : Tabulates log t) : (t.counts.map Prod.fst).Nodup := by
  rw [h.kinds]
  exact nodup_eraseDups _

theorem mem_keys_iff (h : Tabulates log t) {k : Kind × Option String} :
    k ∈ t.symbols.map Symbol.key ↔ ∃ a ∈ log, a.key = k := by
  rw [h.keys, List.mem_eraseDups, List.mem_map]

theorem mem_kinds_iff (h : Tabulates log t) {k : Kind} :
    k ∈ t.counts.map Prod.fst ↔ ∃ a ∈ log, a.kind = k := by
  rw [h.kinds, List.mem_eraseDups, List.mem_map]

section

variable {a : Token} {x : String} (h : Tabulates log t) (hx : a.lexeme = some x)
include h hx

theorem keys_insert : (SymbolTable.insert a.kind x a.position t.symbols).map Symbol.key =
    ((log ++ [a]).map Token.key).eraseDups := by
  have hkey : a.key = (a.kind, some x) := by rw [Token.key, hx]
  rw [insert_eq_upsert, List.map_append, List.map_singleton, hkey]
  refine map_key_upsert ?_ ?_ h.keys
  · intro e
    rfl
  · rfl

theorem occurrences_insert {e : Symbol}
    (he : e ∈ SymbolTable.insert a.kind x a.position t.symbols) :
    e.occurrences = ((log ++ [a]).filter fun b => b.key = e.key).map Token.position := by
  have hkey : a.key = (a.kind, some x) := by rw [Token.key, hx]
  rw [List.filter_append, List.map_append]
  rw [insert_eq_upsert] at he
  rcases of_mem_upsert h.nodup_keys he with ⟨hmem, hne⟩ | ⟨d, hd, hdk, rfl⟩ | ⟨hnew, rfl⟩
  · have hout : a.key ≠ e.key := fun hk => hne (hk.symm.trans hkey)
    rw [h.occurrences e hmem]
    simp [hout]
  · have hin : a.key = d.key := hkey.trans hdk.symm
    have hsame : Symbol.key { d with occurrences := d.occurrences ++ [a.position] } = d.key := rfl
    rw [hsame, ← h.occurrences d hd]
    simp [hin]
  · have hin : a.key = Symbol.key ⟨x, a.kind, a.position, [a.position]⟩ := hkey
    have hout : (log.filter fun b => b.key =
        Symbol.key ⟨x, a.kind, a.position, [a.position]⟩) = [] := by
      refine List.filter_eq_nil_iff.mpr ?_
      intro b hb hk
      exact hnew (h.mem_keys_iff.mpr ⟨b, hb, of_decide_eq_true hk⟩)
    rw [hout]
    simp [hin]

omit hx in
theorem first_insert {e : Symbol}
    (he : e ∈ SymbolTable.insert a.kind x a.position t.symbols) :
    e.occurrences.head? = some e.first := by
  rw [insert_eq_upsert] at he
  rcases of_mem_upsert h.nodup_keys he with ⟨hmem, -⟩ | ⟨d, hd, -, rfl⟩ | ⟨-, rfl⟩
  · exact h.first e hmem
  · rw [List.head?_append, h.first d hd]
    rfl
  · rfl

omit hx in
theorem kinds_count : (SymbolTable.count a.kind t.counts).map Prod.fst =
    ((log ++ [a]).map Token.kind).eraseDups := by
  rw [count_eq_upsert, List.map_append, List.map_singleton]
  refine map_key_upsert ?_ ?_ h.kinds
  · intro e
    rfl
  · rfl

omit hx in
theorem counts_count {c : Kind × Nat} (hc : c ∈ SymbolTable.count a.kind t.counts) :
    c.2 = (log ++ [a]).countP fun b => b.kind = c.1 := by
  rw [List.countP_append, List.countP_singleton]
  rw [count_eq_upsert] at hc
  rcases of_mem_upsert h.nodup_kinds hc with ⟨hmem, hne⟩ | ⟨d, hd, hdk, rfl⟩ | ⟨hnew, rfl⟩
  · rw [h.counts c hmem]
    simp [hne.symm]
  · rw [← h.counts d hd]
    simp [hdk]
  · have hout : (log.countP fun b => b.kind = a.kind) = 0 := by
      refine List.countP_eq_zero.mpr ?_
      intro b hb hk
      exact hnew (h.mem_kinds_iff.mpr ⟨b, hb, of_decide_eq_true hk⟩)
    simp [hout]

theorem insert : Tabulates (log ++ [a]) ⟨SymbolTable.insert a.kind x a.position t.symbols,
    SymbolTable.count a.kind t.counts⟩ :=
  ⟨h.keys_insert hx, fun _ he => h.occurrences_insert hx he, fun _ he => h.first_insert he,
    h.kinds_count, fun _ hc => h.counts_count hc⟩

end

theorem tokens_eq (h : Tabulates log t) {e : Symbol} (he : e ∈ t.symbols) :
    e.tokens = log.filter fun a => a.key = e.key := by
  rw [Symbol.tokens, h.occurrences e he, List.map_map]
  refine (List.map_congr_left ?_).trans (List.map_id _)
  intro a ha
  have hkey : a.key = e.key := of_decide_eq_true (List.mem_filter.mp ha).2
  obtain ⟨hk, hl⟩ := Prod.mk.inj hkey
  rw [Function.comp_apply, ← hk, ← hl]
  rfl

/-- No token is lost and none is there twice. -/
theorem perm (h : Tabulates log t) : (t.symbols.flatMap Symbol.tokens).Perm log := by
  have hgroups : t.symbols.flatMap Symbol.tokens =
      (t.symbols.map Symbol.key).flatMap fun k => log.filter fun a => a.key = k := by
    rw [List.flatMap_map]
    exact List.flatMap_congr fun e he => h.tokens_eq he
  rw [hgroups]
  exact perm_flatMap_filter h.nodup_keys fun a ha => h.mem_keys_iff.mpr ⟨a, ha, rfl⟩

theorem total_eq (h : Tabulates log t) : t.total = log.length := by
  have hsum : t.total = (t.counts.map Prod.snd).sum := by
    rw [SymbolTable.total, List.sum, List.foldr_map]
  have hcounts : t.counts.map Prod.snd =
      (t.counts.map Prod.fst).map fun k => (log.filter fun a => a.kind = k).length := by
    rw [List.map_map]
    apply List.map_congr_left
    intro c hc
    rw [h.counts c hc, List.countP_eq_length_filter]
    rfl
  have hperm := perm_flatMap_filter h.nodup_kinds (f := Token.kind) (l := log)
    fun a ha => h.mem_kinds_iff.mpr ⟨a, ha, rfl⟩
  rw [hsum, hcounts, ← List.length_flatMap, hperm.length_eq]

theorem tally_eq (h : Tabulates log t) : t.tally = ⟨log.length,
    (log.map Token.kind).eraseDups.map fun k =>
      (k.name, (log.countP fun a => a.kind = k : Nat))⟩ := by
  rw [tally, h.total_eq, ← h.kinds, List.map_map]
  refine congrArg (Tally.mk _) (List.map_congr_left ?_)
  intro c hc
  rw [Function.comp_apply, ← h.counts c hc]

theorem map_kind_symbols (h : Tabulates log t) :
    (t.symbols.map Symbol.kind).eraseDups = (log.map Token.kind).eraseDups := by
  have hsymbols : t.symbols.map Symbol.kind = (t.symbols.map Symbol.key).map Prod.fst := by
    simp [Symbol.key]
  have hlog : log.map Token.kind = (log.map Token.key).map Prod.fst := by simp [Token.key]
  rw [hsymbols, hlog, h.keys, eraseDups_map_eraseDups]

theorem countP_tokens (e : Symbol) (k : Kind) :
    (e.tokens.countP fun a => a.kind = k) = if e.kind = k then e.occurrences.length else 0 := by
  rw [Symbol.tokens, List.countP_map]
  by_cases hk : e.kind = k
  · simp [hk]
  · simp [hk]

theorem countP_kind (h : Tabulates log t) (k : Kind) : (log.countP fun a => a.kind = k) =
    ((t.symbols.filter fun e => e.kind = k).map fun e => e.occurrences.length).sum := by
  rw [← h.perm.countP_eq, List.countP_flatMap]
  clear h
  induction t.symbols with
  | nil => rfl
  | cons e es ih =>
    by_cases hk : e.kind = k
    · simpa [hk, countP_tokens] using ih
    · simpa [hk, countP_tokens] using ih

theorem tally_eq_ofSymbols (h : Tabulates log t) : t.tally = Tally.ofSymbols t.symbols := by
  have hlength : log.length = (t.symbols.map fun e => e.occurrences.length).sum := by
    rw [← h.perm.length_eq, List.length_flatMap]
    simp [Symbol.tokens]
  rw [h.tally_eq, Tally.ofSymbols, h.map_kind_symbols, hlength]
  simp only [h.countP_kind]

end Tabulates

/-- A token that is added goes to the end of what the table tabulates. -/
theorem tabulates_add {log : List Token} {t t' : SymbolTable} {a : Token} (h : Tabulates log t)
    (ha : t.add a = .ok t') : Tabulates (log ++ [a]) t' := by
  rw [add] at ha
  split at ha
  · simp at ha
  · cases hx : a.lexeme with
    | none => simp [hx] at ha
    | some x =>
      rw [hx] at ha
      obtain rfl := Except.ok.inj ha
      exact h.insert hx

theorem tabulates_foldlM {log ts : List Token} {t t' : SymbolTable} (h : Tabulates log t)
    (hts : ts.foldlM add t = .ok t') : Tabulates (log ++ ts) t' := by
  induction ts generalizing log t with
  | nil =>
    obtain rfl := Except.ok.inj hts
    rw [List.append_nil]
    exact h
  | cons a ts ih =>
    rw [List.foldlM_cons] at hts
    cases ha : t.add a with
    | error e =>
      rw [ha] at hts
      cases hts
    | ok u =>
      rw [ha] at hts
      have hrest := ih (tabulates_add h ha) hts
      rw [List.append_assoc, List.singleton_append] at hrest
      exact hrest

section

variable {a : Token} (t : SymbolTable)

theorem add_endMarker (h : a.isEnd = true) : t.add a = .error .endMarker := by
  rw [add, if_pos h]

theorem add_noLexeme (h : a.isEnd = false) (hx : a.lexeme = none) : t.add a = .error .noLexeme := by
  simp [add, h, hx]

theorem exists_add (h : a.isEnd = false) (hx : a.lexeme.isSome = true) : ∃ u, t.add a = .ok u := by
  obtain ⟨x, hx⟩ := Option.isSome_iff_exists.mp hx
  simp [add, h, hx]

end

theorem exists_foldlM_add {ts : List Token} (h : ∀ a ∈ ts, a.isEnd = false ∧ a.lexeme.isSome = true)
    (t : SymbolTable) : ∃ u, ts.foldlM add t = .ok u := by
  induction ts generalizing t with
  | nil => exact ⟨t, rfl⟩
  | cons a ts ih =>
    obtain ⟨hlive, hx⟩ := h a List.mem_cons_self
    obtain ⟨u, hu⟩ := exists_add t hlive hx
    rw [List.foldlM_cons, hu]
    exact ih (fun b hb => h b (List.mem_cons_of_mem a hb)) u

/-- The first token without a lexeme ends it, whatever was added before. -/
theorem foldlM_add_noLexeme {ts : List Token} (hlive : ∀ a ∈ ts, a.isEnd = false)
    (h : ∃ a ∈ ts, a.lexeme = none) (t : SymbolTable) : ts.foldlM add t = .error .noLexeme := by
  induction ts generalizing t with
  | nil =>
    obtain ⟨a, ha, -⟩ := h
    exact absurd ha List.not_mem_nil
  | cons a ts ih =>
    have ha := hlive a List.mem_cons_self
    rw [List.foldlM_cons]
    cases hx : a.lexeme with
    | none =>
      rw [add_noLexeme t ha hx]
      rfl
    | some x =>
      obtain ⟨u, hu⟩ := exists_add t ha (by rw [hx]; rfl)
      have hrest : ∃ b ∈ ts, b.lexeme = none := by
        obtain ⟨b, hb, hnone⟩ := h
        rcases List.mem_cons.mp hb with rfl | hb
        · rw [hx] at hnone
          exact absurd hnone (by simp)
        · exact ⟨b, hb, hnone⟩
      rw [hu]
      exact ih (fun b hb => hlive b (List.mem_cons_of_mem a hb)) hrest u

theorem exists_ofTokens {ts : List Token} (h : ∀ a ∈ ts, a.isEnd = true ∨ a.lexeme.isSome = true) :
    ∃ t, ofTokens ts = .ok t := by
  apply exists_foldlM_add
  intro a ha
  obtain ⟨hmem, hlive⟩ := List.mem_filter.mp ha
  have hend : a.isEnd = false := by simpa using hlive
  exact ⟨hend, (h a hmem).resolve_left (by simp [hend])⟩

theorem ofTokens_noLexeme {ts : List Token} (h : ∃ a ∈ ts, a.isEnd = false ∧ a.lexeme = none) :
    ofTokens ts = .error .noLexeme := by
  apply foldlM_add_noLexeme
  · intro a ha
    simpa using (List.mem_filter.mp ha).2
  · obtain ⟨a, ha, hlive, hx⟩ := h
    exact ⟨a, List.mem_filter.mpr ⟨ha, by simp [hlive]⟩, hx⟩

theorem tabulates_ofTokens {ts : List Token} {t : SymbolTable} (h : ofTokens ts = .ok t) :
    Tabulates (ts.filter (!·.isEnd)) t := by
  have hall := tabulates_foldlM .empty h
  rw [List.nil_append] at hall
  exact hall

end SymbolTable
end ExprLine
