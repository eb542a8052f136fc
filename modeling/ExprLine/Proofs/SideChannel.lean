import ExprLine.Analysis.Artifact

namespace ExprLine

namespace Artifact

/-- No artifact to keep is refused for its path, which happens before any storage is asked. Its
write may still fail in every way a storage fails. -/
def Placeable {σ : Type} (write : σ → String → ByteArray → Except FileFault σ) (base : String)
    (keep : List String) : Prop :=
  ∀ g : Stage, g.name ∈ keep → ∀ u b, write u (name base g) b ≠ .error .unusablePath

section

variable {σ : Type} (write : σ → String → ByteArray → Except FileFault σ) (base : String)
  (keep : List String)

/-- Saves a product if its stage is one to keep. -/
def saveKept (p : Product) (s : σ) : Saved σ :=
  if p.stage.name ∈ keep then save write base p s else ⟨s, [], [p], true⟩

theorem saveAll_cons (p : Product) (ps : List Product) (s : σ) :
    saveAll write base keep (p :: ps) s =
      if (saveKept write base keep p s).complete then
        ⟨(saveAll write base keep ps (saveKept write base keep p s).storage).storage,
          (saveKept write base keep p s).notes ++
            (saveAll write base keep ps (saveKept write base keep p s).storage).notes,
          (saveKept write base keep p s).reached ++
            (saveAll write base keep ps (saveKept write base keep p s).storage).reached,
          (saveAll write base keep ps (saveKept write base keep p s).storage).complete⟩
      else saveKept write base keep p s := rfl

theorem reached_saveKept (p : Product) (s : σ) : (saveKept write base keep p s).reached = [p] := by
  unfold saveKept save
  split
  · dsimp only
    split <;> rfl
  · rfl

theorem saveAll_none (ps : List Product) (s : σ) : saveAll write base [] ps s = ⟨s, [], ps, true⟩ := by
  induction ps with
  | nil => rfl
  | cons p ps ih =>
    have hp : saveKept write base [] p s = ⟨s, [], [p], true⟩ := rfl
    simp [saveAll_cons, hp, ih]

variable {write base keep}

theorem complete_saveKept (h : Placeable write base keep) (p : Product) (s : σ) :
    (saveKept write base keep p s).complete = true := by
  unfold saveKept
  split
  · next hp =>
    have hw := h p.stage hp s (bytes p)
    unfold save
    dsimp only
    split
    · rfl
    · next he => exact absurd he hw
    · rfl
  · rfl

theorem complete_saveAll (h : Placeable write base keep) (ps : List Product) (s : σ) :
    (saveAll write base keep ps s).complete = true := by
  induction ps generalizing s with
  | nil => rfl
  | cons p ps ih =>
    rw [saveAll_cons, if_pos (complete_saveKept h p s)]
    exact ih _

end

end Artifact

namespace Analyzed

variable {σ : Type} (write : σ → String → ByteArray → Except FileFault σ) (base : String)
  (keep : List String)

/-- What is left when no stage follows. -/
def ended (a : Analysis) (s : σ) : Analyzed σ := ⟨⟨a, []⟩, s, []⟩

/-- Saves a product, and only then goes on to what follows it. -/
def afterSaving (p : Product) (next : σ → Analyzed σ) (s : σ) : Analyzed σ :=
  let one := Artifact.saveKept write base keep p s
  if one.complete then
    let more := next one.storage
    ⟨⟨more.run.analysis, p :: more.run.products⟩, more.storage, one.notes ++ more.notes⟩
  else ⟨⟨Analysis.internalFailure, [p]⟩, one.storage, one.notes⟩

/-- Saves the products of a run that is over. -/
def saving (r : Run) (s : σ) : Analyzed σ :=
  let saved := Artifact.saveAll write base keep r.products s
  ⟨if saved.complete then r else ⟨Analysis.internalFailure, saved.reached⟩, saved.storage,
    saved.notes⟩

theorem saving_nil (a : Analysis) : saving write base keep ⟨a, []⟩ = ended a := rfl

theorem saving_cons (a : Analysis) (p : Product) (ps : List Product) :
    saving write base keep ⟨a, p :: ps⟩ =
      afterSaving write base keep p (saving write base keep ⟨a, ps⟩) := by
  funext s
  have hp := Artifact.reached_saveKept write base keep p s
  by_cases hone : (Artifact.saveKept write base keep p s).complete = true
  · by_cases hmore : (Artifact.saveAll write base keep ps
        (Artifact.saveKept write base keep p s).storage).complete = true
    · simp [saving, afterSaving, Artifact.saveAll_cons, hone, hmore]
    · simp [saving, afterSaving, Artifact.saveAll_cons, hone, hmore, hp]
  · simp [saving, afterSaving, Artifact.saveAll_cons, hone, hp]

end Analyzed

namespace Request

open Analyzed (ended afterSaving saving saving_nil saving_cons)

variable {σ τ : Type}

/-- The stages after the tokens in turn, each after the product of the one before is saved. -/
def stagedTokens (write : σ → String → ByteArray → Except FileFault σ) (base : String) (r : Request)
    (ts : List Token) : σ → Analyzed σ :=
  afterSaving write base r.keep (.tokens ts) <|
    if r.stopAfter = some Stage.tokens.name then
      ended { success := true, errorType := none, message := Analysis.stopped .tokens, tokens := ts,
              symbols := [], tally := none, errors := none, tree := none }
    else match SymbolTable.ofTokens ts with
      | .error _ => ended Analysis.internalFailure
      | .ok t =>
        afterSaving write base r.keep (.symbolTable t) <|
          if r.stopAfter = some Stage.symbolTable.name then
            ended { success := true, errorType := none, message := Analysis.stopped .symbolTable,
                    tokens := ts, symbols := t.symbols, tally := some t.tally, errors := none,
                    tree := none }
          else match parse ts r.limit with
            | .error _ => ended Analysis.internalFailure
            | .ok v =>
              afterSaving write base r.keep (.parseTree v) (ended (Analysis.ofVerdict ts t v))

/-- The analysis with its writes where they happen: what a stage has made is saved before the next
one begins. -/
def staged (write : σ → String → ByteArray → Except FileFault σ) (here : Path) (r : Request) :
    σ → Analyzed σ :=
  match r.source with
  | none => ended (.failure .inputError FaultCode.emptyInput.template)
  | some text =>
    if text.all Text.isBlank then ended (.failure .inputError FaultCode.emptyInput.template)
    else match Token.ofText text with
      | .error e => ended (.failure .lexicalError e.message)
      | .ok ts => stagedTokens write (Artifact.base here r.file) r ts

theorem stagedTokens_eq_saving (write : σ → String → ByteArray → Except FileFault σ) (base : String)
    (r : Request) (ts : List Token) : stagedTokens write base r ts =
      saving write base r.keep (Analysis.runTokens ts r.stopAfter r.limit) := by
  unfold stagedTokens Analysis.runTokens
  by_cases ht : r.stopAfter = some Stage.tokens.name
  · simp only [if_pos ht, saving_cons, saving_nil]
  simp only [if_neg ht]
  cases SymbolTable.ofTokens ts with
  | error e => simp only [saving_cons, saving_nil]
  | ok t =>
    by_cases hs : r.stopAfter = some Stage.symbolTable.name
    · simp only [if_pos hs, saving_cons, saving_nil]
    simp only [if_neg hs]
    cases parse ts r.limit with
    | error e => simp only [saving_cons, saving_nil]
    | ok v => simp only [saving_cons, saving_nil]

/-- Nothing is lost by saving all products at the end, for no stage reads what a write has left. -/
theorem staged_eq_analyze (write : σ → String → ByteArray → Except FileFault σ) (here : Path)
    (r : Request) : r.staged write here = r.analyze write here := by
  have hanalyze : r.analyze write here = saving write (Artifact.base here r.file) r.keep
      (Analysis.run r.source r.stopAfter r.limit) := rfl
  rw [hanalyze]
  unfold staged Analysis.run
  cases r.source with
  | none => rfl
  | some text =>
    by_cases hb : text.all Text.isBlank = true
    · simp only [if_pos hb, saving_nil]
    simp only [if_neg hb]
    cases Token.ofText text with
    | error e => rfl
    | ok ts => exact stagedTokens_eq_saving write _ r ts

theorem run_analyze {write : σ → String → ByteArray → Except FileFault σ} {here : Path} {r : Request}
    (h : Artifact.Placeable write (Artifact.base here r.file) r.keep) (s : σ) :
    (r.analyze write here s).run = Analysis.run r.source r.stopAfter r.limit := by
  have hcomplete := Artifact.complete_saveAll h (Analysis.run r.source r.stopAfter r.limit).products s
  simp only [analyze, hcomplete, if_true]

/-- The same request with nothing to keep, of a source that is from no file. -/
def plain (r : Request) : Request := { r with keep := [], file := none }

theorem analyze_of_keep_nil (write : σ → String → ByteArray → Except FileFault σ) (here : Path)
    {r : Request} (h : r.keep = []) (s : σ) :
    r.analyze write here s = ⟨Analysis.run r.source r.stopAfter r.limit, s, []⟩ := by
  simp [analyze, h, Artifact.saveAll_none]

theorem analyze_plain (write : σ → String → ByteArray → Except FileFault σ) (here : Path)
    (r : Request) (s : σ) :
    r.plain.analyze write here s = ⟨Analysis.run r.source r.stopAfter r.limit, s, []⟩ :=
  analyze_of_keep_nil write here rfl s

/-- Artifacts are a side channel. Whatever is to be kept, however the writes between the stages fare
and whatever they do to the storage, the analysis and the products of its stages are those of the
same request with nothing to keep, on any storage, which that one leaves as it was. -/
theorem run_analyze_eq_plain {write : σ → String → ByteArray → Except FileFault σ} {here : Path}
    {r : Request} (h : Artifact.Placeable write (Artifact.base here r.file) r.keep) (s : σ)
    (other : τ → String → ByteArray → Except FileFault τ) (there : Path) (s' : τ) :
    r.staged write here s = r.analyze write here s ∧
    (r.analyze write here s).run = (r.plain.analyze other there s').run ∧
    (r.plain.analyze other there s').storage = s' ∧ (r.plain.analyze other there s').notes = [] := by
  rw [staged_eq_analyze, run_analyze h, analyze_plain]
  exact ⟨rfl, rfl, rfl, rfl⟩

/-- The first write is made and the storage is full after it. -/
theorem run_analyze_eq_plain_full :
    let write : Nat → String → ByteArray → Except FileFault Nat := fun n _ _ =>
      if n = 0 then .ok 1 else .error (.other 28 "No space left on device")
    let r : Request := ⟨some ['a', '+', ' ', 'b'], none, some 200,
      ["tokens", "lexemes", "parse_tree", "tokens"], some "/in/a.expr"⟩
    Artifact.Placeable write (Artifact.base ⟨[]⟩ r.file) r.keep ∧
    (r.analyze write ⟨[]⟩ 0).storage = 1 ∧
    (r.analyze write ⟨[]⟩ 0).run = (r.plain.analyze write ⟨["home"]⟩ 7).run := by
  intro write r
  have h : Artifact.Placeable write (Artifact.base ⟨[]⟩ r.file) r.keep := by
    intro g _ n b
    dsimp only [write]
    split <;> simp
  exact ⟨h, rfl, (run_analyze_eq_plain h 0 write ⟨["home"]⟩ 7).2.1⟩

end Request

namespace Path

theorem hasNul_eq_false_iff {p : Path} : p.hasNul = false ↔ ∀ n ∈ p.names, '\x00' ∉ n.toList := by
  simp [hasNul]

theorem mem_step {names : List String} {n m : String} (h : m ∈ step names n) : m ∈ names ∨ m = n := by
  unfold step at h
  split at h
  · exact Or.inl h
  · split at h
    · exact Or.inl ((List.dropLast_sublist names).mem h)
    · simpa using h

theorem mem_foldl_step {m : String} (ns names : List String) (h : m ∈ ns.foldl step names) :
    m ∈ names ∨ m ∈ ns := by
  induction ns generalizing names with
  | nil => exact Or.inl h
  | cons n ns ih =>
    rcases ih (step names n) h with hm | hm
    · rcases mem_step hm with hm | rfl
      · exact Or.inl hm
      · exact Or.inr List.mem_cons_self
    · exact Or.inr (List.mem_cons_of_mem n hm)

theorem hasNul_resolve {here : Path} {s : String} (hh : here.hasNul = false) (hs : '\x00' ∉ s.toList) :
    (here.resolve s).hasNul = false := by
  rw [hasNul_eq_false_iff] at hh ⊢
  intro n hn
  rcases mem_foldl_step _ _ hn with hstart | hpiece
  · split at hstart
    · simp at hstart
    · exact hh n hstart
  · obtain ⟨q, hq, rfl⟩ := List.mem_map.mp hpiece
    rw [String.toList_ofList]
    exact fun hc => hs (Text.mem_of_mem_pieces hq hc)

theorem mem_of_mem_stem {c : Char} {name : List Char} (h : c ∈ stem name) : c ∈ name := by
  unfold stem at h
  split at h
  · exact h
  · next d r hr =>
    split at h
    · have hmem : c ∈ name.reverse.dropWhile (· ≠ '.') := by
        rw [hr]
        exact List.mem_cons_of_mem d (List.mem_reverse.mp h)
      exact List.mem_reverse.mp ((List.dropWhile_sublist _).mem hmem)
    · exact h

theorem hasNul_withoutExtension {p : Path} (h : p.hasNul = false) :
    p.withoutExtension.hasNul = false := by
  rw [hasNul_eq_false_iff] at h ⊢
  unfold withoutExtension
  split
  · exact h
  · next n hlast =>
    intro m hm
    rcases List.mem_append.mp hm with hm | hm
    · exact h m ((List.dropLast_sublist p.names).mem hm)
    · rw [List.mem_singleton.mp hm, String.toList_ofList]
      exact fun hc => h n (List.mem_of_getLast? hlast) (mem_of_mem_stem hc)

theorem nul_not_mem_text {p : Path} (h : p.hasNul = false) : '\x00' ∉ p.text.toList := by
  rw [hasNul_eq_false_iff] at h
  have hslash : '\x00' ∉ "/".toList := by decide
  intro hc
  rw [text, String.toList_append, String.toList_intercalate, List.mem_append] at hc
  rcases hc with hc | hc
  · exact hslash hc
  · rcases Text.mem_of_mem_intercalate _ hc with hc | ⟨l, hl, hc⟩
    · exact hslash hc
    · obtain ⟨n, hn, rfl⟩ := List.mem_map.mp hl
      exact h n hn hc

theorem nul_not_mem_textFor {p : Path} (h : p.hasNul = false) (asked : String) :
    '\x00' ∉ (p.textFor asked).toList := by
  have ht := nul_not_mem_text h
  unfold textFor
  split
  · exact ht
  · simp [String.toList_append, ht]
  · exact ht

end Path

namespace Disk

/-- Only a NUL character makes a path one that no file can have. -/
theorem barrier?_eq_unusablePath_iff {d : Disk} {p : Path} :
    d.barrier? p = some .unusablePath ↔ p.hasNul = true := by
  cases hn : p.hasNul with
  | true => simp [barrier?, hn]
  | false =>
    have hother : d.barrier? p ≠ some .unusablePath := by
      intro hb
      rw [barrier?, if_neg (by simp [hn])] at hb
      split at hb
      · simp at hb
      · obtain ⟨-, q, -, -, hq, -⟩ := List.findSome?_eq_some_iff.mp hb
        split at hq
        · simp at hq
        · split at hq
          · simp at hq
          · split at hq <;> simp at hq
    simp [hother]

theorem write_eq_unusablePath_iff {d : Disk} {p : Path} {b : ByteArray} :
    d.write p b = .error .unusablePath ↔ p.hasNul = true := by
  rw [← barrier?_eq_unusablePath_iff (d := d)]
  unfold write
  cases d.barrier? p with
  | some f => simp
  | none =>
    dsimp only
    split <;> simp

/-- On a disk the artifacts of a file have their paths, if the path of the file is one. -/
theorem placeable {here : Path} {file : Option String} (hh : here.hasNul = false)
    (hf : ∀ f, file = some f → (here.resolve f).hasNul = false) (keep : List String) :
    Artifact.Placeable (Disk.writeAt here) (Artifact.base here file) keep := by
  have hbase : '\x00' ∉ (Artifact.base here file).toList := by
    unfold Artifact.base
    split
    · decide
    · next f =>
      split
      · decide
      · exact Path.nul_not_mem_textFor (Path.hasNul_withoutExtension (hf f rfl)) f
  intro g _ d b
  have hname : '\x00' ∉ (Artifact.name (Artifact.base here file) g).toList := by
    have hg : '\x00' ∉ g.name.toList := by cases g <;> decide
    simp [Artifact.name, String.toList_append, hbase, hg]
  rw [writeAt, ne_eq, write_eq_unusablePath_iff, Path.hasNul_resolve hh hname]
  decide

end Disk

theorem Request.run_analyze_disk {here : Path} {r : Request} (hh : here.hasNul = false)
    (hf : ∀ f, r.file = some f → '\x00' ∉ f.toList) (d : Disk) :
    (r.analyze (Disk.writeAt here) here d).run = Analysis.run r.source r.stopAfter r.limit :=
  run_analyze (Disk.placeable hh (fun f hr => Path.hasNul_resolve hh (hf f hr)) r.keep) d

end ExprLine
