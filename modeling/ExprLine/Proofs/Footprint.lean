import ExprLine.Proofs.ArtifactPath
import ExprLine.Proofs.EarlyStop

namespace ExprLine

theorem findSome?_congr {α β : Type} {f g : α → Option β} {l : List α} (h : ∀ a ∈ l, f a = g a) :
    l.findSome? f = l.findSome? g := by
  induction l with
  | nil => rfl
  | cons a l ih =>
    rw [List.findSome?_cons, List.findSome?_cons, h a List.mem_cons_self,
      ih fun b hb => h b (List.mem_cons_of_mem a hb)]

namespace Disk

section

variable {d d' : Disk} {p q : Path}

theorem get?_put_self (hp : p.names ≠ []) (d : Disk) (e : Entry) : (d.put p e).get? p = some e := by
  rw [get?, if_neg hp]
  exact lookup_putIn_self p e d.entries

theorem get?_put_ne (h : q ≠ p) (d : Disk) (e : Entry) : (d.put p e).get? q = d.get? q := by
  unfold get?
  split
  · rfl
  · exact lookup_putIn_ne h e d.entries

/-- Only the folders above a path are asked whether there is a way to it. -/
theorem barrier?_congr (h : ∀ q ∈ p.ancestors, d.get? q = d'.get? q) :
    d.barrier? p = d'.barrier? p := by
  unfold barrier?
  split
  · rfl
  split
  · rfl
  apply findSome?_congr
  intro q hq
  rcases List.mem_append.mp hq with hq | hq
  · rw [h q hq]
  · rw [List.mem_singleton.mp hq]
    simp

/-- A write that is refused for one disk is refused for another that agrees on the way there. -/
theorem write_eq_error_congr (h : ∀ q ∈ p.ancestors, d.get? q = d'.get? q)
    (hp : d.get? p = d'.get? p) {b : ByteArray} {f : FileFault} :
    d.write p b = .error f ↔ d'.write p b = .error f := by
  unfold write
  rw [barrier?_congr h, hp]
  split
  · simp
  · split <;> simp

theorem write_eq_ok {b : ByteArray} (h : d.write p b = .ok d') :
    p.names ≠ [] ∧ d' = d.put p (.file b) := by
  unfold write at h
  split at h
  · simp at h
  split at h
  · simp at h
  · next hp =>
    refine ⟨?_, (Except.ok.inj h).symm⟩
    intro hroot
    exact hp (by rw [get?, if_pos hroot])

end

/-- What became of a file that was to be written: it is there, or the write was refused and all
stayed as it was there. -/
def Wrote (d : Disk) (p : Path) (b : ByteArray) (d' : Disk) : Prop :=
  ((∃ d₁, d.write p b = .ok d₁) ∧ d'.get? p = some (.file b)) ∨
    ((∃ f, d.write p b = .error f) ∧ d'.get? p = d.get? p)

end Disk

namespace Artifact

open Disk (writeAt Wrote)

theorem reached_saveAll_isPrefix {σ : Type} (write : σ → String → ByteArray → Except FileFault σ)
    (base : String) (keep : List String) (ps : List Product) (s : σ) :
    (saveAll write base keep ps s).reached <+: ps := by
  induction ps generalizing s with
  | nil => exact List.prefix_refl _
  | cons p ps ih =>
    have hone := reached_saveKept write base keep p s
    rw [saveAll_cons]
    split
    · rw [hone, List.singleton_append]
      exact (List.prefix_cons_inj p).mpr (ih _)
    · rw [hone]
      exact List.prefix_append [p] ps

variable {here : Path} {file : Option String} {keep : List String}

/-- Saving a product on a disk is to write its file, or to leave the disk as it is. -/
theorem storage_saveKept (p : Product) (d : Disk) :
    (saveKept (writeAt here) (base here file) keep p d).storage = d ∨
    p.stage.name ∈ keep ∧ d.write (path here file p.stage) (bytes p) =
      .ok (saveKept (writeAt here) (base here file) keep p d).storage := by
  unfold saveKept
  split
  · next hp =>
    unfold save
    dsimp only
    split
    · next hw => exact Or.inr ⟨hp, hw⟩
    · exact Or.inl rfl
    · exact Or.inl rfl
  · exact Or.inl rfl

theorem get?_saveKept {p : Product} {q : Path}
    (hq : p.stage.name ∈ keep → q ≠ path here file p.stage) (d : Disk) :
    (saveKept (writeAt here) (base here file) keep p d).storage.get? q = d.get? q := by
  rcases storage_saveKept p d with h | ⟨hp, h⟩
  · rw [h]
  · rw [(Disk.write_eq_ok h).2, Disk.get?_put_ne (hq hp)]

/-- The files of the products to save are all that saving them can change. -/
theorem get?_saveAll {ps : List Product} {q : Path}
    (hq : ∀ p ∈ ps, p.stage.name ∈ keep → q ≠ path here file p.stage) (d : Disk) :
    (saveAll (writeAt here) (base here file) keep ps d).storage.get? q = d.get? q := by
  induction ps generalizing d with
  | nil => rfl
  | cons p ps ih =>
    have hone := get?_saveKept (hq p List.mem_cons_self) d
    have hmore := ih fun r hr => hq r (List.mem_cons_of_mem p hr)
    rw [saveAll_cons]
    split
    · exact (hmore _).trans hone
    · exact hone

/-- The folders above an artifact hold no other artifact: all stand side by side. -/
theorem path_not_mem_ancestors (h : here.Proper) (g k : Stage) :
    path here file g ∉ (path here file k).ancestors := by
  rw [path_eq h, path_eq h, Path.ancestors]
  intro hmem
  obtain ⟨n, hn, he⟩ := List.mem_map.mp hmem
  have hlength := congrArg (List.length ∘ Path.names) he
  simp [Path.suffixed] at hlength hn
  omega

theorem wrote_saveKept (h : here.Proper) {p : Product} (hp : p.stage.name ∈ keep) (d : Disk) :
    d.Wrote (path here file p.stage) (bytes p)
      (saveKept (writeAt here) (base here file) keep p d).storage := by
  have hroot := path_names_ne_nil h file p.stage
  unfold saveKept save
  rw [if_pos hp]
  dsimp only
  split
  · next d' hw =>
    refine Or.inl ⟨⟨d', hw⟩, ?_⟩
    rw [(Disk.write_eq_ok hw).2]
    exact Disk.get?_put_self hroot d _
  · next hw => exact Or.inr ⟨⟨_, hw⟩, rfl⟩
  · next f _ hw => exact Or.inr ⟨⟨f, hw⟩, rfl⟩

/-- A file is written as if no other artifact were saved before it. -/
theorem wrote_congr (h : here.Proper) {p r : Product} (hne : r.stage ≠ p.stage) {d d' : Disk}
    {b : ByteArray}
    (hw : Wrote (saveKept (writeAt here) (base here file) keep p d).storage
      (path here file r.stage) b d') : d.Wrote (path here file r.stage) b d' := by
  have hpath : path here file r.stage ≠ path here file p.stage := fun he => hne (path_injective h he)
  have hsame : (saveKept (writeAt here) (base here file) keep p d).storage.get?
      (path here file r.stage) = d.get? (path here file r.stage) :=
    get?_saveKept (fun _ => hpath) d
  have habove : ∀ q ∈ (path here file r.stage).ancestors,
      (saveKept (writeAt here) (base here file) keep p d).storage.get? q = d.get? q := by
    intro q hq
    refine get?_saveKept (fun _ => ?_) d
    rintro rfl
    exact path_not_mem_ancestors h _ _ hq
  have hrefused {f : FileFault} := Disk.write_eq_error_congr habove hsame (b := b) (f := f)
  rcases hw with ⟨⟨d₁, hok⟩, hget⟩ | ⟨⟨f, hf⟩, hget⟩
  · refine Or.inl ⟨?_, hget⟩
    cases hd : d.write (path here file r.stage) b with
    | ok d₂ => exact ⟨d₂, rfl⟩
    | error f =>
      rw [hrefused.mpr hd] at hok
      simp at hok
  · exact Or.inr ⟨⟨f, hrefused.mp hf⟩, hget.trans hsame⟩

theorem wrote_saveAll (h : here.Proper) (hplace : Placeable (writeAt here) (base here file) keep)
    {ps : List Product} (hps : (ps.map Product.stage).Nodup) {r : Product} (hr : r ∈ ps)
    (hkeep : r.stage.name ∈ keep) (d : Disk) :
    d.Wrote (path here file r.stage) (bytes r)
      (saveAll (writeAt here) (base here file) keep ps d).storage := by
  induction ps generalizing d with
  | nil => exact absurd hr List.not_mem_nil
  | cons p ps ih =>
    obtain ⟨hp, hps⟩ := List.nodup_cons.mp hps
    rw [saveAll_cons, if_pos (complete_saveKept hplace p d)]
    rcases List.mem_cons.mp hr with rfl | hr
    · -- the files saved after it are others
      have hlater : ∀ s ∈ ps, s.stage.name ∈ keep →
          path here file r.stage ≠ path here file s.stage := by
        intro s hs _ he
        exact hp (List.mem_map.mpr ⟨s, hs, (path_injective h he).symm⟩)
      have hone : d.Wrote (path here file r.stage) (bytes r)
          (saveKept (writeAt here) (base here file) keep r d).storage := wrote_saveKept h hkeep d
      rwa [Wrote, ← get?_saveAll hlater] at hone
    · have hne : r.stage ≠ p.stage := by
        intro he
        exact hp (List.mem_map.mpr ⟨r, hr, he⟩)
      exact wrote_congr h hne (ih hps hr _)

theorem hasNul_path (h : here.Proper) (g : Stage) :
    (path here file g).hasNul = (trunk here file).hasNul := by
  have hsuffix : '\x00' ∉ (suffix g).toList := by cases g <;> decide
  rw [path_eq h]
  generalize trunk here file = p
  obtain ⟨names⟩ := p
  rcases List.eq_nil_or_concat names with rfl | ⟨ns, n, rfl⟩
  · simp [Path.suffixed, Path.parent, Path.hasNul, hsuffix]
  · simp [Path.suffixed, Path.parent, Path.hasNul, hsuffix]

theorem placeable_of_hasNul (h : here.Proper) (hn : (trunk here file).hasNul = false) :
    Placeable (writeAt here) (base here file) keep := by
  intro g _ d b
  show d.write (path here file g) b ≠ .error .unusablePath
  rw [ne_eq, Disk.write_eq_unusablePath_iff, hasNul_path h, hn]
  decide

/-- Artifacts that no path can be given to leave the disk alone. -/
theorem storage_saveAll_of_hasNul (h : here.Proper) (hn : (trunk here file).hasNul = true)
    (ps : List Product) (d : Disk) :
    (saveAll (writeAt here) (base here file) keep ps d).storage = d := by
  have hrefused (p : Product) (b : ByteArray) :
      d.write (path here file p.stage) b = .error .unusablePath := by
    rw [Disk.write_eq_unusablePath_iff, hasNul_path h, hn]
  have hone (p : Product) : (saveKept (writeAt here) (base here file) keep p d).storage = d := by
    rcases storage_saveKept p d with hd | ⟨-, hd⟩
    · exact hd
    · rw [hrefused] at hd
      simp at hd
  induction ps with
  | nil => rfl
  | cons p ps ih =>
    rw [saveAll_cons, hone]
    split
    · exact ih
    · exact hone p

end Artifact

/-- A verdict has errors or a tree, never both. -/
theorem exclusive_of_parse {ts : List Token} {limit : Option Int} {v : Verdict}
    (h : parse ts limit = .ok v) :
    (v.success = true → v.errors = []) ∧ (v.success = false → v.tree = none) := by
  unfold parse at h
  split at h
  · simp at h
  · simp at h
  · split at h
    · obtain rfl := Except.ok.inj h
      simp
    · obtain rfl := Except.ok.inj h
      simp

namespace Analysis

/-- What the artifact of a stage must hold, by the analysis alone. -/
def artifact (a : Analysis) : Stage → Json
  | .tokens => .arr (a.tokens.map Token.toJson)
  | .symbolTable => .obj [("symbolTable", .arr (a.symbols.map Symbol.toJson)),
      ("statistics", (Tally.ofSymbols a.symbols).toJson)]
  | .parseTree => (Verdict.mk a.success a.tree (a.errors.getD [])).toJson

/-- The products of a run tell what its analysis tells, and so does its tally. -/
structure Reflects (r : Run) : Prop where
  products : ∀ p ∈ r.products, p.toJson = r.analysis.artifact p.stage
  tally : ∀ y, r.analysis.tally = some y → y = Tally.ofSymbols r.analysis.symbols

section

variable {limit : Int} {ts : List Token} {t : SymbolTable} {v : Verdict}
  (h : Completes limit ts t v)
include h

theorem toJson_symbolTable {a : Analysis} (ha : a.symbols = t.symbols) :
    (Product.symbolTable t).toJson = a.artifact .symbolTable := by
  have htab := SymbolTable.tabulates_ofTokens h.table
  rw [Product.toJson, artifact, ha, htab.tally_eq_ofSymbols]

theorem toJson_parseTree :
    (Product.parseTree v).toJson = (ofVerdict ts t v).artifact .parseTree := by
  obtain ⟨herrors, htree⟩ := exclusive_of_parse h.verdict
  obtain ⟨success, tree, errors⟩ := v
  cases success with
  | true =>
    obtain rfl : errors = [] := herrors rfl
    rfl
  | false =>
    obtain rfl : tree = none := htree rfl
    rfl

theorem reflects_runTokens (stop : Option String) : Reflects (runTokens ts stop (some limit)) := by
  have htally := (SymbolTable.tabulates_ofTokens h.table).tally_eq_ofSymbols
  by_cases ht : stop = some "tokens"
  · rw [ht, runTokens_tokens]
    refine ⟨?_, by simp⟩
    intro p hp
    obtain rfl := List.mem_singleton.mp hp
    rfl
  by_cases hs : stop = some "symbol_table"
  · rw [hs, runTokens_symbolTable h]
    refine ⟨?_, by simp [htally]⟩
    intro p hp
    rcases List.mem_pair.mp hp with rfl | rfl
    · rfl
    · exact toJson_symbolTable h rfl
  · rw [runTokens_full h ht hs]
    refine ⟨?_, ?_⟩
    · intro p hp
      rcases List.mem_cons.mp hp with rfl | hp
      · show Json.arr (ts.map Token.toJson) = .arr ((ofVerdict ts t v).tokens.map Token.toJson)
        rw [tokens_ofVerdict]
      rcases List.mem_pair.mp hp with rfl | rfl
      · exact toJson_symbolTable h symbols_ofVerdict
      · exact toJson_parseTree h
    · intro y hy
      dsimp only at hy
      rw [symbols_ofVerdict, ← htally]
      unfold ofVerdict at hy
      split at hy
      · exact (Option.some.inj hy).symm
      · simp at hy

end

theorem products_runTokens_ne_nil (ts : List Token) (stop : Option String) (limit : Option Int) :
    (runTokens ts stop limit).products ≠ [] := by
  unfold runTokens
  repeat' split
  all_goals simp

/-- Where no stage was completed, there is no tally. -/
theorem tally_of_products_nil {source : Option (List Char)} {stop : Option String}
    {limit : Option Int} (h : (run source stop limit).products = []) :
    (run source stop limit).analysis.tally = none := by
  unfold run at h ⊢
  repeat' split
  · rfl
  · rfl
  · rfl
  · next s hb _ ts hts =>
    simp only [if_neg hb, hts] at h
    exact absurd h (products_runTokens_ne_nil ts stop limit)

/-- Every run leaves products that agree with its analysis, one for each stage it completed. -/
theorem reflects_run (source : Option (List Char)) (stop : Option String) (limit : Int) :
    Reflects (run source stop (some limit)) ∧
    (run source stop (some limit)).products.map Product.stage <+: Stage.all := by
  rcases run_cases source limit with ⟨a, -, -, hrun⟩ | ⟨ts, t, v, h, hrun⟩
  · have hnil : (run source stop (some limit)).products = [] := congrArg Run.products (hrun stop)
    refine ⟨⟨?_, ?_⟩, ?_⟩
    · simp [hnil]
    · simp [tally_of_products_nil hnil]
    · simp [hnil]
  · rw [hrun, stages_runTokens h]
    exact ⟨reflects_runTokens h stop, Stage.through_isPrefix stop Stage.all⟩

end Analysis

namespace Artifact

/-- Where the artifacts of a source stand: each in its own place, beside the file the source came
from and never in the place of that file, or in the folder `here` if it came from no file. -/
structure Sited (here : Path) (file : Option String) : Prop where
  distinct : ∀ g k, path here file g = path here file k → g = k
  home : file = none → ∀ g, (path here file g).parent = here
  beside : ∀ f, file = some f → f ≠ "" → ∀ g,
    (path here file g).parent = (here.resolve f).parent ∧ path here file g ≠ here.resolve f

theorem sited {here : Path} (h : here.Proper) (file : Option String) : Sited here file where
  distinct := fun _ _ => path_injective h
  home := by
    rintro rfl g
    rw [path_eq h, Path.parent_suffixed]
    simp [trunk, Path.parent]
  beside := by
    rintro f rfl hf g
    exact ⟨parent_path h hf g, path_ne_resolve h hf g⟩

end Artifact

namespace Request

/-- What an analysis leaves on a disk: the artifacts of the stages it completed, as far as they are
to be kept. Each is written with what the analysis tells of its stage, or the disk refuses it. -/
structure Footprint (here : Path) (r : Request) (d : Disk) (a : Analyzed Disk) : Prop where
  sited : Artifact.Sited here r.file
  stages : a.run.products.map Product.stage <+: Stage.all
  wrote : ∀ g ∈ a.run.products.map Product.stage, g.name ∈ r.keep →
    d.Wrote (Artifact.path here r.file g) (a.run.analysis.artifact g).document.toUTF8 a.storage
  unchanged : ∀ q, (∀ g ∈ a.run.products.map Product.stage, g.name ∈ r.keep →
    q ≠ Artifact.path here r.file g) → a.storage.get? q = d.get? q
  tally : ∀ y, a.run.analysis.tally = some y → y = Tally.ofSymbols a.run.analysis.symbols

section

variable {here : Path} (h : here.Proper) {r : Request} {limit : Int} (hl : r.limit = some limit)
  (d : Disk)
include h hl

theorem footprint_of_placeable (hn : (Artifact.trunk here r.file).hasNul = false) :
    r.Footprint here d (r.analyze (Disk.writeAt here) here d) := by
  obtain ⟨hreflects, hstages⟩ := Analysis.reflects_run r.source r.stopAfter limit
  rw [← hl] at hreflects hstages
  have hplace : Artifact.Placeable (Disk.writeAt here) (Artifact.base here r.file) r.keep :=
    Artifact.placeable_of_hasNul h hn
  have hrun := run_analyze hplace d
  constructor
  case sited => exact Artifact.sited h r.file
  all_goals rw [hrun]
  case stages => exact hstages
  case wrote =>
    intro g hg hkeep
    obtain ⟨p, hp, rfl⟩ := List.mem_map.mp hg
    rw [← hreflects.products p hp]
    exact Artifact.wrote_saveAll h hplace (hstages.sublist.nodup (by decide)) hp hkeep d
  case unchanged =>
    intro q hq
    exact Artifact.get?_saveAll (fun p hp => hq p.stage (List.mem_map_of_mem hp)) d
  case tally => exact hreflects.tally

/-- With a file that no file can be, nothing is written and the analysis may end early. -/
theorem footprint_of_hasNul (hn : (Artifact.trunk here r.file).hasNul = true) :
    r.Footprint here d (r.analyze (Disk.writeAt here) here d) := by
  obtain ⟨hreflects, hstages⟩ := Analysis.reflects_run r.source r.stopAfter limit
  rw [← hl] at hreflects hstages
  have hstorage : (r.analyze (Disk.writeAt here) here d).storage = d :=
    Artifact.storage_saveAll_of_hasNul h hn _ d
  constructor
  case sited => exact Artifact.sited h r.file
  case stages =>
    dsimp only [analyze]
    split
    · exact hstages
    · exact ((Artifact.reached_saveAll_isPrefix ..).map _).trans hstages
  case wrote =>
    intro g _ _
    rw [hstorage]
    refine Or.inr ⟨⟨.unusablePath, ?_⟩, rfl⟩
    rw [Disk.write_eq_unusablePath_iff, Artifact.hasNul_path h, hn]
  case unchanged =>
    intro q _
    rw [hstorage]
  case tally =>
    dsimp only [analyze]
    split
    · exact hreflects.tally
    · simp [Analysis.internalFailure, Analysis.failure]

/-- An analysis changes nothing on a disk but its own artifacts, and never the file that it is about.
What they hold agrees with the analysis, however far it got and whether it succeeded or not. -/
theorem footprint_analyze : r.Footprint here d (r.analyze (Disk.writeAt here) here d) := by
  cases hn : (Artifact.trunk here r.file).hasNul with
  | false => exact footprint_of_placeable h hl d hn
  | true => exact footprint_of_hasNul h hl d hn

end

/-- Tokens that are no expression leave a tally on disk that the analysis does not show. -/
theorem footprint_analyze_rejected :
    let here : Path := ⟨["w"]⟩
    let r : Request := ⟨some ['a', '+'], none, some 200, ["symbol_table", "parse_tree", "tree"],
      some "in.v1.txt"⟩
    let d : Disk := ⟨[(⟨["w"]⟩, .folder), (⟨["w", "in.v1.txt"]⟩, .file ⟨#[97, 43]⟩)]⟩
    let a := r.analyze (Disk.writeAt here) here d
    here.Proper ∧ r.Footprint here d a ∧ a.run.analysis.errorType = some .syntaxError ∧
      a.run.analysis.tally = none ∧
      Artifact.path here r.file .symbolTable = ⟨["w", "in.v1.symbol_table.json"]⟩ := by
  intro here r d a
  have hproper : here.Proper := by
    intro n hn
    obtain rfl := List.mem_singleton.mp hn
    exact ⟨by decide, by decide, by decide, by decide⟩
  have hnul : ∀ f, r.file = some f → '\x00' ∉ f.toList := by
    intro f hf
    obtain rfl := Option.some.inj hf
    decide
  have hrun : a.run = Analysis.run (some ['a', '+']) none (some 200) :=
    run_analyze_disk (by decide) hnul d
  refine ⟨hproper, footprint_analyze hproper rfl d, ?_, ?_, by decide +kernel⟩
  · rw [hrun]
    rfl
  · rw [hrun]
    rfl

end Request
end ExprLine
