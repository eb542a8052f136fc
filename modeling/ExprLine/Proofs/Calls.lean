import ExprLine.Proofs.Channels
import ExprLine.Proofs.Folders

namespace ExprLine

theorem Stage.name_injective {g k : Stage} (h : g.name = k.name) : g = k := by
  cases g <;> cases k <;> simp_all [name]

namespace Command

/-- The analysis of a text that is asked for. -/
def Options.analysis (o : Options) (s : List Char) : Analysis :=
  (Analysis.run (some s) (o.stage.map Stage.name) (some defaultLimit)).analysis

/-- Where the document of a call with these options goes. -/
def Options.outputPath? (o : Options) (here : Path) : Option Path :=
  (given o.output).map here.resolve

/-- Where the artifact of the stage to stop after goes. -/
def Options.artifactPath? (o : Options) (here : Path) : Option Path :=
  o.stage.map (Artifact.path here (given o.file))

theorem Options.fileName_of_source {o : Options} {piped : Option ByteArray} {src : Source}
    (h : o.source piped = .ok src) : src.fileName = given o.file := by
  unfold source at h
  split at h
  case h_1 | h_5 => simp at h
  case h_2 hfile | h_3 hfile | h_4 hfile =>
    obtain rfl := Except.ok.inj h
    exact hfile.symm

theorem Source.read_of_text {src : Source} {here : Path} {d : Disk} {s : List Char}
    (h : src.text here d = .ok s) {f : String} (hf : src.fileName = some f) :
    ∃ b, d.read (here.resolve f) = .ok b := by
  cases src with
  | argument x => simp [fileName] at hf
  | piped b => simp [fileName] at hf
  | file g =>
    obtain rfl := Option.some.inj hf
    cases hread : d.read (here.resolve g) with
    | error e => simp [text, hread] at h
    | ok b => exact ⟨b, rfl⟩

section

variable {o : Options} {here : Path} {a : Analysis} {d : Disk}

/-- What comes of the output file: none was asked for, or it was refused, or it is there. -/
inductive Delivers (o : Options) (here : Path) (a : Analysis) (d : Disk) :
    Disk × Option FileFault × String → Prop
  | nowhere (h : o.outputPath? here = none) : Delivers o here a d (d, none, "")
  | refused (p : Path) (h : o.outputPath? here = some p) (d' : Disk)
    (hd : ∀ q, d.KeepsFile d' q) (f : FileFault) (hf : f ≠ .notFound) :
    Delivers o here a d (d', some f, "")
  | written (p : Path) (h : o.outputPath? here = some p) (d' d'' : Disk)
    (hd : ∀ q, d.KeepsFile d' q) (hw : d'.write p (document a).toUTF8 = .ok d'') (note : String)
    (hnote : o.json = true → note = "") : Delivers o here a d (d'', none, note)

theorem delivers_writeOutput : Delivers o here a d (writeOutput o here a d) := by
  unfold writeOutput
  split
  · next hnone => exact .nowhere (by rw [Options.outputPath?, hnone]; rfl)
  next name hname =>
    have hpath : o.outputPath? here = some (here.resolve name) := by
      rw [Options.outputPath?, hname]
      rfl
    dsimp only
    split
    · next f hf =>
      refine .refused _ hpath _ (d.keepsFile_afterFolder _) f ?_
      rintro rfl
      exact Disk.makeFolder_ne_notFound hf
    · next d₁ hmake =>
      have hmade := Disk.keepsFile_of_makeFolder hmake
      split
      · next f hf =>
        refine .refused _ hpath d₁ hmade f ?_
        rintro rfl
        exact Disk.write_ne_notFound_of_makeFolder hmake hf
      · next d₂ hwrite => exact .written _ hpath d₁ d₂ hmade hwrite _ fun hjson => by simp [hjson]

theorem Delivers.keepsFile {r : Disk × Option FileFault × String} (h : Delivers o here a d r)
    {q : Path} (hq : o.outputPath? here ≠ some q) : d.KeepsFile r.1 q := by
  cases h with
  | nowhere h => exact d.keepsFile_refl q
  | refused p h d' hd f hf => exact hd q
  | written p h d' d'' hd hw note hnote =>
    have hne : q ≠ p := by
      rintro rfl
      exact hq h
    obtain ⟨-, rfl⟩ := Disk.write_eq_ok hw
    exact Disk.keepsFile_trans (hd q) (Or.inl (Disk.get?_put_ne hne d' _))

end

/-- The ending of a call whose document came to the fault `f`, or to none. -/
def endingOf (a : Analysis) : Option FileFault → Ending
  | none => .exit (if a.success then 0 else 1)
  | some f => .fault f

/-- No fault of the output file is one that is handled. -/
theorem ending_of_delivers {o : Options} {here : Path} {a : Analysis} {d : Disk}
    {r : Disk × Option FileFault × String} (h : Delivers o here a d r) :
    (match r.2.1 with
      | none => (Ending.exit (if a.success then 0 else 1), "")
      | some f => handle o (.fault f)).1 = endingOf a r.2.1 := by
  cases h with
  | nowhere h => rfl
  | refused p h d' hd f hf =>
    dsimp only [endingOf]
    unfold handle
    split
    · next heq => exact absurd (Ending.fault.inj heq) hf
    · rfl
  | written p h d' d'' hd hw note hnote => rfl

/-- What a call leaves behind that has a text to analyze. The document is written last, on a disk
where the artifact was written before, and it is the analysis alone that is shown. -/
structure Concludes (i : Invocation) (o : Options) (s : List Char) (d : Disk)
    (r : Disk × Option FileFault × String) : Prop where
  artifact : ∀ q, o.artifactPath? i.here ≠ some q → d.get? q = i.disk.get? q
  output : Delivers o i.here (o.analysis s) d r
  disk : i.run.disk = r.1
  ending : i.run.ending = endingOf (o.analysis s) r.2.1
  printed : i.run.printed = answer o s (o.analysis s) ++ r.2.2
  timed : i.run.timed = !o.json

theorem exists_concludes {i : Invocation} {o : Options} {src : Source} {s : List Char}
    (hn : i.here.hasNul = false) (ho : Reading.ofWords i.arguments = .ok (.options o))
    (hsrc : o.source i.piped = .ok src) (hs : src.text i.here i.disk = .ok s) :
    ∃ d r, Concludes i o s d r := by
  let stop := o.stage.map Stage.name
  let request : Request := ⟨some s, stop, some defaultLimit, stop.toList, src.fileName⟩
  let done := request.analyze (Disk.writeAt i.here) i.here i.disk
  have hfile : ∀ f, src.fileName = some f → (i.here.resolve f).hasNul = false := by
    intro f hf
    obtain ⟨b, hread⟩ := Source.read_of_text hs hf
    exact Disk.hasNul_of_read hread
  have hplace : Artifact.Placeable (Disk.writeAt i.here) (Artifact.base i.here request.file)
      request.keep := Disk.placeable hn hfile _
  have hanalysis : done.run.analysis = o.analysis s :=
    congrArg Run.analysis (Request.run_analyze hplace i.disk)
  have hdelivers : Delivers o i.here (o.analysis s) done.storage
      (writeOutput o i.here (o.analysis s) done.storage) := delivers_writeOutput
  have hrun := run_of_source ho hsrc hs
  refine ⟨done.storage, writeOutput o i.here (o.analysis s) done.storage, ?_⟩
  constructor
  case artifact =>
    intro q hq
    refine Artifact.get?_saveAll ?_ i.disk
    intro p _ hp hpath
    obtain ⟨g, hg, hname⟩ := Option.map_eq_some_iff.mp (Option.mem_toList.mp hp)
    obtain rfl := Stage.name_injective hname
    rw [Options.artifactPath?, hg, ← Options.fileName_of_source hsrc] at hq
    exact hq (congrArg some hpath.symm)
  case output => exact hdelivers
  case disk =>
    rw [hrun, ← hanalysis]
    rfl
  case ending =>
    rw [hrun, ← ending_of_delivers hdelivers, ← hanalysis]
    rfl
  case printed =>
    rw [hrun, ← hanalysis]
    rfl
  case timed =>
    rw [hrun]
    rfl

end Command
end ExprLine
