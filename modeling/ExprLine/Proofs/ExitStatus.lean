import ExprLine.Proofs.Calls

namespace ExprLine

namespace Analysis

variable {s : List Char} {stop : Option String} {limit : Int}

theorem exists_tokens_iff : (∃ ts, Token.ofText s = .ok ts) ↔ ∀ c ∈ s, IsReadable c :=
  ⟨fun ⟨_, h⟩ => Token.readable_of_ofText h, fun h => ⟨_, Token.ofText_readable h⟩⟩

/-- Before the last stage tokens are all that it takes. -/
theorem success_iff_tokens (h : stop = some "tokens" ∨ stop = some "symbol_table") :
    (run (some s) stop (some limit)).analysis.success = true ↔
      (¬∀ c ∈ s, Text.isBlank c = true) ∧ ∃ ts, Token.ofText s = .ok ts := by
  rw [exists_tokens_iff]
  refine ⟨readable_of_success, ?_⟩
  rintro ⟨hb, hr⟩
  rw [run_of_readable hb hr]
  rcases h with rfl | rfl
  · rw [runTokens_tokens]
  · obtain ⟨t, v, hcompletes⟩ := completes_stream s limit
    rw [runTokens_symbolTable hcompletes]

/-- An analysis that does not stop before the last stage succeeds on the sentences of the grammar. -/
theorem success_iff_sentence (ht : stop ≠ some "tokens") (hs : stop ≠ some "symbol_table") :
    (run (some s) stop (some limit)).analysis.success = true ↔
      (¬∀ c ∈ s, Text.isBlank c = true) ∧ (∃ ts, Token.ofText s = .ok ts) ∧ IsSentence s limit := by
  rw [exists_tokens_iff]
  have hsentence (hb : ¬∀ c ∈ s, Text.isBlank c = true) (hr : ∀ c ∈ s, IsReadable c) :
      (run (some s) stop (some limit)).analysis.success = true ↔ IsSentence s limit := by
    obtain ⟨t, v, hcompletes⟩ := completes_stream s limit
    have hfull : run (some s) stop (some limit) = run (some s) none (some limit) := by
      rw [run_of_readable hb hr, run_of_readable hb hr, runTokens_full hcompletes ht hs,
        runTokens_full hcompletes (by decide) (by decide)]
    rw [hfull, isSentence_iff_accepts hr]
    obtain ⟨table, -, ⟨tree, -, haccepts, ha⟩ | ⟨p, -, hrejects, ha⟩⟩ := run_readable hb hr limit
    · rw [ha]
      exact ⟨fun _ => ⟨tree, haccepts⟩, fun _ => rfl⟩
    · rw [ha]
      simp [ofVerdict, hrejects]
  constructor
  · intro h
    obtain ⟨hb, hr⟩ := readable_of_success h
    exact ⟨hb, hr, (hsentence hb hr).mp h⟩
  · rintro ⟨hb, hr, h⟩
    exact (hsentence hb hr).mpr h

end Analysis

namespace Command

section

variable {o : Options} {src : Source} {here : Path} {d : Disk}

/-- The file to read is not there. -/
def Source.Missing (src : Source) (here : Path) (d : Disk) : Prop :=
  ∃ f, src.fileName = some f ∧ d.Lacks (here.resolve f)

theorem Source.not_missing_of_text {s : List Char} (h : src.text here d = .ok s) :
    ¬src.Missing here d := by
  rintro ⟨f, hf, hlacks⟩
  obtain ⟨b, hread⟩ := Source.read_of_text h hf
  exact Disk.not_lacks_of_read hread hlacks

/-- A source has no text where it is not encoded as one, or where its file cannot be read. -/
theorem Source.of_text_error {e : Ending} (h : src.text here d = .error e) : e = .notText ∨
    ∃ f fault, src.fileName = some f ∧ d.read (here.resolve f) = .error fault ∧ e = .fault fault := by
  cases src with
  | argument x => simp [text] at h
  | piped b =>
    dsimp only [text] at h
    split at h
    · simp at h
    · exact Or.inl (Except.error.inj h).symm
  | file f =>
    dsimp only [text] at h
    split at h
    · split at h
      · simp at h
      · exact Or.inl (Except.error.inj h).symm
    · next fault hread => exact Or.inr ⟨f, fault, rfl, hread, (Except.error.inj h).symm⟩

/-- The only fault of a source with which the program exits is a file that is missing. -/
theorem Source.missing_of_handle {e : Ending} {status : Nat} (h : src.text here d = .error e)
    (hstatus : (handle o e).1 = .exit status) : src.Missing here d ∧ status = 1 := by
  rcases Source.of_text_error h with rfl | ⟨f, fault, hf, hread, rfl⟩
  · simp [handle] at hstatus
  · unfold handle at hstatus
    split at hstatus
    · next heq =>
      obtain rfl := Ending.fault.inj heq
      exact ⟨⟨f, hf, Disk.lacks_of_read hread⟩, (Ending.exit.inj hstatus).symm⟩
    · simp at hstatus

theorem Options.success_iff_sentence {s : List Char} (h : o.stage = none ∨ o.stage = some .parseTree) :
    (o.analysis s).success = true ↔ (¬∀ c ∈ s, Text.isBlank c = true) ∧
      (∃ ts, Token.ofText s = .ok ts) ∧ IsSentence s defaultLimit := by
  apply Analysis.success_iff_sentence
  · rcases h with h | h <;> simp [h, Stage.name]
  · rcases h with h | h <;> simp [h, Stage.name]

theorem Options.success_iff_tokens {s : List Char}
    (h : o.stage = some .tokens ∨ o.stage = some .symbolTable) :
    (o.analysis s).success = true ↔ (¬∀ c ∈ s, Text.isBlank c = true) ∧
      ∃ ts, Token.ofText s = .ok ts := by
  apply Analysis.success_iff_tokens
  rcases h with h | h <;> simp [h, Stage.name]

end

namespace Invocation

/-- The ways to misuse the program: a word it does not know or a value it does not take, two
expressions at once, or none at a terminal. -/
inductive Misused (i : Invocation) : Prop
  | words (f : UsageFault) (h : Reading.ofWords i.arguments = .error f)
  | twoSources (o : Options) (h : Reading.ofWords i.arguments = .ok (.options o))
    (hx : o.expression ≠ none) (hf : given o.file ≠ none)
  | noSource (o : Options) (h : Reading.ofWords i.arguments = .ok (.options o))
    (hx : o.expression = none) (hf : given o.file = none) (hp : i.piped = none)

def AsksHelp (i : Invocation) : Prop := Reading.ofWords i.arguments = .ok .help

/-- The call is about a source that it can tell. -/
structure Reads (i : Invocation) (o : Options) (src : Source) : Prop where
  options : Reading.ofWords i.arguments = .ok (.options o)
  source : o.source i.piped = .ok src

theorem misused_or_asksHelp_or_reads (i : Invocation) :
    i.Misused ∨ i.AsksHelp ∨ ∃ o src, i.Reads o src := by
  cases hwords : Reading.ofWords i.arguments with
  | error f => exact Or.inl (.words f hwords)
  | ok reading =>
    cases reading with
    | help => exact Or.inr (Or.inl hwords)
    | options o =>
      cases hsrc : o.source i.piped with
      | ok src => exact Or.inr (Or.inr ⟨o, src, hwords, hsrc⟩)
      | error f =>
        refine Or.inl ?_
        unfold Options.source at hsrc
        split at hsrc
        · next hx hf => exact .twoSources o hwords (by simp [hx]) (by simp [hf])
        · simp at hsrc
        · simp at hsrc
        · simp at hsrc
        · next hx hf hp => exact .noSource o hwords hx hf hp

theorem Misused.run {i : Invocation} (h : i.Misused) : i.run.ending = .exit 2 ∧
    (∀ seconds, i.run.stdout seconds = "") ∧ i.run.disk = i.disk := by
  have hfault {o : Options} {f : UsageFault} (ho : Reading.ofWords i.arguments = .ok (.options o))
      (hsrc : o.source i.piped = .error f) : i.run = ⟨.exit 2, "", false, f.report, i.disk⟩ := by
    simp only [Invocation.run, ho, hsrc]
  have hrun : ∃ f : UsageFault, i.run = ⟨.exit 2, "", false, f.report, i.disk⟩ := by
    cases h with
    | words f h => exact ⟨f, by simp only [Invocation.run, h]⟩
    | twoSources o h hx hf =>
      obtain ⟨x, hx⟩ := Option.ne_none_iff_exists'.mp hx
      obtain ⟨f, hf⟩ := Option.ne_none_iff_exists'.mp hf
      exact ⟨.twoSources, hfault h (by simp only [Options.source, hx, hf])⟩
    | noSource o h hx hf hp =>
      exact ⟨.noSource, hfault h (by simp only [Options.source, hx, hf, hp])⟩
  obtain ⟨f, hrun⟩ := hrun
  rw [hrun]
  exact ⟨rfl, fun _ => rfl, rfl⟩

theorem AsksHelp.run {i : Invocation} (h : i.AsksHelp) : i.run.ending = .exit 0 ∧
    i.run.disk = i.disk := by
  have hrun : i.run = ⟨.exit 0, helpText, false, "", i.disk⟩ := by
    simp only [Invocation.run, show Reading.ofWords i.arguments = .ok .help from h]
  rw [hrun]
  exact ⟨rfl, rfl⟩

section

variable {i : Invocation} {o : Options} {src : Source} (h : i.Reads o src)
include h

theorem Reads.run_of_error {e : Ending} (htext : src.text i.here i.disk = .error e) :
    i.run = ⟨(handle o e).1, "", !o.json, (handle o e).2, i.disk⟩ := by
  simp only [Invocation.run, h.options, h.source, htext]

theorem Reads.disk_of_missing (hmissing : src.Missing i.here i.disk) : i.run.disk = i.disk := by
  cases htext : src.text i.here i.disk with
  | ok s => exact absurd hmissing (Source.not_missing_of_text htext)
  | error e => rw [h.run_of_error htext]

variable (hn : i.here.hasNul = false)
include hn

/-- A call with a source exits after an analysis, or because the file to read is missing. -/
theorem Reads.exit {status : Nat} (hstatus : i.run.ending = .exit status) :
    (¬src.Missing i.here i.disk ∧ ∃ s, src.text i.here i.disk = .ok s ∧
      status = if (o.analysis s).success then 0 else 1) ∨
    (src.Missing i.here i.disk ∧ (∀ s, src.text i.here i.disk ≠ .ok s) ∧ status = 1) := by
  cases htext : src.text i.here i.disk with
  | ok s =>
    obtain ⟨d, r, hconcludes⟩ := exists_concludes hn h.options h.source htext
    refine Or.inl ⟨Source.not_missing_of_text htext, s, rfl, ?_⟩
    have hending := hconcludes.ending.symm.trans hstatus
    unfold endingOf at hending
    split at hending
    · exact (Ending.exit.inj hending).symm
    · simp at hending
  | error e =>
    rw [h.run_of_error htext] at hstatus
    obtain ⟨hmissing, hone⟩ := Source.missing_of_handle htext hstatus
    exact Or.inr ⟨hmissing, by simp, hone⟩

theorem Reads.keepsFile {q : Path} (hout : o.outputPath? i.here ≠ some q)
    (hartifact : o.artifactPath? i.here ≠ some q) : i.disk.KeepsFile i.run.disk q := by
  cases htext : src.text i.here i.disk with
  | ok s =>
    obtain ⟨d, r, hconcludes⟩ := exists_concludes hn h.options h.source htext
    have hkeeps := hconcludes.output.keepsFile hout
    rwa [Disk.KeepsFile, hconcludes.artifact q hartifact, ← hconcludes.disk] at hkeeps
  | error e => exact Or.inl (by rw [h.run_of_error htext])

end

/-- The exit status of a call that is about a source. -/
structure Exits (i : Invocation) (o : Options) (src : Source) (status : Nat) : Prop where
  le_one : status ≤ 1
  zero_iff : status = 0 ↔
    ∃ s, src.text i.here i.disk = .ok s ∧ (o.analysis s).success = true
  zero_iff_sentence : o.stage = none ∨ o.stage = some .parseTree → (status = 0 ↔
    ∃ s, src.text i.here i.disk = .ok s ∧ (¬∀ c ∈ s, Text.isBlank c = true) ∧
      (∃ ts, Token.ofText s = .ok ts) ∧ IsSentence s 200)
  zero_iff_tokens : o.stage = some .tokens ∨ o.stage = some .symbolTable → (status = 0 ↔
    ∃ s, src.text i.here i.disk = .ok s ∧ (¬∀ c ∈ s, Text.isBlank c = true) ∧
      ∃ ts, Token.ofText s = .ok ts)
  one_iff : status = 1 ↔
    (∃ s, src.text i.here i.disk = .ok s ∧ (o.analysis s).success = false) ∨
      src.Missing i.here i.disk

theorem exits_of_reads {i : Invocation} {o : Options} {src : Source} {status : Nat}
    (hn : i.here.hasNul = false) (h : i.Reads o src) (hstatus : i.run.ending = .exit status) :
    i.Exits o src status := by
  have hzero : status = 0 ↔
      ∃ s, src.text i.here i.disk = .ok s ∧ (o.analysis s).success = true := by
    rcases h.exit hn hstatus with ⟨-, s, htext, rfl⟩ | ⟨-, htext, rfl⟩
    · simp [htext]
    · simp [htext]
  constructor
  case le_one =>
    rcases h.exit hn hstatus with ⟨-, s, -, rfl⟩ | ⟨-, -, rfl⟩
    · split <;> simp
    · simp
  case zero_iff => exact hzero
  case zero_iff_sentence =>
    intro hstage
    simp only [hzero, Options.success_iff_sentence hstage]
    exact Iff.rfl
  case zero_iff_tokens =>
    intro hstage
    simp only [hzero, Options.success_iff_tokens hstage]
  case one_iff =>
    rcases h.exit hn hstatus with ⟨hmissing, s, htext, rfl⟩ | ⟨hmissing, htext, rfl⟩
    · simp [htext, hmissing]
    · simp [hmissing]

/-- What a call does, as far as a caller can tell by its status and on the disk. -/
structure Conducts (i : Invocation) : Prop where
  cases : i.Misused ∨ i.AsksHelp ∨ ∃ o src, i.Reads o src
  misused : i.Misused → i.run.ending = .exit 2 ∧ (∀ seconds, i.run.stdout seconds = "") ∧
    i.run.disk = i.disk
  help : i.AsksHelp → i.run.ending = .exit 0 ∧ i.run.disk = i.disk
  exits : ∀ o src status, i.Reads o src → i.run.ending = .exit status → i.Exits o src status
  missing : ∀ o src, i.Reads o src → src.Missing i.here i.disk → i.run.disk = i.disk
  files : ∀ q, i.disk.KeepsFile i.run.disk q ∨
    ∃ o, Reading.ofWords i.arguments = .ok (.options o) ∧
      (o.outputPath? i.here = some q ∨ o.artifactPath? i.here = some q)

/-- The status tells misuse, success and failure apart, and no call touches a file but the two it
is asked to write. -/
theorem conducts {i : Invocation} (hn : i.here.hasNul = false) : i.Conducts where
  cases := i.misused_or_asksHelp_or_reads
  misused := Misused.run
  help := AsksHelp.run
  exits := fun _ _ _ => exits_of_reads hn
  missing := fun _ _ => Reads.disk_of_missing
  files := by
    intro q
    rcases i.misused_or_asksHelp_or_reads with h | h | ⟨o, src, h⟩
    · exact Or.inl (Or.inl (by rw [h.run.2.2]))
    · exact Or.inl (Or.inl (by rw [h.run.2]))
    · by_cases hout : o.outputPath? i.here = some q
      · exact Or.inr ⟨o, h.options, Or.inl hout⟩
      by_cases hartifact : o.artifactPath? i.here = some q
      · exact Or.inr ⟨o, h.options, Or.inr hartifact⟩
      · exact Or.inl (h.keepsFile hn hout hartifact)

/-- The file to read is missing, though there is a folder for the output file. -/
theorem conducts_missing :
    let i : Invocation := ⟨["-c2", "-o", "out/a.json", "-f", "b.txt"], some "a+b".toUTF8, ⟨["w"]⟩,
      ⟨[(⟨["w"]⟩, .folder), (⟨["w", "out"]⟩, .folder)]⟩⟩
    i.here.hasNul = false ∧ i.run.ending = .exit 1 ∧ i.Conducts := by
  intro i
  have hn : i.here.hasNul = false := by decide
  exact ⟨hn, by decide +kernel, conducts hn⟩

end Invocation

end Command
end ExprLine
