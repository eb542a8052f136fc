import ExprLine.Command.Session
import ExprLine.Proofs.SideChannel
import Mathlib.Data.List.Basic

namespace ExprLine

namespace Text

theorem unifyNewlines_append {s : List Char} (h : '\r' ∉ s) (t : List Char) :
    unifyNewlines (s ++ t) = s ++ unifyNewlines t := by
  induction s with
  | nil => rfl
  | cons c s ih =>
    obtain ⟨hc, hs⟩ := not_or.mp (mt List.mem_cons.mpr h)
    have hstep : ∀ r, unifyNewlines (c :: r) = c :: unifyNewlines r := by
      intro r
      rw [unifyNewlines]
      · intro q hq
        exact absurd hq.symm hc
      · exact Ne.symm hc
    rw [List.cons_append, hstep, ih hs, List.cons_append]

theorem mem_of_mem_unifyNewlines {s : List Char} {c : Char} (h : c ∈ unifyNewlines s) :
    c = '\n' ∨ c ∈ s := by
  fun_induction unifyNewlines s with
  | case1 => exact Or.inr h
  | case2 r ih =>
    rcases List.mem_cons.mp h with hc | hr
    · exact Or.inl hc
    · have hmem : c = '\n' ∨ c ∈ '\n' :: r := (ih hr).imp_right (List.mem_cons_of_mem '\n')
      exact hmem.imp_right (List.mem_cons_of_mem '\r')
  | case3 r _ ih =>
    rcases List.mem_cons.mp h with hc | hr
    · exact Or.inl hc
    · exact (ih hr).imp_right (List.mem_cons_of_mem '\r')
  | case4 d r _ _ ih =>
    rcases List.mem_cons.mp h with rfl | hr
    · exact Or.inr List.mem_cons_self
    · exact (ih hr).imp_right (List.mem_cons_of_mem d)

theorem dropFinalNewlines_append {s t : List Char}
    (hs : ∀ c, s.getLast? = some c → c ≠ '\r' ∧ c ≠ '\n') (ht : ∀ c ∈ t, c = '\r' ∨ c = '\n') :
    dropFinalNewlines (s ++ t) = s := by
  have hdrop : s.reverse.dropWhile (fun c => c = '\r' ∨ c = '\n') = s.reverse := by
    cases hr : s.reverse with
    | nil => rfl
    | cons c r =>
      have hlast : s.getLast? = some c := by rw [← List.head?_reverse, hr, List.head?_cons]
      obtain ⟨hreturn, hnewline⟩ := hs c hlast
      rw [List.dropWhile_cons_of_neg (by simp [hreturn, hnewline])]
  rw [dropFinalNewlines, List.reverse_append, List.dropWhile_append_of_pos, hdrop,
    List.reverse_reverse]
  intro c hc
  exact decide_eq_true (ht c (List.mem_reverse.mp hc))

/-- Ends of lines that follow a text in a stream are dropped, and nothing else of it changes. -/
theorem ofBytes?_append {x y : String} (hreturn : '\r' ∉ x.toList)
    (hend : x.toList.getLast? ≠ some '\n') (hy : ∀ c ∈ y.toList, c = '\r' ∨ c = '\n') :
    ofBytes? (x ++ y).toUTF8 = some x.toList := by
  have hdecode : String.fromUTF8? (x ++ y).toUTF8 = some (x ++ y) := by
    rw [String.fromUTF8?, String.toUTF8_eq_toByteArray, dif_pos (x ++ y).isValidUTF8]
    rfl
  rw [ofBytes?, hdecode, Option.map_some, String.toList_append, unifyNewlines_append hreturn,
    dropFinalNewlines_append]
  · intro c hc
    refine ⟨?_, ?_⟩
    · intro heq
      exact hreturn (heq ▸ List.mem_of_getLast? hc)
    · intro heq
      exact hend (heq ▸ hc)
  · intro c hc
    rcases mem_of_mem_unifyNewlines hc with hnewline | hmem
    · exact Or.inr hnewline
    · exact hy c hmem

end Text

namespace Command

/-- The words that give a flag a value. It is the next word, or it is in the same word after an
equals sign or, for a short flag, at once. -/
inductive Flag.Gives (f : Flag) (v : String) : List String → Prop
  | apart (s : String) (hs : s ∈ f.spellings) (hv : classifyAll [v] = .ok [.value v]) :
    Gives f v [s, v]
  | equals (s : String) (hs : s ∈ f.spellings) (hv : v ≠ "--") : Gives f v [s ++ "=" ++ v]
  | joined (s : String) (hs : s ∈ f.spellings) (hshort : s.length = 2) (hv : v ≠ "--") (c : Char)
    (r : List Char) (hc : c ≠ '=') (hr : v.toList = c :: r) : Gives f v [s ++ v]

namespace Flag

/-- A spelling is two dashes and a name, or one dash and a letter, and has no equals sign. -/
theorem exists_of_mem_spellings {f : Flag} {s : String} (h : s ∈ f.spellings) :
    ∃ c r, s.toList = '-' :: c :: r ∧ '=' ∉ s.toList ∧ (s.length = 2 → c ≠ '-') ∧
      (c ≠ '-' → r = []) := by
  cases f with
  | help | file | output | stage =>
    rcases List.mem_pair.mp h with rfl | rfl
    all_goals exact ⟨_, _, rfl, by decide, by decide, by decide⟩
  | json =>
    obtain rfl := List.mem_singleton.mp h
    exact ⟨_, _, rfl, by decide, by decide, by decide⟩

theorem mem_dictionary {p : String × Flag} (h : p ∈ dictionary) : p.1 ∈ p.2.spellings := by
  obtain ⟨f, -, hp⟩ := List.mem_flatMap.mp h
  obtain ⟨s, hs, rfl⟩ := List.mem_map.mp hp
  exact hs

theorem ofSpelling?_eq_none {s : String} (h : ∀ f : Flag, s ∉ f.spellings) :
    ofSpelling? s = none := by
  rw [ofSpelling?, List.lookup_eq_none_iff]
  intro p hp
  rw [bne_iff_ne]
  intro heq
  exact h p.2 (heq ▸ mem_dictionary hp)

theorem ofSpelling?_letter_cons {c : Char} (hc : c ≠ '-') (d : Char) (u : List Char) :
    ofSpelling? (String.ofList ('-' :: c :: d :: u)) = none := by
  apply ofSpelling?_eq_none
  intro f hf
  obtain ⟨c', r, htext, -, -, hletter⟩ := exists_of_mem_spellings hf
  rw [String.toList_ofList] at htext
  obtain ⟨rfl, rfl⟩ := List.cons.inj (List.cons.inj htext).2
  have hnil := hletter hc
  simp at hnil

end Flag

theorem splitEquals_cons {c : Char} (hc : c ≠ '=') (r : List Char) :
    splitEquals (c :: r) = (c :: (splitEquals r).1, (splitEquals r).2) := by
  have hdrop : (c :: r).dropWhile (· ≠ '=') = r.dropWhile (· ≠ '=') :=
    List.dropWhile_cons_of_pos (decide_eq_true hc)
  have htake : (c :: r).takeWhile (· ≠ '=') = c :: r.takeWhile (· ≠ '=') :=
    List.takeWhile_cons_of_pos (decide_eq_true hc)
  rw [splitEquals, splitEquals, hdrop, htake]
  cases r.dropWhile (· ≠ '=') <;> rfl

theorem splitEquals_append {q : List Char} (h : '=' ∉ q) (r : List Char) :
    splitEquals (q ++ '=' :: r) = (q, some r) := by
  induction q with
  | nil => rfl
  | cons c q ih =>
    obtain ⟨hc, hq⟩ := not_or.mp (mt List.mem_cons.mpr h)
    rw [List.cons_append, splitEquals_cons (Ne.symm hc), ih hq]

/-- Two dashes abbreviate every long spelling. -/
theorem classify_separator : classify "--" = .error (.ambiguous "--"
    ["--help", "--file", "--output", "--json", "--stage"]) := by
  decide

theorem classifyAll_cons {s : String} {w : Word} (hw : classify s = .ok w) (ss : List String) :
    classifyAll (s :: ss) = (classifyAll ss).map (w :: ·) := by
  have hs : s ≠ "--" := by
    rintro rfl
    rw [classify_separator] at hw
    simp at hw
  rw [classifyAll, if_neg hs, hw]

theorem classify_of_classifyAll {s : String} (h : classifyAll [s] = .ok [.value s]) :
    s ≠ "--" ∧ classify s = .ok (.value s) := by
  by_cases hs : s = "--"
  · rw [classifyAll, if_pos hs] at h
    simp at h
  · refine ⟨hs, ?_⟩
    rw [classifyAll, if_neg hs] at h
    cases hw : classify s with
    | error f => simp [hw] at h
    | ok w =>
      rw [hw] at h
      have hwords := Except.ok.inj h
      rw [(List.cons.inj hwords).1]

theorem classify_of_dash {s : String} {c : Char} {r : List Char} (hs : s.toList = '-' :: c :: r)
    (hnone : Flag.ofSpelling? s = none) : classify s = classifyDashed s (c :: r) := by
  rw [classify, hs]
  simp only [hnone]
  rfl

section

variable {f : Flag} {s : String} (hs : s ∈ f.spellings)
include hs

theorem classify_spelling : ∃ short, classify s = .ok (.flag f short none) := by
  obtain ⟨c, r, htext, -⟩ := Flag.exists_of_mem_spellings hs
  refine ⟨decide ((c :: r).head? ≠ some '-'), ?_⟩
  rw [classify, htext]
  simp only [Flag.ofSpelling?_of_mem hs]

theorem classify_equals (v : String) :
    ∃ short, classify (s ++ "=" ++ v) = .ok (.flag f short (some v)) := by
  obtain ⟨c, r, htext, hequals, -⟩ := Flag.exists_of_mem_spellings hs
  have hword : (s ++ "=" ++ v).toList = '-' :: c :: (r ++ '=' :: v.toList) := by simp [htext]
  have hnone : Flag.ofSpelling? (s ++ "=" ++ v) = none := by
    apply Flag.ofSpelling?_eq_none
    intro g hg
    obtain ⟨-, -, -, hmem, -⟩ := Flag.exists_of_mem_spellings hg
    rw [hword] at hmem
    simp at hmem
  have hsplit : splitEquals ('-' :: c :: (r ++ '=' :: v.toList)) = (s.toList, some v.toList) := by
    rw [← List.cons_append, ← List.cons_append, ← htext, splitEquals_append hequals]
  refine ⟨decide ((c :: (r ++ '=' :: v.toList)).head? ≠ some '-'), ?_⟩
  rw [classify_of_dash hword hnone, classifyDashed, hsplit]
  simp only [Option.map_some, String.ofList_toList, Flag.ofSpelling?_of_mem hs]

theorem classify_joined (hshort : s.length = 2) {v : String} {d : Char} {w : List Char}
    (hd : d ≠ '=') (hv : v.toList = d :: w) :
    classify (s ++ v) = .ok (.flag f true (some v)) := by
  obtain ⟨c, r, htext, hequals, hdash, hletter⟩ := Flag.exists_of_mem_spellings hs
  have hc : c ≠ '-' := hdash hshort
  obtain rfl : r = [] := hletter hc
  have hce : c ≠ '=' := by
    rintro rfl
    simp [htext] at hequals
  have hword : (s ++ v).toList = '-' :: c :: d :: w := by simp [htext, hv]
  have hself : Flag.ofSpelling? (s ++ v) = none := by
    rw [← String.ofList_toList (s := s ++ v), hword, Flag.ofSpelling?_letter_cons hc]
  have hspelling : Flag.ofSpelling? (String.ofList ['-', c]) = some f := by
    rw [← htext, String.ofList_toList, Flag.ofSpelling?_of_mem hs]
  have hvalue : String.ofList (d :: w) = v := by rw [← hv, String.ofList_toList]
  rw [classify_of_dash hword hself, classifyDashed, splitEquals_cons (by decide),
    splitEquals_cons hce, splitEquals_cons hd]
  -- what is before an equals sign is no spelling either, so only its first letter counts
  simp only [Flag.ofSpelling?_letter_cons hc, List.head?_cons, List.take_succ_cons, List.take_zero,
    hspelling, List.drop_succ_cons, List.drop_zero, hvalue]
  simp [hc]

end

/-- Wherever the words stand before a separator, what is read so far goes on by `g`. -/
def Advances (ws : List String) (g : Progress → Except UsageFault Progress) : Prop :=
  ∃ us : List Word, (∀ ss, classifyAll (ws ++ ss) = (classifyAll ss).map (us ++ ·)) ∧
    ∀ us' p, follow (us ++ us') p = (g p).bind (follow us')

namespace Advances

theorem append {ws ws' : List String} {g g' : Progress → Except UsageFault Progress}
    (h : Advances ws g) (h' : Advances ws' g') : Advances (ws ++ ws') fun p => (g p).bind g' := by
  obtain ⟨us, hwords, hfollow⟩ := h
  obtain ⟨us', hwords', hfollow'⟩ := h'
  refine ⟨us ++ us', ?_, ?_⟩
  · intro ss
    rw [List.append_assoc, hwords, hwords']
    cases classifyAll ss <;> simp [Except.map]
  · intro vs p
    rw [List.append_assoc, hfollow]
    dsimp only
    cases g p with
    | error e => rfl
    | ok q => exact hfollow' vs q

theorem ofWords {ws : List String} {g : Progress → Except UsageFault Progress}
    (h : Advances ws g) : Reading.ofWords ws = (g .start).bind Progress.finish := by
  obtain ⟨us, hwords, hfollow⟩ := h
  have hus : classifyAll ws = .ok us := by
    rw [← ws.append_nil, hwords, classifyAll, Except.map, List.append_nil]
  have hstart := hfollow [] .start
  rw [List.append_nil] at hstart
  simp only [Reading.ofWords, hus, hstart]
  cases g .start <;> simp [Except.bind, follow]

theorem json : Advances ["--json"] fun p => .ok { p with options := { p.options with json := true } } :=
  ⟨[.flag .json false none], classifyAll_cons (by decide), fun _ _ => rfl⟩

section

variable {f : Flag} {v : String} (hf : f.takesValue = true)
include hf

theorem of_attached {s : String} {short : Bool}
    (hword : classify s = .ok (.flag f short (some v))) : Advances [s] (·.setFlag f v) := by
  refine ⟨[.flag f short (some v)], classifyAll_cons hword, ?_⟩
  intro us p
  rw [List.singleton_append, follow, if_pos hf]
  dsimp only
  cases p.setFlag f v <;> rfl

theorem of_next {s : String} {short : Bool} (hword : classify s = .ok (.flag f short none))
    (hv : classify v = .ok (.value v)) : Advances [s, v] (·.setFlag f v) := by
  refine ⟨[.flag f short none, .value v], ?_, ?_⟩
  · intro ss
    rw [List.cons_append, List.singleton_append, classifyAll_cons hword, classifyAll_cons hv]
    cases classifyAll ss <;> rfl
  · intro us p
    have hhelp : f ≠ .help := by
      rintro rfl
      simp [Flag.takesValue] at hf
    have hjson : f ≠ .json := by
      rintro rfl
      simp [Flag.takesValue] at hf
    rw [List.cons_append, List.singleton_append, follow]
    · dsimp only
      cases p.setFlag f v <;> rfl
    · exact hhelp
    · exact hjson

/-- However a flag is given its value, the flag is set to it. -/
theorem of_gives {ws : List String} (h : f.Gives v ws) : Advances ws (·.setFlag f v) := by
  cases h with
  | apart s hs hv =>
    obtain ⟨short, hword⟩ := classify_spelling hs
    exact of_next hf hword (classify_of_classifyAll hv).2
  | equals s hs hv =>
    obtain ⟨short, hword⟩ := classify_equals hs v
    exact of_attached hf hword
  | joined s hs hshort hv c r hc hr => exact of_attached hf (classify_joined hs hshort hc hr)

end

end Advances

theorem Flag.Gives.ne_separator {f : Flag} {v : String} {ws : List String} (h : f.Gives v ws) :
    v ≠ "--" := by
  cases h with
  | apart s hs hv => exact (classify_of_classifyAll hv).1
  | equals s hs hv => exact hv
  | joined s hs hshort hv c r hc hr => exact hv

/-- The words that choose between the report and JSON. -/
def modeWords (json : Bool) : List String := if json then ["--json"] else []

section

variable (json : Bool)

theorem ofWords_argument (x : String) : Reading.ofWords (modeWords json ++ ["--", x]) =
    .ok (.options ⟨some x, none, none, json, none⟩) := by
  cases json <;> rfl

theorem ofWords_mode :
    Reading.ofWords (modeWords json) = .ok (.options ⟨none, none, none, json, none⟩) := by
  cases json <;> rfl

theorem ofWords_file {name : String} {ws arguments : List String} (h : Flag.file.Gives name ws)
    (ha : arguments = modeWords json ++ ws ∨ arguments = ws ++ modeWords json) :
    Reading.ofWords arguments = .ok (.options ⟨none, some name, none, json, none⟩) := by
  have hfile := Advances.of_gives rfl h
  have hset (p : Progress) : p.setFlag .file name =
      .ok { p with options := { p.options with file := some name } } := by
    rw [Progress.setFlag, if_neg h.ne_separator]
  simp only [hset] at hfile
  cases json with
  | false =>
    obtain rfl : arguments = ws := by simpa [modeWords] using ha
    rw [hfile.ofWords]
    rfl
  | true =>
    rcases ha with rfl | rfl
    · exact (Advances.json.append hfile).ofWords
    · exact (hfile.append Advances.json).ofWords

end

/-- The call is about the expression `x` and has no other options than the mode: the expression is
the argument after two dashes, or it is piped in, or it is in the file that is named. A stream may
hold more ends of lines after it. -/
inductive Hands (x : String) (json : Bool) (i : Invocation) : Prop
  | argument (ha : i.arguments = modeWords json ++ ["--", x])
  | piped (y : String) (ha : i.arguments = modeWords json)
    (hy : ∀ c ∈ y.toList, c = '\r' ∨ c = '\n') (hp : i.piped = some (x ++ y).toUTF8)
  | file (y name : String) (ws : List String) (hws : Flag.file.Gives name ws) (hname : name ≠ "")
    (ha : i.arguments = modeWords json ++ ws ∨ i.arguments = ws ++ modeWords json)
    (hy : ∀ c ∈ y.toList, c = '\r' ∨ c = '\n')
    (hd : i.disk.read (i.here.resolve name) = .ok (x ++ y).toUTF8)

theorem run_of_source {i : Invocation} {o : Options} {src : Source} {s : List Char}
    (ho : Reading.ofWords i.arguments = .ok (.options o)) (hsrc : o.source i.piped = .ok src)
    (hs : src.text i.here i.disk = .ok s) : i.run = present i o src s := by
  simp only [Invocation.run, ho, hsrc, hs]

/-- What a call leaves behind that only shows the analysis of a text. -/
def shown (s : List Char) (json : Bool) (d : Disk) : Outcome :=
  let a := Analysis.ofText s defaultLimit
  ⟨.exit (if a.success then 0 else 1),
    if json then document a ++ "\n" else (Report.text? s a).getD "", !json, "", d⟩

/-- Without a stage and an output file nothing is written, whatever the source is called. -/
theorem present_eq_shown (expression file : Option String) (json : Bool) (i : Invocation)
    (src : Source) (s : List Char) :
    present i ⟨expression, file, none, json, none⟩ src s = shown s json i.disk := by
  have hanalyze : Request.analyze (Disk.writeAt i.here) i.here
      ⟨some s, none, some defaultLimit, [], src.fileName⟩ i.disk =
      ⟨Analysis.run (some s) none (some defaultLimit), i.disk, []⟩ :=
    Request.analyze_of_keep_nil _ _ rfl _
  have hpresent : present i ⟨expression, file, none, json, none⟩ src s =
      ⟨.exit (if (Analysis.ofText s defaultLimit).success then 0 else 1),
        answer ⟨expression, file, none, json, none⟩ s (Analysis.ofText s defaultLimit) ++ "", !json,
        "", i.disk⟩ := by
    simp only [present, Option.map_none, Option.toList_none, hanalyze]
    rfl
  rw [hpresent]
  cases json <;> simp [shown, answer]

theorem run_of_hands {x : String} {json : Bool} {i : Invocation} (hreturn : '\r' ∉ x.toList)
    (hend : x.toList.getLast? ≠ some '\n') (h : Hands x json i) :
    i.run = shown x.toList json i.disk := by
  cases h with
  | argument ha =>
    have ho := ofWords_argument json x
    rw [← ha] at ho
    rw [run_of_source ho rfl rfl, present_eq_shown]
  | piped y ha hy hp =>
    have ho := ofWords_mode json
    rw [← ha] at ho
    have hsrc : Options.source ⟨none, none, none, json, none⟩ i.piped =
        .ok (.piped (x ++ y).toUTF8) := by
      rw [hp]
      rfl
    have hs : (Source.piped (x ++ y).toUTF8).text i.here i.disk = .ok x.toList := by
      simp only [Source.text, Text.ofBytes?_append hreturn hend hy]
    rw [run_of_source ho hsrc hs, present_eq_shown]
  | file y name ws hws hname ha hy hd =>
    have ho := ofWords_file json hws ha
    have hsrc : Options.source ⟨none, some name, none, json, none⟩ i.piped = .ok (.file name) := by
      have hgiven : given (some name) = some name := by simp [given, Option.filter_some, hname]
      simp only [Options.source, hgiven]
    have hs : (Source.file name).text i.here i.disk = .ok x.toList := by
      simp only [Source.text, hd, Text.ofBytes?_append hreturn hend hy]
    rw [run_of_source ho hsrc hs, present_eq_shown]

/-- The ways to hand over an expression agree. Whatever characters it is made of, also where it looks
like an option or like the mark before it, two calls that are about it end with one status and print
the same. -/
theorem channels_agree {x : String} {json : Bool} (hreturn : '\r' ∉ x.toList)
    (hend : x.toList.getLast? ≠ some '\n') {i j : Invocation} (hi : Hands x json i)
    (hj : Hands x json j) : ∃ status, i.run.ending = .exit status ∧ j.run.ending = .exit status ∧
      ∀ seconds, i.run.stdout seconds = j.run.stdout seconds := by
  rw [run_of_hands hreturn hend hi, run_of_hands hreturn hend hj]
  exact ⟨_, rfl, rfl, fun _ => rfl⟩

/-- The expression is two dashes, the mark itself. -/
theorem channels_agree_dashes :
    let i : Invocation := ⟨["--json", "--", "--"], none, ⟨[]⟩, .empty⟩
    let j : Invocation := ⟨["-fa=b", "--json"], some .empty, ⟨["in"]⟩,
      ⟨[(⟨["in"]⟩, .folder), (⟨["in", "a=b"]⟩, .file "--\n\r\n".toUTF8)]⟩⟩
    Hands "--" true i ∧ Hands "--" true j ∧ ∃ status, i.run.ending = .exit status ∧
      j.run.ending = .exit status ∧ ∀ seconds, i.run.stdout seconds = j.run.stdout seconds := by
  intro i j
  have hi : Hands "--" true i := .argument rfl
  have hj : Hands "--" true j := .file "\n\r\n" "a=b" ["-fa=b"]
    (.joined "-f" (by decide) rfl (by decide) 'a' ['=', 'b'] (by decide) rfl) (by decide) (.inr rfl)
    (by simp) (by rfl)
  exact ⟨hi, hj, channels_agree (by decide) (by decide) hi hj⟩

end Command
end ExprLine
