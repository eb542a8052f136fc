import ExprLine.Proofs.SideChannel
import Mathlib.Data.List.TakeWhile

namespace ExprLine

namespace Path

/-- A name that leads down from a folder: no way up, no way round, and one name only. -/
def IsName (n : String) : Prop := n ≠ "" ∧ n ≠ "." ∧ n ≠ ".." ∧ '/' ∉ n.toList

def Proper (p : Path) : Prop := ∀ n ∈ p.names, IsName n

theorem step_of_isName {n : String} (h : IsName n) (names : List String) :
    step names n = names ++ [n] := by
  obtain ⟨hempty, hdot, hup, -⟩ := h
  simp [step, hempty, hdot, hup]

theorem foldl_step_of_isName {ns : List String} (h : ∀ n ∈ ns, IsName n) (names : List String) :
    ns.foldl step names = names ++ ns := by
  induction ns generalizing names with
  | nil => simp
  | cons n ns ih =>
    have hrest := ih (fun m hm => h m (List.mem_cons_of_mem n hm)) (names ++ [n])
    rw [List.foldl_cons, step_of_isName (h n List.mem_cons_self), hrest, List.append_assoc,
      List.singleton_append]

theorem isName_of_mem_step {names : List String} {n m : String} (h : ∀ k ∈ names, IsName k)
    (hn : '/' ∉ n.toList) (hm : m ∈ step names n) : IsName m := by
  unfold step at hm
  split at hm
  · exact h m hm
  · next hstay =>
    obtain ⟨hempty, hdot⟩ := not_or.mp hstay
    split at hm
    · exact h m ((List.dropLast_sublist names).mem hm)
    · next hup =>
      rcases List.mem_append.mp hm with hm | hm
      · exact h m hm
      · rw [List.mem_singleton.mp hm]
        exact ⟨hempty, hdot, hup, hn⟩

theorem isName_of_mem_foldl_step {ns names : List String} (h : ∀ k ∈ names, IsName k)
    (hns : ∀ n ∈ ns, '/' ∉ n.toList) : ∀ m ∈ ns.foldl step names, IsName m := by
  induction ns generalizing names with
  | nil => exact h
  | cons n ns ih =>
    have hone : ∀ m ∈ step names n, IsName m :=
      fun m hm => isName_of_mem_step h (hns n List.mem_cons_self) hm
    exact ih hone fun k hk => hns k (List.mem_cons_of_mem n hk)

theorem proper_resolve {here : Path} (h : here.Proper) (s : String) : (here.resolve s).Proper := by
  apply isName_of_mem_foldl_step
  · intro n hn
    split at hn
    · simp at hn
    · exact h n hn
  · intro n hn
    obtain ⟨q, hq, rfl⟩ := List.mem_map.mp hn
    rw [String.toList_ofList]
    exact Text.not_mem_of_mem_pieces hq

/-- A slash in front starts at the root. -/
theorem resolve_slash (here : Path) (s : String) : here.resolve ("/" ++ s) = resolve ⟨[]⟩ s := by
  have hlist : ("/" ++ s).toList = '/' :: s.toList := by simp
  have hpieces : Text.pieces '/' ('/' :: s.toList) = [] :: Text.pieces '/' s.toList := rfl
  have hstep : step [] (String.ofList []) = [] := rfl
  simp only [resolve, hlist, hpieces, List.head?_cons, List.map_cons, List.foldl_cons, hstep,
    if_true, ite_self]

/-- A proper path is named by its text, from wherever it is looked at. -/
theorem resolve_text {p : Path} (h : p.Proper) (here : Path) : here.resolve p.text = p := by
  rw [text, resolve_slash]
  by_cases hp : p.names = []
  · have hroot : p = ⟨[]⟩ := congrArg Path.mk hp
    rw [hroot]
    rfl
  · have hslash : ∀ l ∈ p.names.map String.toList, '/' ∉ l := by
      intro l hl
      obtain ⟨n, hn, rfl⟩ := List.mem_map.mp hl
      exact (h n hn).2.2.2
    have hpieces : Text.pieces '/' ("/".intercalate p.names).toList = p.names.map String.toList := by
      rw [String.toList_intercalate]
      exact Text.pieces_intercalate (by simpa using hp) hslash
    have hnames : (p.names.map String.toList).map String.ofList = p.names := by simp
    simp only [resolve, hpieces, hnames, ite_self]
    rw [foldl_step_of_isName h, List.nil_append]

theorem resolve_of_isName {n : String} (h : IsName n) (here : Path) :
    here.resolve n = ⟨here.names ++ [n]⟩ := by
  have hslash := h.2.2.2
  have hhead : n.toList.head? ≠ some '/' := fun hn => hslash (List.mem_of_head? hn)
  simp only [resolve, if_neg hhead, Text.pieces_of_not_mem hslash, List.map_singleton,
    String.ofList_toList, List.foldl_cons, List.foldl_nil, step_of_isName h]

theorem resolve_textFor {p : Path} (h : p.Proper) (here : Path) (asked : String) :
    here.resolve (p.textFor asked) = p := by
  unfold textFor
  split
  · exact resolve_text h here
  · rw [resolve_slash, resolve_text h]
  · exact resolve_text h here

/-- The path with `x` at the end of its last name. -/
def suffixed (p : Path) (x : String) : Path :=
  ⟨p.parent.names ++ [p.names.getLast?.getD "" ++ x]⟩

theorem text_suffixed (p : Path) (x : String) : (p.suffixed x).text = p.text ++ x := by
  obtain ⟨names⟩ := p
  rcases List.eq_nil_or_concat names with rfl | ⟨ns, n, rfl⟩
  · simp [suffixed, text, parent]
  · have hnames : (suffixed ⟨ns.concat n⟩ x).names = ns ++ [n ++ x] := by simp [suffixed, parent]
    rw [text, text, hnames, List.concat_eq_append]
    by_cases hns : ns = []
    · simp [hns, String.append_assoc]
    · simp [String.intercalate_append_of_ne_nil hns, String.append_assoc]

theorem textFor_suffixed (p : Path) (asked x : String) :
    (p.suffixed x).textFor asked = p.textFor asked ++ x := by
  unfold textFor
  split <;> simp [text_suffixed, String.append_assoc]

/-- What `stem` leaves out is nothing, or a dot and no further one after it. -/
theorem exists_extension (name : List Char) :
    ∃ ext, name = stem name ++ ext ∧ (ext = [] ∨ ∃ e, ext = '.' :: e ∧ '.' ∉ e) := by
  have hwhole : ∃ ext, name = name ++ ext ∧ (ext = [] ∨ ∃ e, ext = '.' :: e ∧ '.' ∉ e) :=
    ⟨[], (List.append_nil name).symm, Or.inl rfl⟩
  unfold stem
  split
  · exact hwhole
  · next d r hdrop =>
    split
    · have hdot : d = '.' := by
        have hd := List.head?_dropWhile_not (fun c => decide (c ≠ '.')) name.reverse
        rw [hdrop] at hd
        simpa using hd
      have hsplit : ∃ e, name.reverse = e ++ '.' :: r ∧ '.' ∉ e := by
        refine ⟨name.reverse.takeWhile fun c => decide (c ≠ '.'), ?_, ?_⟩
        · rw [← hdot, ← hdrop, hdot]
          exact List.takeWhile_append_dropWhile.symm
        · intro hmem
          have hne := List.mem_takeWhile_imp hmem
          simp at hne
      obtain ⟨e, hname, he⟩ := hsplit
      refine ⟨'.' :: e.reverse, ?_, Or.inr ⟨_, rfl, fun h => he (List.mem_reverse.mp h)⟩⟩
      rw [← name.reverse_reverse, hname]
      simp
    · exact hwhole

end Path

namespace Path

theorem parent_suffixed (p : Path) (x : String) : (p.suffixed x).parent = p.parent := by
  simp [suffixed, parent]

theorem suffixed_injective {p : Path} {x y : String} (h : p.suffixed x = p.suffixed y) : x = y := by
  have hlast := List.append_cancel_left (Path.mk.inj h)
  simpa [← String.toList_inj] using hlast

theorem parent_withoutExtension (p : Path) : p.withoutExtension.parent = p.parent := by
  unfold withoutExtension
  split <;> simp [parent]

theorem suffixed_withoutExtension (ns : List String) (n x : String) :
    (withoutExtension ⟨ns ++ [n]⟩).suffixed x = ⟨ns ++ [String.ofList (stem n.toList) ++ x]⟩ := by
  simp [withoutExtension, suffixed, parent]

theorem suffixed_names_ne_nil (p : Path) (x : String) : (p.suffixed x).names ≠ [] := by
  simp [suffixed]

end Path

namespace Artifact

def suffix (g : Stage) : String := "." ++ g.name ++ ".json"

theorem name_eq (base : String) (g : Stage) : name base g = base ++ suffix g := by
  simp [name, suffix, String.append_assoc]

theorem suffix_injective {g k : Stage} (h : suffix g = suffix k) : g = k := by
  cases g <;> cases k <;> simp_all [suffix, Stage.name]

theorem isName_append_suffix {n : String} (hn : '/' ∉ n.toList) (g : Stage) :
    Path.IsName (n ++ suffix g) := by
  have hj : 'j' ∈ (n ++ suffix g).toList := by
    have hsuffix : 'j' ∈ (suffix g).toList := by cases g <;> decide
    simp [hsuffix]
  have hslash : '/' ∉ (suffix g).toList := by cases g <;> decide
  have hdiffer {m : String} (hm : 'j' ∉ m.toList) : n ++ suffix g ≠ m := by
    rintro rfl
    exact hm hj
  refine ⟨hdiffer (by decide), hdiffer (by decide), hdiffer (by decide), ?_⟩
  simp [hn, hslash]

/-- Where the artifact of a stage is written. -/
def path (here : Path) (file : Option String) (g : Stage) : Path :=
  here.resolve (name (base here file) g)

/-- The path that the artifacts go on from, each with its suffix. -/
def trunk (here : Path) (file : Option String) : Path :=
  match file with
  | none => ⟨here.names ++ ["exa_output"]⟩
  | some f => if f = "" then ⟨here.names ++ ["exa_output"]⟩ else (here.resolve f).withoutExtension

theorem proper_suffixed {p : Path} (h : p.Proper) (g : Stage) :
    (p.withoutExtension.suffixed (suffix g)).Proper := by
  intro m hm
  rw [Path.suffixed, Path.parent_withoutExtension] at hm
  rcases List.mem_append.mp hm with hm | hm
  · exact h m ((List.dropLast_sublist p.names).mem hm)
  · rw [List.mem_singleton.mp hm]
    apply isName_append_suffix
    unfold Path.withoutExtension
    cases hl : p.names.getLast? with
    | none => simp [hl]
    | some n =>
      have hn := (h n (List.mem_of_getLast? hl)).2.2.2
      simp
      exact fun hc => hn (Path.mem_of_mem_stem hc)

theorem path_eq {here : Path} (h : here.Proper) (file : Option String) (g : Stage) :
    path here file g = (trunk here file).suffixed (suffix g) := by
  have hplain : here.resolve (name "exa_output" g) =
      Path.suffixed ⟨here.names ++ ["exa_output"]⟩ (suffix g) := by
    have hn : Path.IsName ("exa_output" ++ suffix g) := isName_append_suffix (by decide) g
    rw [name_eq, Path.resolve_of_isName hn]
    simp [Path.suffixed, Path.parent]
  cases file with
  | none => exact hplain
  | some f =>
    by_cases hf : f = ""
    · subst hf
      exact hplain
    · simp only [path, base, trunk, if_neg hf]
      rw [name_eq, ← Path.textFor_suffixed]
      exact Path.resolve_textFor (proper_suffixed (Path.proper_resolve h f) g) here f

theorem path_injective {here : Path} (h : here.Proper) {file : Option String} {g k : Stage}
    (he : path here file g = path here file k) : g = k := by
  rw [path_eq h, path_eq h] at he
  exact suffix_injective (Path.suffixed_injective he)

theorem path_names_ne_nil {here : Path} (h : here.Proper) (file : Option String) (g : Stage) :
    (path here file g).names ≠ [] := by
  rw [path_eq h]
  exact Path.suffixed_names_ne_nil _ _

theorem parent_path {here : Path} (h : here.Proper) {f : String} (hf : f ≠ "") (g : Stage) :
    (path here (some f) g).parent = (here.resolve f).parent := by
  rw [path_eq h, Path.parent_suffixed, trunk, if_neg hf, Path.parent_withoutExtension]

/-- No artifact takes the place of the file it is made from. The name of that file goes on from
its stem with one dot at most, and the name of the artifact with two. -/
theorem suffixed_withoutExtension_ne (p : Path) (g : Stage) :
    p.withoutExtension.suffixed (suffix g) ≠ p := by
  obtain ⟨names⟩ := p
  rcases List.eq_nil_or_concat names with rfl | ⟨ns, n, rfl⟩
  · intro h
    exact Path.suffixed_names_ne_nil _ _ (congrArg Path.names h)
  · rw [List.concat_eq_append, Path.suffixed_withoutExtension]
    intro h
    have hn : String.ofList (Path.stem n.toList) ++ suffix g = n := by simpa using h
    obtain ⟨ext, hstem, hext⟩ := Path.exists_extension n.toList
    have hsame : (suffix g).toList = ext := by
      rw [← String.toList_inj, String.toList_append, String.toList_ofList] at hn
      exact List.append_cancel_left (hn.trans hstem)
    have hdots : ∃ r, (suffix g).toList = '.' :: r ∧ '.' ∈ r := by
      cases g <;> exact ⟨_, rfl, by decide⟩
    obtain ⟨r, hr, hdot⟩ := hdots
    rcases hext with rfl | ⟨e, rfl, he⟩
    · simp [hr] at hsame
    · rw [hr, List.cons.injEq] at hsame
      exact he (hsame.2 ▸ hdot)

theorem path_ne_resolve {here : Path} (h : here.Proper) {f : String} (hf : f ≠ "") (g : Stage) :
    path here (some f) g ≠ here.resolve f := by
  rw [path_eq h, trunk, if_neg hf]
  exact suffixed_withoutExtension_ne _ g

end Artifact
end ExprLine
