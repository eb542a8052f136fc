import ExprLine.Proofs.Footprint

namespace ExprLine

theorem Path.ancestors_append_self (p : Path) : p.ancestors ++ [p] =
    (List.range' 0 (p.names.length + 1)).map fun j => ⟨p.names.take j⟩ := by
  rw [← List.range_eq_range', List.range_succ, List.map_append, List.map_singleton,
    List.take_length]
  rfl

/-- The folders above a path are the one that holds it and those above that one. -/
theorem Path.ancestors_eq {p : Path} (h : p.names ≠ []) :
    p.ancestors = p.parent.ancestors ++ [p.parent] := by
  obtain ⟨names⟩ := p
  rcases List.eq_nil_or_concat names with rfl | ⟨ns, n, rfl⟩
  · exact absurd rfl h
  · rw [ancestors_append_self, ← List.range_eq_range', ancestors]
    simp only [parent, List.concat_eq_append, List.dropLast_concat, List.length_append,
      List.length_singleton]
    apply List.map_congr_left
    intro j hj
    rw [List.take_append_of_le_length (Nat.le_of_lt_succ (List.mem_range.mp hj))]

namespace Disk

/-- There is nothing at a path, or there is no folder on the way to it. -/
def Lacks (d : Disk) (p : Path) : Prop := ∃ q ∈ p.ancestors ++ [p], d.get? q = none

/-- No file at `q` came, went or changed. Where nothing was, there may be a folder. -/
def KeepsFile (d d' : Disk) (q : Path) : Prop :=
  d'.get? q = d.get? q ∨ d.get? q = none ∧ d'.get? q = some .folder

section

variable {d d' : Disk} {p : Path} {b : ByteArray}

theorem exists_of_barrier?_notFound (h : d.barrier? p = some .notFound) :
    ∃ q ∈ p.ancestors, d.get? q = none := by
  unfold barrier? at h
  split at h
  · simp at h
  split at h
  · simp at h
  obtain ⟨l, q, r, hl, hq, -⟩ := List.findSome?_eq_some_iff.mp h
  split at hq
  · simp at hq
  split at hq
  · simp at hq
  next hne =>
    split at hq
    · next hnone =>
      have hmem : q ∈ p.ancestors ++ [p] := by simp [hl]
      refine ⟨q, ?_, hnone⟩
      rcases List.mem_append.mp hmem with hmem | hmem
      · exact hmem
      · exact absurd (List.mem_singleton.mp hmem) hne
    · simp at hq
    · simp at hq

theorem get?_of_barrier?_eq_none (h : d.barrier? p = none) {q : Path} (hq : q ∈ p.ancestors ++ [p])
    (hne : q ≠ p) : d.get? q = some .folder := by
  unfold barrier? at h
  split at h
  · simp at h
  split at h
  · simp at h
  have hstep := List.findSome?_eq_none_iff.mp h q hq
  rw [if_neg hne] at hstep
  split at hstep
  · simp at hstep
  split at hstep
  · simp at hstep
  · simp at hstep
  · next hfolder => exact hfolder

theorem read_eq_ok (h : d.read p = .ok b) :
    d.barrier? p = none ∧ d.get? p = some (.file b) := by
  unfold read at h
  split at h
  · simp at h
  · next hbarrier =>
    split at h
    · simp at h
    · simp at h
    · next hfile =>
      obtain rfl := Except.ok.inj h
      exact ⟨hbarrier, hfile⟩

theorem hasNul_of_read (h : d.read p = .ok b) : p.hasNul = false := by
  rw [Bool.eq_false_iff, ne_eq, ← barrier?_eq_unusablePath_iff (d := d), (read_eq_ok h).1]
  simp

theorem not_lacks_of_read (h : d.read p = .ok b) : ¬d.Lacks p := by
  obtain ⟨hbarrier, hfile⟩ := read_eq_ok h
  rintro ⟨q, hq, hnone⟩
  by_cases hqp : q = p
  · rw [hqp, hfile] at hnone
    simp at hnone
  · rw [get?_of_barrier?_eq_none hbarrier hq hqp] at hnone
    simp at hnone

theorem lacks_of_read (h : d.read p = .error .notFound) : d.Lacks p := by
  unfold read at h
  split at h
  · next f hbarrier =>
    obtain rfl := Except.error.inj h
    obtain ⟨q, hq, hnone⟩ := exists_of_barrier?_notFound hbarrier
    exact ⟨q, List.mem_append_left [p] hq, hnone⟩
  · split at h
    · next hnone => exact ⟨p, List.mem_append_right _ List.mem_cons_self, hnone⟩
    · simp at h
    · simp at h

/-- Nothing is missing for a write where there is something at every place above. -/
theorem write_ne_notFound (h : ∀ q ∈ p.ancestors, d.get? q ≠ none) :
    d.write p b ≠ .error .notFound := by
  intro hw
  unfold write at hw
  split at hw
  · next f hbarrier =>
    obtain rfl := Except.error.inj hw
    obtain ⟨q, hq, hnone⟩ := exists_of_barrier?_notFound hbarrier
    exact h q hq hnone
  · split at hw <;> simp at hw

theorem names_ne_nil (h : d.get? p = none) : p.names ≠ [] := by
  intro hroot
  rw [get?, if_pos hroot] at h
  simp at h

theorem keepsFile_refl (d : Disk) (q : Path) : d.KeepsFile d q := Or.inl rfl

theorem keepsFile_trans {q : Path} (h : d.KeepsFile d' q) {d'' : Disk} (h' : d'.KeepsFile d'' q) :
    d.KeepsFile d'' q := by
  rcases h with hsame | ⟨hnone, hfolder⟩
  · rwa [KeepsFile, hsame] at h'
  · rcases h' with hsame' | ⟨hnone', -⟩
    · exact Or.inr ⟨hnone, hsame'.trans hfolder⟩
    · rw [hfolder] at hnone'
      simp at hnone'

theorem keepsFile_put_folder (h : d.get? p = none) (q : Path) : d.KeepsFile (d.put p .folder) q := by
  by_cases hq : q = p
  · subst hq
    exact Or.inr ⟨h, get?_put_self (names_ne_nil h) d _⟩
  · exact Or.inl (get?_put_ne hq d _)

/-- The folders made on the way keep every file, also where the last of them could not be made. -/
theorem keepsFile_makeFolders (ps : List Path) (d : Disk) (q : Path) :
    d.KeepsFile (makeFolders ps d).1 q := by
  induction ps generalizing d with
  | nil => exact keepsFile_refl d q
  | cons p ps ih =>
    rw [makeFolders]
    split
    · exact ih d
    · split
      · exact keepsFile_refl d q
      · exact ih d
    · next hnone =>
      split
      · exact keepsFile_refl d q
      · exact keepsFile_trans (keepsFile_put_folder hnone q) (ih _)

theorem keepsFile_afterFolder (d : Disk) (p q : Path) : d.KeepsFile (d.afterFolder p) q :=
  keepsFile_makeFolders (p.ancestors ++ [p]) d q

theorem makeFolder_eq_ok (h : d.makeFolder p = .ok d') :
    makeFolders (p.ancestors ++ [p]) d = (d', none) := by
  unfold makeFolder at h
  split at h
  · next hmade =>
    obtain rfl := Except.ok.inj h
    exact hmade
  · simp at h

theorem makeFolder_eq_error {f : FileFault} (h : d.makeFolder p = .error f) :
    makeFolders (p.ancestors ++ [p]) d = (d.afterFolder p, some f) := by
  unfold makeFolder at h
  split at h
  · simp at h
  · next hmade =>
    obtain rfl := Except.error.inj h
    rw [afterFolder, hmade]

theorem keepsFile_of_makeFolder (h : d.makeFolder p = .ok d') (q : Path) : d.KeepsFile d' q := by
  have hkeeps := keepsFile_makeFolders (p.ancestors ++ [p]) d q
  rwa [makeFolder_eq_ok h] at hkeeps

/-- On the way down `ns` there is something at each of the first `k` places, of which the root is
one. -/
def Reaches (d : Disk) (ns : List String) (k : Nat) : Prop := ∀ j < k, d.get? ⟨ns.take j⟩ ≠ none

theorem Reaches.succ {ns : List String} {k : Nat} (h : d.Reaches ns k)
    (hk : d.get? ⟨ns.take k⟩ ≠ none) : d.Reaches ns (k + 1) := by
  intro j hj
  rcases Nat.lt_succ_iff_lt_or_eq.mp hj with hlt | rfl
  · exact h j hlt
  · exact hk

theorem Reaches.put {ns : List String} {k : Nat} (h : d.Reaches ns k)
    (hk : d.get? ⟨ns.take k⟩ = none) (e : Entry) : (d.put ⟨ns.take k⟩ e).Reaches ns (k + 1) := by
  have hself : (d.put ⟨ns.take k⟩ e).get? ⟨ns.take k⟩ = some e :=
    get?_put_self (names_ne_nil hk) d e
  refine succ ?_ (by simp [hself])
  intro j hj
  by_cases hsame : (⟨ns.take j⟩ : Path) = ⟨ns.take k⟩
  · simp [hsame, hself]
  · rw [get?_put_ne hsame]
    exact h j hj

theorem Reaches.barrier?_ne_notFound {ns : List String} {k : Nat} (h : d.Reaches ns k) :
    d.barrier? ⟨ns.take k⟩ ≠ some .notFound := by
  intro hbarrier
  obtain ⟨q, hq, hnone⟩ := exists_of_barrier?_notFound hbarrier
  obtain ⟨j, hj, rfl⟩ := List.mem_map.mp hq
  rw [List.mem_range, List.length_take] at hj
  have hlt : j < k := by omega
  rw [List.take_take, Nat.min_eq_left (Nat.le_of_lt hlt)] at hnone
  exact h j hlt hnone

/-- Nothing is missing when folders are made from the root down: each is made, or is there, before
the one in it is asked for. -/
theorem makeFolders_descend {ns : List String} {n k : Nat} {r : Disk × Option FileFault}
    (hd : d.Reaches ns k) (hr : makeFolders ((List.range' k n).map fun j => ⟨ns.take j⟩) d = r) :
    r.2 ≠ some .notFound ∧ (r.2 = none → r.1.Reaches ns (k + n)) := by
  induction n generalizing k d with
  | zero =>
    subst hr
    exact ⟨by simp [makeFolders], fun _ => hd⟩
  | succ n ih =>
    rw [show k + (n + 1) = k + 1 + n by omega]
    rw [List.range'_succ, List.map_cons, makeFolders] at hr
    split at hr
    · next hfolder => exact ih (hd.succ (by simp [hfolder])) hr
    · next hfile =>
      split at hr
      · subst hr
        simp
      · exact ih (hd.succ (by simp [hfile])) hr
    · next hnone =>
      split at hr
      · next f hbarrier =>
        subst hr
        refine ⟨?_, by simp⟩
        rw [← hbarrier]
        exact hd.barrier?_ne_notFound
      · exact ih (hd.put hnone _) hr

theorem reaches_zero (d : Disk) (ns : List String) : d.Reaches ns 0 := by
  intro j hj
  exact absurd hj (Nat.not_lt_zero j)

theorem makeFolder_ne_notFound : d.makeFolder p ≠ .error .notFound := by
  intro h
  have hmade := makeFolder_eq_error h
  rw [Path.ancestors_append_self] at hmade
  exact (makeFolders_descend (d.reaches_zero _) hmade).1 rfl

theorem get?_ne_none_of_makeFolder (h : d.makeFolder p = .ok d') {q : Path}
    (hq : q ∈ p.ancestors ++ [p]) : d'.get? q ≠ none := by
  have hmade := makeFolder_eq_ok h
  rw [Path.ancestors_append_self] at hmade hq
  obtain ⟨j, hj, rfl⟩ := List.mem_map.mp hq
  refine (makeFolders_descend (d.reaches_zero _) hmade).2 rfl j ?_
  simpa using hj

/-- Where the folder of a file could be made, nothing on the way to the file is missing. That a
disk has no links is used here: one at the end of the way could lead to where nothing is. -/
theorem write_ne_notFound_of_makeFolder (h : d.makeFolder p.parent = .ok d') :
    d'.write p b ≠ .error .notFound := by
  apply write_ne_notFound
  intro q hq
  have hroot : p.names ≠ [] := by
    intro hroot
    rw [Path.ancestors, hroot] at hq
    simp at hq
  rw [Path.ancestors_eq hroot] at hq
  exact get?_ne_none_of_makeFolder h hq

end

end Disk
end ExprLine
