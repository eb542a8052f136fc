import ExprLine.Proofs.Placement
import ExprLine.Proofs.Traversal

namespace ExprLine

/-- A row of a drawn tree: how deep its node stands, its label, and its value if there is nothing
below it. -/
structure Row where
  level : Nat
  label : String
  value : Option String

/-- Texts that can be told from what stands around a label: the indent before it, the tab after it
and the end of its row. -/
def IsLabel (l : String) : Prop :=
  '\t' ∉ l.toList ∧ '\n' ∉ l.toList ∧ l.toList.head? ≠ some ' '

instance (l : String) : Decidable (IsLabel l) := inferInstanceAs (Decidable (_ ∧ _ ∧ _))

namespace Row

def text (r : Row) : List Char :=
  r.label.toList ++ match r.value with
    | none => []
    | some v => '\t' :: v.toList

def line (r : Row) : List Char := List.replicate (2 * r.level) ' ' ++ r.text

structure Clean (r : Row) : Prop where
  label : IsLabel r.label
  value : ∀ v, r.value = some v → '\n' ∉ v.toList

theorem Clean.newline_not_mem_line {r : Row} (h : r.Clean) : '\n' ∉ r.line := by
  obtain ⟨level, l, v⟩ := r
  have hlabel : '\n' ∉ l.toList := h.label.2.1
  cases v with
  | none => simp [line, text, hlabel]
  | some v =>
    have hvalue : '\n' ∉ v.toList := h.value v rfl
    simp [line, text, hlabel, hvalue]

theorem Clean.head?_text_ne {r : Row} (h : r.Clean) : r.text.head? ≠ some ' ' := by
  obtain ⟨level, l, v⟩ := r
  have hlabel : l.toList.head? ≠ some ' ' := h.label.2.2
  rw [text]
  cases hl : l.toList with
  | nil => cases v <;> simp
  | cons c r =>
    rw [hl] at hlabel
    exact hlabel

/-- The spaces before a text that starts with none are counted by what they stand before. -/
theorem spaces_append_inj {m n : Nat} {a b : List Char} (ha : a.head? ≠ some ' ')
    (hb : b.head? ≠ some ' ') (h : List.replicate m ' ' ++ a = List.replicate n ' ' ++ b) :
    m = n ∧ a = b := by
  induction m generalizing n with
  | zero =>
    cases n with
    | zero => exact ⟨rfl, h⟩
    | succ n =>
      have ha' : a = ' ' :: (List.replicate n ' ' ++ b) := h
      rw [ha'] at ha
      exact absurd rfl ha
  | succ m ih =>
    cases n with
    | zero =>
      have hb' : ' ' :: (List.replicate m ' ' ++ a) = b := h
      rw [← hb'] at hb
      exact absurd rfl hb
    | succ n =>
      obtain ⟨rfl, hab⟩ := ih (List.cons.inj h).2
      exact ⟨rfl, hab⟩

/-- A label ends at the first tab. -/
theorem takeWhile_text {r : Row} (h : '\t' ∉ r.label.toList) :
    r.text.takeWhile (· ≠ '\t') = r.label.toList := by
  have hall : ∀ c ∈ r.label.toList, decide (c ≠ '\t') = true := by
    intro c hc
    apply decide_eq_true
    rintro rfl
    exact h hc
  rw [text, List.takeWhile_append_of_pos hall]
  cases r.value <;> simp

/-- Rows are told apart by what is printed of them. -/
theorem line_injective {r r' : Row} (hr : r.Clean) (hr' : r'.Clean) (h : r.line = r'.line) :
    r = r' := by
  obtain ⟨hlevel, htext⟩ := spaces_append_inj hr.head?_text_ne hr'.head?_text_ne h
  have hlabel := takeWhile_text hr.label.1
  rw [htext, takeWhile_text hr'.label.1] at hlabel
  obtain ⟨level, l, v⟩ := r
  obtain ⟨level', l', v'⟩ := r'
  obtain rfl : level = level' := Nat.eq_of_mul_eq_mul_left (by decide) hlevel
  obtain rfl : l' = l := String.toList_inj.mp hlabel
  have hvalue := List.append_cancel_left htext
  cases v with
  | none =>
    cases v' with
    | none => rfl
    | some v' => simp at hvalue
  | some v =>
    cases v' with
    | none => simp at hvalue
    | some v' =>
      obtain rfl := String.toList_inj.mp (List.cons.inj hvalue).2
      rfl

/-- The text of rows, each with a line feed after it. -/
def print (rs : List Row) : List Char := rs.flatMap fun r => r.line ++ ['\n']

theorem print_cons (r : Row) (rs : List Row) : print (r :: rs) = r.line ++ '\n' :: print rs := by
  simp [print]

theorem print_append (rs rs' : List Row) : print (rs ++ rs') = print rs ++ print rs' :=
  List.flatMap_append

/-- The lines of printed rows, and nothing after the last line feed. -/
theorem lines_print {rs : List Row} (h : ∀ r ∈ rs, r.Clean) :
    Text.lines (print rs) = rs.map line ++ [[]] := by
  induction rs with
  | nil => rfl
  | cons r rs ih =>
    obtain ⟨hr, hrs⟩ := List.forall_mem_cons.mp h
    have hfirst : Text.lines r.line = [r.line] := Text.pieces_of_not_mem hr.newline_not_mem_line
    rw [print_cons, Text.lines_append, hfirst, ih hrs]
    rfl

/-- Clean rows can be read back from their text. -/
theorem print_injective {rs rs' : List Row} (h : ∀ r ∈ rs, r.Clean) (h' : ∀ r ∈ rs', r.Clean)
    (ht : print rs = print rs') : rs = rs' := by
  have hlines := congrArg Text.lines ht
  rw [lines_print h, lines_print h'] at hlines
  have hmap := List.append_cancel_right hlines
  clear ht hlines
  induction rs generalizing rs' with
  | nil => exact (List.map_eq_nil_iff.mp hmap.symm).symm
  | cons r rs ih =>
    obtain ⟨r', us, rfl, hline, hmap⟩ := List.map_eq_cons_iff.mp hmap.symm
    obtain ⟨hr, hrs⟩ := List.forall_mem_cons.mp h
    obtain ⟨hr', hus⟩ := List.forall_mem_cons.mp h'
    rw [line_injective hr' hr hline, ih hrs hus hmap.symm]

end Row

namespace Tree

/-- The value that is drawn of a node: that of a node with children is not. -/
def drawnValue (v : Option String) (cs : List Tree) : Option String :=
  if cs.isEmpty then v else none

mutual

/-- The rows of a drawing whose root stands at `level`. -/
def rows (level : Nat) : Tree → List Row
  | node l v cs => ⟨level, l, drawnValue v cs⟩ :: rowsAll (level + 1) cs

def rowsAll (level : Nat) : List Tree → List Row
  | [] => []
  | t :: ts => rows level t ++ rowsAll level ts

end

mutual

/-- What is left of a tree in a drawing: the values above the leaves are lost. -/
def bare : Tree → Tree
  | node l v cs => node l (drawnValue v cs) (bareAll cs)

def bareAll : List Tree → List Tree
  | [] => []
  | t :: ts => bare t :: bareAll ts

end

mutual

theorem length_rows : ∀ (level : Nat) (t : Tree), (rows level t).length = t.size
  | level, node l v cs => by rw [rows, List.length_cons, length_rowsAll (level + 1) cs, size]

theorem length_rowsAll : ∀ (level : Nat) (ts : List Tree), (rowsAll level ts).length = sizeAll ts
  | _, [] => rfl
  | level, t :: ts => by
    rw [rowsAll, List.length_append, length_rows level t, length_rowsAll level ts, sizeAll]

end

theorem exists_branch (t : Tree) : ∃ l ps, t.sketch = .branch l ps := by
  obtain ⟨l, v, cs⟩ := t
  cases cs with
  | nil => exact ⟨l, _, rfl⟩
  | cons c cs => exact ⟨l, _, rfl⟩

theorem toList_indent (level : Nat) :
    (Sketch.indent level).toList = List.replicate (2 * level) ' ' := by
  simp [Sketch.indent]

mutual

/-- A drawing is the print of its rows. -/
theorem toList_draw :
    ∀ (level : Nat) (t : Tree), (t.sketch.draw level).toList = Row.print (rows level t)
  | level, node l none [] => by
    simp [sketch, Sketch.draw, Sketch.drawAll, rows, rowsAll, Row.print, Row.line, Row.text,
      drawnValue, toList_indent]
  | level, node l (some v) [] => by
    simp [sketch, Sketch.draw, rows, rowsAll, Row.print, Row.line, Row.text, drawnValue,
      toList_indent]
  | level, node l v (c :: cs) => by
    have hdraw : (node l v (c :: cs)).sketch.draw level = Sketch.indent level ++ l ++ "\n" ++
        (c.sketch.draw (level + 1) ++ Sketch.drawAll (level + 1) (sketchAll cs)) := by
      obtain ⟨l', ps, hc⟩ := exists_branch c
      rw [sketch, hc]
      rfl
    have hroot : (Sketch.indent level ++ l ++ "\n").toList =
        Row.line ⟨level, l, drawnValue v (c :: cs)⟩ ++ ['\n'] := by
      simp [Row.line, Row.text, drawnValue, toList_indent]
    rw [hdraw, String.toList_append, hroot, String.toList_append, toList_draw (level + 1) c,
      toList_drawAll (level + 1) cs, rows, rowsAll, Row.print_cons, Row.print_append,
      List.append_assoc, List.singleton_append]

theorem toList_drawAll : ∀ (level : Nat) (ts : List Tree),
    (Sketch.drawAll level (sketchAll ts)).toList = Row.print (rowsAll level ts)
  | _, [] => rfl
  | level, t :: ts => by
    rw [sketchAll, Sketch.drawAll, String.toList_append, toList_draw level t,
      toList_drawAll level ts, rowsAll, Row.print_append]

end

/-- The rows `x` do not go on at `level` or deeper. -/
def StartsAbove (level : Nat) (x : List Row) : Prop := ∀ r ∈ x.head?, r.level < level

theorem rowsAll_cons_append (level : Nat) (l : String) (v : Option String) (cs ts : List Tree)
    (x : List Row) : rowsAll level (node l v cs :: ts) ++ x =
      ⟨level, l, drawnValue v cs⟩ :: (rowsAll (level + 1) cs ++ (rowsAll level ts ++ x)) := by
  simp [rowsAll, rows]

theorem startsAbove_rowsAll {level : Nat} {x : List Row} (h : StartsAbove level x)
    (ts : List Tree) : StartsAbove (level + 1) (rowsAll level ts ++ x) := by
  intro r hr
  cases ts with
  | nil =>
    have hlt := h r hr
    omega
  | cons t ts =>
    obtain ⟨l, v, cs⟩ := t
    rw [rowsAll_cons_append, List.head?_cons, Option.mem_some_iff] at hr
    rw [← hr]
    exact Nat.lt_succ_self level

/-- Trees can be read back, but for the values above leaves, if the rows after them start above
their level. -/
theorem rowsAll_append_inj : ∀ {level : Nat} {ts us : List Tree} {x y : List Row},
    StartsAbove level x → StartsAbove level y → rowsAll level ts ++ x = rowsAll level us ++ y →
    bareAll ts = bareAll us ∧ x = y
  | level, [], [], x, y, _, _, h => ⟨rfl, h⟩
  | level, [], node l v cs :: us, x, y, hx, _, h => by
    rw [rowsAll_cons_append, rowsAll, List.nil_append] at h
    have hroot := hx ⟨level, l, drawnValue v cs⟩ (by rw [h]; rfl)
    exact absurd hroot (Nat.lt_irrefl level)
  | level, node l v cs :: ts, [], x, y, _, hy, h => by
    rw [rowsAll_cons_append, rowsAll, List.nil_append] at h
    have hroot := hy ⟨level, l, drawnValue v cs⟩ (by rw [← h]; rfl)
    exact absurd hroot (Nat.lt_irrefl level)
  | level, node l v cs :: ts, node l' v' cs' :: us, x, y, hx, hy, h => by
    rw [rowsAll_cons_append, rowsAll_cons_append] at h
    obtain ⟨hrow, hbelow⟩ := List.cons.inj h
    obtain ⟨-, rfl, hvalue⟩ := Row.mk.inj hrow
    -- the children end where the level is left, and so do the trees after this one
    have hends := startsAbove_rowsAll hx ts
    have hends' := startsAbove_rowsAll hy us
    obtain ⟨hcs, hrest⟩ := rowsAll_append_inj hends hends' hbelow
    obtain ⟨hts, hxy⟩ := rowsAll_append_inj hx hy hrest
    rw [bareAll, bareAll, bare, bare, hvalue, hcs, hts]
    exact ⟨rfl, hxy⟩

theorem rows_injective {level : Nat} {t u : Tree} (h : rows level t = rows level u) :
    t.bare = u.bare := by
  have hnil : StartsAbove level [] := by
    intro r hr
    simp at hr
  have hforest : rowsAll level [t] ++ [] = rowsAll level [u] ++ [] := by
    rw [rowsAll, rowsAll, h]
    rfl
  have hbare := (rowsAll_append_inj hnil hnil hforest).1
  exact (List.cons.inj hbare).1

/-- Nodes that a drawing shows whole. -/
structure Legible (t : Tree) : Prop where
  label : IsLabel t.label
  value : ∀ v, t.value = some v → '\n' ∉ v.toList
  inner : t.children ≠ [] → t.value = none

mutual

theorem clean_of_mem_rows : ∀ (level : Nat) (t : Tree), (∀ u ∈ t.nodes, u.Legible) →
    ∀ r ∈ rows level t, r.Clean
  | level, node l v cs, h => by
    obtain ⟨hroot, hbelow⟩ := List.forall_mem_cons.mp h
    rw [rows, List.forall_mem_cons]
    refine ⟨⟨hroot.label, ?_⟩, clean_of_mem_rowsAll (level + 1) cs hbelow⟩
    intro w hw
    rw [drawnValue] at hw
    split at hw
    · exact hroot.value w hw
    · cases hw

theorem clean_of_mem_rowsAll : ∀ (level : Nat) (ts : List Tree), (∀ u ∈ nodesAll ts, u.Legible) →
    ∀ r ∈ rowsAll level ts, r.Clean
  | level, [], h => by simp [rowsAll]
  | level, t :: ts, h => by
    obtain ⟨ht, hts⟩ := List.forall_mem_append.mp h
    rw [rowsAll, List.forall_mem_append]
    exact ⟨clean_of_mem_rows level t ht, clean_of_mem_rowsAll level ts hts⟩

end

mutual

theorem bare_of_legible : ∀ t : Tree, (∀ u ∈ t.nodes, u.Legible) → t.bare = t
  | node l v cs, h => by
    obtain ⟨hroot, hbelow⟩ := List.forall_mem_cons.mp h
    have hvalue : drawnValue v cs = v := by
      cases cs with
      | nil => rfl
      | cons c cs => exact (hroot.inner (List.cons_ne_nil c cs)).symm
    rw [bare, hvalue, bareAll_of_legible cs hbelow]

theorem bareAll_of_legible : ∀ ts : List Tree, (∀ u ∈ nodesAll ts, u.Legible) → bareAll ts = ts
  | [], h => rfl
  | t :: ts, h => by
    obtain ⟨ht, hts⟩ := List.forall_mem_append.mp h
    rw [bareAll, bare_of_legible t ht, bareAll_of_legible ts hts]

end

/-- A drawing has a line for each node. -/
theorem exists_lines_pretty {t : Tree} (h : ∀ w ∈ t.nodes, w.Legible) :
    ∃ ls, Text.lines t.pretty.toList = ls ++ [[]] ∧ ls.length = t.nodes.length := by
  refine ⟨(rows 0 t).map Row.line, ?_, ?_⟩
  · rw [pretty, toList_draw, Row.lines_print (clean_of_mem_rows 0 t h)]
  · rw [List.length_map, length_rows, length_nodes]

/-- Equal drawings are of equal trees. -/
theorem eq_of_pretty {t u : Tree} (ht : ∀ w ∈ t.nodes, w.Legible) (hu : ∀ w ∈ u.nodes, w.Legible)
    (h : t.pretty = u.pretty) : t = u := by
  have hprint : Row.print (rows 0 t) = Row.print (rows 0 u) := by
    rw [← toList_draw, ← toList_draw]
    exact congrArg String.toList h
  have hrows := Row.print_injective (clean_of_mem_rows 0 t ht) (clean_of_mem_rows 0 u hu) hprint
  rw [← bare_of_legible t ht, ← bare_of_legible u hu, rows_injective hrows]

end Tree

end ExprLine
