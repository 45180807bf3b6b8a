/-
Crossover.Proofs.Disk.Place — where a path leads, whatever the disk holds.

The place at which following a path ends depends on its steps alone (`locate_eq_ok`); what the disk
holds only decides whether it ends there at all. A path and its staging path never lead to one place
(`staging_place_ne`): added at the end of a text, the ending of the staging path becomes part of the
last name, which is then neither empty nor made of points. The directories on the way to a path take the
first steps of the path, and not all of them (`exists_steps_of_mem_lineage`).

  §1 Following — where steps lead.
  §2 Staging   — the path beside a path.
  §3 Lineage   — the directories on the way.
-/
import Crossover.Disk.FileTree

namespace Crossover

open FileTree

/-! ## §1 Following -/

/-- The place to which a path leads from the root. -/
def Path.place (p : Path) : Place :=
  p.steps.foldl enter []

theorem follow_eq_ok {t : FileTree} {steps : List String} {start found : Place}
    (h : t.follow start steps = .ok found) : found = steps.foldl enter start := by
  induction steps generalizing start with
  | nil =>
    cases h
    rfl
  | cons step rest ih =>
    rw [follow] at h
    split at h
    · cases h
    · split at h
      · rename_i hlast
        cases h
        rw [List.isEmpty_iff.1 hlast]
        rfl
      · split at h
        · exact ih h
        · cases h
        · cases h

/-- Following steps takes directories, and nothing else. -/
theorem follow_mono {t u : FileTree} (h : ∀ q, t.at? q = some .directory → u.at? q = some .directory)
    {steps : List String} {start found : Place} (hfound : t.follow start steps = .ok found) :
    u.follow start steps = .ok found := by
  induction steps generalizing start with
  | nil => exact hfound
  | cons step rest ih =>
    rw [follow] at hfound ⊢
    split at hfound
    · cases hfound
    · rename_i hlength
      rw [if_neg hlength]
      split at hfound
      · rename_i hlast
        rwa [if_pos hlast]
      · rename_i hlast
        rw [if_neg hlast]
        split at hfound
        · rename_i hdirectory
          rw [h _ hdirectory]
          exact ih hfound
        · cases hfound
        · cases hfound

theorem locate_mono {t u : FileTree} (h : ∀ q, t.at? q = some .directory → u.at? q = some .directory)
    {p : Path} {found : Place} (hfound : t.locate p = .ok found) : u.locate p = .ok found := by
  unfold locate at hfound ⊢
  split at hfound
  · cases hfound
  · exact follow_mono h hfound

/-- A path that can be followed leads to its place. -/
theorem locate_eq_ok {t : FileTree} {p : Path} {found : Place} (h : t.locate p = .ok found) :
    found = p.place := by
  unfold locate at h
  split at h
  · cases h
  · exact follow_eq_ok h

/-! ## §2 Staging -/

/-- The names among some pieces of a path. -/
def names (pieces : List (List Char)) : List String :=
  (pieces.map String.ofList).filter fun s => s ≠ "" ∧ s ≠ "."

theorem steps_eq (p : Path) : p.steps = names (p.text.toList.splitOn '/') := rfl

theorem names_append (front back : List (List Char)) :
    names (front ++ back) = names front ++ names back := by
  simp [names]

theorem names_singleton (piece : List Char) :
    names [piece] =
      if String.ofList piece ≠ "" ∧ String.ofList piece ≠ "." then [String.ofList piece] else [] := by
  simp only [names, List.map_cons, List.map_nil, List.filter_cons, List.filter_nil,
    decide_eq_true_eq]

/-- What is added to a text without a slash goes into its last piece. -/
theorem splitOn_append_end (cs : List Char) : ∃ front last, ∀ ending : List Char, '/' ∉ ending →
    (cs ++ ending).splitOn '/' = front ++ [last ++ ending] := by
  induction cs with
  | nil => exact ⟨[], [], fun ending h => List.splitOn_eq_singleton h⟩
  | cons c cs ih =>
    obtain ⟨front, last, hsplit⟩ := ih
    by_cases hc : c = '/'
    · refine ⟨[] :: front, last, fun ending h => ?_⟩
      rw [List.cons_append, List.splitOn_cons_eq_if_modifyHead, if_pos (beq_iff_eq.2 hc),
        hsplit ending h, List.cons_append]
    · cases front with
      | nil =>
        refine ⟨[], c :: last, fun ending h => ?_⟩
        rw [List.cons_append, List.splitOn_cons_eq_if_modifyHead, if_neg (by simp [hc]),
          hsplit ending h]
        rfl
      | cons piece front =>
        refine ⟨(c :: piece) :: front, last, fun ending h => ?_⟩
        rw [List.cons_append, List.splitOn_cons_eq_if_modifyHead, if_neg (by simp [hc]),
          hsplit ending h]
        rfl

/-- The name under which a last piece is staged. -/
def stagedName (last : List Char) : String :=
  String.ofList (last ++ ".tmp".toList)

theorem toList_stagedName (last : List Char) : (stagedName last).toList = last ++ ['.', 't', 'm', 'p'] :=
  String.toList_ofList

theorem stagedName_ne {last : List Char} {s : String} (h : s.toList.length < 4) :
    stagedName last ≠ s := by
  intro hs
  have := congrArg (fun s => s.toList.length) hs
  simp only [toList_stagedName, List.length_append, List.length_cons, List.length_nil] at this
  omega

/-- A path leads to, or up from, the directory in which it is staged, or to something else in it. -/
theorem place_cases (p : Path) : ∃ (dir : Place) (last : List Char),
    p.staging.place = dir ++ [stagedName last] ∧
      (p.place = dir ∨ p.place = dir.dropLast ∨ p.place = dir ++ [String.ofList last]) := by
  obtain ⟨front, last, hsplit⟩ := splitOn_append_end p.text.toList
  refine ⟨(names front).foldl enter [], last, ?_, ?_⟩
  · have hname : names [last ++ ".tmp".toList] = [stagedName last] := by
      have hempty : stagedName last ≠ "" := stagedName_ne (by decide)
      have hpoint : stagedName last ≠ "." := stagedName_ne (by decide)
      rw [names_singleton]
      exact if_pos ⟨hempty, hpoint⟩
    have hup : stagedName last ≠ ".." := stagedName_ne (by decide)
    have htext : p.staging.text.toList = p.text.toList ++ ".tmp".toList := String.toList_append
    rw [Path.place, steps_eq, htext, hsplit _ (by decide), names_append, hname, List.foldl_append]
    exact if_neg hup
  · have hplain := hsplit [] (by simp)
    rw [List.append_nil, List.append_nil] at hplain
    rw [Path.place, steps_eq, hplain, names_append, List.foldl_append]
    rw [names_singleton]
    split
    · right
      by_cases hup : String.ofList last = ".."
      · exact .inl (if_pos hup)
      · exact .inr (if_neg hup)
    · exact .inl rfl

/-- A path is never staged at its own place. -/
theorem staging_place_ne (p : Path) : p.staging.place ≠ p.place := by
  obtain ⟨dir, last, hstaging, hplace⟩ := place_cases p
  rw [hstaging]
  rcases hplace with hplace | hplace | hplace
  · rw [hplace]
    intro h
    have := congrArg List.length h
    simp at this
  · rw [hplace]
    intro h
    have := congrArg List.length h
    simp only [List.length_append, List.length_dropLast, List.length_cons, List.length_nil] at this
    omega
  · rw [hplace]
    intro h
    have hname : stagedName last = String.ofList last := by
      injection List.append_cancel_left h
    have := congrArg (fun s => s.toList.length) hname
    simp [toList_stagedName] at this

/-! ## §3 Lineage -/

/-- No piece of a text has the character at which the text was split. -/
theorem notMem_of_mem_splitOn {c : Char} {cs piece : List Char} (h : piece ∈ cs.splitOn c) : c ∉ piece := by
  induction cs generalizing piece with
  | nil =>
    rw [List.splitOn_nil, List.mem_singleton] at h
    rw [h]
    exact List.not_mem_nil
  | cons d cs ih =>
    obtain ⟨first, rest, hcons⟩ := List.exists_cons_of_ne_nil (List.splitOn_ne_nil c cs)
    rw [List.splitOn_cons_eq_if_modifyHead] at h
    split at h
    · rcases List.mem_cons.1 h with rfl | hmem
      · exact List.not_mem_nil
      · exact ih hmem
    · rename_i hne
      rw [hcons, List.modifyHead_cons] at h
      rcases List.mem_cons.1 h with rfl | hmem
      · have hfirst := ih (hcons ▸ List.mem_cons_self)
        have hdc : c ≠ d := fun heq => hne (beq_iff_eq.2 heq.symm)
        simp [hdc, hfirst]
      · exact ih (hcons ▸ List.mem_cons_of_mem first hmem)

/-- A step is a name without a slash. -/
theorem step_of_mem_steps {p : Path} {s : String} (h : s ∈ p.steps) :
    '/' ∉ s.toList ∧ s ≠ "" ∧ s ≠ "." := by
  rw [Path.steps, List.mem_filter, List.mem_map, decide_eq_true_eq] at h
  obtain ⟨⟨piece, hpiece, rfl⟩, hname⟩ := h
  rw [String.toList_ofList]
  exact ⟨notMem_of_mem_splitOn hpiece, hname⟩

/-- Steps with slashes between them, and one in front or not, are the steps of their text. -/
theorem steps_intercalate {names : List String} (hne : names ≠ [])
    (h : ∀ s ∈ names, '/' ∉ s.toList ∧ s ≠ "" ∧ s ≠ ".") (root : String) (hroot : root = "/" ∨ root = "") :
    Path.steps ⟨root ++ "/".intercalate names⟩ = names := by
  have hsplit : (("/".intercalate names).toList).splitOn '/' = names.map String.toList := by
    rw [String.toList_intercalate]
    refine List.splitOn_intercalate '/' ?_ (by simpa using hne)
    intro piece hpiece
    obtain ⟨s, hs, rfl⟩ := List.mem_map.1 hpiece
    exact (h s hs).1
  have hpieces : (names.map String.toList).map String.ofList = names := by
    simp [Function.comp_def, String.ofList_toList]
  have hnames : names.filter (fun s => decide (s ≠ "" ∧ s ≠ ".")) = names :=
    List.filter_eq_self.2 fun s hs => decide_eq_true (h s hs).2
  rw [Path.steps, String.toList_append]
  rcases hroot with rfl | rfl
  · have hslash : ("/" : String).toList = ['/'] := rfl
    rw [hslash, List.singleton_append, List.splitOn_cons_eq_if_modifyHead, if_pos (beq_self_eq_true '/'),
      hsplit, List.map_cons, hpieces, List.filter_cons_of_neg (by simp), hnames]
  · have hempty : ("" : String).toList = [] := rfl
    rw [hempty, List.nil_append, hsplit, hpieces, hnames]

/-- A directory on the way to a path takes some of its first steps, but not all. -/
theorem exists_steps_of_mem_lineage {p d : Path} (h : d ∈ p.lineage.tail) :
    ∃ k, 0 < k ∧ k < p.steps.length ∧ d.steps = p.steps.take k := by
  rw [Path.lineage, ← List.map_tail, List.tail_range, List.mem_map] at h
  obtain ⟨k, hk, rfl⟩ := h
  obtain ⟨hfirst, hlast⟩ := List.mem_range'_1.1 hk
  refine ⟨p.steps.length - k, by omega, by omega, ?_⟩
  refine steps_intercalate ?_ (fun s hs => step_of_mem_steps (List.mem_of_mem_take hs)) _ ?_
  · rw [← List.length_pos_iff, List.length_take]
    omega
  · split
    · exact .inl rfl
    · exact .inr rfl

/-- A place to which some of the first steps of a path lead. -/
def Path.Above (p : Path) (q : Place) : Prop :=
  ∃ k, 0 < k ∧ k < p.steps.length ∧ q = (p.steps.take k).foldl enter []

theorem above_of_mem_lineage {p d : Path} (h : d ∈ p.lineage.tail) : p.Above d.place := by
  obtain ⟨k, hpos, hlt, hsteps⟩ := exists_steps_of_mem_lineage h
  exact ⟨k, hpos, hlt, congrArg (List.foldl enter []) hsteps⟩

end Crossover
