/-
Crossover.Proofs.Disk.Files — what the requests of a disk do to its files.

Directories come and go beside the files; what matters for the contents of a disk is `fileAt`, the text
at every place. A request either fails and changes nothing or changes the files at one or two places
(`fileAt_write`, `fileAt_rename`), so that writing a file as a whole can be told exactly: on success its
text is at its place and nothing is left where it was staged (`replace_eq_ok`), on failure no file has
changed but the staged one (`replace_eq_error`).

  §1 Files      — the text at a place, and trees with one more or one less.
  §2 Requests   — making directories, writing, renaming.
  §3 Replacing  — the three requests in a row.
-/
import Crossover.Proofs.Disk.Attempt
import Crossover.Proofs.Disk.Place

namespace Crossover

/-! ## §1 Files -/

/-- The texts of some files by their places. -/
abbrev Files := Place → Option String

namespace Files

/-- The files with one more. -/
def put (v : Files) (place : Place) (text : String) : Files :=
  fun q => if q = place then some text else v q

/-- The files without one. -/
def drop (v : Files) (place : Place) : Files :=
  fun q => if q = place then none else v q

@[simp] theorem put_self (v : Files) (place : Place) (text : String) :
    v.put place text place = some text := if_pos rfl

theorem put_of_ne (v : Files) {place q : Place} (h : q ≠ place) (text : String) :
    v.put place text q = v q := if_neg h

@[simp] theorem drop_self (v : Files) (place : Place) : v.drop place place = none := if_pos rfl

theorem drop_of_ne (v : Files) {place q : Place} (h : q ≠ place) : v.drop place q = v q := if_neg h

@[simp] theorem drop_put (v : Files) (place : Place) (text : String) :
    (v.put place text).drop place = v.drop place := by
  funext q
  by_cases hq : q = place
  · rw [hq, drop_self, drop_self]
  · rw [drop_of_ne _ hq, put_of_ne _ hq, drop_of_ne _ hq]

end Files

namespace FileTree

variable {t u : FileTree}

/-- The text of the file at a place. -/
def fileAt (t : FileTree) : Files := fun place =>
  match t.at? place with
  | some (.file text) => some text
  | _ => none

theorem fileAt_eq_some {place : Place} {text : String} (h : t.at? place = some (.file text)) :
    t.fileAt place = some text := by
  rw [fileAt, h]

theorem at?_of_fileAt {place : Place} {text : String} (h : t.fileAt place = some text) :
    t.at? place = some (.file text) := by
  unfold fileAt at h
  split at h
  · cases h
    assumption
  · cases h

theorem fileAt_insert_file {place : Place} (h : place ≠ []) (text : String) :
    (t.insert place (.file text)).fileAt = t.fileAt.put place text := by
  funext q
  by_cases hq : q = place
  · rw [hq, Files.put_self, fileAt, at?_insert_self t h]
  · rw [Files.put_of_ne _ hq, fileAt, at?_insert_of_ne t hq, fileAt]

theorem fileAt_insert_directory {place : Place} (h : t.at? place = none) :
    (t.insert place .directory).fileAt = t.fileAt := by
  have hroot : place ≠ [] := by
    rintro rfl
    cases h
  funext q
  by_cases hq : q = place
  · rw [hq, fileAt, at?_insert_self t hroot, fileAt, h]
  · rw [fileAt, at?_insert_of_ne t hq, fileAt]

theorem lookup_filter_self (place : Place) (entries : List (Place × Node)) :
    (entries.filter fun e => e.1 ≠ place).lookup place = none := by
  rw [List.lookup_eq_none_iff]
  intro e he
  have hne : e.1 ≠ place := by simpa using (List.mem_filter.1 he).2
  exact bne_iff_ne.2 hne.symm

theorem at?_erase_self (t : FileTree) {place : Place} (h : place ≠ []) :
    (t.erase place).at? place = none := by
  unfold at? erase
  split
  · contradiction
  · exact lookup_filter_self _ t.entries

theorem at?_erase_of_ne (t : FileTree) {place other : Place} (h : other ≠ place) :
    (t.erase place).at? other = t.at? other := by
  unfold at? erase
  split
  · rfl
  · exact lookup_filter_of_ne h t.entries

theorem fileAt_erase (place : Place) : (t.erase place).fileAt = t.fileAt.drop place := by
  funext q
  by_cases hq : q = place
  · rw [hq, Files.drop_self, fileAt]
    by_cases hroot : place = []
    · rw [hroot]
      rfl
    · rw [at?_erase_self t hroot]
  · rw [Files.drop_of_ne _ hq, fileAt, at?_erase_of_ne t hq, fileAt]

/-! ## §2 Requests -/

/-- What can be read at a path that can be followed is the file at its place, if the path may mean a file. -/
theorem read_eq_ok_iff {p : Path} {text : String} : t.read p = .ok text ↔
    t.locate p = .ok p.place ∧ t.at? p.place = some (.file text) ∧
      p.endsInSlash = false ∧ p.endsInDots = false := by
  unfold read inspect
  cases hl : t.locate p with
  | error fault => simp [bind, Except.bind]
  | ok place =>
    rw [← locate_eq_ok hl]
    cases ha : t.at? place with
    | none => simp [ha, bind, Except.bind]
    | some node =>
      cases node with
      | directory => simp [ha, bind, Except.bind]
      | file content =>
        cases hslash : p.endsInSlash <;> cases hdots : p.endsInDots <;> simp [ha, bind, Except.bind]

/-- A directory is made at the place of its path, where there was nothing. -/
theorem makeDirectory_eq_ok {p : Path} (h : t.makeDirectory p = .ok u) :
    t.at? p.place = none ∧ u = t.insert p.place .directory := by
  unfold makeDirectory at h
  cases hl : t.locate p with
  | error fault => rw [hl] at h; cases h
  | ok place =>
    rw [← locate_eq_ok hl]
    cases ha : t.at? place with
    | some node => simp [hl, ha, bind, Except.bind] at h
    | none =>
      simp only [hl, ha, bind, Except.bind] at h
      cases h
      exact ⟨rfl, rfl⟩

/-- A file is written at the place of its path, where there was no directory. -/
theorem write_eq_ok {p : Path} {text : String} (h : t.write p text = .ok u) :
    t.at? p.place ≠ some .directory ∧ u = t.insert p.place (.file text) := by
  unfold write at h
  cases hl : t.locate p with
  | error fault => rw [hl] at h; cases h
  | ok place =>
    rw [← locate_eq_ok hl]
    simp only [hl, bind, Except.bind] at h
    split at h
    · cases h
    · rename_i hdirectory
      split at h
      · cases h
      · cases h
        exact ⟨hdirectory, rfl⟩

/-- What a disk has found before it renames a file. -/
structure Renames (t : FileTree) (source target : Path) (text : String) : Prop where
  sourceFound : t.locate source = .ok source.place
  targetFound : t.locate target = .ok target.place
  file : t.at? source.place = some (.file text)
  noDirectory : t.at? target.place ≠ some .directory
  noSlash : target.endsInSlash = false
  noDots : target.endsInDots = false

/-- A file is renamed by taking it away from the place of its path and putting it at that of the other. -/
theorem rename_eq_ok {source target : Path} (h : t.rename source target = .ok u) :
    ∃ text, t.Renames source target text ∧
      u = (t.erase source.place).insert target.place (.file text) := by
  unfold rename at h
  cases hs : t.locate source with
  | error fault => rw [hs] at h; cases h
  | ok sourcePlace =>
    cases ht : t.locate target with
    | error fault => simp [hs, ht, bind, Except.bind] at h
    | ok targetPlace =>
      rw [locate_eq_ok hs] at hs
      rw [locate_eq_ok ht] at ht
      simp only [hs, ht, bind, Except.bind] at h
      split at h
      · cases h
      · rename_i hdots
        split at h
        · rename_i text hfile
          split at h
          · cases h
          · rename_i hslash
            split at h
            · cases h
            · rename_i hdirectory
              cases h
              exact ⟨text, ⟨hs, ht, hfile, hdirectory, by simpa using hslash, by simpa using hdots⟩, rfl⟩
        · cases h
        · cases h

theorem ne_root_of_noDirectory {place : Place} (h : t.at? place ≠ some .directory) : place ≠ [] := by
  rintro rfl
  exact h rfl

/-- A new directory changes no file. -/
theorem fileAt_makeDirectory {p : Path} (h : t.makeDirectory p = .ok u) : u.fileAt = t.fileAt := by
  obtain ⟨hnone, rfl⟩ := makeDirectory_eq_ok h
  exact fileAt_insert_directory hnone

/-- Writing to a path changes the file at its place. -/
theorem fileAt_write {p : Path} {text : String} (h : t.write p text = .ok u) :
    u.fileAt = t.fileAt.put p.place text := by
  obtain ⟨hdirectory, rfl⟩ := write_eq_ok h
  exact fileAt_insert_file (ne_root_of_noDirectory hdirectory) text

/-- Renaming takes the file away from one place and puts it at another. -/
theorem fileAt_rename {source target : Path} (h : t.rename source target = .ok u) :
    ∃ text, t.fileAt source.place = some text ∧
      u.fileAt = (t.fileAt.drop source.place).put target.place text := by
  obtain ⟨text, hrenames, rfl⟩ := rename_eq_ok h
  refine ⟨text, fileAt_eq_some hrenames.file, ?_⟩
  rw [fileAt_insert_file (ne_root_of_noDirectory hrenames.noDirectory), fileAt_erase]

end FileTree

/-! ## §3 Replacing -/

namespace DiskAction

open FileTree

variable {ε α : Type}

theorem Keeps.makeDirectory (p : Path) {next : Except DiskFault Unit → DiskAction α}
    (h : ∀ r, Keeps fileAt (next r)) : Keeps fileAt (.makeDirectory p next) := by
  intro t
  refine (h _ _).trans ?_
  cases hm : t.makeDirectory p with
  | error fault => rfl
  | ok u => exact fileAt_makeDirectory hm

theorem keeps_answerToMake (p : Path) : Keeps fileAt (answerToMake p).run :=
  Keeps.lift (Keeps.makeDirectory p Keeps.pure)

theorem keeps_accept (p : Path) (answer : Except DiskFault Unit) : Keeps fileAt (accept p answer).run := by
  cases answer with
  | ok x => exact Keeps.pure _
  | error fault =>
    refine Keeps.inspect p fun r => ?_
    split
    · exact Keeps.pure _
    · exact Keeps.pure _

/-- Making directories changes no file, whether it succeeds or not. -/
theorem keeps_ensureDirectories (paths : List Path) : Keeps fileAt (ensureDirectories paths).run := by
  induction paths with
  | nil => exact Keeps.pure _
  | cons p outer ih =>
    rw [ensureDirectories]
    refine Keeps.bindAttempt (keeps_answerToMake p) fun answer => ?_
    split
    · refine Keeps.bindAttempt ih fun _ => ?_
      exact Keeps.bindAttempt (keeps_answerToMake p) fun again => keeps_accept p again
    · exact keeps_accept p _

theorem run_write (p : Path) (text : String) (t : FileTree) :
    (ExceptT.mk (write p text done) : Attempt DiskFault Unit).run.on t =
      match t.write p text with
      | .ok u => (.ok (), u)
      | .error fault => (.error fault, t) := by
  show ((settle t (t.write p text)).2, (settle t (t.write p text)).1) = _
  cases t.write p text <;> rfl

theorem run_rename (source target : Path) (t : FileTree) :
    (ExceptT.mk (rename source target done) : Attempt DiskFault Unit).run.on t =
      match t.rename source target with
      | .ok u => (.ok (), u)
      | .error fault => (.error fault, t) := by
  show ((settle t (t.rename source target)).2, (settle t (t.rename source target)).1) = _
  cases t.rename source target <;> rfl

/-- Writes the text of a file beside it. -/
def stageText (p : Path) (text : String) : Attempt DiskFault Unit := do
  makeParents p
  ExceptT.mk (write p.staging text done)

theorem replace_eq (p : Path) (text : String) :
    replace p text = (do
      stageText p text
      ExceptT.mk (rename p.staging p done)) := by
  simp only [replace, stageText, bind_assoc]

theorem stageText_eq_ok {p : Path} {text : String} {t u : FileTree}
    (h : (stageText p text).run.on t = (.ok (), u)) :
    u.fileAt = t.fileAt.put p.staging.place text := by
  have hparents := keeps_ensureDirectories p.lineage.tail t
  obtain ⟨_, made, hmade, hwrite⟩ := run_bind_eq_ok h
  rw [show (ensureDirectories p.lineage.tail).run.on t = (.ok _, made) from hmade] at hparents
  rw [run_write] at hwrite
  split at hwrite
  · rename_i written hwritten
    cases hwrite
    rw [fileAt_write hwritten, hparents]
  · cases hwrite

theorem stageText_eq_error {p : Path} {text : String} {t u : FileTree} {fault : DiskFault}
    (h : (stageText p text).run.on t = (.error fault, u)) : u.fileAt = t.fileAt := by
  have hparents := keeps_ensureDirectories p.lineage.tail t
  rcases run_bind_eq_error h with hmade | ⟨_, made, hmade, hwrite⟩
  · rwa [show (ensureDirectories p.lineage.tail).run.on t = (.error fault, u) from hmade] at hparents
  · rw [show (ensureDirectories p.lineage.tail).run.on t = (.ok _, made) from hmade] at hparents
    rw [run_write] at hwrite
    split at hwrite
    · cases hwrite
    · cases hwrite
      exact hparents

/-- A file that has been replaced has its new text, and nothing is left where it was staged. -/
theorem replace_eq_ok {p : Path} {text : String} {t u : FileTree}
    (h : (replace p text).run.on t = (.ok (), u)) :
    u.fileAt = (t.fileAt.drop p.staging.place).put p.place text := by
  rw [replace_eq] at h
  obtain ⟨_, staged, hstaged, hrename⟩ := run_bind_eq_ok h
  have hfiles := stageText_eq_ok hstaged
  rw [run_rename] at hrename
  split at hrename
  · rename_i renamed hrenamed
    cases hrename
    obtain ⟨found, hfound, hmoved⟩ := fileAt_rename hrenamed
    rw [hfiles, Files.put_self] at hfound
    cases hfound
    rw [hmoved, hfiles, Files.drop_put]
  · cases hrename

/-- A file that could not be replaced is as it was, as is every other one but the staged one. -/
theorem replace_eq_error {p : Path} {text : String} {t u : FileTree} {fault : DiskFault}
    (h : (replace p text).run.on t = (.error fault, u)) :
    u.fileAt = t.fileAt ∨ u.fileAt = t.fileAt.put p.staging.place text := by
  rw [replace_eq] at h
  rcases run_bind_eq_error h with hstaged | ⟨_, staged, hstaged, hrename⟩
  · exact .inl (stageText_eq_error hstaged)
  · rw [run_rename] at hrename
    split at hrename
    · cases hrename
    · cases hrename
      exact .inr (stageText_eq_ok hstaged)

end DiskAction

end Crossover
