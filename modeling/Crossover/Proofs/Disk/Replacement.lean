/-
Crossover.Proofs.Disk.Replacement — a file is replaced as a whole or not at all.

Up to the moment at which the staged file is renamed, a tree has changed in two ways only: directories on the way
to the file have been made where there was nothing (`Grown`), and something may stand where the file is staged
(`Touched`). Both are carried along every run (`Progress`), so it makes no difference at which step a run fails or
stops. Renaming is the last step, puts the text in place and takes it away from where it was staged.

  §1 Growth    — directories that are made.
  §2 Staging   — a file that is being written.
  §3 Replacing — the three requests in a row, at every moment.
-/
import Crossover.Proofs.Disk.Moments

namespace Crossover

open FileTree

/-! ## §1 Growth -/

/-- Directories have been made where some paths lead and nothing was. -/
def Grown (paths : List Path) (t u : FileTree) : Prop :=
  ∀ q, u.at? q = t.at? q ∨ (t.at? q = none ∧ u.at? q = some .directory ∧ ∃ d ∈ paths, q = d.place)

theorem Grown.refl (paths : List Path) (t : FileTree) : Grown paths t t := fun _ => .inl rfl

theorem Grown.trans {paths : List Path} {t u v : FileTree} (h : Grown paths t u) (k : Grown paths u v) :
    Grown paths t v := by
  intro q
  rcases k q with hsame | ⟨hnone, hmade, hpath⟩
  · rw [hsame]
    exact h q
  · rcases h q with hfirst | ⟨-, hdirectory, -⟩
    · rw [← hfirst]
      exact .inr ⟨hnone, hmade, hpath⟩
    · rw [hdirectory] at hnone
      cases hnone

theorem Grown.mono {paths more : List Path} {t u : FileTree} (h : Grown paths t u)
    (hmore : ∀ d ∈ paths, d ∈ more) : Grown more t u := by
  intro q
  rcases h q with hsame | ⟨hnone, hmade, d, hd, hq⟩
  · exact .inl hsame
  · exact .inr ⟨hnone, hmade, d, hmore d hd, hq⟩

theorem grown_insert {paths : List Path} {t : FileTree} {d : Path} (hd : d ∈ paths) (h : t.at? d.place = none) :
    Grown paths t (t.insert d.place .directory) := by
  intro q
  by_cases hq : q = d.place
  · subst hq
    refine .inr ⟨h, at?_insert_self t ?_ .directory, d, hd, rfl⟩
    exact ne_root_of_noDirectory (t := t) (by simp [h])
  · exact .inl (at?_insert_of_ne t hq .directory)

/-- Making directories changes no file. -/
theorem Grown.fileAt_eq {paths : List Path} {t u : FileTree} (h : Grown paths t u) : u.fileAt = t.fileAt := by
  funext q
  rcases h q with hsame | ⟨hnone, hmade, -⟩
  · rw [fileAt, fileAt, hsame]
  · rw [fileAt, fileAt, hnone, hmade]

namespace DiskAction

variable {α β ε : Type}

/-- Nothing has been renamed. -/
def NothingRenamed (es : List Event) : Prop :=
  ∀ source target, Event.renamed source target ∉ es

theorem NothingRenamed.append {es fs : List Event} (h : NothingRenamed es) (k : NothingRenamed fs) :
    NothingRenamed (es ++ fs) := by
  intro source target hmem
  rcases List.mem_append.1 hmem with hes | hfs
  · exact h source target hes
  · exact k source target hfs

/-- An action that does nothing but make directories at some paths, whatever happens to its requests. -/
def Grows (paths : List Path) (a : DiskAction α) : Prop :=
  ∀ t es b u, Run a t es b u → Grown paths t u ∧ NothingRenamed es

namespace Grows

variable {paths : List Path}

theorem pure (x : α) : Grows paths (done x) := by
  intro t es b u h
  obtain ⟨rfl, rfl, rfl⟩ := h.of_done
  exact ⟨.refl paths u, by simp [NothingRenamed]⟩

theorem inspect (p : Path) {next : Except DiskFault Kind → DiskAction α} (h : ∀ r, Grows paths (next r)) :
    Grows paths (.inspect p next) := by
  intro t es b u hrun
  cases hrun with
  | stop => exact ⟨.refl paths t, by simp [NothingRenamed]⟩
  | next hstep hrest =>
    cases hstep with
    | inspect _ =>
      obtain ⟨hgrown, hnone⟩ := h _ _ _ _ _ hrest
      exact ⟨hgrown, by simpa [NothingRenamed] using hnone⟩

theorem makeDirectory {p : Path} (hp : p ∈ paths) {next : Except DiskFault Unit → DiskAction α}
    (h : ∀ r, Grows paths (next r)) : Grows paths (.makeDirectory p next) := by
  intro t es b u hrun
  cases hrun with
  | stop => exact ⟨.refl paths t, by simp [NothingRenamed]⟩
  | next hstep hrest =>
    cases hstep with
    | make hmade =>
      obtain ⟨hempty, rfl⟩ := makeDirectory_eq_ok hmade
      obtain ⟨hgrown, hnone⟩ := h _ _ _ _ _ hrest
      exact ⟨(grown_insert hp hempty).trans hgrown, by simpa [NothingRenamed] using hnone⟩
    | refuseMake fault =>
      obtain ⟨hgrown, hnone⟩ := h _ _ _ _ _ hrest
      exact ⟨hgrown, by simpa [NothingRenamed] using hnone⟩

theorem bind {a : DiskAction α} {f : α → DiskAction β} (ha : Grows paths a) (hf : ∀ x, Grows paths (f x)) :
    Grows paths (a.bind f) := by
  intro t es b u h
  rcases h.of_bind with ⟨a', hrun, -⟩ | ⟨x, s, front, back, rfl, hrun, hback⟩
  · exact ha _ _ _ _ hrun
  · obtain ⟨hfirst, hnone⟩ := ha _ _ _ _ hrun
    obtain ⟨hsecond, hnoneBack⟩ := hf x _ _ _ _ hback
    exact ⟨hfirst.trans hsecond, hnone.append hnoneBack⟩

theorem bindAttempt {a : Attempt ε α} {f : α → Attempt ε β} (ha : Grows paths a.run)
    (hf : ∀ x, Grows paths (f x).run) : Grows paths (a >>= f).run := by
  refine bind (f := ExceptT.bindCont f) ha fun outcome => ?_
  cases outcome with
  | ok x => exact hf x
  | error e => exact pure _

theorem mono {more : List Path} {a : DiskAction α} (h : Grows paths a) (hmore : ∀ d ∈ paths, d ∈ more) :
    Grows more a := by
  intro t es b u hrun
  obtain ⟨hgrown, hnone⟩ := h _ _ _ _ hrun
  exact ⟨hgrown.mono hmore, hnone⟩

end Grows

theorem grows_answerToMake {paths : List Path} {p : Path} (hp : p ∈ paths) :
    Grows paths (answerToMake p).run :=
  Grows.bind (Grows.makeDirectory hp Grows.pure) fun r => Grows.pure (Except.ok r)

theorem grows_accept (paths : List Path) (p : Path) (answer : Except DiskFault Unit) :
    Grows paths (accept p answer).run := by
  cases answer with
  | ok x => exact Grows.pure _
  | error fault =>
    refine Grows.inspect p fun r => ?_
    split
    · exact Grows.pure _
    · exact Grows.pure _

/-- Directories are made only at the paths at which they are wanted. -/
theorem grows_ensureDirectories (paths : List Path) : Grows paths (ensureDirectories paths).run := by
  induction paths with
  | nil => exact Grows.pure _
  | cons p outer ih =>
    have hp : p ∈ p :: outer := List.mem_cons_self
    rw [ensureDirectories]
    refine Grows.bindAttempt (grows_answerToMake hp) fun answer => ?_
    split
    · refine Grows.bindAttempt (ih.mono fun d => List.mem_cons_of_mem p) fun _ => ?_
      exact Grows.bindAttempt (grows_answerToMake hp) fun again => grows_accept _ p again
    · exact grows_accept _ p _

/-! ## §2 Staging -/

/-- A file may stand at a place that was no directory, and nothing else has changed. -/
structure Touched (place : Place) (t u : FileTree) : Prop where
  elsewhere : ∀ q, q ≠ place → u.at? q = t.at? q
  here : u.at? place = t.at? place ∨
    (t.at? place ≠ some .directory ∧ ∃ part, u.at? place = some (.file part))

theorem Touched.refl (place : Place) (t : FileTree) : Touched place t t :=
  ⟨fun _ _ => rfl, .inl rfl⟩

theorem Touched.trans {place : Place} {t u v : FileTree} (h : Touched place t u) (k : Touched place u v) :
    Touched place t v := by
  refine ⟨fun q hq => (k.elsewhere q hq).trans (h.elsewhere q hq), ?_⟩
  rcases k.here with hsame | ⟨hnoDirectory, hfile⟩
  · rw [hsame]
    exact h.here
  · rcases h.here with hfirst | ⟨hnone, -⟩
    · exact .inr ⟨hfirst ▸ hnoDirectory, hfile⟩
    · exact .inr ⟨hnone, hfile⟩

theorem touched_write {p : Path} {text : String} {t u : FileTree} (h : t.write p text = .ok u) :
    Touched p.place t u ∧ u.at? p.place = some (.file text) := by
  obtain ⟨hnoDirectory, rfl⟩ := write_eq_ok h
  have hfile := at?_insert_self t (ne_root_of_noDirectory hnoDirectory) (.file text)
  exact ⟨⟨fun q hq => at?_insert_of_ne t hq _, .inr ⟨hnoDirectory, text, hfile⟩⟩, hfile⟩

/-- While a file is written it may hold anything, and when it has been written it holds its text. -/
theorem Run.of_write {p : Path} {text : String} {t u : FileTree} {es : List Event}
    {b : DiskAction (Except DiskFault Unit)} (h : Run (write p text done) t es b u) :
    NothingRenamed es ∧ Touched p.place t u ∧ (b = done (.ok ()) → u.at? p.place = some (.file text)) := by
  generalize ha : write p text done = a at h
  induction h with
  | stop a t =>
    subst ha
    exact ⟨by simp [NothingRenamed], .refl _ t, by rintro ⟨⟩⟩
  | next hstep hrest ih =>
    subst ha
    cases hstep with
    | arrive part hwrite =>
      obtain ⟨hnone, htouched, hend⟩ := ih rfl
      refine ⟨by simpa [NothingRenamed] using hnone, (touched_write hwrite).1.trans htouched, hend⟩
    | write hwrite =>
      obtain ⟨rfl, rfl, rfl⟩ := hrest.of_done
      obtain ⟨htouched, hfile⟩ := touched_write hwrite
      exact ⟨by simp [NothingRenamed], htouched, fun _ => hfile⟩
    | refuseWrite fault =>
      obtain ⟨rfl, rfl, rfl⟩ := hrest.of_done
      exact ⟨by simp [NothingRenamed], .refl _ _, by rintro ⟨⟩⟩

/-! ## §3 Replacing -/

/-- What a tree in which a file has been renamed has to do with the tree before. -/
structure Moved (t : FileTree) (source target : Path) (text : String) (u : FileTree) : Prop where
  here : u.at? target.place = some (.file text)
  gone : u.at? source.place = none
  elsewhere : ∀ q, q ≠ source.place → q ≠ target.place → u.at? q = t.at? q
  directory_iff : ∀ q, u.at? q = some .directory ↔ t.at? q = some .directory
  reads : u.read target = .ok text

theorem moved_rename {t u : FileTree} {source target : Path} (h : t.rename source target = .ok u)
    (hne : source.place ≠ target.place) :
    ∃ text, t.at? source.place = some (.file text) ∧ Moved t source target text u := by
  obtain ⟨text, hrenames, rfl⟩ := rename_eq_ok h
  have hnoDirectory : t.at? source.place ≠ some .directory := by simp [hrenames.file]
  have hhere := at?_insert_self (t.erase source.place) (ne_root_of_noDirectory hrenames.noDirectory) (.file text)
  have hgone : ((t.erase source.place).insert target.place (.file text)).at? source.place = none := by
    rw [at?_insert_of_ne _ hne, at?_erase_self t (ne_root_of_noDirectory hnoDirectory)]
  have helsewhere : ∀ q, q ≠ source.place → q ≠ target.place →
      ((t.erase source.place).insert target.place (.file text)).at? q = t.at? q := fun q hsource htarget => by
    rw [at?_insert_of_ne _ htarget, at?_erase_of_ne t hsource]
  have hdirectory : ∀ q, ((t.erase source.place).insert target.place (.file text)).at? q = some .directory ↔
      t.at? q = some .directory := by
    intro q
    by_cases hsource : q = source.place
    · rw [hsource, hgone, hrenames.file]
      simp
    · by_cases htarget : q = target.place
      · rw [htarget, hhere]
        simp [hrenames.noDirectory]
      · rw [helsewhere q hsource htarget]
  refine ⟨text, hrenames.file, hhere, hgone, helsewhere, hdirectory, ?_⟩
  exact read_eq_ok_iff.2 ⟨locate_mono (fun q => (hdirectory q).2) hrenames.targetFound, hhere,
    hrenames.noSlash, hrenames.noDots⟩

/-- Renaming is one step, which happens or does not. -/
theorem Run.of_rename {source target : Path} {t u : FileTree} {es : List Event}
    {b : DiskAction (Except DiskFault Unit)} (h : Run (rename source target done) t es b u) :
    (NothingRenamed es ∧ u = t ∧ b ≠ done (.ok ())) ∨
      (es = [.renamed source target] ∧ t.rename source target = .ok u ∧ b = done (.ok ())) := by
  cases h with
  | stop => exact .inl ⟨by simp [NothingRenamed], rfl, by rintro ⟨⟩⟩
  | next hstep hrest =>
    cases hstep with
    | rename hrename =>
      obtain ⟨rfl, rfl, rfl⟩ := hrest.of_done
      exact .inr ⟨rfl, hrename, rfl⟩
    | refuseRename fault =>
      obtain ⟨rfl, rfl, rfl⟩ := hrest.of_done
      exact .inl ⟨by simp [NothingRenamed], rfl, by rintro ⟨⟩⟩

/-- The directories on the way to a path have been made as far as they were missing, and the file may be
being staged. -/
def Prepared (p : Path) (t u : FileTree) : Prop :=
  ∃ s, Grown p.lineage.tail t s ∧ Touched p.staging.place s u

/-- How far replacing a file has come: the staged file has not been renamed and the tree is prepared for it at
most, or it has been renamed in a tree that was prepared for it, and that is the end. -/
inductive Progress (p : Path) (text : String) (t : FileTree) :
    List Event → DiskAction (Except DiskFault Unit) → FileTree → Prop where
  | before {es : List Event} {b : DiskAction (Except DiskFault Unit)} {u : FileTree} (hes : NothingRenamed es)
    (hb : b ≠ done (.ok ())) (hu : Prepared p t u) : Progress p text t es b u
  | after {es : List Event} {s u : FileTree} (hes : NothingRenamed es) (hs : Prepared p t s)
    (hstaged : s.at? p.staging.place = some (.file text)) (hu : s.rename p.staging p = .ok u) :
    Progress p text t (es ++ [.renamed p.staging p]) (done (.ok ())) u

/-- Every run of replacing a file has come so far. -/
theorem Run.progress {p : Path} {text : String} {t u : FileTree} {es : List Event}
    {b : DiskAction (Except DiskFault Unit)} (h : Run (replace p text).run t es b u) :
    Progress p text t es b u := by
  unfold replace at h
  rcases h.of_bindAttempt with ⟨⟨a, hmake⟩, hb⟩ | ⟨⟨⟩, s, front, back, rfl, hmake, hback⟩
  · obtain ⟨hgrown, hnone⟩ := grows_ensureDirectories _ _ _ _ _ hmake
    exact .before hnone (hb ()) ⟨u, hgrown, .refl _ u⟩
  · obtain ⟨hgrown, hnone⟩ := grows_ensureDirectories _ _ _ _ _ hmake
    rcases hback.of_bindAttempt with ⟨⟨a, hwrite⟩, hb⟩ | ⟨⟨⟩, v, middle, last, rfl, hwrite, hlast⟩
    · obtain ⟨hnoneWrite, htouched, -⟩ := Run.of_write hwrite
      exact .before (hnone.append hnoneWrite) (hb ()) ⟨s, hgrown, htouched⟩
    · obtain ⟨hnoneWrite, htouched, hstaged⟩ := Run.of_write hwrite
      rcases Run.of_rename hlast with ⟨hnoneLast, rfl, hb⟩ | ⟨rfl, hrename, rfl⟩
      · exact .before (hnone.append (hnoneWrite.append hnoneLast)) hb ⟨s, hgrown, htouched⟩
      · rw [← List.append_assoc]
        exact .after (hnone.append hnoneWrite) ⟨s, hgrown, htouched⟩ (hstaged rfl) hrename

theorem Prepared.fileAt_eq {p : Path} {t u : FileTree} (h : Prepared p t u) {q : Place}
    (hq : q ≠ p.staging.place) : u.fileAt q = t.fileAt q := by
  obtain ⟨s, hgrown, htouched⟩ := h
  rw [← hgrown.fileAt_eq, fileAt, htouched.elsewhere q hq, fileAt]

/-- No directory goes while a file is prepared. -/
theorem Prepared.directory {p : Path} {t u : FileTree} (h : Prepared p t u) {q : Place}
    (hq : t.at? q = some .directory) : u.at? q = some .directory := by
  obtain ⟨s, hgrown, htouched⟩ := h
  have hs : s.at? q = some .directory := by
    rcases hgrown q with hsame | ⟨hnone, -, -⟩
    · rw [hsame, hq]
    · rw [hq] at hnone
      cases hnone
  by_cases hplace : q = p.staging.place
  · subst hplace
    rcases htouched.here with hsame | ⟨hnoDirectory, -⟩
    · rw [hsame, hs]
    · exact absurd hs hnoDirectory
  · rw [htouched.elsewhere q hplace, hs]

/-- The directories that come while a file is prepared are missing ones above it. -/
theorem Prepared.made {p : Path} {t u : FileTree} (h : Prepared p t u) {q : Place}
    (hq : u.at? q = some .directory) : t.at? q = some .directory ∨ (t.at? q = none ∧ p.Above q) := by
  obtain ⟨s, hgrown, htouched⟩ := h
  have hs : s.at? q = some .directory := by
    by_cases hplace : q = p.staging.place
    · subst hplace
      rcases htouched.here with hsame | ⟨-, part, hfile⟩
      · rw [← hsame, hq]
      · rw [hq] at hfile
        cases hfile
    · rw [← htouched.elsewhere q hplace, hq]
  rcases hgrown q with hsame | ⟨hnone, -, d, hd, rfl⟩
  · exact .inl (hsame ▸ hs)
  · exact .inr ⟨hnone, above_of_mem_lineage hd⟩

/-- What can be read at a path stays there while the file is prepared. -/
theorem Prepared.read {p : Path} {t u : FileTree} (h : Prepared p t u) {old : String}
    (hold : t.read p = .ok old) : u.read p = .ok old := by
  obtain ⟨hlocate, hfile, hmeant⟩ := read_eq_ok_iff.1 hold
  have hsame := h.fileAt_eq (staging_place_ne p).symm
  exact read_eq_ok_iff.2 ⟨locate_mono (fun q => h.directory) hlocate,
    at?_of_fileAt (hsame.trans (fileAt_eq_some hfile)), hmeant⟩

/-- What a tree `u` has to do with the tree `t` in which replacing a file with a text began, when `es` has happened
since and `b` is left to do. -/
structure Replaced (p : Path) (text : String) (t : FileTree) (es : List Event)
    (b : DiskAction (Except DiskFault Unit)) (u : FileTree) : Prop where
  /-- The file is the old one, or there is none as before, or it is the new one. -/
  whole : u.fileAt p.place = t.fileAt p.place ∨ u.fileAt p.place = some text
  /-- Whoever could read the file can do so all the time, and reads one or the other. -/
  readable : ∀ old, t.read p = .ok old → u.read p = .ok old ∨ u.read p = .ok text
  /-- It has been replaced if the staged file was renamed, and only then. -/
  ok_iff : b = done (.ok ()) ↔ Event.renamed p.staging p ∈ es
  new : b = done (.ok ()) → u.read p = .ok text ∧ u.at? p.staging.place = none
  /-- Until then, or if it never comes to that, the file is the old one. -/
  old : b ≠ done (.ok ()) →
    u.fileAt p.place = t.fileAt p.place ∧ ∀ old, t.read p = .ok old → u.read p = .ok old
  elsewhere : ∀ q, q ≠ p.place → q ≠ p.staging.place → u.fileAt q = t.fileAt q
  directories : ∀ q, t.at? q = some .directory → u.at? q = some .directory
  /-- A new directory was missing above the path. -/
  above : ∀ q, u.at? q = some .directory → t.at? q = some .directory ∨ (t.at? q = none ∧ p.Above q)

/-- At every moment of replacing a file, whatever request fails and wherever it stops, the file at the path is
the old one or the new one as a whole, and nothing else has changed but the staged file and missing directories
above it. The file at a path is the one at its place: a path that steps back up means the same file. -/
theorem file_replaced_whole_or_not_at_all {p : Path} {text : String} {t u : FileTree} {es : List Event}
    {b : DiskAction (Except DiskFault Unit)} (h : Run (replace p text).run t es b u) :
    Replaced p text t es b u := by
  cases h.progress with
  | before hes hb hu =>
    have hsame : u.fileAt p.place = t.fileAt p.place := hu.fileAt_eq (staging_place_ne p).symm
    exact {
      whole := .inl hsame
      readable := fun old hold => .inl (hu.read hold)
      ok_iff := ⟨fun h => absurd h hb, fun h => absurd h (hes _ _)⟩
      new := fun h => absurd h hb
      old := fun _ => ⟨hsame, fun old => hu.read⟩
      elsewhere := fun q _ hq => hu.fileAt_eq hq
      directories := fun q => hu.directory
      above := fun q => hu.made }
  | after hes hs hstaged hrename =>
    obtain ⟨found, hfound, hmoved⟩ := moved_rename hrename (staging_place_ne p)
    obtain rfl : found = text := by
      rw [hstaged] at hfound
      cases hfound
      rfl
    exact {
      whole := .inr (fileAt_eq_some hmoved.here)
      readable := fun _ _ => .inr hmoved.reads
      ok_iff := ⟨fun _ => List.mem_append_right _ (List.mem_singleton_self _), fun _ => rfl⟩
      new := fun _ => ⟨hmoved.reads, hmoved.gone⟩
      old := fun h => absurd rfl h
      elsewhere := fun q hq hstaging => by
        rw [← hs.fileAt_eq hstaging, fileAt, hmoved.elsewhere q hstaging hq, fileAt]
      directories := fun q hq => (hmoved.directory_iff q).2 (hs.directory hq)
      above := fun q hq => hs.made ((hmoved.directory_iff q).1 hq) }

/-- A run that stops while the new text is arriving, and one that comes to its end. -/
theorem file_replaced_whole_or_not_at_all_of_arrival :
    (∃ b, Replaced ⟨"a.csv"⟩ "new" ⟨[(["a.csv"], .file "old")]⟩ [.arrived ⟨"a.csv.tmp"⟩] b
      ⟨[(["a.csv.tmp"], .file "ne"), (["a.csv"], .file "old")]⟩) ∧
    ∃ es, Replaced ⟨"out/a.csv"⟩ "new" .empty es (done (.ok ()))
      ⟨[(["out", "a.csv"], .file "new"), (["out"], .directory)]⟩ := by
  constructor
  · have hstep : Step (replace ⟨"a.csv"⟩ "new").run ⟨[(["a.csv"], .file "old")]⟩ (.arrived ⟨"a.csv.tmp"⟩)
        (replace ⟨"a.csv"⟩ "new").run ⟨[(["a.csv.tmp"], .file "ne"), (["a.csv"], .file "old")]⟩ :=
      .arrive "ne" rfl
    exact ⟨_, file_replaced_whole_or_not_at_all (.next hstep (.stop _ _))⟩
  · obtain ⟨es, hrun⟩ := exists_run_on (replace ⟨"out/a.csv"⟩ "new").run .empty
    exact ⟨es, file_replaced_whole_or_not_at_all hrun⟩

end DiskAction

end Crossover
