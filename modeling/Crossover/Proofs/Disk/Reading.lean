/-
Crossover.Proofs.Disk.Reading — searching and loading leave the disk as it is.

Searches ask for names, kinds and texts only. Each lemma follows the shape of the search that it is
about; those about searches that go down into directories are by induction on the depth.
-/
import Crossover.PriceFile
import Crossover.Proofs.Disk.Attempt
import Crossover.Settings

namespace Crossover

open DiskAction

/-! ## §1 Searches -/

namespace Search

variable {α : Type}

theorem readOnly_children (dir : Path) : ReadOnly (children dir) := by
  refine Keeps.list dir fun r => ?_
  cases r with
  | ok names => exact Keeps.pure _
  | error fault => exact Keeps.pure _

theorem readOnly_gather {find : Path → DiskAction (List α)} (h : ∀ p, ReadOnly (find p))
    (paths : List Path) : ReadOnly (gather find paths) := by
  induction paths with
  | nil => exact Keeps.pure _
  | cons p rest ih =>
    rw [gather]
    exact Keeps.bind (h p) fun found => Keeps.bind ih fun others => Keeps.pure _

theorem readOnly_withKinds (paths : List Path) : ReadOnly (withKinds paths) := by
  refine readOnly_gather (fun p => Keeps.inspect p fun r => ?_) paths
  cases r with
  | ok kind => exact Keeps.pure _
  | error fault => exact Keeps.pure _

theorem readOnly_filesIn (depth : Nat) (dirs : List Path) : ReadOnly (filesIn depth dirs) := by
  induction depth generalizing dirs with
  | zero => exact Keeps.pure _
  | succ depth ih =>
    cases dirs with
    | nil => exact Keeps.pure _
    | cons dir dirs =>
      rw [filesIn]
      exact Keeps.bind (readOnly_gather readOnly_children _) fun paths =>
        Keeps.bind (readOnly_withKinds paths) fun found =>
          Keeps.bind (ih _) fun deeper => Keeps.pure _

theorem readOnly_below {find : Path → DiskAction (List Path)} (h : ∀ p, ReadOnly (find p))
    (depth : Nat) (dir : Path) : ReadOnly (below find depth dir) := by
  induction depth generalizing dir with
  | zero => exact Keeps.pure _
  | succ depth ih =>
    rw [below]
    refine Keeps.bind (readOnly_children dir) fun paths => readOnly_gather (fun p => ?_) paths
    exact Keeps.bind (h p) fun found => Keeps.bind (ih p) fun deeper => Keeps.pure _

theorem readOnly_existing (p : Path) : ReadOnly (existing p) :=
  Keeps.bind (readOnly_withKinds [p]) fun _ => Keeps.pure _

theorem readOnly_fittingChildren (pattern : NamePattern) (dir : Path) :
    ReadOnly (fittingChildren pattern dir) := by
  unfold fittingChildren
  split
  · exact readOnly_existing _
  · exact Keeps.bind (readOnly_children dir) fun paths => Keeps.pure _

/-- A step of any depth looks at the step behind it, so the recursion goes two steps at a time. -/
theorem readOnly_fitting : (steps : List StepPattern) → (dir : Path) → ReadOnly (fitting steps dir)
  | [], _ => Keeps.pure _
  | .name pattern :: rest, dir => by
    rw [fitting]
    exact Keeps.bind (readOnly_fittingChildren pattern dir) (readOnly_gather (readOnly_fitting rest))
  | .anyDepth :: .name pattern :: rest, dir => by
    rw [fitting]
    refine readOnly_below (fun p => ?_) deepest dir
    split
    · exact readOnly_fitting rest p
    · exact Keeps.pure _
  | [.anyDepth], dir => readOnly_fitting [] dir
  | .anyDepth :: .anyDepth :: rest, dir => readOnly_fitting (.anyDepth :: rest) dir

theorem readOnly_textsOf (paths : List Path) : ReadOnly (textsOf paths) := by
  refine readOnly_gather (fun p => Keeps.read p fun r => ?_) paths
  cases r with
  | ok text => exact Keeps.pure _
  | error fault => exact Keeps.pure _

theorem readOnly_textsIn? (dir : Path) : ReadOnly (textsIn? dir) :=
  Keeps.bind (readOnly_filesIn _ _) fun files =>
    Keeps.bind (readOnly_textsOf files) fun _ => Keeps.pure _

theorem readOnly_textsFitting? (p : Path) : ReadOnly (textsFitting? p) := by
  unfold textsFitting?
  split
  · exact Keeps.pure _
  · exact Keeps.bind (readOnly_fitting _ _) fun paths =>
      Keeps.bind (readOnly_withKinds paths) fun found =>
        Keeps.bind (readOnly_textsOf _) fun _ => Keeps.pure _

/-- Looking for the texts of a table leaves the disk as it is. -/
theorem readOnly_textsFor? (p : Path) (kind : Kind) : ReadOnly (textsFor? p kind) := by
  unfold textsFor?
  split
  · exact readOnly_textsIn? p
  · split
    · exact readOnly_textsFitting? p
    · exact Keeps.read p fun r => Keeps.pure _

end Search

/-! ## §2 Loading -/

theorem readOnly_kindOf (p : Path) : ReadOnly (kindOf p).run :=
  Keeps.inspect p fun r => Keeps.pure r

theorem readOnly_readText (p : Path) : ReadOnly (readText p).run :=
  Keeps.read p fun r => Keeps.pure r

/-- Loading a table leaves the disk as it is. -/
theorem Table.readOnly_load (p : Path) : ReadOnly (Table.load p).run := by
  unfold Table.load
  refine Keeps.bindAttempt (Keeps.settled _) fun format => ?_
  refine Keeps.bindAttempt (Keeps.adapt _ (readOnly_kindOf p)) fun kind => ?_
  refine Keeps.bindAttempt (Keeps.lift (Search.readOnly_textsFor? p kind)) fun texts => ?_
  split
  · exact Keeps.pure _
  · exact Keeps.throw _

/-- Loading a series leaves the disk as it is. -/
theorem Series.readOnly_load (p : Path) : ReadOnly (Series.load p).run := by
  unfold Series.load loadPrices
  refine Keeps.bindAttempt ?_ fun loaded => Keeps.pure _
  refine Keeps.bindAttempt (Table.readOnly_load p) fun table => ?_
  exact Keeps.bindAttempt (Keeps.settled _) fun series => Keeps.pure _

/-- Loading settings leaves the disk as it is. -/
theorem Settings.readOnly_load (p : Path) : ReadOnly (Settings.load p).run := by
  unfold Settings.load
  refine Keeps.bindAttempt (Keeps.adapt _ (readOnly_readText p)) fun text => ?_
  split
  · exact Keeps.pure _
  · exact Keeps.throw _

end Crossover
