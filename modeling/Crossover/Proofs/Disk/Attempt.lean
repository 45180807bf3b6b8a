/-
Crossover.Proofs.Disk.Attempt — attempts carried out on a tree, one after another.

`run_bind` opens an attempt that goes on after another one; the lemmas behind it say the same by the
outcome of the first. An action `Keeps` a view of a tree if it leaves what the view shows as it is; the
predicate is closed under everything that actions are put together from, so that only single requests
remain to be looked at. The view may be the whole tree (`ReadOnly`).

  §1 Outcomes  — what follows an attempt, and errors in other words.
  §2 Views     — what an action leaves as it is.
-/
import Crossover.Disk.Action

namespace Crossover.DiskAction

variable {ε δ α β : Type}

/-! ## §1 Outcomes -/

theorem bind_done (a : DiskAction α) : a.bind done = a := by
  induction a with
  | done value => rfl
  | inspect p next ih => exact congrArg (inspect p) (funext ih)
  | read p next ih => exact congrArg (read p) (funext ih)
  | list p next ih => exact congrArg (list p) (funext ih)
  | makeDirectory p next ih => exact congrArg (makeDirectory p) (funext ih)
  | write p text next ih => exact congrArg (write p text) (funext ih)
  | rename source target next ih => exact congrArg (rename source target) (funext ih)

theorem bind_bind {γ : Type} (a : DiskAction α) (f : α → DiskAction β) (g : β → DiskAction γ) :
    (a.bind f).bind g = a.bind fun x => (f x).bind g := by
  induction a with
  | done value => rfl
  | inspect p next ih => exact congrArg (inspect p) (funext ih)
  | read p next ih => exact congrArg (read p) (funext ih)
  | list p next ih => exact congrArg (list p) (funext ih)
  | makeDirectory p next ih => exact congrArg (makeDirectory p) (funext ih)
  | write p text next ih => exact congrArg (write p text) (funext ih)
  | rename source target next ih => exact congrArg (rename source target) (funext ih)

instance : LawfulMonad DiskAction :=
  LawfulMonad.mk' DiskAction bind_done (fun _ _ => rfl) bind_bind

/-- What follows an attempt finds the tree as the attempt leaves it, and an error ends both. -/
theorem run_bind (a : Attempt ε α) (f : α → Attempt ε β) (t : FileTree) :
    (a >>= f).run.on t =
      match a.run.on t with
      | (.ok x, u) => (f x).run.on u
      | (.error e, u) => (.error e, u) := by
  show (DiskAction.bind a.run (ExceptT.bindCont f)).on t = _
  rw [on_bind]
  cases a.run.on t with
  | mk outcome u =>
    cases outcome with
    | ok x => rfl
    | error e => rfl

theorem run_bind_ok {a : Attempt ε α} {x : α} {t u : FileTree} (h : a.run.on t = (.ok x, u))
    (f : α → Attempt ε β) : (a >>= f).run.on t = (f x).run.on u := by
  rw [run_bind, h]

/-- Two attempts end in an error with the first one or with the second. -/
theorem run_bind_eq_error {a : Attempt ε α} {f : α → Attempt ε β} {e : ε} {t u : FileTree}
    (h : (a >>= f).run.on t = (.error e, u)) :
    a.run.on t = (.error e, u) ∨ ∃ x s, a.run.on t = (.ok x, s) ∧ (f x).run.on s = (.error e, u) := by
  rw [run_bind] at h
  cases ha : a.run.on t with
  | mk outcome s =>
    rw [ha] at h
    cases outcome with
    | ok x => exact .inr ⟨x, s, rfl, h⟩
    | error d =>
      cases h
      exact .inl rfl

/-- Two attempts end in a value with the second, after the first has given one. -/
theorem run_bind_eq_ok {a : Attempt ε α} {f : α → Attempt ε β} {y : β} {t u : FileTree}
    (h : (a >>= f).run.on t = (.ok y, u)) :
    ∃ x s, a.run.on t = (.ok x, s) ∧ (f x).run.on s = (.ok y, u) := by
  rw [run_bind] at h
  cases ha : a.run.on t with
  | mk outcome s =>
    rw [ha] at h
    cases outcome with
    | ok x => exact ⟨x, s, rfl, h⟩
    | error d => cases h

/-- Errors in other words change nothing else. -/
theorem run_adapt (g : ε → δ) (a : Attempt ε α) (t : FileTree) :
    (ExceptT.adapt g a).run.on t = ((a.run.on t).1.mapError g, (a.run.on t).2) := by
  show (DiskAction.bind a.run fun x => done (x.mapError g)).on t = _
  rw [on_bind]
  rfl

theorem run_adapt_eq_ok {g : ε → δ} {a : Attempt ε α} {x : α} {t u : FileTree}
    (h : (ExceptT.adapt g a).run.on t = (.ok x, u)) : a.run.on t = (.ok x, u) := by
  rw [run_adapt] at h
  cases ha : a.run.on t with
  | mk outcome s =>
    rw [ha] at h
    cases outcome with
    | ok y =>
      cases h
      rfl
    | error e => cases h

theorem run_adapt_eq_error {g : ε → δ} {a : Attempt ε α} {d : δ} {t u : FileTree}
    (h : (ExceptT.adapt g a).run.on t = (.error d, u)) :
    ∃ e, d = g e ∧ a.run.on t = (.error e, u) := by
  rw [run_adapt] at h
  cases ha : a.run.on t with
  | mk outcome s =>
    rw [ha] at h
    cases outcome with
    | ok y => cases h
    | error e =>
      cases h
      exact ⟨e, rfl, rfl⟩

/-! ## §2 Views -/

/-- An action that leaves a view of every tree as it is. -/
def Keeps {γ : Type} (view : FileTree → γ) (a : DiskAction α) : Prop :=
  ∀ t : FileTree, view (a.on t).2 = view t

/-- An action that leaves every tree as it is. -/
def ReadOnly (a : DiskAction α) : Prop :=
  Keeps id a

namespace Keeps

variable {γ : Type} {view : FileTree → γ}

theorem pure (x : α) : Keeps view (done x) := fun _ => rfl

theorem inspect (p : Path) {next : Except DiskFault Kind → DiskAction α}
    (h : ∀ r, Keeps view (next r)) : Keeps view (.inspect p next) := fun t => h _ t

theorem read (p : Path) {next : Except DiskFault String → DiskAction α}
    (h : ∀ r, Keeps view (next r)) : Keeps view (.read p next) := fun t => h _ t

theorem list (p : Path) {next : Except DiskFault (List String) → DiskAction α}
    (h : ∀ r, Keeps view (next r)) : Keeps view (.list p next) := fun t => h _ t

theorem bind {a : DiskAction α} {f : α → DiskAction β} (ha : Keeps view a)
    (hf : ∀ x, Keeps view (f x)) : Keeps view (a >>= f) := by
  intro t
  show view ((DiskAction.bind a f).on t).2 = view t
  rw [on_bind, hf _ (a.on t).2, ha t]

theorem settled (x : Except ε α) : Keeps view (DiskAction.settled x).run := fun _ => rfl

theorem throw (e : ε) : Keeps view (MonadExcept.throw e : Attempt ε α).run := fun _ => rfl

theorem adapt (g : ε → δ) {a : Attempt ε α} (h : Keeps view a.run) :
    Keeps view (ExceptT.adapt g a).run := by
  intro t
  rw [run_adapt]
  exact h t

theorem bindAttempt {a : Attempt ε α} {f : α → Attempt ε β} (ha : Keeps view a.run)
    (hf : ∀ x, Keeps view (f x).run) : Keeps view (a >>= f).run := by
  intro t
  have hu := ha t
  rw [run_bind]
  cases h : a.run.on t with
  | mk outcome u =>
    rw [h] at hu
    cases outcome with
    | ok x => exact (hf x u).trans hu
    | error e => exact hu

theorem lift {a : DiskAction α} (h : Keeps view a) : Keeps view (ExceptT.lift a : Attempt ε α).run :=
  bind h fun x => pure (Except.ok x)

end Keeps

end Crossover.DiskAction
