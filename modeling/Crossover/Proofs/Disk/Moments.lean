/-
Crossover.Proofs.Disk.Moments — every moment of an action on a disk that may fail.

A disk may refuse any request, whatever it holds, and a file that is being written holds anything for a while,
as a part of a text need not even end with a whole character. Only renaming happens at once. `Step` is one such
step, `Run` any number of them, so that a run may stop at every moment: before a request, within a write, or at
the end of the action. What a run of two actions in a row does is told by runs of the two (`Run.of_bind`). The
disk that never fails makes one of the runs (`exists_run_on`).

  §1 Steps  — what a disk may do next.
  §2 Runs   — steps in a row.
-/
import Crossover.Proofs.Disk.Files

namespace Crossover.DiskAction

variable {α β ε : Type}

/-! ## §1 Steps -/

/-- What a disk does in one step. -/
inductive Event where
  | answered
  | refused
  | made (p : Path)
  /-- A part of a text has arrived at a path. -/
  | arrived (p : Path)
  | written (p : Path)
  | renamed (source target : Path)
  deriving DecidableEq

/-- An answer to a question is true, or is a fault. -/
def Honest {γ : Type} (truth answer : Except DiskFault γ) : Prop :=
  answer = truth ∨ ∃ fault, answer = .error fault

/-- One step of an action on a tree: a request is answered, granted or refused, or a write goes on. -/
inductive Step : DiskAction α → FileTree → Event → DiskAction α → FileTree → Prop where
  | inspect {t : FileTree} {p : Path} {next : Except DiskFault Kind → DiskAction α}
    {answer : Except DiskFault Kind} (h : Honest ((t.inspect p).map Node.kind) answer) :
    Step (.inspect p next) t .answered (next answer) t
  | read {t : FileTree} {p : Path} {next : Except DiskFault String → DiskAction α}
    {answer : Except DiskFault String} (h : Honest (t.read p) answer) :
    Step (.read p next) t .answered (next answer) t
  | list {t : FileTree} {p : Path} {next : Except DiskFault (List String) → DiskAction α}
    {answer : Except DiskFault (List String)} (h : Honest (t.list p) answer) :
    Step (.list p next) t .answered (next answer) t
  | make {t u : FileTree} {p : Path} {next : Except DiskFault Unit → DiskAction α}
    (h : t.makeDirectory p = .ok u) : Step (.makeDirectory p next) t (.made p) (next (.ok ())) u
  | arrive {t u : FileTree} {p : Path} {text : String} {next : Except DiskFault Unit → DiskAction α}
    (part : String) (h : t.write p part = .ok u) :
    Step (.write p text next) t (.arrived p) (.write p text next) u
  | write {t u : FileTree} {p : Path} {text : String} {next : Except DiskFault Unit → DiskAction α}
    (h : t.write p text = .ok u) : Step (.write p text next) t (.written p) (next (.ok ())) u
  | rename {t u : FileTree} {source target : Path} {next : Except DiskFault Unit → DiskAction α}
    (h : t.rename source target = .ok u) :
    Step (.rename source target next) t (.renamed source target) (next (.ok ())) u
  | refuseMake {t : FileTree} {p : Path} {next : Except DiskFault Unit → DiskAction α} (fault : DiskFault) :
    Step (.makeDirectory p next) t .refused (next (.error fault)) t
  | refuseWrite {t : FileTree} {p : Path} {text : String} {next : Except DiskFault Unit → DiskAction α}
    (fault : DiskFault) : Step (.write p text next) t .refused (next (.error fault)) t
  | refuseRename {t : FileTree} {source target : Path} {next : Except DiskFault Unit → DiskAction α}
    (fault : DiskFault) : Step (.rename source target next) t .refused (next (.error fault)) t

/-- As long as an action is not done, what follows it waits. -/
theorem Step.of_bind {a : DiskAction α} {f : α → DiskAction β} {b : DiskAction β} {t u : FileTree} {e : Event}
    (h : Step (a.bind f) t e b u) (hne : ∀ x, a ≠ done x) : ∃ a', Step a t e a' u ∧ b = a'.bind f := by
  cases a with
  | done x => exact absurd rfl (hne x)
  | inspect p next =>
    cases h with
    | inspect h => exact ⟨_, .inspect h, rfl⟩
  | read p next =>
    cases h with
    | read h => exact ⟨_, .read h, rfl⟩
  | list p next =>
    cases h with
    | list h => exact ⟨_, .list h, rfl⟩
  | makeDirectory p next =>
    cases h with
    | make h => exact ⟨_, .make h, rfl⟩
    | refuseMake fault => exact ⟨_, .refuseMake fault, rfl⟩
  | write p text next =>
    cases h with
    | arrive part h => exact ⟨_, .arrive part h, rfl⟩
    | write h => exact ⟨_, .write h, rfl⟩
    | refuseWrite fault => exact ⟨_, .refuseWrite fault, rfl⟩
  | rename source target next =>
    cases h with
    | rename h => exact ⟨_, .rename h, rfl⟩
    | refuseRename fault => exact ⟨_, .refuseRename fault, rfl⟩

/-! ## §2 Runs -/

/-- Some steps of an action on a tree: the events, and what is then left to do on which tree. -/
inductive Run : DiskAction α → FileTree → List Event → DiskAction α → FileTree → Prop where
  | stop (a : DiskAction α) (t : FileTree) : Run a t [] a t
  | next {a b c : DiskAction α} {t u v : FileTree} {e : Event} {es : List Event} (h : Step a t e b u)
    (hrest : Run b u es c v) : Run a t (e :: es) c v

namespace Run

variable {a b : DiskAction α} {t u v : FileTree} {es : List Event}

/-- An action that is done takes no more steps. -/
theorem of_done {x : α} (h : Run (done x) t es b u) : es = [] ∧ b = done x ∧ u = t := by
  cases h with
  | stop => exact ⟨rfl, rfl, rfl⟩
  | next h _ => cases h

/-- A run of two actions is one of the first, or a whole one of the first and one of the second. -/
theorem of_bind {f : α → DiskAction β} {c : DiskAction β} (h : Run (a.bind f) t es c u) :
    (∃ a', Run a t es a' u ∧ c = a'.bind f) ∨
      ∃ x s front back, es = front ++ back ∧ Run a t front (done x) s ∧ Run (f x) s back c u := by
  generalize hac : a.bind f = b at h
  induction h generalizing a with
  | stop c t => exact .inl ⟨a, .stop a t, hac.symm⟩
  | @next b d c t u v e es hstep hrest ih =>
    subst hac
    by_cases hdone : ∃ x, a = done x
    · obtain ⟨x, rfl⟩ := hdone
      exact .inr ⟨x, t, [], e :: es, rfl, .stop _ t, .next hstep hrest⟩
    · obtain ⟨a', hfirst, rfl⟩ := hstep.of_bind fun x hx => hdone ⟨x, hx⟩
      rcases ih rfl with ⟨a'', hrun, rfl⟩ | ⟨x, s, front, back, rfl, hrun, hback⟩
      · exact .inl ⟨a'', .next hfirst hrun, rfl⟩
      · exact .inr ⟨x, s, e :: front, back, rfl, .next hfirst hrun, hback⟩

/-- A run of two attempts gets no further than the first and gives no value, or goes on with the second. -/
theorem of_bindAttempt {a : Attempt ε α} {f : α → Attempt ε β} {c : DiskAction (Except ε β)}
    (h : Run (a >>= f).run t es c u) :
    ((∃ a', Run a.run t es a' u) ∧ ∀ y, c ≠ done (.ok y)) ∨
      ∃ x s front back, es = front ++ back ∧ Run a.run t front (done (.ok x)) s ∧
        Run (f x).run s back c u := by
  have h : Run (DiskAction.bind a.run (ExceptT.bindCont f)) t es c u := h
  rcases h.of_bind with ⟨a', hrun, rfl⟩ | ⟨outcome, s, front, back, rfl, hrun, hback⟩
  · cases a' with
    | done outcome =>
      cases outcome with
      | ok x =>
        exact .inr ⟨x, u, es, [], (List.append_nil es).symm, hrun, .stop _ u⟩
      | error e => exact .inl ⟨⟨_, hrun⟩, fun y hy => by cases hy⟩
    | _ => exact .inl ⟨⟨_, hrun⟩, fun y hy => by cases hy⟩
  · cases outcome with
    | ok x => exact .inr ⟨x, s, front, back, rfl, hrun, hback⟩
    | error e =>
      have hback : Run (done (.error e)) s back c u := hback
      obtain ⟨rfl, rfl, rfl⟩ := hback.of_done
      rw [List.append_nil]
      exact .inl ⟨⟨_, hrun⟩, fun y hy => by cases hy⟩

end Run

/-- What an action does on a disk that never fails is one of its runs. -/
theorem exists_run_on (a : DiskAction α) (t : FileTree) : ∃ es, Run a t es (done (a.on t).1) (a.on t).2 := by
  induction a generalizing t with
  | done x => exact ⟨[], .stop _ t⟩
  | inspect p next ih =>
    obtain ⟨es, hrun⟩ := ih _ t
    exact ⟨_, .next (.inspect (.inl rfl)) hrun⟩
  | read p next ih =>
    obtain ⟨es, hrun⟩ := ih _ t
    exact ⟨_, .next (.read (.inl rfl)) hrun⟩
  | list p next ih =>
    obtain ⟨es, hrun⟩ := ih _ t
    exact ⟨_, .next (.list (.inl rfl)) hrun⟩
  | makeDirectory p next ih =>
    rw [on]
    cases h : t.makeDirectory p with
    | ok u =>
      obtain ⟨es, hrun⟩ := ih (.ok ()) u
      exact ⟨_, .next (.make h) hrun⟩
    | error fault =>
      obtain ⟨es, hrun⟩ := ih (.error fault) t
      exact ⟨_, .next (.refuseMake fault) hrun⟩
  | write p text next ih =>
    rw [on]
    cases h : t.write p text with
    | ok u =>
      obtain ⟨es, hrun⟩ := ih (.ok ()) u
      exact ⟨_, .next (.write h) hrun⟩
    | error fault =>
      obtain ⟨es, hrun⟩ := ih (.error fault) t
      exact ⟨_, .next (.refuseWrite fault) hrun⟩
  | rename source target next ih =>
    rw [on]
    cases h : t.rename source target with
    | ok u =>
      obtain ⟨es, hrun⟩ := ih (.ok ()) u
      exact ⟨_, .next (.rename h) hrun⟩
    | error fault =>
      obtain ⟨es, hrun⟩ := ih (.error fault) t
      exact ⟨_, .next (.refuseRename fault) hrun⟩

end Crossover.DiskAction
