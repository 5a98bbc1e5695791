import ReleasePublisher.Files.Tree
import ReleasePublisher.Http.Client
import ReleasePublisher.Log.Record

/-!
# Runs

A step of the program touches files, the network and the log, and it may fail. What was done before
a failure stays done.

## Main definitions

* `Surroundings`: the files, the network and the log
* `Run α`: a step that gives an `α`
* `Run.fail`, `Run.ofExcept`, `Run.note`, `Run.request`, `Run.files`: the basic steps

## Main results

* `Run.bind_cases`, `Run.bind_ok`: how a run of two steps ends
-/

namespace ReleasePublisher

/-- What a run touches. -/
structure Surroundings where
  files : FileTree
  network : Network
  /-- The records so far, the first one first. -/
  log : List LogRecord
  deriving DecidableEq, Repr

/-- A step of the program. -/
def Run (α : Type) := Surroundings → Except Failure α × Surroundings

namespace Run

/-- The step that changes nothing. -/
def pure {α : Type} (a : α) : Run α := fun s => (.ok a, s)

/-- One step after the other; a failure ends the run. -/
def bind {α β : Type} (m : Run α) (f : α → Run β) : Run β := fun s =>
  match m s with
  | (.ok a, s) => f a s
  -- What was done so far stays done.
  | (.error e, s) => (.error e, s)

instance : Monad Run where
  pure := pure
  bind := bind

/-- The step that fails. -/
def fail {α : Type} (e : Failure) : Run α := fun s => (.error e, s)

/-- The step with an outcome that is known. -/
def ofExcept {α : Type} (r : Except Failure α) : Run α := fun s => (r, s)

/-- The files as they are. -/
def files : Run FileTree := fun s => (.ok s.files, s)

/-- A step that changes the files only. -/
def changeFiles {α : Type} (f : FileTree → FileTree × Except Failure α) : Run α := fun s =>
  let (t, r) := f s.files
  (r, { s with files := t })

/-- Writes a record. -/
def note (r : LogRecord) : Run Unit := fun s => (.ok (), { s with log := s.log ++ [r] })

/-- Sends a draft. -/
def request (d : Draft) : Run Response := fun s =>
  let (r, n) := send d s.network
  (r.mapError .http, { s with network := n })

/-! ### What each step does -/

@[simp] theorem pure_apply {α : Type} (a : α) (s : Surroundings) :
    (Pure.pure a : Run α) s = (.ok a, s) := rfl

theorem bind_apply {α β : Type} (m : Run α) (f : α → Run β) (s : Surroundings) :
    (m >>= f) s = match m s with
      | (.ok a, s) => f a s
      | (.error e, s) => (.error e, s) := rfl

@[simp] theorem fail_apply {α : Type} (e : Failure) (s : Surroundings) :
    (fail e : Run α) s = (.error e, s) := rfl

@[simp] theorem ofExcept_apply {α : Type} (r : Except Failure α) (s : Surroundings) :
    ofExcept r s = (r, s) := rfl

@[simp] theorem files_apply (s : Surroundings) : files s = (.ok s.files, s) := rfl

@[simp] theorem note_apply (r : LogRecord) (s : Surroundings) :
    note r s = (.ok (), { s with log := s.log ++ [r] }) := rfl

@[simp] theorem changeFiles_apply {α : Type} (f : FileTree → FileTree × Except Failure α)
    (s : Surroundings) : changeFiles f s = ((f s.files).2, { s with files := (f s.files).1 }) := rfl

@[simp] theorem request_apply (d : Draft) (s : Surroundings) :
    request d s =
      ((send d s.network).1.mapError .http, { s with network := (send d s.network).2 }) := rfl

/-- The step after one that succeeds. -/
theorem bind_of_ok {α β : Type} {m : Run α} {f : α → Run β} {s s₁ : Surroundings} {a : α}
    (h : m s = (.ok a, s₁)) : (m >>= f) s = f a s₁ := by
  rw [bind_apply, h]

/-- A failure ends the run. -/
theorem bind_of_error {α β : Type} {m : Run α} {f : α → Run β} {s s₁ : Surroundings} {e : Failure}
    (h : m s = (.error e, s₁)) : (m >>= f) s = (.error e, s₁) := by
  rw [bind_apply, h]

theorem bind_assoc {α β γ : Type} (m : Run α) (f : α → Run β) (g : β → Run γ) :
    (m >>= f) >>= g = m >>= fun a => f a >>= g := by
  funext s
  rcases h : m s with ⟨e | a, s₁⟩
  · rw [bind_of_error h, bind_of_error (bind_of_error h)]
  · rw [bind_of_ok h, bind_apply, bind_of_ok h, bind_apply]

/-- Sending a draft and judging the answer. -/
theorem ask_apply {α : Type} (d : Draft) (judge : Response → Except Failure α) (s : Surroundings) :
    (request d >>= fun a => ofExcept (judge a)) s =
      (((send d s.network).1.mapError .http).bind judge,
        { s with network := (send d s.network).2 }) := by
  rw [bind_apply, request_apply]
  cases (send d s.network).1 <;> rfl

/-- A run of two steps ends in the first one, or the second one goes on where the first one ended. -/
theorem bind_cases {α β : Type} {m : Run α} {f : α → Run β} {s s' : Surroundings}
    {r : Except Failure β} (h : (m >>= f) s = (r, s')) :
    (∃ e, m s = (.error e, s') ∧ r = .error e) ∨ ∃ a s₁, m s = (.ok a, s₁) ∧ f a s₁ = (r, s') := by
  rcases hm : m s with ⟨e | a, s₁⟩
  · rw [bind_of_error hm] at h
    cases h
    exact .inl ⟨e, rfl, rfl⟩
  · rw [bind_of_ok hm] at h
    exact .inr ⟨a, s₁, rfl, h⟩

/-- A run of two steps succeeds only if both do. -/
theorem bind_ok {α β : Type} {m : Run α} {f : α → Run β} {s s' : Surroundings} {b : β}
    (h : (m >>= f) s = (.ok b, s')) : ∃ a s₁, m s = (.ok a, s₁) ∧ f a s₁ = (.ok b, s') := by
  rcases bind_cases h with ⟨e, -, he⟩ | h
  · cases he
  · exact h

end Run

end ReleasePublisher
