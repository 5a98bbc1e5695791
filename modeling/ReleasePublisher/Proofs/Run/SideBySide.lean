import ReleasePublisher.Proofs.Http.Masking
import ReleasePublisher.Run

/-!
# Two runs side by side

Two runs of the program that look the same to everyone who does not see what authorizations say: the
same outcome, the same files, the same log, and the same requests but for that. What the two know of
the network, and which values they go on with, may differ in a way that is carried along.

## Main definitions

* `Network.SameSent`, `Network.SameAhead`: networks that were sent the same, and that also answer the
  same from now on
* `Surroundings.Alike N s s'`: the same files and log, and networks that `N` relates
* `EndAlike N V`, `Run.SideBySide N N' V m m'`: two runs that end alike, in any alike surroundings

## Main results

* `Run.SideBySide.bind`: two steps side by side, and then two others
* `Run.SideBySide.request`: alike drafts, side by side
-/

namespace ReleasePublisher

/-- The networks were sent the same requests, but for what authorizations say. -/
def Network.SameSent (n n' : Network) : Prop :=
  n.sent.map Request.masked = n'.sent.map Request.masked

/-- The networks were sent the same requests, but for what authorizations say, and answer the same from
now on. -/
def Network.SameAhead (n n' : Network) : Prop :=
  n.masked = n'.masked

theorem Network.SameAhead.sameSent {n n' : Network} (h : n.SameAhead n') : n.SameSent n' :=
  (congrArg Network.sent (h : n.masked = n'.masked) :)

/-- **Surroundings that look the same**: the same files, the same log, and networks that `N` relates. -/
structure Surroundings.Alike (N : Network → Network → Prop) (s s' : Surroundings) : Prop where
  files_eq : s.files = s'.files
  log_eq : s.log = s'.log
  network : N s.network s'.network

/-- **Two runs end alike**: with the same failure, or with values that `V` relates. After a failure it
does not matter any more how the networks would answer. -/
inductive EndAlike {α : Type} (N : Network → Network → Prop) (V : α → α → Prop) :
    Except Failure α × Surroundings → Except Failure α × Surroundings → Prop
  | failed {e s s'} : s.Alike Network.SameSent s' → EndAlike N V (.error e, s) (.error e, s')
  | succeeded {a a' s s'} : V a a' → s.Alike N s' → EndAlike N V (.ok a, s) (.ok a', s')

/-- Runs that end alike with equal values look the same. -/
theorem EndAlike.eq {α : Type} {N : Network → Network → Prop}
    {x x' : Except Failure α × Surroundings} (hN : ∀ n n', N n n' → n.SameSent n')
    (h : EndAlike N Eq x x') : x.1 = x'.1 ∧ x.2.Alike Network.SameSent x'.2 := by
  cases h with
  | failed hs => exact ⟨rfl, hs⟩
  | succeeded ha hs =>
    subst ha
    exact ⟨rfl, hs.files_eq, hs.log_eq, hN _ _ hs.network⟩

namespace Run

variable {α β : Type} {N N₁ N₂ : Network → Network → Prop} {V : α → α → Prop} {W : β → β → Prop}

/-- **Two steps side by side**: from surroundings that look the same, where `N` relates the networks,
they end alike, with values that `V` relates and networks that `N'` relates. -/
def SideBySide (N N' : Network → Network → Prop) (V : α → α → Prop) (m m' : Run α) : Prop :=
  ∀ s s' : Surroundings, s.Alike N s' → EndAlike N' V (m s) (m' s')

namespace SideBySide

/-- **Two steps side by side, and then two others.** -/
theorem bind {m m' : Run α} {f f' : α → Run β} (hm : SideBySide N N₁ V m m')
    (hf : ∀ a a', V a a' → SideBySide N₁ N₂ W (f a) (f' a')) :
    SideBySide N N₂ W (m >>= f) (m' >>= f') := by
  intro s s' hs
  have h := hm s s' hs
  rw [bind_apply, bind_apply]
  generalize m s = x at h
  generalize m' s' = x' at h
  cases h with
  | failed hs => exact .failed hs
  | succeeded ha hs => exact hf _ _ ha _ _ hs

theorem pure {a a' : α} (h : V a a') : SideBySide N N V (Pure.pure a) (Pure.pure a') :=
  fun _ _ hs => .succeeded h hs

theorem note (r : LogRecord) : SideBySide N N Eq (note r) (note r) := by
  intro s s' hs
  refine .succeeded rfl ⟨hs.files_eq, ?_, hs.network⟩
  exact congrArg (· ++ [r]) hs.log_eq

theorem files : SideBySide N N Eq files files := fun _ _ hs => .succeeded hs.files_eq hs

section

variable (hN : ∀ n n', N n n' → n.SameSent n')

include hN

theorem ofExcept (r : Except Failure α) : SideBySide N N Eq (ofExcept r) (ofExcept r) := by
  intro s s' hs
  cases r with
  | error e => exact .failed ⟨hs.files_eq, hs.log_eq, hN _ _ hs.network⟩
  | ok a => exact .succeeded rfl hs

theorem fail (e : Failure) : SideBySide N N Eq (fail e : Run α) (fail e) :=
  ofExcept hN (.error e)

theorem changeFiles (f : FileTree → FileTree × Except Failure α) :
    SideBySide N N Eq (changeFiles f) (changeFiles f) := by
  intro s s' hs
  rw [changeFiles_apply, changeFiles_apply, hs.files_eq]
  cases (f s'.files).2 with
  | error e => exact .failed ⟨rfl, hs.log_eq, hN _ _ hs.network⟩
  | ok a => exact .succeeded rfl ⟨rfl, hs.log_eq, hs.network⟩

/-- What the two know of the network may be forgotten. -/
theorem weaken {m m' : Run α} (h : SideBySide N₁ N V m m') :
    SideBySide N₁ Network.SameSent V m m' := by
  intro s s' hs
  have he := h s s' hs
  generalize m s = x at he
  generalize m' s' = x' at he
  cases he with
  | failed hs => exact .failed hs
  | succeeded ha hs => exact .succeeded ha ⟨hs.files_eq, hs.log_eq, hN _ _ hs.network⟩

end

/-- **Alike drafts, side by side**, have the same answer. -/
theorem request {d d' : Draft} (h : d.Alike d') :
    SideBySide Network.SameAhead Network.SameAhead Eq (request d) (request d') := by
  intro s s' hs
  obtain ⟨hout, hnet⟩ := h.send_eq hs.network
  rw [request_apply, request_apply, hout]
  cases (send d' s'.network).1 with
  | error e =>
    exact .failed ⟨hs.files_eq, hs.log_eq, Network.SameAhead.sameSent hnet⟩
  | ok a => exact .succeeded rfl ⟨hs.files_eq, hs.log_eq, hnet⟩

end SideBySide

end Run

end ReleasePublisher
