import ReleasePublisher.Proofs.Publish.Errands

/-!
# Dialogues with the release host

One client makes any number of calls, one after the other. Which call comes next may depend on what the calls before
it brought back, failures included, and between two calls anything may happen to the files, the network and the log.

## Main definitions

* `HostRecord`: what an errand to the release host brings back
* `HostErrand.run c k`, `HostErrand.exchange c k s`: an errand of a client, and the exchange that it is
* `Dialogue`: the errands of a client, each chosen by what the ones before brought back
* `Dialogue.run c d s`: the exchanges of a dialogue, and what it leaves behind
* `Exchange.IsAddressed base x`: the look-up goes to its endpoint below a base address

## Main results

* `HostErrand.exchange_requests`: the requests of an exchange are those of its errand
* `HostErrand.exchange_isAddressed`, `Dialogue.run_isAddressed`: where the look-ups of a client go
-/

namespace ReleasePublisher

/-- What an errand to the release host brings back. -/
inductive HostRecord where
  | repository (r : Repository)
  | release (r : Release)
  | asset (a : Asset)
  deriving DecidableEq, Repr

/-- **An exchange with the release host**: an errand with its outcome, and the requests that were sent for it. -/
structure Exchange where
  errand : HostErrand
  outcome : Except Failure HostRecord
  requests : List Request

namespace HostErrand

/-- What an errand brings back, among all that errands do. -/
def record (c : HostClient) : (k : HostErrand) → (Errand.host c k).Outcome → HostRecord
  | repository _ _, r => .repository r
  | latestRelease _, r => .release r
  | upload _ _ _ _, a => .asset a

/-- Runs an errand of a client. -/
def run (c : HostClient) (k : HostErrand) : Run HostRecord := do
  let found ← (Errand.host c k).run
  return k.record c found

/-- The exchange that an errand is. -/
def exchange (c : HostClient) (k : HostErrand) (s : Surroundings) : Exchange × Surroundings :=
  let out := k.run c s
  (⟨k, out.1, out.2.network.sent.drop s.network.sent.length⟩, out.2)

/-- Telling what was found changes nothing. -/
theorem run_snd (c : HostClient) (k : HostErrand) (s : Surroundings) :
    (k.run c s).2 = ((Errand.host c k).run s).2 := by
  rw [run, Run.bind_apply]
  rcases (Errand.host c k).run s with ⟨e | found, after⟩ <;> rfl

/-- **The requests of an exchange** are those of its errand. -/
theorem exchange_requests (c : HostClient) (k : HostErrand) (s : Surroundings) :
    (k.exchange c s).1.requests = (Errand.host c k).requests s := by
  rw [exchange, run_snd, Errand.requests]

/-- The endpoint that an errand looks up; an upload goes where the release says. -/
def endpoint? : HostErrand → Option String
  | repository owner name => some (HostClient.repositoryEndpoint owner name)
  | latestRelease found => some (HostClient.latestEndpoint found.fullName)
  | upload _ _ _ _ => none

end HostErrand

/-- **The look-up goes to its endpoint below a base address**: what it sends first asks there. -/
def Exchange.IsAddressed (base : String) (x : Exchange) : Prop :=
  ∀ endpoint ∈ x.errand.endpoint?, ∀ q, x.requests.head? = some q →
    ∃ u, Url.parse (base ++ endpoint) = .ok u ∧ q.url = (takeCredentials u).1

/-- **Where a look-up goes** is told by the base address of the client. -/
theorem HostErrand.exchange_isAddressed (c : HostClient) (k : HostErrand) (s : Surroundings) :
    (k.exchange c s).1.IsAddressed c.apiUrl := by
  intro endpoint hendpoint q hq
  rw [exchange_requests] at hq
  obtain ⟨d, hd, hmakes, -⟩ := Errand.makes_of_head? hq
  obtain ⟨u, hu, -, hurl, -⟩ := hmakes.eq
  refine ⟨u, ?_, hurl⟩
  change k.endpoint? = some endpoint at hendpoint
  cases k with
  | repository owner name =>
    obtain rfl := Option.some.inj hendpoint
    obtain rfl := Except.ok.inj hd
    exact hu
  | latestRelease found =>
    obtain rfl := Option.some.inj hendpoint
    obtain rfl := Except.ok.inj hd
    exact hu
  | upload release archive contentType showsProgress => cases hendpoint

/-! ### Dialogues -/

/-- **A dialogue with the release host.** -/
inductive Dialogue where
  | ended
  /-- An errand is run, and its outcome tells how the dialogue goes on. -/
  | errand (k : HostErrand) (next : Except Failure HostRecord → Dialogue)
  /-- Something else happens in between. -/
  | meanwhile (change : Surroundings → Surroundings) (next : Dialogue)

namespace Dialogue

/-- The exchanges of a dialogue, and what it leaves behind. -/
def run (c : HostClient) : Dialogue → Surroundings → List Exchange × Surroundings
  | ended, s => ([], s)
  | errand k next, s =>
    let first := k.exchange c s
    let rest := (next first.1.outcome).run c first.2
    (first.1 :: rest.1, rest.2)
  | meanwhile change next, s => next.run c (change s)

theorem run_errand (c : HostClient) (k : HostErrand) (next : Except Failure HostRecord → Dialogue)
    (s : Surroundings) :
    ((errand k next).run c s).1 = (k.exchange c s).1 ::
      ((next (k.exchange c s).1.outcome).run c (k.exchange c s).2).1 := by
  rw [run]

theorem run_meanwhile (c : HostClient) (change : Surroundings → Surroundings) (next : Dialogue)
    (s : Surroundings) : (meanwhile change next).run c s = next.run c (change s) := by
  rw [run]

/-- **Every look-up of a dialogue** goes to its endpoint below the base address of the client. -/
theorem run_isAddressed (c : HostClient) (d : Dialogue) (s : Surroundings) :
    ∀ x ∈ (d.run c s).1, x.IsAddressed c.apiUrl := by
  induction d generalizing s with
  | ended =>
    intro x hx
    rw [run] at hx
    exact absurd hx List.not_mem_nil
  | errand k next ih =>
    -- The rest of the dialogue is the one that the outcome leads to.
    rw [run_errand]
    intro x hx
    rcases List.mem_cons.mp hx with rfl | hx
    · exact k.exchange_isAddressed c s
    · exact ih _ _ x hx
  | meanwhile change next ih =>
    rw [run_meanwhile]
    exact ih (change s)

end Dialogue

end ReleasePublisher
