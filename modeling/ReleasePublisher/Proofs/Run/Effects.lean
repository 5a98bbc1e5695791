import ReleasePublisher.Proofs.Http.Redirects
import ReleasePublisher.Release.Publish

/-!
# The effects of steps

Which parts of its surroundings a step keeps as they are, and which calls it makes. The four calls of
publishing make one call each and keep the files; packing the binary sends nothing.

## Main definitions

* `Run.Keeps part m`: the step keeps a part of its surroundings
* `Run.SendsWith P m`: what the step sends has the property `P`
* `Run.MakesCall method m`: the step makes one call
* `Run.Reads m`: the step changes nothing on the other side

## Main results

* `package_keeps_network`: packing sends nothing
* `fetchConfiguredToken_makesCall`, `HostClient.repository_makesCall`,
  `HostClient.latestRelease_makesCall`, `HostClient.uploadAsset_makesCall`: each call of publishing is
  one call
-/

namespace ReleasePublisher

namespace Run

variable {α β γ : Type}

/-- The step keeps a part of its surroundings. -/
def Keeps (part : Surroundings → γ) (m : Run α) : Prop :=
  ∀ s, part (m s).2 = part s

namespace Keeps

variable {part : Surroundings → γ}

theorem eq {m : Run α} {s s' : Surroundings} {r : Except Failure α} (hm : Keeps part m)
    (h : m s = (r, s')) : part s' = part s := by
  simpa [h] using hm s

theorem pure (a : α) : Keeps part (Pure.pure a) := fun _ => rfl

theorem ofExcept (r : Except Failure α) : Keeps part (ofExcept r) := fun _ => rfl

theorem fail (e : Failure) : Keeps part (fail e : Run α) := fun _ => rfl

theorem files : Keeps part files := fun _ => rfl

theorem bind {m : Run α} {f : α → Run β} (hm : Keeps part m) (hf : ∀ a, Keeps part (f a)) :
    Keeps part (m >>= f) := by
  intro s
  rcases h : m s with ⟨e | a, s₁⟩
  · rw [bind_of_error h]
    exact hm.eq h
  · rw [bind_of_ok h]
    exact (hf a s₁).trans (hm.eq h)

theorem note_network (r : LogRecord) : Keeps Surroundings.network (note r) := fun _ => rfl

theorem note_files (r : LogRecord) : Keeps Surroundings.files (note r) := fun _ => rfl

theorem request_files (d : Draft) : Keeps Surroundings.files (request d) := fun _ => rfl

theorem changeFiles_network (f : FileTree → FileTree × Except Failure α) :
    Keeps Surroundings.network (changeFiles f) := fun _ => rfl

end Keeps

/-- What the step sends, on the network that it finds, has the property `P`. -/
def SendsWith (P : Network → List Request → Prop) (m : Run α) : Prop :=
  ∀ s, ∃ rs, P s.network rs ∧ (m s).2.network = s.network.after rs

namespace SendsWith

variable {P : Network → List Request → Prop}

theorem of_keeps (hnil : ∀ n, P n []) {m : Run α} (h : Keeps Surroundings.network m) :
    SendsWith P m := fun s =>
  ⟨[], hnil _, (h s).trans s.network.after_nil.symm⟩

/-- What follows a step that has sent something sends nothing more. -/
theorem bind {m : Run α} {f : α → Run β} (hm : SendsWith P m)
    (hf : ∀ a, Keeps Surroundings.network (f a)) : SendsWith P (m >>= f) := by
  intro s
  obtain ⟨rs, hc, hn⟩ := hm s
  refine ⟨rs, hc, ?_⟩
  rcases h : m s with ⟨e | a, s₁⟩
  · rw [bind_of_error h]
    simpa [h] using hn
  · rw [bind_of_ok h]
    exact (hf a s₁).trans (by simpa [h] using hn)

/-- What a step that sends nothing gives is known in the one that follows. -/
theorem keeps_bind (hnil : ∀ n, P n []) {m : Run α} {f : α → Run β}
    (hm : Keeps Surroundings.network m)
    (hf : ∀ a s s₁, m s = (.ok a, s₁) → SendsWith P (f a)) : SendsWith P (m >>= f) := by
  intro s
  rcases h : m s with ⟨e | a, s₁⟩
  · refine ⟨[], hnil _, ?_⟩
    rw [bind_of_error h, Network.after_nil]
    exact hm.eq h
  · have hs : s₁.network = s.network := hm.eq h
    rw [bind_of_ok h, ← hs]
    exact hf a s s₁ h s₁

end SendsWith

/-- The step makes one call: the requests that it sends are those of a call with this method. -/
def MakesCall (method : Method) (m : Run α) : Prop :=
  ∀ s, ∃ rs, IsCall method s.network rs ∧ (m s).2.network = s.network.after rs

namespace MakesCall

variable {method : Method}

/-- A step that sends nothing is a call that was given up before its first request. -/
theorem of_keeps {m : Run α} (h : Keeps Surroundings.network m) : MakesCall method m :=
  SendsWith.of_keeps (IsCall.nil _) h

theorem request {d : Draft} (hm : d.method = method)
    (hd : d.payload.isSome = true ∨ d.method = .get) : MakesCall method (request d) := fun s =>
  hm ▸ send_isCall s.network hd

theorem bind {m : Run α} {f : α → Run β} (hm : MakesCall method m)
    (hf : ∀ a, Keeps Surroundings.network (f a)) : MakesCall method (m >>= f) :=
  SendsWith.bind hm hf

theorem keeps_bind {m : Run α} {f : α → Run β} (hm : Keeps Surroundings.network m)
    (hf : ∀ a, MakesCall method (f a)) : MakesCall method (m >>= f) :=
  SendsWith.keeps_bind (IsCall.nil _) hm fun a _ _ _ => hf a

end MakesCall

/-- The step changes nothing on the other side: it only asks. -/
def Reads (m : Run α) : Prop :=
  ∀ s, ∃ rs, (∀ q ∈ rs, q.method = .get) ∧ (m s).2.network = s.network.after rs

namespace Reads

theorem of_keeps {m : Run α} (h : Keeps Surroundings.network m) : Reads m := fun s =>
  ⟨[], by simp, (h s).trans s.network.after_nil.symm⟩

theorem of_makesCall {m : Run α} (h : MakesCall .get m) : Reads m := fun s =>
  let ⟨rs, hc, hn⟩ := h s
  ⟨rs, hc.method_get, hn⟩

theorem bind {m : Run α} {f : α → Run β} (hm : Reads m) (hf : ∀ a, Reads (f a)) :
    Reads (m >>= f) := by
  intro s
  obtain ⟨rs, hrs, hn⟩ := hm s
  rcases h : m s with ⟨e | a, s₁⟩
  · rw [bind_of_error h]
    exact ⟨rs, hrs, by simpa [h] using hn⟩
  · obtain ⟨qs, hqs, hn'⟩ := hf a s₁
    have hs : s₁.network = s.network.after rs := by simpa [h] using hn
    rw [bind_of_ok h]
    refine ⟨rs ++ qs, fun q hq => (List.mem_append.mp hq).elim (hrs q) (hqs q), ?_⟩
    rw [hn', hs, Network.after_after]

end Reads

end Run

open Run

/-! ### The steps of publishing -/

/-- **Packing sends nothing.** -/
theorem package_keeps_network [Gzip.Writer] (c : Config) :
    Keeps Surroundings.network (package c) := by
  refine .bind .files fun t => ?_
  split
  · exact .fail _
  · exact .bind (.note_network _) fun _ => .bind (.changeFiles_network _) fun _ =>
      .bind (.changeFiles_network _) fun _ => .bind .files fun _ => .bind (.ofExcept _) fun _ =>
        .bind (.note_network _) fun _ => .pure _

theorem fetchConfiguredToken_keeps_files (c : Config) :
    Keeps Surroundings.files (fetchConfiguredToken c) :=
  .bind (.ofExcept _) fun _ => .bind (.note_files _) fun _ => .bind (.request_files _) fun _ =>
    .bind (.ofExcept _) fun _ => .bind (.note_files _) fun _ => .pure _

theorem fetchToken_makesCall (proxy project : String) :
    MakesCall .get (fetchToken proxy project) :=
  .keeps_bind (.note_network _) fun _ => .bind (.request rfl (.inr rfl)) fun _ =>
    .bind (.ofExcept _) fun _ => .bind (.note_network _) fun _ => .pure _

/-- **Asking for the deploy token** is one call that reads. -/
theorem fetchConfiguredToken_makesCall (c : Config) : MakesCall .get (fetchConfiguredToken c) :=
  .keeps_bind (.ofExcept _) fun proxy => fetchToken_makesCall proxy c.project

namespace HostClient

variable (c : HostClient)

/-- **Looking up the repository** is one call that reads. -/
theorem repository_makesCall (owner name : String) : MakesCall .get (c.repository owner name) :=
  .bind (.request rfl (.inr rfl)) fun _ => .ofExcept _

/-- **Looking up the latest release** is one call that reads. -/
theorem latestRelease_makesCall (r : Repository) : MakesCall .get (c.latestRelease r) :=
  .bind (.request rfl (.inr rfl)) fun _ => .ofExcept _

theorem repository_keeps_files (owner name : String) :
    Keeps Surroundings.files (c.repository owner name) :=
  .bind (.request_files _) fun _ => .ofExcept _

theorem latestRelease_keeps_files (r : Repository) :
    Keeps Surroundings.files (c.latestRelease r) :=
  .bind (.request_files _) fun _ => .ofExcept _

/-- **Uploading the archive** is one call that writes. -/
theorem uploadAsset_makesCall (release : Release) (archive : PackagedArchive)
    (contentType : String) (showsProgress : Bool) :
    MakesCall .post (c.uploadAsset release archive contentType showsProgress) :=
  .keeps_bind (.ofExcept _) fun _ => .keeps_bind .files fun _ => .keeps_bind (.ofExcept _) fun _ =>
    .keeps_bind (.note_network _) fun _ => .bind (.request rfl (.inl rfl)) fun _ => .ofExcept _

end HostClient

end ReleasePublisher
