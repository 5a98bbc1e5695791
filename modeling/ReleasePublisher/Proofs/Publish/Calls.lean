import ReleasePublisher.Proofs.Publish.Stages

/-!
# The calls of a publishing run

Publishing makes its calls in a fixed order, each at most once, and stops at the first failure. A call is
made where it has sent a request; a run succeeds only if all its calls were made. It changes something on
the other side at most once, and a dry run never does.

## Main definitions

* `StageRecord.madeCall? o r`, `madeCalls o records`: the calls that sent a request
* `posts rs`: how many requests change something on the other side
* `IsOrderly c o s records out s'`: the order of stages, calls and requests in a run

## Main results

* `Journey.madeCalls_prefix`, `Journey.madeCalls_eq`: the calls of a run
* `posts_le_count_upload`: the stages of a run send no more such requests than they upload
* `publish_isOrderly`: publishing is orderly
-/

namespace ReleasePublisher

/-- The call of a stage, if it sent a request. -/
def StageRecord.madeCall? (o : PublishOptions) (r : StageRecord) : Option Call :=
  if r.requests.isEmpty then none else r.stage.call? o

/-- The calls that sent a request. -/
def madeCalls (o : PublishOptions) (records : List StageRecord) : List Call :=
  records.filterMap (StageRecord.madeCall? o)

variable {c : Config} {o : PublishOptions}

/-- **A stage that succeeded has made its call**, if it has one. -/
theorem StageRecord.IsGenuine.madeCall?_eq {r : StageRecord} (h : r.IsGenuine c o)
    (hr : r.failure = none) : r.madeCall? o = r.stage.call? o := by
  unfold madeCall?
  cases hk : r.stage.call? o with
  | none => simp
  | some k =>
    obtain ⟨hne, -⟩ := h.succeeded hr k hk
    rw [if_neg (by simpa using hne)]

theorem madeCalls_cons (r : StageRecord) (records : List StageRecord) :
    madeCalls o (r :: records) = (r.madeCall? o).toList ++ madeCalls o records := by
  cases hk : r.madeCall? o <;> simp [madeCalls, hk]

/-- Stages that succeeded have made their calls. -/
theorem madeCalls_of_succeeded {records : List StageRecord}
    (h : ∀ r ∈ records, r.IsGenuine c o ∧ r.failure = none) :
    madeCalls o records = (records.map (·.stage)).filterMap (Stage.call? o) := by
  induction records with
  | nil => rfl
  | cons r records ih =>
    obtain ⟨⟨hr, hok⟩, hrs⟩ := List.forall_mem_cons.mp h
    rw [madeCalls_cons, hr.madeCall?_eq hok, ih hrs]
    cases hk : r.stage.call? o <;> simp [hk]

/-! ### Requests that change something -/

/-- How many requests change something on the other side. -/
def posts (rs : List Request) : Nat :=
  rs.countP (·.method == .post)

theorem posts_append (qs rs : List Request) : posts (qs ++ rs) = posts qs + posts rs :=
  List.countP_append

theorem posts_of_isPlain {rs : List Request} (h : ∀ q ∈ rs, q.IsPlain) : posts rs = 0 :=
  List.countP_eq_zero.mpr fun q hq => by simp [(h q hq).1]

/-- A call that reads changes nothing, and one that writes does so once. -/
theorem IsCall.posts_le {m : Method} {n : Network} {rs : List Request} (h : IsCall m n rs) :
    posts rs ≤ if m = .post then 1 else 0 := by
  cases rs with
  | nil => simp [posts]
  | cons q qs =>
    have hq : q.method = m := h.asks q rfl
    have hqs : posts qs = 0 := posts_of_isPlain h.hops
    cases m <;> simp_all [posts]

/-- What a stage sends changes nothing on the other side unless it uploads, and then it does so
once. -/
theorem StageRecord.IsGenuine.posts_le {r : StageRecord} (h : r.IsGenuine c o) :
    posts r.requests ≤ (r.madeCall? o).toList.count .upload := by
  unfold madeCall?
  by_cases hnil : r.requests = []
  · simp [hnil, posts]
  · rw [if_neg (by simpa using hnil)]
    cases hk : r.stage.call? o with
    | none => exact absurd (h.silent hk) hnil
    | some k =>
      have hp := (h.isCall k hk).posts_le
      cases k <;> simpa [Call.method] using hp

/-- **A run changes something on the other side only where it uploads.** -/
theorem posts_le_count_upload {records : List StageRecord} (h : ∀ r ∈ records, r.IsGenuine c o) :
    posts (records.flatMap (·.requests)) ≤ (madeCalls o records).count .upload := by
  induction records with
  | nil => simp [posts]
  | cons r records ih =>
    obtain ⟨hr, hrs⟩ := List.forall_mem_cons.mp h
    rw [List.flatMap_cons, posts_append, madeCalls_cons, List.count_append]
    exact Nat.add_le_add hr.posts_le (ih hrs)

/-! ### The calls of a run -/

/-- The calls that are still ahead. -/
def Progress.callsAhead (o : PublishOptions) (p : Progress) : List Call :=
  p.ahead.filterMap (Stage.call? o)

/-- **The calls of a run** are made in their order, each once. -/
theorem Journey.madeCalls_prefix [Gzip.Writer] {p : Progress} {s s' : Surroundings}
    {records : List StageRecord} {out : Except Failure PublishReport}
    (h : Journey c o p s records out s') : madeCalls o records <+: p.callsAhead o := by
  -- By induction on the run: what succeeds has made its call, and what fails is the last stage.
  induction h with
  | done => exact List.nil_prefix
  | @failed p s g gs e s' hp hs =>
    have hahead : p.callsAhead o = (g.call? o).toList ++ gs.filterMap (Stage.call? o) := by
      rw [Progress.callsAhead, hp]
      cases hk : g.call? o <;> simp [hk]
    rw [madeCalls_cons, hahead]
    unfold StageRecord.madeCall?
    split
    · exact List.nil_prefix
    · exact ⟨gs.filterMap (Stage.call? o), by simp [madeCalls]⟩
  | @entered p s g gs q s₁ rs out s' hp hs hrest ih =>
    have hgenuine : StageRecord.IsGenuine c o ⟨g, p, s, s₁, none⟩ :=
      Progress.step_isGenuine hp hs (by simp)
    have hahead : p.callsAhead o = (g.call? o).toList ++ q.callsAhead o := by
      rw [Progress.callsAhead, Progress.callsAhead, hp, Progress.step_ahead hp hs]
      cases hk : g.call? o <;> simp [hk]
    rw [madeCalls_cons, hgenuine.madeCall?_eq rfl, hahead]
    exact (List.prefix_append_right_inj _).mpr ih

/-- **A run that succeeds has made all calls.** -/
theorem Journey.madeCalls_eq [Gzip.Writer] {p : Progress} {s s' : Surroundings}
    {records : List StageRecord} {report : PublishReport}
    (h : Journey c o p s records (.ok report) s') : madeCalls o records = p.callsAhead o := by
  rw [madeCalls_of_succeeded fun r hr => ⟨h.isGenuine r hr, h.failure_of_ok r hr⟩, h.stages_eq,
    Progress.callsAhead]

/-- **The order of a run** from `s` that keeps these records and ends with `out` in `s'`. -/
structure IsOrderly (c : Config) (o : PublishOptions) (s : Surroundings) (records : List StageRecord)
    (out : Except Failure PublishReport) (s' : Surroundings) : Prop where
  /-- The calls are made in their order, each once. -/
  calls : madeCalls o records <+: plannedCalls o
  /-- A stage is entered only after all stages before it, and only if all of them succeeded. -/
  earlier : ∀ past r future, records = past ++ r :: future →
    past.map (·.stage) ++ [r.stage] <+: Stage.all ∧ ∀ x ∈ past, x.failure = none
  /-- What a run sends is what its stages send, one after the other. -/
  sent : s'.network.sent = s.network.sent ++ records.flatMap (·.requests)
  /-- A stage sends the requests of its call, if it makes one, and nothing else. The first of them is
  what the call asks for, and there is one where the stage succeeded. -/
  genuine : ∀ r ∈ records, r.IsGenuine c o
  /-- A run succeeds only if all stages were entered, all calls made, and all of them succeeded. -/
  of_ok : ∀ report, out = .ok report → records.map (·.stage) = Stage.all ∧
    madeCalls o records = plannedCalls o ∧ ∀ r ∈ records, r.failure = none
  /-- A run fails as the last stage that was entered. -/
  of_error : ∀ e, out = .error e → ∃ past last, records = past ++ [last] ∧ last.failure = some e
  /-- Something changes on the other side at most once, and never in a dry run. -/
  posts_le : posts (records.flatMap (·.requests)) ≤ if o.dryRun then 0 else 1

/-- **Publishing is orderly**: whatever the configuration, the files and the answers are, it is a run
of the machine that makes the calls for the secret, the repository, the latest release and the upload
in this order, each at most once and only after all before succeeded. What succeeds has made all its
calls: each has sent what it asks for to the address that it asks, and its answer was accepted. -/
theorem publish_isOrderly [Gzip.Writer] (c : Config) (o : PublishOptions) (s : Surroundings) :
    ∃ records, Journey c o .begun s records (publish c o s).1 (publish c o s).2 ∧
      IsOrderly c o s records (publish c o s).1 (publish c o s).2 := by
  obtain ⟨records, h⟩ := publish_journey c o s
  have hplanned : Progress.callsAhead o .begun = plannedCalls o := filterMap_call?_all o
  refine ⟨records, h, hplanned ▸ h.madeCalls_prefix, fun past r future hr => ?_, ?_, h.isGenuine,
    fun report ho => ?_, fun e he => ?_, ?_⟩
  · refine ⟨List.IsPrefix.trans ?_ h.stages_prefix, h.failure_of_past hr⟩
    rw [hr]
    exact ⟨future.map (·.stage), by simp⟩
  · rw [h.network_eq, Network.sent_after]
  · rw [ho] at h
    exact ⟨h.stages_eq, h.madeCalls_eq.trans hplanned, h.failure_of_ok⟩
  · rw [he] at h
    exact h.failure_of_error
  · calc posts (records.flatMap (·.requests))
        ≤ (madeCalls o records).count .upload := posts_le_count_upload h.isGenuine
      _ ≤ (plannedCalls o).count .upload := (hplanned ▸ h.madeCalls_prefix).sublist.count_le _
      _ = if o.dryRun then 0 else 1 := by cases hd : o.dryRun <;> simp [plannedCalls, hd]

end ReleasePublisher
