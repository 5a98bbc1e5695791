import ReleasePublisher.Release.Host

/-!
# Contexts of failures

Contexts can be attached to a failure one after the other, each of them given at once or computed when there is a
failure. What the failure is does not change by it. A failure of files and a plain message say more, below what
they said first: a line for each context, the newest one above the older ones. All other failures stay as they are.

## Main definitions

* `Failure.kind f`, `Failure.source? f`: what kind of failure it is, and the error below it
* `Failure.bare f`, `Failure.below f`: the failure without its contexts, and the text of its contexts
* `Failure.contextLines cs`: the text of contexts that are attached one after the other
* `Failure.inContexts cs f`: a failure to which they are attached
* `inContext ofError context r`: an outcome with a context that is computed for a failure only
* `Attachment`, `attachAll as r`: the two ways to attach a context, and any number of them one after the other
* `Failure.IsInContexts e cs e'`: what contexts do to a failure

## Main results

* `Failure.bare_addContext`, `Failure.below_addContext`: what one context keeps and what it adds
* `Failure.bare_inContexts`, `Failure.message_inContexts`: what any number of them keep and add
* `attachAll_isInContexts`: a failure keeps its nature in every context
-/

namespace ReleasePublisher

/-- **The kinds of failures.** -/
inductive FailureKind where
  | missingVariable
  | invalidProject
  | invalidFile
  | sourceNotFound
  | sourceNotFile
  | secretStatus
  | malformedSecret
  | unauthorized
  | repositoryNotFound
  | noRelease
  | uploadRejected
  | refused
  | http
  | io
  | plain
  deriving DecidableEq, Repr

/-- Failures of these kinds take contexts. -/
def FailureKind.TakesContext (k : FailureKind) : Prop :=
  k = io ∨ k = plain

namespace Failure

/-- What kind of failure it is. -/
def kind : Failure → FailureKind
  | config (.missingVariable _) => .missingVariable
  | config (.invalidProject _ _) => .invalidProject
  | config (.invalidFile _ _) => .invalidFile
  | archive (.sourceNotFound _) => .sourceNotFound
  | archive (.sourceNotFile _) => .sourceNotFile
  | secret (.status _ _) => .secretStatus
  | secret (.malformed _) => .malformedSecret
  | host (.unauthorized _) => .unauthorized
  | host (.repositoryNotFound _) => .repositoryNotFound
  | host (.noRelease _) => .noRelease
  | host (.uploadRejected _ _ _) => .uploadRejected
  | host (.refused _ _ _) => .refused
  | http _ => .http
  | io _ _ => .io
  | plain _ _ _ => .plain

/-- The error below a failure, if there is one: one of the transport or one of the files. -/
def source? : Failure → Option (HttpFailure ⊕ IoError)
  | http f => some (.inl f)
  | io e _ => some (.inr e)
  | _ => none

/-- The text of the error below a failure is what that error says. -/
theorem cause?_eq (f : Failure) : f.cause? = f.source?.map (Sum.elim HttpFailure.message IoError.message) := by
  cases f <;> rfl

/-- The contexts that a failure has, as one text. -/
def context? : Failure → Option String
  | io _ context => context
  | plain _ context _ => context
  | _ => none

/-- **The failure without its contexts.** -/
def bare : Failure → Failure
  | io e _ => io e none
  | plain message _ help => plain message none help
  | f => f

/-- What a context puts below a message: nothing, or text that begins on the next line. -/
def lineOf : Option String → String
  | none => ""
  | some context => "\n" ++ context

/-- **What stands below the message** of a failure. -/
def below (f : Failure) : String :=
  lineOf f.context?

/-- **The lines of contexts** that are attached in this order: the last one stands above all others. -/
def contextLines (cs : List String) : String :=
  String.join (cs.reverse.map ("\n" ++ ·))

theorem contextLines_cons (context : String) (cs : List String) :
    contextLines (context :: cs) = contextLines cs ++ ("\n" ++ context) := by
  rw [contextLines, List.reverse_cons, List.map_append, String.join_append, List.map_singleton,
    String.join_cons, String.join_nil, String.append_empty, contextLines]

/-! ### What does not depend on contexts -/

@[simp] theorem kind_bare (f : Failure) : f.bare.kind = f.kind := by
  cases f <;> rfl

@[simp] theorem exitCode_bare (f : Failure) : f.bare.exitCode = f.exitCode := by
  cases f <;> rfl

@[simp] theorem help_bare (f : Failure) : f.bare.help = f.help := by
  cases f <;> rfl

@[simp] theorem source?_bare (f : Failure) : f.bare.source? = f.source? := by
  cases f <;> rfl

theorem withContext_eq (message : String) (context : Option String) :
    withContext message context = message ++ lineOf context := by
  cases context with
  | none => exact String.append_empty.symm
  | some context => exact String.append_assoc

/-- **A failure says** what it says without contexts, and below it the contexts. -/
theorem message_eq (f : Failure) : f.message = f.bare.message ++ f.below := by
  cases f with
  | io e context => exact withContext_eq _ context
  | plain message context help => exact withContext_eq message context
  | config f | archive f | secret f | host f | http f => exact String.append_empty.symm

/-- Where nothing was attached, there is nothing to leave out. -/
theorem bare_eq_self {f : Failure} (h : f.context? = none) : f.bare = f := by
  cases f with
  | io e context | plain message context help =>
    obtain rfl : context = none := h
    rfl
  | config f | archive f | secret f | host f | http f => rfl

/-! ### One context -/

/-- **A context keeps** the failure below it. -/
@[simp] theorem bare_addContext (context : String) (f : Failure) : (f.addContext context).bare = f.bare := by
  cases f <;> rfl

theorem lineOf_outerContext (context : String) (inner : Option String) :
    lineOf (some (outerContext context inner)) = "\n" ++ context ++ lineOf inner := by
  rw [String.append_assoc]
  cases inner with
  | none => exact congrArg ("\n" ++ ·) String.append_empty.symm
  | some inner => exact congrArg ("\n" ++ ·) String.append_assoc

/-- **A context stands above those there are**, on a line of its own. -/
theorem below_addContext (context : String) {f : Failure} (h : f.kind.TakesContext) :
    (f.addContext context).below = "\n" ++ context ++ f.below := by
  cases f with
  | io e inner => exact lineOf_outerContext context inner
  | plain message inner help => exact lineOf_outerContext context inner
  -- The failures of the other kinds take none.
  | http f => rcases h with h | h <;> cases h
  | config f | archive f | secret f | host f => cases f <;> rcases h with h | h <;> cases h

/-- **The other failures take no context.** -/
theorem addContext_eq_self (context : String) {f : Failure} (h : ¬ f.kind.TakesContext) :
    f.addContext context = f := by
  cases f with
  | io e inner => exact absurd (.inl rfl) h
  | plain message inner help => exact absurd (.inr rfl) h
  | config f | archive f | secret f | host f | http f => rfl

/-! ### Any number of contexts -/

/-- Contexts, one after the other. -/
def inContexts (cs : List String) (f : Failure) : Failure :=
  cs.foldl (fun f context => f.addContext context) f

/-- **Any number of contexts keep** the failure below them. -/
@[simp] theorem bare_inContexts (cs : List String) (f : Failure) : (f.inContexts cs).bare = f.bare := by
  induction cs generalizing f with
  | nil => rfl
  | cons context cs ih => exact (ih _).trans (bare_addContext context f)

/-- What is the same of a failure without its contexts is the same in any contexts. -/
theorem eq_of_bare {α : Type} {part : Failure → α} (hpart : ∀ f, part f.bare = part f) (cs : List String)
    (f : Failure) : part (f.inContexts cs) = part f := by
  rw [← hpart, bare_inContexts, hpart]

theorem kind_addContext (context : String) (f : Failure) : (f.addContext context).kind = f.kind :=
  eq_of_bare kind_bare [context] f

/-- **Contexts stand below the message**, the last one attached first. -/
theorem below_inContexts (cs : List String) {f : Failure} (h : f.kind.TakesContext) :
    (f.inContexts cs).below = contextLines cs ++ f.below := by
  induction cs generalizing f with
  | nil => exact String.empty_append.symm
  | cons context cs ih =>
    have hkind : (f.addContext context).kind.TakesContext := by
      rw [kind_addContext]
      exact h
    -- The first context is among those that the others stand above.
    calc (f.inContexts (context :: cs)).below
        = contextLines cs ++ (f.addContext context).below := ih hkind
      _ = contextLines cs ++ ("\n" ++ context ++ f.below) := by rw [below_addContext context h]
      _ = contextLines (context :: cs) ++ f.below := by rw [contextLines_cons, ← String.append_assoc]

theorem inContexts_eq_self (cs : List String) {f : Failure} (h : ¬ f.kind.TakesContext) :
    f.inContexts cs = f := by
  induction cs with
  | nil => rfl
  | cons context cs ih =>
    rw [inContexts, List.foldl_cons, addContext_eq_self context h]
    exact ih

/-- **What a failure says in contexts** begins with what it says without any, and ends with those it had before. -/
theorem message_inContexts (cs : List String) {f : Failure} (h : f.kind.TakesContext) :
    (f.inContexts cs).message = f.bare.message ++ contextLines cs ++ f.below := by
  rw [message_eq, bare_inContexts, below_inContexts cs h, String.append_assoc]

/-- **What contexts do to a failure**: `e'` is the failure `e` with the contexts `cs`, in the order in which they
were attached. -/
structure IsInContexts (e : Failure) (cs : List String) (e' : Failure) : Prop where
  kind : e'.kind = e.kind
  exitCode : e'.exitCode = e.exitCode
  help : e'.help = e.help
  source : e'.source? = e.source?
  cause : e'.cause? = e.cause?
  /-- A failure of files or a plain message without contexts says them below what it said. -/
  message_of_takes : e.kind.TakesContext → e.context? = none →
    e'.message = e.message ++ contextLines cs
  /-- Contexts that it had before stay below them. -/
  message_of_had : e.kind.TakesContext →
    e'.message = e.bare.message ++ contextLines cs ++ e.below
  /-- All other failures say what they said. -/
  message_of_not : ¬ e.kind.TakesContext → e'.message = e.message

end Failure

/-! ### Outcomes in contexts -/

variable {ε α : Type}

/-- **An outcome with a context for its failure.** An error becomes a failure first, and the context is computed
only then. -/
def inContext (ofError : ε → Failure) (context : Thunk String) : Except ε α → Except Failure α
  | .ok a => .ok a
  | .error e => .error ((ofError e).addContext context.get)

/-- The steps on files attach their contexts in this way. -/
theorem withContext_eq_inContext (context : String) (r : FileTree × Except IoError α) :
    withContext context r = (r.1, inContext (.io · none) context r.2) := by
  obtain ⟨t, e | a⟩ := r <;> rfl

/-- Opening an archive for an upload attaches its context in this way. -/
theorem openAsset_eq_inContext (p : Path) (t : FileTree) :
    HostClient.openAsset p t = inContext (.io · none) ("Failed to open " ++ p.display) (t.openRead p) := by
  rw [HostClient.openAsset]
  cases t.openRead p <;> rfl

/-- **The two ways to attach a context** to an outcome. -/
inductive Attachment where
  /-- The context is there, whether or not there is a failure. -/
  | given (context : String)
  /-- The context is computed when there is a failure. -/
  | computed (context : Thunk String)

namespace Attachment

/-- The context that is attached. -/
def text : Attachment → String
  | given context => context
  | computed context => context.get

/-- Attaches a context to an outcome. -/
def apply : Attachment → Except Failure α → Except Failure α
  | given context, r => r.mapError (Failure.addContext context)
  | computed context, r => inContext id context r

/-- An error that becomes a failure on the way might as well have been one before. -/
theorem inContext_eq_apply (ofError : ε → Failure) (context : Thunk String) (r : Except ε α) :
    inContext ofError context r = (computed context).apply (r.mapError ofError) := by
  cases r <;> rfl

theorem apply_ok (a : Attachment) (x : α) : a.apply (.ok x) = .ok x := by
  cases a <;> rfl

theorem apply_error (a : Attachment) (e : Failure) :
    a.apply (.error e : Except Failure α) = .error (e.addContext a.text) := by
  cases a <;> rfl

end Attachment

/-- Attaches contexts, one after the other. -/
def attachAll (as : List Attachment) (r : Except Failure α) : Except Failure α :=
  as.foldl (fun r a => a.apply r) r

theorem attachAll_ok (as : List Attachment) (x : α) : attachAll as (.ok x) = .ok x := by
  induction as with
  | nil => rfl
  | cons a as ih =>
    rw [attachAll, List.foldl_cons, a.apply_ok]
    exact ih

theorem attachAll_error (as : List Attachment) (e : Failure) :
    attachAll as (.error e : Except Failure α) = .error (e.inContexts (as.map (·.text))) := by
  induction as generalizing e with
  | nil => rfl
  | cons a as ih =>
    rw [attachAll, List.foldl_cons, a.apply_error]
    exact ih _

/-- **A failure keeps its nature in every context.** Whatever contexts are attached to an outcome, in either way and
in any number: a success stays as it is, and a failure stays a failure of the same kind, with the same exit code,
remedy and error below it. Only what a failure of files or a plain message says grows, by the contexts below it from
the last one attached to the first. -/
theorem attachAll_isInContexts (as : List Attachment) :
    (∀ x : α, attachAll as (.ok x) = .ok x) ∧
      ∀ e : Failure, ∃ e', attachAll as (.error e : Except Failure α) = .error e' ∧
        e.IsInContexts (as.map (·.text)) e' := by
  constructor
  · exact attachAll_ok as
  intro e
  generalize hcs : as.map (·.text) = cs
  have hsource : (e.inContexts cs).source? = e.source? := Failure.eq_of_bare Failure.source?_bare cs e
  refine ⟨e.inContexts cs, by rw [attachAll_error, hcs], ?_⟩
  constructor
  · exact Failure.eq_of_bare Failure.kind_bare cs e
  · exact Failure.eq_of_bare Failure.exitCode_bare cs e
  · exact Failure.eq_of_bare Failure.help_bare cs e
  · exact hsource
  · rw [Failure.cause?_eq, hsource, ← Failure.cause?_eq]
  · intro htakes hnone
    -- Nothing was attached before, so that all that it said stands above the contexts.
    have hbelow : e.below = "" := by
      rw [Failure.below, hnone, Failure.lineOf]
    rw [Failure.message_inContexts cs htakes, Failure.bare_eq_self hnone, hbelow, String.append_empty]
  · exact Failure.message_inContexts cs
  · intro htakes
    rw [Failure.inContexts_eq_self cs htakes]

end ReleasePublisher
