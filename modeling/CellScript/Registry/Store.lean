import CellScript.Names
import CellScript.Library.KeyedMap

/-!
# The verification store of the registry

The SQL store of the registry service, as far as the verification of releases is concerned: the
tables of verification jobs, of releases and of source snapshots, and the transactions on them. Each
transaction is one step. A transaction that throws, or that finds no row to change, changes nothing;
such steps are left out of a run.

A job is found by its release, since the table has one job for each release. A claim names the job
it takes, which has to be first in the order of the queue.
-/

namespace CellScript.Registry

/-! ### Rows -/

inductive JobStatus
  | queued | running | publishing | retryWait | succeeded | deadLetter
  deriving DecidableEq, Repr

inductive VerificationStatus
  | pending | hashBound | verified | evidenceRequired | rejected
  deriving DecidableEq, Repr

inductive DeploymentStatus
  | notApplicable | undeployed | deployed | chainVerified
  deriving DecidableEq, Repr

inductive PackageEvidenceKind
  | verifiedBuild | reproducedBuild | deployed | onChainCommitted
  deriving DecidableEq, Repr

/-- The `verification_level` of evidence. -/
inductive VerificationLevel
  | compiled | structurallyVerified | hashBound | evidenceRequired | other
  deriving DecidableEq, Repr

/-- The namespace, the name and the version of a release. -/
structure ReleaseKey where
  namespaceName : String
  name : String
  version : String
  deriving DecidableEq, Repr

/-- A row of the queue of verification jobs. -/
structure VerificationJob where
  status : JobStatus
  attemptCount : ℕ
  maxAttempts : ℕ
  availableAt : ℕ
  leaseOwner : Option String
  leaseExpiresAt : Option ℕ
  evidenceHash : Option String
  lastErrorCode : Option String
  createdAt : ℕ
  deriving DecidableEq, Repr

/-- A release and how far it is verified and deployed. -/
structure PackageVersion where
  verificationStatus : VerificationStatus
  deploymentStatus : DeploymentStatus
  /-- The value of `packageVersionRequiresReproduction`. -/
  requiresReproduction : Bool
  snapshotHash : String
  sourcePurgedAt : Option ℕ
  deriving DecidableEq, Repr

/-- Why a snapshot is hidden. A pending purge names the job, the attempt and the error. -/
inductive HiddenReason
  | pendingDelete (job : ReleaseKey) (attemptCount : ℕ) (errorCode : String)
  | verificationRejected
  deriving DecidableEq, Repr

/-- An archived source, which may be hidden. -/
structure SourceSnapshot where
  r2Key : String
  hiddenAt : Option ℕ
  hiddenReason : Option HiddenReason
  deriving DecidableEq, Repr

structure Store where
  jobs : KeyedMap ReleaseKey VerificationJob
  releases : KeyedMap ReleaseKey PackageVersion
  snapshots : KeyedMap String SourceSnapshot
  deriving DecidableEq

namespace Store

def empty : Store := ⟨.empty, .empty, .empty⟩

def setJob (s : Store) (key : ReleaseKey) (job : VerificationJob) : Store :=
  { s with jobs := s.jobs.insert key job }

/-- The job of a release is updated, if it passes a test. -/
def updateJob (key : ReleaseKey) (test : VerificationJob → Bool)
    (update : VerificationJob → VerificationJob) (s : Store) : Option Store := do
  let job ← s.jobs.find? key
  if test job then some (s.setJob key (update job)) else none

def setRelease (s : Store) (key : ReleaseKey) (release : PackageVersion) : Store :=
  { s with releases := s.releases.insert key release }

end Store

/-! ### Transactions -/

/-- The guard of every promotion. -/
def assertPromotionTransition (current : PackageVersion) (next : PackageEvidenceKind) : Bool :=
  current.sourcePurgedAt.isNone && match next with
  | .verifiedBuild => true
  | .reproducedBuild => current.verificationStatus ∉ [VerificationStatus.pending, .rejected]
  | .deployed => current.deploymentStatus ≠ .notApplicable ∧
      current.verificationStatus ∈ [VerificationStatus.hashBound, .verified, .evidenceRequired] ∧
      (current.requiresReproduction = false ∨ current.verificationStatus = .verified)
  | .onChainCommitted => current.deploymentStatus ∈ [DeploymentStatus.deployed, .chainVerified]

/-- The verification status after accepted evidence. -/
def acceptedStatus (current : VerificationStatus) :
    PackageEvidenceKind → VerificationLevel → VerificationStatus
  | .reproducedBuild, _ => .verified
  | .verifiedBuild, .compiled | .verifiedBuild, .structurallyVerified => .verified
  | .verifiedBuild, .hashBound => .hashBound
  | .verifiedBuild, .evidenceRequired => .evidenceRequired
  | _, _ => current

def VerificationJob.claimable (now : ℕ) (job : VerificationJob) : Bool :=
  match job.status with
  | .queued | .retryWait => job.availableAt ≤ now
  | .running | .publishing => job.leaseExpiresAt.any (· ≤ now)
  | _ => false

/-- The job is leased to a worker, in one of some states. -/
def VerificationJob.leased (job : VerificationJob) (states : List JobStatus) (worker : String)
    (now : ℕ) : Bool :=
  job.status ∈ states ∧ job.leaseOwner = some worker ∧ job.leaseExpiresAt.any (now < ·)

namespace Store

/-- A release is admitted together with its snapshot and its job. -/
def admitPackageVersion (key : ReleaseKey) (release : PackageVersion) (r2Key : String) (now : ℕ)
    (s : Store) : Option Store :=
  let admitted := (s.snapshots.find? release.snapshotHash).getD ⟨r2Key, none, none⟩
  if admitted.r2Key = r2Key ∧ admitted.hiddenAt = none ∧ s.releases.find? key = none then
    some
      { jobs := match s.jobs.find? key with
          | some _ => s.jobs
          | none => s.jobs.insert key ⟨.queued, 0, 3, now, none, none, none, none, now⟩
        releases := s.releases.insert key { release with sourcePurgedAt := none }
        snapshots := s.snapshots.insert release.snapshotHash admitted }
  else none

/-- A worker takes the first job that waits, or whose lease has expired. -/
def claimVerificationJob (key : ReleaseKey) (worker : String) (leaseSeconds now : ℕ) (s : Store) :
    Option Store :=
  s.updateJob key
    (fun job ↦ job.claimable now ∧ ∀ other ∈ s.jobs.entries, other.2.claimable now →
      job.availableAt < other.2.availableAt ∨
        job.availableAt = other.2.availableAt ∧ job.createdAt ≤ other.2.createdAt)
    fun job ↦
      { job with
        status := if job.evidenceHash = none then .running else .publishing
        attemptCount := job.attemptCount + 1
        leaseOwner := some worker
        leaseExpiresAt := some (now + leaseSeconds) }

/-- A worker's evidence is accepted. The columns that are selected for the guard do not include the
time of a purge, which the guard then takes for missing. -/
def promoteVerifiedBuildForJob (key : ReleaseKey) (worker evidenceHash : String)
    (level : VerificationLevel) (now : ℕ) (s : Store) : Option Store := do
  let release ← s.releases.find? key
  if assertPromotionTransition { release with sourcePurgedAt := none } .verifiedBuild then
    (s.setRelease key
      { release with
        verificationStatus :=
          acceptedStatus release.verificationStatus .verifiedBuild level }).updateJob key
      (·.leased [.running] worker now)
      fun job ↦ { job with status := .publishing, evidenceHash := some evidenceHash }
  else none

/-- An administrator's evidence is accepted. Whether a commitment is older than the one accepted
before is an input. -/
def promotePackageVersion (key : ReleaseKey) (kind : PackageEvidenceKind)
    (level : VerificationLevel) (stale : Bool) (s : Store) : Option Store := do
  let release ← s.releases.find? key
  if assertPromotionTransition release kind ∧ ¬ (kind = .onChainCommitted ∧ stale) then
    some (s.setRelease key
      { release with
        verificationStatus := acceptedStatus release.verificationStatus kind level
        deploymentStatus := match kind with
          | .deployed => .deployed
          | .onChainCommitted => .chainVerified
          | _ => release.deploymentStatus })
  else none

/-- The worker of a publishing job ends it. -/
def completeVerificationJob (key : ReleaseKey) (worker : String) (now : ℕ) (s : Store) :
    Option Store :=
  s.updateJob key (·.leased [.publishing] worker now) fun job ↦
    { job with
      status := .succeeded, leaseOwner := none, leaseExpiresAt := none, lastErrorCode := none }

/-- A job that is not being worked on is put back into the queue. -/
def requestStaticSync (key : ReleaseKey) (now : ℕ) (s : Store) : Option Store :=
  s.updateJob key (·.status ∉ [JobStatus.running, .publishing]) fun job ↦
    { job with
      status := .retryWait, leaseOwner := none, leaseExpiresAt := none, availableAt := now
      lastErrorCode := some "static_registry_sync_deferred" }

def failVerificationJob (key : ReleaseKey) (worker errorCode : String) (retryable : Bool)
    (retryAfterSeconds now : ℕ) (s : Store) : Option Store :=
  s.updateJob key (·.leased [.running, .publishing] worker now) fun job ↦
    let retry := retryable ∧ job.attemptCount < job.maxAttempts
    { job with
      status := if retry then .retryWait else .deadLetter
      availableAt := now + if retry then retryAfterSeconds else 0
      leaseOwner := none, leaseExpiresAt := none, lastErrorCode := some errorCode }

/-- An administrator puts a dead letter back into the queue, unless its source has been purged. -/
def retryVerificationJob (key : ReleaseKey) (now : ℕ) (s : Store) : Option Store := do
  let release ← s.releases.find? key
  let snapshot ← s.snapshots.find? release.snapshotHash
  if snapshot.hiddenAt = none then
    s.updateJob key (·.status = .deadLetter) fun job ↦
      { job with
        status := .queued, attemptCount := 0, availableAt := now, leaseOwner := none
        leaseExpiresAt := none, lastErrorCode := none }
  else none

/-- Another release that refers to the snapshot and is not rejected for good. -/
def protectedReference (s : Store) (key : ReleaseKey) (snapshotHash : String) : Bool :=
  s.releases.entries.any fun other ↦
    other.1 ≠ key ∧ other.2.snapshotHash = snapshotHash ∧
      (other.2.verificationStatus ≠ .rejected ∨
        (s.jobs.find? other.1).any fun job ↦
          job.status ≠ .deadLetter ∨ job.evidenceHash.any (· ≠ ""))

/-- The snapshot is hidden for good, and so are all releases of it. -/
def tombstone (snapshotHash : String) (reason : HiddenReason) (now : ℕ) (s : Store) : Store :=
  { s with
    snapshots := match s.snapshots.find? snapshotHash with
      | some snapshot => s.snapshots.insert snapshotHash
          { snapshot with hiddenAt := snapshot.hiddenAt <|> some now, hiddenReason := some reason }
      | none => s.snapshots
    releases := s.releases.mapValues fun release ↦
      if release.snapshotHash = snapshotHash then
        { release with sourcePurgedAt := release.sourcePurgedAt <|> some now }
      else release }

/-- The first transaction of a purge. The job's release is rejected; the tombstone is set unless
another release needs the snapshot. -/
def purgeRejectedSnapshot (key : ReleaseKey) (snapshotHash : Option String) (attemptCount : ℕ)
    (errorCode : String) (retryable : Bool) (now : ℕ) (s : Store) :
    Option (Store × Option String) := do
  let job ← s.jobs.find? key
  let release ← s.releases.find? key
  let snapshot ← s.snapshots.find? release.snapshotHash
  let reason := HiddenReason.pendingDelete key attemptCount errorCode
  if retryable = false ∧ (∀ hash ∈ snapshotHash, release.snapshotHash = hash) ∧
      (job.status = .deadLetter ∧ job.evidenceHash = none ∧ job.attemptCount = attemptCount ∧
        job.lastErrorCode = some errorCode) ∧
      (snapshot.hiddenAt = none ∨ snapshot.hiddenReason = some reason) ∧
      release.verificationStatus ∈ [VerificationStatus.pending, .rejected] then
    let rejected := s.setRelease key { release with verificationStatus := .rejected }
    if s.protectedReference key release.snapshotHash then some (rejected, none)
    else some (rejected.tombstone release.snapshotHash reason now, some release.snapshotHash)
  else none

/-- The second transaction of a purge: the object has been deleted. -/
def completePurge (snapshotHash : String) (reason : HiddenReason) (s : Store) : Option Store := do
  let snapshot ← s.snapshots.find? snapshotHash
  if snapshot.hiddenAt ≠ none ∧ snapshot.hiddenReason = some reason then
    some { s with
      snapshots := s.snapshots.insert snapshotHash
        { snapshot with hiddenReason := some .verificationRejected } }
  else none

variable {key : ReleaseKey}

theorem updateJob_some {test : VerificationJob → Bool} {update : VerificationJob → VerificationJob}
    {s s' : Store} (h : s.updateJob key test update = some s') :
    ∃ job, s.jobs.find? key = some job ∧ test job = true ∧ s' = s.setJob key (update job) := by
  obtain ⟨job, hjob, h⟩ := bind_eq_some_iff.1 h
  rw [ite_none_right_eq_some, some.injEq] at h
  exact ⟨job, hjob, h.1, h.2.symm⟩

/-- A purge changes no job. -/
theorem jobs_of_purge {snapshotHash tombstoned : Option String} {count now : ℕ} {code : String}
    {retryable : Bool} {s s' : Store}
    (h : s.purgeRejectedSnapshot key snapshotHash count code retryable now =
      some (s', tombstoned)) : s'.jobs = s.jobs := by
  simp only [purgeRejectedSnapshot, bind_eq_bind, bind_eq_some_iff, ite_none_right_eq_some] at h
  obtain ⟨job, -, release, -, snapshot, -, -, h⟩ := h
  split at h <;>
  · obtain ⟨rfl, -⟩ := Prod.mk.inj (some.inj h)
    rfl

end Store

/-! ### Runs -/

/-- The transactions of the queue. -/
inductive Op
  | admission (key : ReleaseKey) (release : PackageVersion) (r2Key : String)
  | claim (key : ReleaseKey) (worker : String) (leaseSeconds : ℕ)
  | promoteForJob (key : ReleaseKey) (worker evidenceHash : String) (level : VerificationLevel)
  | promote (key : ReleaseKey) (kind : PackageEvidenceKind) (level : VerificationLevel)
    (stale : Bool)
  | complete (key : ReleaseKey) (worker : String)
  | staticSync (key : ReleaseKey)
  | fail (key : ReleaseKey) (worker errorCode : String) (retryable : Bool) (retryAfterSeconds : ℕ)
  | retry (key : ReleaseKey)
  | purge (key : ReleaseKey) (snapshotHash : Option String) (attemptCount : ℕ) (errorCode : String)
      (retryable : Bool)
  | completePurge (snapshotHash : String) (reason : HiddenReason)

/-- One transaction. -/
def Op.apply (now : ℕ) (s : Store) : Op → Option Store
  | .admission key release r2Key => s.admitPackageVersion key release r2Key now
  | .claim key worker leaseSeconds => s.claimVerificationJob key worker leaseSeconds now
  | .promoteForJob key worker hash level => s.promoteVerifiedBuildForJob key worker hash level now
  | .promote key kind level stale => s.promotePackageVersion key kind level stale
  | .complete key worker => s.completeVerificationJob key worker now
  | .staticSync key => s.requestStaticSync key now
  | .fail key worker code retryable seconds =>
    s.failVerificationJob key worker code retryable seconds now
  | .retry key => s.retryVerificationJob key now
  | .purge key hash count code retryable =>
    (s.purgeRejectedSnapshot key hash count code retryable now).map (·.1)
  | .completePurge hash reason => s.completePurge hash reason

/-- Transactions with their times, one after the other. -/
def execute : List (ℕ × Op) → Store → Option Store
  | [], s => some s
  | (now, op) :: ops, s => (op.apply now s).bind (execute ops)

/-- Every transaction of a run meets a condition on the store before it. -/
def Meets (condition : Op → Store → Prop) : List (ℕ × Op) → Store → Prop
  | [], _ => True
  | (now, op) :: ops, s => condition op s ∧ ∀ s' ∈ op.apply now s, Meets condition ops s'

instance Meets.decidable {C : Op → Store → Prop} [∀ op s, Decidable (C op s)] :
    ∀ ops s, Decidable (Meets C ops s)
  | [], _ => .isTrue trivial
  | (now, op) :: ops, s =>
    have := Meets.decidable (C := C) ops
    inferInstanceAs (Decidable (C op s ∧ ∀ s' ∈ op.apply now s, Meets C ops s'))

/-- What every transaction keeps, a run keeps. A count of the transactions may be kept along. -/
theorem execute_induction {α : Type} {C : Op → Store → Prop} {P : α → Store → Prop} {f : α → Op → α}
    (hstep : ∀ op now s s' a, C op s → op.apply now s = some s' → P a s →
      P (f a op) s') {ops : List (ℕ × Op)} {s s' : Store} {a : α} (hmeets : Meets C ops s)
    (h : execute ops s = some s') (hs : P a s) :
    P (ops.foldl (fun a timed ↦ f a timed.2) a) s' := by
  induction ops generalizing s a with
  | nil =>
    obtain rfl := some.inj h
    exact hs
  | cons timed ops ih =>
    obtain ⟨now, op⟩ := timed
    obtain ⟨s₁, h₁, h⟩ := bind_eq_some_iff.1 h
    exact ih (hmeets.2 s₁ h₁) h (hstep op now s s₁ a hmeets.1 h₁ hs)

end CellScript.Registry
