import CellScript.Registry.Attempts

/-!
# Releases of a purged snapshot

The tombstone of a snapshot is set when every release of it is rejected and its job is a dead
letter. The ways back from there are guarded, with one exception: a request for static publication
puts the job into the queue, and the worker that takes it has its evidence accepted. Where no such
request is made, the releases of the snapshot stay rejected.
-/

namespace CellScript.Registry

open Store KeyedMap

/-- The release is rejected, its source is gone, and its job is a dead letter. -/
structure Rejected (release : PackageVersion) (job : Option VerificationJob) : Prop where
  status : release.verificationStatus = .rejected
  purged : release.sourcePurgedAt ≠ none
  deadLetter : ∀ j ∈ job, j.status = .deadLetter

/-- The snapshot is hidden, and every release of it is rejected for good. -/
structure Purged (hash : String) (s : Store) : Prop where
  hidden : ∃ snapshot, s.snapshots.find? hash = some snapshot ∧ snapshot.hiddenAt ≠ none
  rejected : ∀ key, ∀ release ∈ s.releases.find? key, release.snapshotHash = hash →
    Rejected release (s.jobs.find? key)

/-- No static publication is requested of a release of the snapshot. -/
def SyncsOthers (hash : String) : Op → Store → Prop
  | .staticSync key, s => ∀ release ∈ s.releases.find? key, release.snapshotHash ≠ hash
  | _, _ => True

instance (hash : String) : ∀ op s, Decidable (SyncsOthers hash op s)
  | .staticSync key, s =>
    inferInstanceAs (Decidable (∀ release ∈ s.releases.find? key, release.snapshotHash ≠ hash))
  | .admission .., _ | .claim .., _ | .promoteForJob .., _ | .promote .., _ | .complete .., _
  | .fail .., _ | .retry .., _ | .purge .., _ | .completePurge .., _ => .isTrue trivial

section Steps

variable {hash : String} {key : ReleaseKey} {s s' : Store} {release : PackageVersion}
  {retryable : Bool} {other tombstoned : Option String}

theorem Purged.updateJob {test : VerificationJob → Bool}
    {update : VerificationJob → VerificationJob}
    (h : Purged hash s) (hop : s.updateJob key test update = some s')
    (hdead : ∀ job, test job = true → job.status = .deadLetter →
      ∀ release ∈ s.releases.find? key, release.snapshotHash ≠ hash) : Purged hash s' := by
  obtain ⟨job, hjob, htest, rfl⟩ := updateJob_some hop
  refine ⟨h.hidden, fun key' release hrelease hhash ↦ ?_⟩
  obtain ⟨hstatus, hpurged, hletter⟩ := h.rejected key' release hrelease hhash
  refine ⟨hstatus, hpurged, fun job' hjob' ↦ ?_⟩
  rw [setJob, find?_insert] at hjob'
  split at hjob'
  · next heq =>
    subst heq
    exact absurd hhash (hdead job htest (hletter job hjob) release hrelease)
  · exact hletter job' hjob'

theorem Purged.setRelease (h : Purged hash s)
    (hnew : release.snapshotHash = hash → Rejected release (s.jobs.find? key)) :
    Purged hash (s.setRelease key release) := by
  refine ⟨h.hidden, fun key' release' hrelease' hhash ↦ ?_⟩
  rw [Store.setRelease, find?_insert] at hrelease'
  split at hrelease'
  · next heq =>
    obtain rfl := some.inj hrelease'
    exact heq ▸ hnew hhash
  · exact h.rejected key' release' hrelease' hhash

/-- The guard of a promotion refuses a release of the purged snapshot. -/
theorem Purged.snapshotHash_ne (h : Purged hash s) (hrelease : s.releases.find? key = some release)
    {kind : PackageEvidenceKind} (hguard : assertPromotionTransition release kind = true) :
    release.snapshotHash ≠ hash := by
  intro hhash
  have hpresent := (Bool.and_eq_true_iff.1 hguard).1
  exact (h.rejected key release hrelease hhash).purged (Option.isNone_iff_eq_none.1 hpresent)

theorem Purged.tombstone (h : Purged hash s) (other : String) (reason : HiddenReason) (now : ℕ) :
    Purged hash (s.tombstone other reason now) := by
  obtain ⟨⟨snapshot, hsnapshot, hhidden⟩, hrejected⟩ := h
  refine ⟨?_, fun key' release' hrelease' hhash ↦ ?_⟩
  · rw [Store.tombstone]
    cases hother : s.snapshots.find? other with
    | none => exact ⟨snapshot, hsnapshot, hhidden⟩
    | some old =>
      rw [find?_insert]
      split
      · next heq =>
        rw [← heq] at hother
        exact ⟨_, rfl, by cases hat : snapshot.hiddenAt <;> simp_all⟩
      · exact ⟨snapshot, hsnapshot, hhidden⟩
  · rw [Store.tombstone, find?_mapValues] at hrelease'
    obtain ⟨old, hold, rfl⟩ := map_eq_some_iff.1 hrelease'
    split
    · next heq =>
      obtain ⟨hstatus, hpurged, hletter⟩ := hrejected key' old hold (by simpa [heq] using hhash)
      exact ⟨hstatus, by cases hat : old.sourcePurgedAt <;> simp_all, hletter⟩
    · next hne => exact hrejected key' old hold (by simpa [hne] using hhash)

theorem Purged.purge {count now : ℕ} {code : String} (h : Purged hash s)
    (hop : s.purgeRejectedSnapshot key other count code retryable now = some (s', tombstoned)) :
    Purged hash s' := by
  simp only [purgeRejectedSnapshot, bind_eq_bind, bind_eq_some_iff, ite_none_right_eq_some] at hop
  obtain ⟨job, -, release, hrelease, snapshot, -, -, hop⟩ := hop
  have hrejected : Purged hash
      (s.setRelease key { release with verificationStatus := .rejected }) := by
    refine h.setRelease fun hhash ↦ ?_
    obtain ⟨-, hpurged, hletter⟩ := h.rejected key release hrelease hhash
    exact ⟨rfl, hpurged, hletter⟩
  split at hop <;> obtain ⟨rfl, -⟩ := Prod.mk.inj (some.inj hop)
  · exact hrejected
  · exact hrejected.tombstone ..

/-- **One transaction leaves a purged snapshot purged.** -/
theorem Purged.apply (op : Op) {now : ℕ} (hothers : SyncsOthers hash op s)
    (hop : op.apply now s = some s') (h : Purged hash s) : Purged hash s' := by
  cases op with
  | admission key' release r2Key =>
    rw [Op.apply, admitPackageVersion, ite_none_right_eq_some, some.injEq] at hop
    obtain ⟨⟨-, hvisible, hfresh⟩, rfl⟩ := hop
    obtain ⟨⟨snapshot, hsnapshot, hhidden⟩, hrejected⟩ := h
    -- a hidden snapshot admits no release
    have hother : release.snapshotHash ≠ hash := by
      rintro rfl
      rw [hsnapshot] at hvisible
      exact hhidden hvisible
    refine ⟨⟨snapshot, ?_, hhidden⟩, fun key'' release' hrelease' hhash ↦ ?_⟩
    · rw [find?_insert_of_ne hother.symm]
      exact hsnapshot
    · dsimp only at hrelease' ⊢
      rw [find?_insert] at hrelease'
      split at hrelease'
      · obtain rfl := some.inj hrelease'
        exact absurd hhash hother
      · next hne =>
        have hold := hrejected key'' release' hrelease' hhash
        split
        · exact hold
        · rwa [find?_insert_of_ne hne]
  | claim key' worker leaseSeconds =>
    refine h.updateJob hop fun job htest hletter ↦ ?_
    simp [VerificationJob.claimable, hletter] at htest
  | promoteForJob key' worker evidence level =>
    obtain ⟨release, hrelease, hop⟩ := bind_eq_some_iff.1 hop
    rw [ite_none_right_eq_some] at hop
    obtain ⟨job, hjob, hleased, -⟩ := updateJob_some hop.2
    have hother : release.snapshotHash ≠ hash := by
      intro hhash
      have hletter := (h.rejected key' release hrelease hhash).deadLetter job hjob
      simp [VerificationJob.leased, hletter] at hleased
    refine Purged.updateJob ?_ hop.2 fun job htest hletter ↦ ?_
    · exact h.setRelease fun hhash ↦ absurd hhash hother
    · simp [VerificationJob.leased, hletter] at htest
  | promote key' kind level stale =>
    obtain ⟨release, hrelease, hop⟩ := bind_eq_some_iff.1 hop
    rw [ite_none_right_eq_some, some.injEq] at hop
    obtain ⟨⟨hguard, -⟩, rfl⟩ := hop
    have hother := h.snapshotHash_ne hrelease hguard
    exact h.setRelease fun hhash ↦ absurd hhash hother
  | complete key' worker =>
    refine h.updateJob hop fun job htest hletter ↦ ?_
    simp [VerificationJob.leased, hletter] at htest
  | staticSync key' =>
    exact h.updateJob hop fun _ _ _ ↦ hothers
  | fail key' worker errorCode retryable seconds =>
    refine h.updateJob hop fun job htest hletter ↦ ?_
    simp [VerificationJob.leased, hletter] at htest
  | retry key' =>
    obtain ⟨release, hrelease, hop⟩ := bind_eq_some_iff.1 hop
    obtain ⟨snapshot, hsnapshot, hop⟩ := bind_eq_some_iff.1 hop
    rw [ite_none_right_eq_some] at hop
    refine h.updateJob hop.2 fun job _ _ release' hrelease' hhash ↦ ?_
    obtain ⟨hidden, hfind, hhidden⟩ := h.hidden
    rw [hrelease] at hrelease'
    obtain rfl := some.inj hrelease'
    rw [hhash, hfind] at hsnapshot
    exact hhidden (some.inj hsnapshot ▸ hop.1)
  | purge key' other count errorCode retryable =>
    obtain ⟨⟨s₁, tombstoned⟩, hpurge, rfl⟩ := map_eq_some_iff.1 hop
    exact h.purge hpurge
  | completePurge other reason =>
    obtain ⟨snapshot, hsnapshot, hop⟩ := bind_eq_some_iff.1 hop
    rw [ite_none_right_eq_some, some.injEq] at hop
    obtain ⟨⟨hat, -⟩, rfl⟩ := hop
    obtain ⟨⟨old, hold, hhidden⟩, hrejected⟩ := h
    refine ⟨?_, hrejected⟩
    rw [find?_insert]
    split
    · exact ⟨_, rfl, hat⟩
    · exact ⟨old, hold, hhidden⟩

/-- **The tombstone is set on a snapshot whose releases are all rejected.** -/
theorem purged_of_purgeRejectedSnapshot {count now : ℕ} {code : String}
    (hop : s.purgeRejectedSnapshot key other count code retryable now = some (s', some hash)) :
    Purged hash s' := by
  simp only [purgeRejectedSnapshot, bind_eq_bind, bind_eq_some_iff, ite_none_right_eq_some] at hop
  obtain ⟨job, hjob, release, hrelease, snapshot, hsnapshot, ⟨-, -, ⟨hletter, -⟩, -⟩, hop⟩ := hop
  split at hop
  · cases hop
  next hprotected =>
  obtain ⟨rfl, heq⟩ := Prod.mk.inj (some.inj hop)
  obtain rfl := some.inj heq
  refine ⟨?_, fun key' release' hrelease' hhash ↦ ?_⟩
  · rw [tombstone, setRelease]
    rw [hsnapshot]
    refine ⟨_, find?_insert_self, ?_⟩
    cases snapshot.hiddenAt <;> simp
  · rw [tombstone, find?_mapValues, setRelease, find?_insert] at hrelease'
    obtain ⟨old, hold, rfl⟩ := map_eq_some_iff.1 hrelease'
    have hsame : old.snapshotHash = release.snapshotHash := by
      split at hhash <;> exact hhash
    rw [if_pos hsame]
    have hpurged : (old.sourcePurgedAt <|> some now) ≠ none := by
      cases old.sourcePurgedAt <;> simp
    split at hold
    · next heq =>
      obtain rfl := some.inj hold
      refine ⟨rfl, hpurged, fun job' hjob' ↦ ?_⟩
      rw [heq, tombstone, setRelease, hjob] at hjob'
      exact some.inj hjob' ▸ hletter
    · next hne =>
      -- another release of the snapshot that is not rejected for good would have protected it
      rw [not_eq_true, protectedReference, any_eq_false] at hprotected
      have hfinal := hprotected _ (mem_entries_iff.2 hold)
      simp only [decide_eq_true_eq, not_and, not_or, not_not] at hfinal
      obtain ⟨hstatus, hjobs⟩ := hfinal hne hsame
      refine ⟨hstatus, hpurged, fun job' hjob' ↦ ?_⟩
      by_contra hletter
      refine hjobs ((Option.any_eq_true _ _).2 ⟨job', hjob', ?_⟩)
      exact decide_eq_true (.inl hletter)

end Steps

/-- **A purged upload stays rejected** in every run in which no static publication is requested of a
release of its snapshot. -/
theorem rejected_of_purged {key : ReleaseKey} {other : Option String} {count now : ℕ}
    {code : String} {retryable : Bool} {hash : String} {s s₁ s₂ : Store} {ops : List (ℕ × Op)}
    (hpurge : s.purgeRejectedSnapshot key other count code retryable now = some (s₁, some hash))
    (hrun : execute ops s₁ = some s₂) (hothers : Meets (SyncsOthers hash) ops s₁) :
    ∀ key', ∀ release ∈ s₂.releases.find? key', release.snapshotHash = hash →
      release.verificationStatus ∉
          [VerificationStatus.verified, .hashBound, .evidenceRequired] := by
  have hpurged : Purged hash s₂ :=
    execute_induction (P := fun _ ↦ Purged hash) (f := fun a _ ↦ a) (a := ())
      (fun op _ _ _ _ hothers hop h ↦ h.apply op hothers hop) hothers hrun
      (purged_of_purgeRejectedSnapshot hpurge)
  intro key' release hrelease hhash
  rw [(hpurged.rejected key' release hrelease hhash).status]
  decide

/-- A worker rejects the only release of a snapshot. -/
def rejectedStore : Store :=
  (execute [(0, .admission sampleKey sampleRelease "object"), silentClaim 0,
    (1, .fail sampleKey "worker" "snapshot_invalid" false 0)] .empty).getD .empty

def purgeSample : Option (Store × Option String) :=
  rejectedStore.purgeRejectedSnapshot sampleKey none 1 "snapshot_invalid" false 2

def purgedStore : Store := (purgeSample.getD (.empty, none)).1

/-- The object of the sample is deleted, and a release of another snapshot is made. -/
def deletion : List (ℕ × Op) :=
  (3, .completePurge "snapshot" (.pendingDelete sampleKey 1 "snapshot_invalid")) :: otherRun 4

theorem rejected_of_purged_sample : ∃ s₂, execute deletion purgedStore = some s₂ ∧
    ∀ key', ∀ release ∈ s₂.releases.find? key', release.snapshotHash = "snapshot" →
      release.verificationStatus ∉
          [VerificationStatus.verified, .hashBound, .evidenceRequired] := by
  have hpurge : purgeSample = some (purgedStore, some "snapshot") := by decide +kernel
  have hsome : (execute deletion purgedStore).isSome := by decide +kernel
  obtain ⟨s₂, hs₂⟩ := isSome_iff_exists.1 hsome
  exact ⟨s₂, hs₂, rejected_of_purged hpurge hs₂ (by decide +kernel)⟩

/-- Static publication of the purged release is requested, and the job is taken once more. -/
def revival : List (ℕ × Op) :=
  [(3, .staticSync sampleKey), silentClaim 4,
    (5, .promoteForJob sampleKey "worker" "hash" .compiled)]

theorem purged_verified : purgeSample = some (purgedStore, some "snapshot") ∧
    ∃ s₂, execute revival purgedStore = some s₂ ∧ ∃ release ∈ s₂.releases.find? sampleKey,
      release.snapshotHash = "snapshot" ∧ release.verificationStatus = .verified := by
  have hverified : ((execute revival purgedStore).bind (·.releases.find? sampleKey)).any
      fun release ↦ release.snapshotHash = "snapshot" ∧ release.verificationStatus = .verified := by
    decide +kernel
  obtain ⟨release, hrelease, hverified⟩ := (Option.any_eq_true _ _).1 hverified
  obtain ⟨s₂, hs₂, hrelease⟩ := bind_eq_some_iff.1 hrelease
  exact ⟨by decide +kernel, s₂, hs₂, release, hrelease, of_decide_eq_true hverified⟩

end CellScript.Registry
