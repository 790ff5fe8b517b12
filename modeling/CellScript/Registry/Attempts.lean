import CellScript.Registry.Store

/-!
# Attempts of a verification job

Attempts are counted when a job is claimed, and compared with their limit when a worker reports a
failure. A worker that stops without a report leaves a lease that expires, and the job is claimed
again whatever its count; a request for static publication puts a dead letter back into the queue.
Where neither meets a job without attempts left, the limit holds.
-/

namespace CellScript.Registry

/-- The claims of a job since it was made, or put back by an administrator, after one more
transaction. -/
def countClaims (key : ReleaseKey) (n : ℕ) : Op → ℕ
  | .claim key' _ _ => if key' = key then n + 1 else n
  | .retry key' | .admission key' _ _ => if key' = key then 0 else n
  | _ => n

def claimsSince (key : ReleaseKey) (ops : List (ℕ × Op)) : ℕ :=
  ops.foldl (fun n timed ↦ countClaims key n timed.2) 0

/-- An expired lease and a request for static publication meet a job with attempts left. -/
def AttemptsLeft : Op → Store → Prop
  | .claim key _ _, s => ∀ job ∈ s.jobs.find? key,
      job.status ∈ [JobStatus.running, .publishing] → job.attemptCount < job.maxAttempts
  | .staticSync key, s => ∀ job ∈ s.jobs.find? key, job.attemptCount < job.maxAttempts
  | _, _ => True

instance : ∀ op s, Decidable (AttemptsLeft op s)
  | .claim key _ _, s => inferInstanceAs (Decidable (∀ job ∈ s.jobs.find? key,
      job.status ∈ [JobStatus.running, .publishing] → job.attemptCount < job.maxAttempts))
  | .staticSync key, s =>
    inferInstanceAs (Decidable (∀ job ∈ s.jobs.find? key, job.attemptCount < job.maxAttempts))
  | .admission .., _ | .promoteForJob .., _ | .promote .., _ | .complete .., _ | .fail .., _
  | .retry .., _ | .purge .., _ | .completePurge .., _ => .isTrue trivial

/-- The count of a job is within its limit, and below it while the job waits. -/
structure Within (n : ℕ) (job : VerificationJob) : Prop where
  le_count : n ≤ job.attemptCount
  count_le : job.attemptCount ≤ job.maxAttempts
  waiting : job.status ∈ [JobStatus.queued, .retryWait] → job.attemptCount < job.maxAttempts
  pos : 0 < job.maxAttempts

/-- The job of a release, if there is one, is within its limit. -/
def JobWithin (key : ReleaseKey) (n : ℕ) (s : Store) : Prop :=
  ∀ job ∈ s.jobs.find? key, Within n job

section Steps

variable {key key' : ReleaseKey} {n m : ℕ} {s s' : Store} {job job' : VerificationJob}

theorem Within.of_eq (h : Within n job) (hcount : job'.attemptCount = job.attemptCount)
    (hmax : job'.maxAttempts = job.maxAttempts)
    (hwaiting : job'.status ∈ [JobStatus.queued, .retryWait] →
      job.attemptCount < job.maxAttempts) : Within n job' := by
  refine ⟨hcount ▸ h.le_count, ?_, fun hstatus ↦ ?_, hmax ▸ h.pos⟩
  · rw [hcount, hmax]
    exact h.count_le
  · rw [hcount, hmax]
    exact hwaiting hstatus

theorem JobWithin.setJob (h : JobWithin key n s) (hnew : key' = key → Within m job)
    (hsame : key' ≠ key → m = n) : JobWithin key m (s.setJob key' job) := by
  intro job' hjob'
  rw [Store.setJob, KeyedMap.find?_insert] at hjob'
  split at hjob'
  · next heq =>
    obtain rfl := some.inj hjob'
    exact hnew heq.symm
  · next hne => exact hsame (Ne.symm hne) ▸ h job' hjob'

theorem JobWithin.updateJob {test : VerificationJob → Bool}
    {update : VerificationJob → VerificationJob} (h : JobWithin key n s)
    (hop : s.updateJob key' test update = some s')
    (hnew : ∀ job ∈ s.jobs.find? key', test job = true → key' = key → Within n job →
      Within m (update job)) (hsame : key' ≠ key → m = n) : JobWithin key m s' := by
  obtain ⟨job, hjob, htest, rfl⟩ := Store.updateJob_some hop
  exact h.setJob (fun heq ↦ hnew job hjob htest heq (h job (heq ▸ hjob))) hsame

/-- **One transaction keeps the jobs within their limits.** -/
theorem JobWithin.apply (op : Op) {now : ℕ} (hleft : AttemptsLeft op s)
    (hop : op.apply now s = some s') (h : JobWithin key n s) :
    JobWithin key (countClaims key n op) s' := by
  cases op with
  | admission key' release r2Key =>
    rw [Op.apply, Store.admitPackageVersion, ite_none_right_eq_some, some.injEq] at hop
    obtain ⟨-, rfl⟩ := hop
    intro job hjob
    cases hold : s.jobs.find? key' with
    | some old =>
      rw [hold] at hjob
      obtain ⟨hle, hcount, hwaiting, hpos⟩ := h job hjob
      refine ⟨le_trans ?_ hle, hcount, hwaiting, hpos⟩
      show (if key' = key then 0 else n) ≤ n
      split <;> omega
    | none =>
      rw [hold] at hjob
      refine JobWithin.setJob h (fun heq ↦ ⟨?_, Nat.zero_le 3, fun _ ↦ Nat.succ_pos 2,
        Nat.succ_pos 2⟩) (fun hne ↦ if_neg hne) job hjob
      exact le_of_eq (if_pos heq)
  | claim key' worker leaseSeconds =>
    refine h.updateJob hop (fun job hjob htest heq hwithin ↦ ?_) fun hne ↦ if_neg hne
    have hlt : job.attemptCount < job.maxAttempts := by
      cases hstatus : job.status with
      | queued | retryWait => exact hwithin.waiting (by simp [hstatus])
      | running | publishing => exact hleft job hjob (by simp [hstatus])
      | succeeded | deadLetter => simp [VerificationJob.claimable, hstatus] at htest
    refine ⟨?_, hlt, fun hwaiting ↦ ?_, hwithin.pos⟩
    · rw [countClaims, if_pos heq]
      exact Nat.succ_le_succ hwithin.le_count
    · dsimp only at hwaiting
      split at hwaiting <;> simp at hwaiting
  | promoteForJob key' worker hash level =>
    obtain ⟨release, -, hop⟩ := bind_eq_some_iff.1 hop
    rw [ite_none_right_eq_some] at hop
    refine JobWithin.updateJob (n := n) ?_ hop.2
      (fun job _ _ _ hwithin ↦ hwithin.of_eq rfl rfl (by simp)) fun _ ↦ rfl
    exact h
  | promote key' kind level stale =>
    obtain ⟨release, -, hop⟩ := bind_eq_some_iff.1 hop
    rw [ite_none_right_eq_some, some.injEq] at hop
    obtain ⟨-, rfl⟩ := hop
    exact h
  | complete key' worker =>
    exact h.updateJob hop (fun job _ _ _ hwithin ↦ hwithin.of_eq rfl rfl (by simp)) fun _ ↦ rfl
  | staticSync key' =>
    exact h.updateJob hop (fun job hjob _ _ hwithin ↦
      hwithin.of_eq rfl rfl fun _ ↦ hleft job hjob) fun _ ↦ rfl
  | fail key' worker errorCode retryable seconds =>
    refine h.updateJob hop (fun job _ _ _ hwithin ↦ hwithin.of_eq rfl rfl fun hwaiting ↦ ?_)
      fun _ ↦ rfl
    -- a failure waits for another attempt only if one is left
    dsimp only at hwaiting
    split at hwaiting
    · next hretry => exact hretry.2
    · simp at hwaiting
  | retry key' =>
    obtain ⟨release, -, hop⟩ := bind_eq_some_iff.1 hop
    obtain ⟨snapshot, -, hop⟩ := bind_eq_some_iff.1 hop
    rw [ite_none_right_eq_some] at hop
    refine h.updateJob hop.2 (fun job _ _ heq hwithin ↦ ?_) fun hne ↦ if_neg hne
    have hpos := hwithin.pos
    rw [countClaims, if_pos heq]
    exact ⟨Nat.zero_le 0, Nat.zero_le _, fun _ ↦ hpos, hpos⟩
  | purge key' snapshotHash count errorCode retryable =>
    obtain ⟨⟨s₁, tombstoned⟩, hpurge, rfl⟩ := map_eq_some_iff.1 hop
    rw [JobWithin, Store.jobs_of_purge hpurge]
    exact h
  | completePurge snapshotHash reason =>
    obtain ⟨snapshot, -, hop⟩ := bind_eq_some_iff.1 hop
    rw [ite_none_right_eq_some, some.injEq] at hop
    obtain ⟨-, rfl⟩ := hop
    exact h

end Steps

/-- **Attempts are bounded** in every run in which no expired lease and no request for static
publication meets a job without attempts left. -/
theorem claimsSince_le_maxAttempts {ops : List (ℕ × Op)} {s : Store}
    (hrun : execute ops .empty = some s) (hleft : Meets AttemptsLeft ops .empty)
    (key : ReleaseKey) : ∀ job ∈ s.jobs.find? key, claimsSince key ops ≤ job.maxAttempts := by
  have hwithin : JobWithin key (claimsSince key ops) s :=
    execute_induction (P := JobWithin key) (fun op _ _ _ _ hleft hop h ↦ h.apply op hleft hop)
      hleft hrun fun _ hjob ↦ nomatch hjob
  intro job hjob
  exact Nat.le_trans (hwithin job hjob).le_count (hwithin job hjob).count_le

def sampleKey : ReleaseKey := ⟨"acme", "token", "1.0.0"⟩

def sampleRelease : PackageVersion := ⟨.pending, .undeployed, false, "snapshot", none⟩

/-- A worker takes the job, and does not report within a minute. -/
def silentClaim (now : ℕ) : ℕ × Op := (now, .claim sampleKey "worker" 60)

def otherKey : ReleaseKey := ⟨"acme", "coin", "1.0.0"⟩

/-- Another release is made and rejected, put back by an administrator, and asked to be
published. -/
def otherRun (now : ℕ) : List (ℕ × Op) :=
  [(now, .admission otherKey { sampleRelease with snapshotHash := "other" } "other"),
    (now, .claim otherKey "other" 60), (now, .fail otherKey "other" "snapshot_invalid" false 0),
    (now, .retry otherKey), (now, .staticSync otherKey)]

def sampleRun : List (ℕ × Op) :=
  [(0, .admission sampleKey sampleRelease "object"), silentClaim 0, silentClaim 60, silentClaim 120]

theorem claimsSince_le_maxAttempts_sample : ∃ s, execute sampleRun .empty = some s ∧
    ∃ job ∈ s.jobs.find? sampleKey, claimsSince sampleKey sampleRun ≤ job.maxAttempts := by
  have hsome : ((execute sampleRun .empty).bind (·.jobs.find? sampleKey)).isSome := by
    decide +kernel
  obtain ⟨job, hjob⟩ := isSome_iff_exists.1 hsome
  obtain ⟨s, hs, hjob⟩ := bind_eq_some_iff.1 hjob
  exact ⟨s, hs, job, hjob, claimsSince_le_maxAttempts hs (by decide +kernel) sampleKey job hjob⟩

/-- A fourth worker takes a job that may be tried three times. -/
theorem claims_exceed_maxAttempts : (sampleRun ++ [silentClaim 180]).Pairwise (·.1 ≤ ·.1) ∧
    ∃ s, execute (sampleRun ++ [silentClaim 180]) .empty = some s ∧ ∃ job ∈ s.jobs.find? sampleKey,
      job.maxAttempts < claimsSince sampleKey (sampleRun ++ [silentClaim 180]) := by
  have hmany : ((execute (sampleRun ++ [silentClaim 180]) .empty).bind (·.jobs.find? sampleKey)).any
      fun job ↦ job.maxAttempts < claimsSince sampleKey (sampleRun ++ [silentClaim 180]) := by
    decide +kernel
  obtain ⟨job, hjob, hmany⟩ := (Option.any_eq_true _ _).1 hmany
  obtain ⟨s, hs, hjob⟩ := bind_eq_some_iff.1 hjob
  exact ⟨by decide, s, hs, job, hjob, of_decide_eq_true hmany⟩

end CellScript.Registry
