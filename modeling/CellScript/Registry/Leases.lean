import CellScript.Registry.Attempts

/-!
# Leases of verification jobs

Until its lease expires, a job belongs to the worker that took it, whatever else is done to the
store.
-/

namespace CellScript.Registry

open Store KeyedMap

/-- The job and the worker that a transaction names. -/
def Op.worker? : Op → Option (ReleaseKey × String)
  | .claim key worker _ | .promoteForJob key worker .. | .complete key worker
  | .fail key worker .. => some (key, worker)
  | _ => none

variable {key key' : ReleaseKey} {worker : String} {time now : ℕ} {s s' : Store}
  {job : VerificationJob}

theorem updateJob_cases {test : VerificationJob → Bool} {update : VerificationJob → VerificationJob}
    (hop : s.updateJob key' test update = some s') (hjob : s.jobs.find? key = some job) :
    s'.jobs.find? key = some job ∧ key' ≠ key ∨ key' = key ∧ test job = true := by
  obtain ⟨job', hjob', htest, rfl⟩ := updateJob_some hop
  by_cases hkey : key' = key
  · subst hkey
    exact .inr ⟨rfl, mem_unique hjob' hjob ▸ htest⟩
  · exact .inl ⟨(find?_insert_of_ne (Ne.symm hkey)).trans hjob, hkey⟩

/-- **Only its worker changes a leased job.** -/
theorem leased_apply (op : Op) (hjob : s.jobs.find? key = some job)
    (hleased : job.leased [.running, .publishing] worker time = true) (hnow : now ≤ time)
    (hop : op.apply now s = some s') :
    s'.jobs.find? key = some job ∧ (∀ other, op.worker? ≠ some (key, other)) ∨
      op.worker? = some (key, worker) := by
  obtain ⟨hstatus, howner, hexpires⟩ := of_decide_eq_true hleased
  have hheld : job.claimable now = false := by
    obtain ⟨expiry, hexpiry, hlt⟩ := (Option.any_eq_true _ _).1 hexpires
    have hlater : now < expiry := hnow.trans_lt (of_decide_eq_true hlt)
    obtain hstatus | hstatus := by simpa using hstatus
    all_goals simp [VerificationJob.claimable, hstatus, hexpiry, hlater]
  -- a worker that passes the test of the lease is the one that has it
  have howns {s : Store} {states key' other update} (hjob : s.jobs.find? key = some job)
      (hop : s.updateJob key' (·.leased states other now) update = some s') :
      s'.jobs.find? key = some job ∧ (∀ other', some (key', other) ≠ some (key, other')) ∨
        some (key', other) = some (key, worker) := by
    obtain ⟨h, hne⟩ | ⟨rfl, htest⟩ := updateJob_cases hop hjob
    · exact .inl ⟨h, by simp [hne]⟩
    · exact .inr (by rw [some.inj ((of_decide_eq_true htest).2.1.symm.trans howner)])
  cases op
  case admission =>
    rw [Op.apply, admitPackageVersion, ite_none_right_eq_some, some.injEq] at hop
    obtain ⟨-, rfl⟩ := hop
    refine .inl ⟨?_, by simp [Op.worker?]⟩
    dsimp only
    split
    · exact hjob
    · next hnone =>
      refine (find?_insert_of_ne ?_).trans hjob
      rintro rfl
      cases hjob.symm.trans hnone
  case claim =>
    obtain ⟨h, hne⟩ | ⟨-, htest⟩ := updateJob_cases hop hjob
    · exact .inl ⟨h, by simp [Op.worker?, hne]⟩
    · simp [hheld] at htest
  case promoteForJob =>
    obtain ⟨release, -, hop⟩ := bind_eq_some_iff.1 hop
    rw [ite_none_right_eq_some] at hop
    refine howns ?_ hop.2
    exact hjob
  case complete | fail => exact howns hjob hop
  case staticSync =>
    obtain ⟨h, -⟩ | ⟨-, htest⟩ := updateJob_cases hop hjob
    · exact .inl ⟨h, by simp [Op.worker?]⟩
    · exact absurd hstatus (of_decide_eq_true htest)
  case retry =>
    obtain ⟨release, -, hop⟩ := bind_eq_some_iff.1 hop
    obtain ⟨snapshot, -, hop⟩ := bind_eq_some_iff.1 hop
    rw [ite_none_right_eq_some] at hop
    obtain ⟨h, -⟩ | ⟨-, htest⟩ := updateJob_cases hop.2 hjob
    · exact .inl ⟨h, by simp [Op.worker?]⟩
    · simp_all
  case purge =>
    obtain ⟨⟨s₁, tombstoned⟩, hpurge, rfl⟩ := map_eq_some_iff.1 hop
    exact .inl ⟨by rw [jobs_of_purge hpurge, hjob], by simp [Op.worker?]⟩
  case promote | completePurge =>
    obtain ⟨row, -, hop⟩ := bind_eq_some_iff.1 hop
    rw [ite_none_right_eq_some, some.injEq] at hop
    obtain ⟨-, rfl⟩ := hop
    exact .inl ⟨hjob, by simp [Op.worker?]⟩

/-- **A lease excludes.** As long as it lasts, a run in which its worker makes no transaction leaves
the job as it is, and has no transaction of another worker on it. -/
theorem lease_excludes {ops : List (ℕ × Op)} (hjob : s.jobs.find? key = some job)
    (hleased : job.leased [.running, .publishing] worker time = true)
    (hrun : execute ops s = some s')
    (hops : ∀ timed ∈ ops, timed.1 ≤ time ∧ timed.2.worker? ≠ some (key, worker)) :
    s'.jobs.find? key = some job ∧ ∀ timed ∈ ops, ∀ other, timed.2.worker? ≠ some (key, other) := by
  induction ops generalizing s with
  | nil => exact ⟨some.inj hrun ▸ hjob, nofun⟩
  | cons timed ops ih =>
    obtain ⟨s₁, h₁, hrun⟩ := bind_eq_some_iff.1 hrun
    obtain ⟨⟨hnow, hother⟩, hops⟩ := forall_mem_cons.1 hops
    obtain ⟨hjob₁, hnone⟩ := (leased_apply timed.2 hjob hleased hnow h₁).resolve_right hother
    obtain ⟨hjob', hall⟩ := ih hjob₁ hrun hops
    exact ⟨hjob', forall_mem_cons.2 ⟨hnone, hall⟩⟩

def leasedJob : VerificationJob := ⟨.running, 1, 3, 0, some "worker", some 60, none, none, 0⟩

def leasedStore : Store := (execute (sampleRun.take 2) .empty).getD .empty

/-- Another worker takes another job while the lease lasts. -/
theorem lease_excludes_otherRun : ∃ s', execute (otherRun 59) leasedStore = some s' ∧
    s'.jobs.find? sampleKey = some leasedJob := by
  have hsome : (execute (otherRun 59) leasedStore).isSome := by decide +kernel
  obtain ⟨s', hs'⟩ := isSome_iff_exists.1 hsome
  have hleased : leasedJob.leased [.running, .publishing] "worker" 59 = true := by decide
  exact ⟨s', hs', (lease_excludes (by decide +kernel) hleased hs' (by decide +kernel)).1⟩

end CellScript.Registry
