import CheckedLock.Stress.Invocation
import CheckedLock.Proofs.Stress.Counting
import CheckedLock.Proofs.Stress.Handover

/-! No check of the stress tool fails, whatever the order of the threads' steps: the tool ends with
code 0. The two scenarios that are played by one thread after the other have one run for each
policy; the others rest on what their states satisfy in every interleaving. -/
namespace CheckedLock
namespace Stress

theorem Rehearsal.failures_reentry : Rehearsal.reentry.report.failures = 0 := by decide +kernel

theorem Rehearsal.failures_poisoning (policy : PoisonPolicy) :
    (Rehearsal.poisoning policy).report.failures = 0 := by
  cases policy <;> decide +kernel

theorem Contention.Sound.failures_report {s : Contention} (h : s.Sound) :
    s.report.failures = 0 := by
  rw [Report.failures, h.checks_report, Check.failures_eq_zero_iff]
  cases s.holder <;> simp [HolderPlace.passed]

namespace Race

variable {n rounds : Nat} {r : Race n}

/-- Counts within the tool's limits multiply without a wrap. -/
theorem toNat_expected (hn : n ≤ largest) (hk : rounds ≤ largest) :
    (expected n rounds).toNat = n * rounds := by
  have hle : n * rounds ≤ largest * largest := Nat.mul_le_mul hn hk
  have hlt : n * rounds < 2 ^ 64 := Nat.lt_of_le_of_lt hle (by decide)
  rw [expected, ← UInt64.ofNat_mul, UInt64.toNat_ofNat_of_lt' hlt]

theorem Sound.counter_of_isOver (h : r.Sound rounds) (hover : r.isOver = true) :
    r.ledger.counter = expected n rounds := by
  rw [h.counter, (h.sum_of_isOver hover).1, UInt64.ofNat_mul, expected]

theorem Sound.rejected_of_isOver (h : r.Sound rounds) (hover : r.isOver = true) :
    r.ledger.rejected = expected n rounds := by
  rw [h.rejected, (h.sum_of_isOver hover).2, UInt64.ofNat_mul, expected]

theorem Sound.failures_checks (h : r.Sound rounds) (hover : r.isOver = true) :
    Check.failures (r.checks rounds) = 0 := by
  simp [Check.failures_eq_zero_iff, checks, h.total_of_isOver hover, h.counter_of_isOver hover,
    h.rejected_of_isOver hover, h.unexpected, Acquisition.ofVerdict, Acquisition.clean,
    Acquisition.isOk, Acquisition.content, Outcome.content, Except.toOption]

theorem checks_report (rounds elapsed : Nat) (r : Race n) :
    (r.report rounds elapsed).checks = r.checks rounds := by
  have hnotices : (r.ledger.notices.reverse.map fun x =>
      Remark.notice lockNumber (workerNumber x.1) x.2).filterMap Remark.check? = [] := by
    simp [List.filterMap_eq_nil_iff, Remark.check?]
  have hchecks :
      ((r.checks rounds).map Remark.check).filterMap Remark.check? = r.checks rounds := by
    rw [List.filterMap_map]
    exact List.filterMap_some
  rw [report, Report.checks, List.cons_append, List.cons_append, List.filterMap_cons_none rfl,
    List.filterMap_append, List.filterMap_append, hnotices, hchecks]
  exact List.append_nil _

end Race

@[simp] theorem Report.failures_append (r q : Report) :
    Report.failures (r ++ q) = Report.failures r + Report.failures q := by
  simp [Report.failures, Check.failures]

/-- In every order of the threads' steps: the scenarios' checks pass; once all workers have
finished, each of their rounds has counted once and was refused once, nothing unexpected came up,
and the tool's code is 0; and as long as there is a step to take, some thread can take it. -/
theorem run_succeeds (c : Config) (hn : c.stress.threads ≤ largest)
    (hk : c.stress.iterations ≤ largest) {s : Contention} (hs : s.Reachable)
    {r : Race c.stress.threads} (hr : r.Reachable c.stress.iterations) :
    Rehearsal.reentry.report.failures = 0 ∧
    s.report.failures = 0 ∧ (s.isOver = true → s.report.checks.length = 3) ∧
    (Rehearsal.poisoning c.policy).report.failures = 0 ∧
    (r.isOver = true →
      r.ledger.counter.toNat = c.stress.threads * c.stress.iterations ∧
      r.ledger.rejected.toNat = c.stress.threads * c.stress.iterations ∧
      r.ledger.unexpected = 0 ∧
      (Race.expected c.stress.threads c.stress.iterations).toNat =
        c.stress.threads * c.stress.iterations ∧
      ∀ elapsed, (r.report c.stress.iterations elapsed).failures = 0 ∧
        ∀ (κ : Type) (h : Host), (Transcript.ofReport (κ := κ) h c
          (fullReport c.policy c.stress.iterations elapsed s r)).exitCode = 0) ∧
    (s.isOver = false → ∃ p, (s.step p).isSome) ∧
    (r.isOver = false → ∃ t, (r.step c.stress.iterations t).isSome) := by
  have hsound := hr.sound
  have hplayed := hs.sound.failures_report
  have hexpected := Race.toNat_expected hn hk
  refine ⟨Rehearsal.failures_reentry, hplayed, fun hover => ?_, Rehearsal.failures_poisoning _,
    fun hover => ⟨?_, ?_, hsound.unexpected, hexpected, fun elapsed => ?_⟩, hs.sound.exists_step,
    hsound.exists_step⟩
  · rw [hs.sound.checks_report, show s.holder = .done by simpa [Contention.isOver] using hover]
    rfl
  · rw [hsound.counter_of_isOver hover, hexpected]
  · rw [hsound.rejected_of_isOver hover, hexpected]
  · have hraced : (r.report c.stress.iterations elapsed).failures = 0 := by
      rw [Report.failures, Race.checks_report, hsound.failures_checks hover]
    refine ⟨hraced, fun κ h => ?_⟩
    simp [Transcript.ofReport, fullReport, Rehearsal.failures_reentry,
      Rehearsal.failures_poisoning, hplayed, hraced]

/-- Two workers with one round each; the one that polls finds the lock taken. -/
theorem run_succeeds_contended : ∃ (s : Contention) (r : Race 2),
    s.Reachable ∧ s.isOver = true ∧ r.Reachable 1 ∧ r.isOver = true ∧ r.ledger.retries = 1 ∧
      r.ledger.counter.toNat = 2 ∧
      (Transcript.ofReport (κ := Unit) Host.still { policy := .panic, stress := ⟨2, 1⟩ }
        (fullReport .panic 1 0 s r)).exitCode = 0 := by
  have hs : Contention.outcome.Reachable := Contention.Reachable.initial.run _
  have hraced : (Race.runs 1 ({} : Race 2) (List.replicate 5 0 ++ List.replicate 5 1 ++
      List.replicate 8 0 ++ List.replicate 11 1)).any
        (fun r => r.isOver && r.ledger.retries = 1) = true := by decide +kernel
  obtain ⟨r, hrun, hr⟩ := (Option.any_eq_true _ _).mp hraced
  obtain ⟨hover, hretries⟩ : r.isOver = true ∧ r.ledger.retries = 1 := by simpa using hr
  have hreach := Race.Reachable.initial.runs hrun
  obtain ⟨-, -, -, -, hend, -⟩ := run_succeeds { policy := .panic, stress := ⟨2, 1⟩ }
    (by decide) (by decide) hs hreach
  obtain ⟨hcounter, -, -, -, hcode⟩ := hend hover
  exact ⟨_, r, hs, by decide +kernel, hreach, hover, hretries, hcounter, (hcode 0).2 Unit _⟩

end Stress
end CheckedLock
