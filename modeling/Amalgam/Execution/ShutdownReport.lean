import Amalgam.Execution.TasksSafety

/-!
# Amalgam — no failure is lost

A worker's failure is kept once, before its supervisor ends, so the shutdown that closes the cache
reports it once (`shutdown_reports_failures`), unless the future of a shutdown was dropped with it.
What is counted is every place a failure can be: still to be taken, or taken by some shutdown.
-/

namespace Amalgam

namespace Tasks

variable {s s' : State}

/-! ## The failures of the workers -/

/-- The task whose worker or cleanup failed. -/
def ShutdownFailure.worker : ShutdownFailure → Option JobId
  | .backgroundTask _ j .worker | .work (.cleanup j) => some j
  | _ => none

theorem worker_of_failure {j : JobId} {job : Job} {f : ShutdownFailure}
    (h : job.failure j = some f) : f.worker = some j := by
  unfold Job.failure at h
  split at h <;> cases h <;> rfl

/-- Whether the failure of the task has been kept. -/
def kept (s : State) (j : JobId) (f : ShutdownFailure) : Nat :=
  if (s.jobs.lookup j).any fun job => job.noted && job.failure j = some f then 1 else 0

/-- How often the failure is to be taken, or was taken by a shutdown. -/
def carried (s : State) (f : ShutdownFailure) : Nat :=
  s.failures.count f + s.shutdowns.total fun sd => sd.failures.count f

theorem count_append_of_ne {f g : ShutdownFailure} (l : List ShutdownFailure) (h : g ≠ f) :
    (l ++ [g]).count f = l.count f := by
  rw [List.count_append, List.count_singleton, if_neg (by simpa using h), Nat.add_zero]

theorem kept_eq {j : JobId} {f : ShutdownFailure} (h : s'.jobs.lookup j = s.jobs.lookup j) :
    kept s' j f = kept s j f := by
  unfold kept
  rw [h]

theorem kept_of_not_noted {j : JobId} {f : ShutdownFailure}
    (h : ∀ job, s.jobs.lookup j = some job → job.noted = false) : kept s j f = 0 := by
  refine if_neg fun hany => ?_
  obtain ⟨job, hjob, hnoted⟩ := (Option.any_eq_true _ _).mp hany
  rw [h job hjob] at hnoted
  cases hnoted

/-- What a step of one shutdown does to the failures. -/
structure Carries (s s' : State) (d : ShutdownId) (sd sd' : Shutdown) : Prop where
  shutdowns : s'.shutdowns = s.shutdowns.insert d sd'
  jobs : s'.jobs = s.jobs ∨
    ∃ j job, j ∉ s.jobs ∧ job.noted = false ∧ s'.jobs = s.jobs.insert j job
  moved : ∀ j f, f.worker = some j → s'.failures.count f + sd'.failures.count f =
    s.failures.count f + sd.failures.count f
  added : ∀ j f, f.worker = some j → f ∈ s'.failures → f ∈ s.failures
  emptied : sd'.pc = .take .second → s'.history = .drained d .second :: s.history
  taken : sd'.pc = .finish → sd.pc = .take .second ∧ s'.failures = []
  closed : ∀ c report, s'.lifecycle = .closed c report →
    s.lifecycle = .closed c report ∨ c = d ∧ sd.pc = .finish

namespace Carries

/-- A step that leaves the failures and the jobs alone. -/
theorem quiet {d : ShutdownId} {sd sd' : Shutdown}
    (hshutdowns : s'.shutdowns = s.shutdowns.insert d sd') (hjobs : s'.jobs = s.jobs)
    (hfailures : s'.failures = s.failures)
    (hkept : sd'.failures = sd.failures)
    (hemptied : sd'.pc = .take .second → s'.history = .drained d .second :: s.history)
    (htaken : sd'.pc ≠ .finish)
    (hclosed : ∀ c report, s'.lifecycle = .closed c report →
      s.lifecycle = .closed c report ∨ c = d ∧ sd.pc = .finish) : Carries s s' d sd sd' where
  shutdowns := hshutdowns
  jobs := .inl hjobs
  moved := fun _ _ _ => by rw [hfailures, hkept]
  added := fun _ _ _ hf => hfailures ▸ hf
  emptied := hemptied
  taken := fun hpc => absurd hpc htaken
  closed := hclosed

/-- A step that keeps a failure that is of no worker. -/
theorem noted {d : ShutdownId} {sd sd' : Shutdown} {g : ShutdownFailure}
    (hshutdowns : s'.shutdowns = s.shutdowns.insert d sd') (hjobs : s'.jobs = s.jobs)
    (hfailures : s'.failures = s.failures ++ [g]) (hg : g.worker = none)
    (hkept : sd'.failures = sd.failures) (hlifecycle : s'.lifecycle = s.lifecycle)
    (hpc : sd'.pc ≠ .take .second) (hpc' : sd'.pc ≠ .finish) : Carries s s' d sd sd' := by
  have hne {j : JobId} {f : ShutdownFailure} (hf : f.worker = some j) : g ≠ f := by
    rintro rfl
    rw [hg] at hf
    cases hf
  refine ⟨hshutdowns, .inl hjobs, fun j f hf => ?_, fun j f hf hmem => ?_,
    fun h => absurd h hpc, fun h => absurd h hpc', fun c report h => .inl (hlifecycle ▸ h)⟩
  · rw [hfailures, hkept, count_append_of_ne _ (hne hf)]
  · rw [hfailures] at hmem
    rcases List.mem_append.mp hmem with hmem | hmem
    · exact hmem
    · exact absurd (List.mem_singleton.mp hmem).symm (hne hf)

end Carries

theorem carries_of_stepShutdown {d : ShutdownId} {sd : Shutdown} {input : Input} (hgated : Gated s)
    (hd : s.shutdowns.lookup d = some sd) (h : stepShutdown s d sd input = some s') :
    ∃ sd', Carries s s' d sd sd' := by
  have hearly := hgated.early d sd hd
  obtain ⟨pc, failures, plugins⟩ := sd
  cases pc with
  | gate | check | lock round | plugins =>
    simp only [stepShutdown] at h
    split at h <;> cases h
    all_goals
      exact ⟨_, .quiet rfl rfl rfl rfl (fun h => (by cases h)) (fun h => (by cases h))
        fun _ _ h => .inl h⟩
  | scopes =>
    cases h
    exact ⟨_, .quiet rfl rfl rfl rfl (fun h => (by cases h)) (fun h => (by cases h))
      fun _ _ h => .inl h⟩
  | close =>
    cases h
    refine ⟨_, .quiet rfl rfl rfl rfl (fun h => (by cases h)) (fun h => (by cases h))
      fun c report h => .inl ?_⟩
    dsimp only [State.setShutdown] at h
    split at h
    · cases h
    · exact h
  | pop round =>
    simp only [stepShutdown] at h
    split at h <;> cases h
    · refine ⟨_, .quiet rfl rfl rfl rfl (fun h => ?_) (fun h => (by cases h)) fun _ _ h => .inl h⟩
      cases h
      rfl
    · exact ⟨_, .quiet rfl rfl rfl rfl (fun h => (by cases h)) (fun h => (by cases h))
        fun _ _ h => .inl h⟩
  | join round j =>
    simp only [stepShutdown] at h
    repeat' split at h
    all_goals cases h
    all_goals
      exact ⟨_, .quiet rfl rfl rfl rfl (fun h => (by cases h)) (fun h => (by cases h))
        fun _ _ h => .inl h⟩
  | joinFailed round j =>
    obtain ⟨job, -, heq⟩ := Option.map_eq_some_iff.mp h
    cases heq
    exact ⟨_, .noted rfl rfl rfl rfl rfl rfl (fun h => by cases h) (fun h => by cases h)⟩
  | take round =>
    cases round with
    | first =>
      cases h
      refine ⟨_, rfl, .inl rfl, fun j f _ => ?_, fun j f _ hmem => absurd hmem List.not_mem_nil,
        fun h => (by cases h), fun h => (by cases h), fun _ _ h => .inl h⟩
      obtain rfl : failures = [] := hearly rfl
      exact Nat.add_comm ..
    | second =>
      cases h
      refine ⟨_, rfl, .inl rfl, fun j f _ => ?_, fun j f _ hmem => absurd hmem List.not_mem_nil,
        fun h => (by cases h), fun _ => ⟨rfl, rfl⟩, fun _ _ h => .inl h⟩
      show 0 + (failures ++ s.failures).count f = s.failures.count f + failures.count f
      rw [List.count_append]
      omega
  | recovery =>
    simp only [stepShutdown] at h
    split at h <;> cases h
    rename_i failed
    refine ⟨_, rfl, .inl rfl, fun j f hf => congrArg _ ?_, fun _ _ _ hmem => hmem,
      fun h => (by cases h), fun h => (by cases h), fun _ _ h => .inl h⟩
    cases failed with
    | false => rfl
    | true =>
      refine count_append_of_ne failures ?_
      rintro rfl
      cases hf
  | locks =>
    simp only [stepShutdown] at h
    split at h
    · cases h
      exact ⟨_, .quiet rfl rfl rfl rfl (fun h => (by cases h)) (fun h => (by cases h))
        fun _ _ h => .inl h⟩
    · cases h
      exact ⟨_, .noted rfl rfl rfl rfl rfl rfl (fun h => by cases h) (fun h => by cases h)⟩
    · split at h
      · cases h
      · rename_i j hnew
        cases h
        exact ⟨_, rfl, .inr ⟨j, _, hnew, rfl, rfl⟩, fun _ _ _ => rfl, fun _ _ _ hmem => hmem,
          fun h => (by cases h), fun h => (by cases h), fun _ _ h => .inl h⟩
    · cases h
  | track j =>
    cases h
    exact ⟨_, .quiet rfl rfl rfl rfl (fun h => (by cases h)) (fun h => (by cases h))
      fun _ _ h => .inl h⟩
  | finish =>
    cases h
    refine ⟨_, .quiet rfl rfl rfl rfl (fun h => (by cases h)) (fun h => (by cases h))
      fun c report h => .inr ?_⟩
    cases h
    exact ⟨rfl, rfl⟩
  | done | dropped => cases h

theorem carries_of_dropShutdown {d : ShutdownId} {sd : Shutdown}
    (h : dropShutdown s d sd = some s') : ∃ sd', Carries s s' d sd sd' := by
  obtain ⟨pc, failures, plugins⟩ := sd
  cases pc with
  | gate | scopes | plugins | lock round | recovery | join round j =>
    cases h
    exact ⟨_, .quiet rfl rfl rfl rfl (fun h => (by cases h)) (fun h => (by cases h))
      fun _ _ h => .inl h⟩
  | _ => cases h

/-! ## Every failure is carried once -/

theorem kept_of_new {j k : JobId} {job : Job} {f : ShutdownFailure} (hj : j ∉ s.jobs)
    (hnoted : job.noted = false) (h : s'.jobs = s.jobs.insert j job) :
    kept s' k f = kept s k f := by
  by_cases hkj : k = j
  · subst hkj
    rw [kept_of_not_noted fun other hother => ?_, kept_of_not_noted fun other hother => ?_]
    · rw [AList.lookup_eq_none.mpr hj] at hother
      cases hother
    · rw [h, AList.lookup_insert] at hother
      obtain rfl := Option.some.inj hother
      exact hnoted
  · exact kept_eq (by rw [h, AList.lookup_insert_ne hkj])

theorem carried_insert {d : ShutdownId} {sd' : Shutdown} (f : ShutdownFailure)
    (h : s'.shutdowns = s.shutdowns.insert d sd') :
    carried s' f = s'.failures.count f + (sd'.failures.count f +
      (s.shutdowns.erase d).total fun sd => sd.failures.count f) := by
  unfold carried
  rw [h, AList.total_insert]

def Counted (s : State) : Prop := ∀ j f, f.worker = some j → carried s f = kept s j f

namespace Counted

theorem frame (h : Counted s) (hjobs : s'.jobs = s.jobs) (hfailures : s'.failures = s.failures)
    (hshutdowns : s'.shutdowns = s.shutdowns) : Counted s' := by
  intro j f hf
  have hcarried : carried s' f = carried s f := by
    unfold carried
    rw [hfailures, hshutdowns]
  exact (hcarried.trans (h j f hf)).trans (kept_eq (by rw [hjobs])).symm

theorem job (h : Counted s) {j : JobId} {job job' : Job} {g : Option ShutdownFailure}
    (hj : s.jobs.lookup j = some job) (hmove : JobMove j job job' g) :
    Counted { s with jobs := s.jobs.insert j job', failures := s.failures ++ g.toList } := by
  intro k f hf
  have hcarried : carried { s with
      jobs := s.jobs.insert j job', failures := s.failures ++ g.toList } f =
      carried s f + g.toList.count f := by
    unfold carried
    rw [List.count_append]
    exact Nat.add_right_comm ..
  rw [hcarried, h k f hf]
  by_cases hkj : k = j
  · subst hkj
    unfold kept
    rw [AList.lookup_insert, hj, Option.any_some, Option.any_some]
    cases hmove with
    | moved _ hnoted hfailure hg =>
      subst hg
      rw [hnoted]
      cases hold : job.noted with
      | false => rfl
      | true => rw [hfailure hold]; rfl
    | settled _ hnone hold hg =>
      subst hg
      rw [hold, hnone]
      simp
    | noted _ hold hnew hfailure _ =>
      rw [hold, hnew, hfailure]
      cases g with
      | none => simp
      | some g => simp [List.count_singleton]
  · -- The failure that is kept is of the other task.
    have hcount : g.toList.count f = 0 := by
      refine List.count_eq_zero.mpr fun hmem => ?_
      obtain rfl := Option.mem_toList.mp hmem
      cases hmove with
      | moved _ _ _ hg | settled _ _ _ hg => cases hg
      | noted _ _ _ hfailure _ =>
        exact hkj (Option.some.inj (hf.symm.trans (worker_of_failure hfailure)))
    rw [hcount]
    exact (kept_eq (AList.lookup_insert_ne hkj)).symm

theorem carries (h : Counted s) {d : ShutdownId} {sd sd' : Shutdown}
    (hd : s.shutdowns.lookup d = some sd) (hcarries : Carries s s' d sd sd') : Counted s' := by
  intro j f hf
  have hmoved := hcarries.moved j f hf
  have hkept : kept s' j f = kept s j f := by
    rcases hcarries.jobs with hjobs | ⟨k, job, hk, hnoted, hjobs⟩
    · exact kept_eq (by rw [hjobs])
    · exact kept_of_new hk hnoted hjobs
  have hbefore := h j f hf
  rw [carried, AList.total_erase _ hd] at hbefore
  rw [hkept, ← hbefore, carried_insert f hcarries.shutdowns]
  omega

theorem next (h : Counted s) (hgated : Gated s) (hstep : Step s s') : Counted s' := by
  cases hstep with
  | job hj hmove heq =>
    subst heq
    exact h.job hj hmove
  | spawned hj heq =>
    subst heq
    intro k f hf
    exact (h k f hf).trans (kept_of_new hj rfl rfl).symm
  | refused heq =>
    subst heq
    intro j f hf
    refine .trans ?_ (h j f hf)
    have hne : ShutdownFailure.work .refused ≠ f := by
      rintro rfl
      cases hf
    exact congrArg (· + _) (count_append_of_ne s.failures hne)
  | @begun d hd heq =>
    subst heq
    intro j f hf
    rw [carried_insert f rfl, AList.erase_of_lookup_none (AList.lookup_eq_none.mpr hd)]
    exact (congrArg _ (Nat.zero_add _)).trans (h j f hf)
  | shutdown hd hstep =>
    obtain ⟨sd', hcarries⟩ := carries_of_stepShutdown hgated hd hstep
    exact h.carries hd hcarries
  | dropped hd hdrop =>
    obtain ⟨sd', hcarries⟩ := carries_of_dropShutdown hdrop
    exact h.carries hd hcarries
  | tracked _ heq | flush heq | flushed _ heq =>
    subst heq
    exact h.frame rfl rfl rfl

end Counted

/-! ## The report of the shutdown that closes the cache -/

/-- The failures of what was tracked before the second drain are no longer there to be taken, and
no more of them will come. -/
def Settles (s : State) (d : ShutdownId) : Prop :=
  ∃ later earlier, s.history = later ++ .drained d .second :: earlier ∧
    ∀ j, .tracked j ∈ earlier →
      DroppedWith s j ∨ s.isOver j = true ∧ ∀ f, f.worker = some j → f ∉ s.failures

structure Reported (s : State) : Prop where
  emptied : ∀ d sd, s.shutdowns.lookup d = some sd → sd.pc = .take .second →
    .drained d .second ∈ s.history
  finish : ∀ d sd, s.shutdowns.lookup d = some sd → sd.pc = .finish → Settles s d
  closed : ∀ d report, s.lifecycle = .closed d report → Settles s d

/-- How a step comes nearer to a report. -/
structure Reports (s s' : State) : Prop where
  shutdowns : ∀ d sd', s'.shutdowns.lookup d = some sd' → s.shutdowns.lookup d = some sd' ∨
    (sd'.pc = .take .second → s'.history = .drained d .second :: s.history) ∧
      (sd'.pc = .finish → (∃ sd, s.shutdowns.lookup d = some sd ∧ sd.pc = .take .second) ∧
        s'.failures = [])
  closed : ∀ d report, s'.lifecycle = .closed d report → s.lifecycle = .closed d report ∨
    ∃ sd, s.shutdowns.lookup d = some sd ∧ sd.pc = .finish
  added : ∀ j f, f.worker = some j → s.isOver j = true → f ∈ s'.failures → f ∈ s.failures

theorem reports_of_carries {d : ShutdownId} {sd sd' : Shutdown}
    (hd : s.shutdowns.lookup d = some sd) (h : Carries s s' d sd sd') : Reports s s' := by
  refine ⟨fun e other he => ?_, fun e report hclosed => ?_, fun j f hf _ => h.added j f hf⟩
  · rw [h.shutdowns] at he
    rcases AList.lookup_insert_cases he with ⟨rfl, rfl⟩ | ⟨-, he⟩
    · exact .inr ⟨h.emptied, fun hpc => ⟨⟨sd, hd, (h.taken hpc).1⟩, (h.taken hpc).2⟩⟩
    · exact .inl he
  · exact (h.closed e report hclosed).imp_right fun ⟨he, hpc⟩ => ⟨sd, he ▸ hd, hpc⟩

theorem reports_of_step (hgated : Gated s) (hstep : Step s s') : Reports s s' := by
  cases hstep with
  | @job j job job' g hj hmove heq =>
    subst heq
    refine ⟨fun _ _ he => .inl he, fun _ _ h => .inl h, fun k f hf hover hmem => ?_⟩
    rcases List.mem_append.mp hmem with hmem | hmem
    · exact hmem
    · -- The supervisor of a task that is over keeps nothing any more.
      obtain rfl := Option.mem_toList.mp hmem
      cases hmove with
      | moved _ _ _ hg | settled _ _ _ hg => cases hg
      | noted hlater hold hnew hfailure _ =>
        obtain rfl := Option.some.inj (hf.symm.trans (worker_of_failure hfailure))
        rw [isOver_eq hj] at hover
        rw [hlater.fixed hover, hold] at hnew
        cases hnew
  | refused heq =>
    subst heq
    refine ⟨fun _ _ he => .inl he, fun _ _ h => .inl h, fun k f hf _ hmem => ?_⟩
    rcases List.mem_append.mp hmem with hmem | hmem
    · exact hmem
    · obtain rfl := List.mem_singleton.mp hmem
      cases hf
  | @begun d hd heq =>
    subst heq
    refine ⟨fun e other he => ?_, fun _ _ h => .inl h, fun _ _ _ _ hmem => hmem⟩
    rcases AList.lookup_insert_cases he with ⟨rfl, rfl⟩ | ⟨-, he⟩
    · exact .inr ⟨fun h => (by cases h), fun h => by cases h⟩
    · exact .inl he
  | shutdown hd hstep =>
    obtain ⟨sd', hcarries⟩ := carries_of_stepShutdown hgated hd hstep
    exact reports_of_carries hd hcarries
  | dropped hd hdrop =>
    obtain ⟨sd', hcarries⟩ := carries_of_dropShutdown hdrop
    exact reports_of_carries hd hcarries
  | spawned _ heq | tracked _ heq | flush heq | flushed _ heq =>
    subst heq
    exact ⟨fun _ _ he => .inl he, fun _ _ h => .inl h, fun _ _ _ _ hmem => hmem⟩

theorem Awaits.grow (h : Awaits s s') : ∃ events, s'.history = events ++ s.history := by
  rcases h.history with heq | ⟨k, heq, -⟩ | ⟨f, heq, -⟩ | ⟨d, round, sd, heq, -⟩ <;> rw [heq]
  · exact ⟨[], rfl⟩
  · exact ⟨[.tracked k], rfl⟩
  · exact ⟨[.flushed f], rfl⟩
  · exact ⟨[.drained d round], rfl⟩

theorem Settles.next {d : ShutdownId} (h : Settles s d) (haw : Awaits s s')
    (hreports : Reports s s') : Settles s' d := by
  obtain ⟨later, earlier, heq, hsettled⟩ := h
  obtain ⟨events, hgrow⟩ := haw.grow
  refine ⟨events ++ later, earlier, by rw [hgrow, heq, List.append_assoc], fun j hj => ?_⟩
  rcases hsettled j hj with hdropped | ⟨hover, hnone⟩
  · exact .inl (haw.droppedWith j hdropped)
  · exact .inr ⟨haw.jobs.isOver hover,
      fun f hf hmem => hnone f hf (hreports.added j f hf hover hmem)⟩

theorem Reported.next (h : Reported s) (hqueue : Queue s') (haw : Awaits s s')
    (hreports : Reports s s') : Reported s' := by
  refine ⟨fun d sd hd hpc => ?_, fun d sd hd hpc => ?_, fun d report hclosed => ?_⟩
  · rcases hreports.shutdowns d sd hd with hd | ⟨hemptied, -⟩
    · exact Queue.mem_of_step haw (h.emptied d sd hd hpc)
    · rw [hemptied hpc]
      exact List.mem_cons_self ..
  · rcases hreports.shutdowns d sd hd with hd | ⟨-, htaken⟩
    · exact (h.finish d sd hd hpc).next haw hreports
    · -- Everything that could be taken has just been taken.
      obtain ⟨⟨before, hbefore, hpc⟩, hnone⟩ := htaken hpc
      have hdrained := Queue.mem_of_step haw (h.emptied d before hbefore hpc)
      obtain ⟨later, earlier, heq⟩ := List.append_of_mem hdrained
      refine ⟨later, earlier, heq, fun j hj => ?_⟩
      rcases hqueue.drained later d .second earlier heq j hj with hover | hdropped
      · exact .inr ⟨hover, fun f _ hmem => by rw [hnone] at hmem; exact List.not_mem_nil hmem⟩
      · exact .inl hdropped
  · rcases hreports.closed d report hclosed with hclosed | ⟨sd, hd, hpc⟩
    · exact (h.closed d report hclosed).next haw hreports
    · exact (h.finish d sd hd hpc).next haw hreports

theorem reported_init : Reported init := by
  refine ⟨fun d sd hd => ?_, fun d sd hd => ?_, fun d report hclosed => ?_⟩
  all_goals first | cases hd | cases hclosed

theorem reported_of_reachable (hreach : Run.Reachable Tasks.next init s) :
    Gated s ∧ Queue s ∧ Counted s ∧ Reported s :=
  hreach.invariant (I := fun s => Gated s ∧ Queue s ∧ Counted s ∧ Reported s)
    ⟨gated_init, queue_init, fun _ _ _ => rfl, reported_init⟩
    fun _ _ _ ⟨hgated, hqueue, hcounted, hreported⟩ hnext =>
      have hstep := step_of_next hnext
      have haw := awaits_of_step hstep
      have hqueue' := hqueue.next hgated haw
      ⟨hgated.next hstep, hqueue', hcounted.next hgated hstep,
        hreported.next hqueue' haw (reports_of_step hgated hstep)⟩

theorem count_report {d : ShutdownId} {report : List ShutdownFailure} (h : Gated s)
    (hclosed : s.lifecycle = .closed d report) {j : JobId} {f : ShutdownFailure}
    (hf : f.worker = some j) :
    ∃ sd, s.shutdowns.lookup d = some sd ∧ report.count f = sd.failures.count f := by
  obtain ⟨sd, hd, -, rfl⟩ := h.closer d report hclosed
  refine ⟨sd, hd, ?_⟩
  rw [List.count_append, Nat.add_eq_left, List.count_eq_zero]
  intro hmem
  obtain ⟨n, -, rfl⟩ := List.mem_map.mp hmem
  cases hf

/-- A supervisor that was not lost has kept the failure when it is over. -/
theorem noted_of_over {job : Job} (hlost : job.lost = true → job.noted = true)
    (hover : job.joinFinished = true) : job.noted = true := by
  cases hcase : job.lost with
  | true => exact hlost hcase
  | false =>
    rw [Job.joinFinished, hcase, Bool.false_or, decide_eq_true_eq] at hover
    rw [Job.noted, hover]

/-- **The report.** The shutdown that closes the cache reports the failure of a worker at most
once, and only one that happened. Of the tasks tracked before its second drain it misses none,
except those whose supervisor was lost before it kept the failure, and what an earlier shutdown
whose future was dropped had taken with it. -/
theorem shutdown_reports_failures (hreach : Run.Reachable Tasks.next init s) {d : ShutdownId}
    {report : List ShutdownFailure} (hclosed : s.lifecycle = .closed d report) :
    (∀ j f, f.worker = some j → report.count f ≤ 1 ∧ (f ∈ report →
      ∃ job, s.jobs.lookup j = some job ∧ job.failure j = some f)) ∧
    ∃ later earlier, s.history = later ++ .drained d .second :: earlier ∧
      ∀ j job f, .tracked j ∈ earlier → s.jobs.lookup j = some job →
        (job.lost = true → job.noted = true) → job.failure j = some f →
        f ∈ report ∨ DroppedWith s j ∨
          ∃ e sd k, s.shutdowns.lookup e = some sd ∧ sd.pc = .dropped k ∧ f ∈ sd.failures := by
  obtain ⟨hgated, -, hcounted, hreported⟩ := reported_of_reachable hreach
  refine ⟨fun j f hf => ?_, ?_⟩
  · obtain ⟨sd, hd, hcount⟩ := count_report hgated hclosed hf
    have htotal : sd.failures.count f ≤ carried s f :=
      (AList.le_total (fun sd : Shutdown => sd.failures.count f) hd).trans (Nat.le_add_left ..)
    rw [hcounted j f hf] at htotal
    unfold kept at htotal
    refine ⟨?_, fun hmem => ?_⟩
    · split at htotal <;> omega
    · split at htotal
      · rename_i hany
        obtain ⟨job, hjob, hnoted⟩ := (Option.any_eq_true _ _).mp hany
        exact ⟨job, hjob, of_decide_eq_true (Bool.and_eq_true_iff.mp hnoted).2⟩
      · have hpos := List.count_pos_iff.mpr hmem
        omega
  · obtain ⟨later, earlier, heq, hsettled⟩ := hreported.closed d report hclosed
    refine ⟨later, earlier, heq, fun j job f hj hjob hlost hfailure => ?_⟩
    rcases hsettled j hj with hdropped | ⟨hover, hnone⟩
    · exact .inr (.inl hdropped)
    · have hf := worker_of_failure hfailure
      rw [isOver_eq hjob] at hover
      have hkept : kept s j f = 1 := by
        unfold kept
        rw [hjob, Option.any_some, noted_of_over hlost hover, hfailure]
        exact if_pos (by simp)
      have hcarried := hcounted j f hf
      rw [hkept, carried, List.count_eq_zero.mpr (hnone f hf), Nat.zero_add] at hcarried
      obtain ⟨e, other, he, hmem⟩ := AList.exists_of_total_pos (hcarried ▸ Nat.one_pos)
      have hmem := List.count_pos_iff.mp hmem
      -- Whoever has it is working, which is over now, was dropped or closed the cache.
      rcases hgated.taken e other he (List.ne_nil_of_mem hmem) with
        hworking | ⟨k, hpc⟩ | ⟨r, hcloser⟩
      · exact absurd hclosed (hgated.working e other he hworking d report)
      · exact .inr (.inr ⟨e, other, k, he, hpc, hmem⟩)
      · obtain ⟨rfl, rfl⟩ := Lifecycle.closed.inj (hclosed.symm.trans hcloser)
        obtain ⟨sd, hd, hcount⟩ := count_report hgated hclosed hf
        obtain rfl := Option.some.inj (hd.symm.trans he)
        exact .inl (List.count_pos_iff.mp (hcount ▸ List.count_pos_iff.mpr hmem))

/-- The rest of the shutdown, which cleans up a supplied memory locker. -/
def reporting : List Action :=
  [.stepShutdown 3 .ready, .stepShutdown 3 (.recovery false),
    .stepShutdown 3 (.locker (some (some 1))), .stepShutdown 3 .ready, .work 1 .cleanupFailed,
    .supervise 1, .supervise 1, .supervise 1,
    .stepShutdown 3 .ready, .stepShutdown 3 .ready, .stepShutdown 3 .ready, .stepShutdown 3 .ready,
    .stepShutdown 3 .ready, .stepShutdown 3 .ready]

theorem shutdown_reports_failures_closed :
    ∃ s, Run.exec Tasks.next init (panicking ++ reporting) = some s ∧
      s.lifecycle = .closed 3 [.backgroundTask .factory 0 .worker, .work (.cleanup 1)] ∧
      ∀ j (f : ShutdownFailure), f.worker = some j →
        [.backgroundTask .factory 0 .worker, .work (.cleanup 1)].count f ≤ 1 := by
  have hreach : Run.Reachable Tasks.next init _ := ⟨panicking ++ reporting, rfl⟩
  exact ⟨_, rfl, rfl, fun j f hf => ((shutdown_reports_failures hreach rfl).1 j f hf).1⟩

end Tasks

end Amalgam
