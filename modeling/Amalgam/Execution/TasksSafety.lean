import Amalgam.Execution.Tasks

/-!
# Amalgam — no task is forgotten

A supervisor that is not finished is on its way to the queue, in the queue, or in the hands of the
drain that joins it. So a drain that ends has joined whatever was tracked until then, and a flush
that ends has seen it complete (`tasks_are_awaited`).
-/

namespace Amalgam

namespace Tasks

/-! ## Progress of a task -/

/-- The failure of the worker has been kept, if there is one. -/
def Job.noted (job : Job) : Bool :=
  match job.progress with
  | .settling | .published | .ended => true
  | _ => false

structure Job.Later (job job' : Job) : Prop where
  task : job'.task = job.task
  finished : job.finished = true → job'.finished = true
  fixed : job.joinFinished = true → job' = job

theorem Job.Later.refl (job : Job) : job.Later job := ⟨rfl, id, fun _ => rfl⟩

theorem Job.Later.joinFinished {job job' : Job} (h : job.Later job')
    (hover : job.joinFinished = true) : job'.joinFinished = true := by
  rw [h.fixed hover]
  exact hover

/-- A job whose supervisor works on. -/
theorem Job.Later.of_running {job job' : Job} (htask : job'.task = job.task)
    (hfinished : job.finished = true → job'.finished = true) (hlost : job.lost = false)
    (hprogress : job.progress ≠ .ended) : job.Later job' := by
  refine ⟨htask, hfinished, fun hover => ?_⟩
  simp only [Job.joinFinished, hlost, Bool.false_or, decide_eq_true_eq] at hover
  exact absurd hover hprogress

theorem endWork_spec {job job' : Job} {outcome : Outcome} (h : job.endWork outcome = some job') :
    job.progress = .working ∧ job'.task = job.task ∧ job'.lost = job.lost ∧
      job'.outcome = some outcome ∧
      (job'.progress = .settling ∧ (outcome = .completed ∨ outcome = .failed) ∨
        job'.progress = .noting ∧ (outcome = .cleanupFailed ∨ outcome = .panicked)) := by
  obtain ⟨task, cleanup, before, progress, lost⟩ := job
  cases progress with
  | working =>
    cases outcome with
    | completed =>
      cases h
      exact ⟨rfl, rfl, rfl, rfl, .inl ⟨rfl, .inl rfl⟩⟩
    | failed =>
      cases cleanup <;> cases h
      exact ⟨rfl, rfl, rfl, rfl, .inl ⟨rfl, .inr rfl⟩⟩
    | cleanupFailed =>
      cases cleanup <;> cases h
      exact ⟨rfl, rfl, rfl, rfl, .inr ⟨rfl, .inl rfl⟩⟩
    | panicked =>
      cases h
      exact ⟨rfl, rfl, rfl, rfl, .inr ⟨rfl, .inr rfl⟩⟩
  | _ => cases outcome <;> cases cleanup <;> cases h

/-- What a step of a worker, of its supervisor or of the runtime does to a task. -/
inductive JobMove (j : JobId) (job job' : Job) (f : Option ShutdownFailure) : Prop
  /-- The failure stays kept, or stays to be kept. -/
  | moved (hlater : job.Later job') (hnoted : job'.noted = job.noted)
      (hfailure : job.noted = true → job'.failure j = job.failure j) (hf : f = none)
  /-- The worker ends without a failure to keep. -/
  | settled (hlater : job.Later job') (hfailure : job'.failure j = none) (hnew : job.noted = false)
      (hf : f = none)
  | noted (hlater : job.Later job') (hold : job.noted = false) (hnew : job'.noted = true)
      (hfailure : job'.failure j = f) (hf : f ≠ none)

/-! ## Steps of the whole system -/

variable {s s' : State}

theorem isOver_eq {j : JobId} {job : Job} (h : s.jobs.lookup j = some job) :
    s.isOver j = job.joinFinished := by
  unfold State.isOver
  rw [h]
  rfl

theorem jobMove_of_step {j : JobId} {job : Job} (hlost : job.lost = false)
    (h : stepJob s j job = some s') :
    ∃ job' f, JobMove j job job' f ∧
      s' = { s with jobs := s.jobs.insert j job', failures := s.failures ++ f.toList } := by
  unfold stepJob at h
  split at h
  · rename_i hprogress
    obtain ⟨f, hf, heq⟩ := Option.map_eq_some_iff.mp h
    cases heq
    refine ⟨{ job with progress := .settling }, some f,
      .noted (.of_running rfl (fun hfinished => ?_) hlost ?_) ?_ rfl hf (Option.some_ne_none f),
      rfl⟩
    · rw [Job.finished, hprogress] at hfinished
      cases hfinished
    · rw [hprogress]
      exact fun h => by cases h
    · rw [Job.noted, hprogress]
  · rename_i hprogress
    cases h
    refine ⟨{ job with progress := .published }, none,
      .moved (.of_running rfl (fun _ => rfl) hlost ?_) ?_ (fun _ => rfl) rfl, ?_⟩
    · rw [hprogress]
      exact fun h => by cases h
    · rw [Job.noted, Job.noted, hprogress]
    · rw [Option.toList_none, List.append_nil]
      rfl
  · rename_i hprogress
    cases h
    refine ⟨{ job with progress := .ended }, none,
      .moved (.of_running rfl (fun _ => rfl) hlost ?_) ?_ (fun _ => rfl) rfl, ?_⟩
    · rw [hprogress]
      exact fun h => by cases h
    · rw [Job.noted, Job.noted, hprogress]
    · rw [Option.toList_none, List.append_nil]
      rfl
  · cases h

theorem jobMove_of_endWork {j : JobId} {job job' : Job} {outcome : Outcome}
    (hlost : job.lost = false) (h : job.endWork outcome = some job') : JobMove j job job' none := by
  obtain ⟨hworking, htask, -, houtcome, hprogress⟩ := endWork_spec h
  have hlater : job.Later job' := .of_running htask
    (fun hfinished => by rw [Job.finished, hworking] at hfinished; cases hfinished) hlost
    (by rw [hworking]; exact fun h => by cases h)
  have hnoted : job.noted = false := by rw [Job.noted, hworking]
  rcases hprogress with ⟨-, hok⟩ | ⟨hnoting, -⟩
  · refine .settled hlater ?_ hnoted rfl
    rcases hok with rfl | rfl <;> rw [Job.failure, houtcome]
  · refine .moved hlater (by rw [hnoted, Job.noted, hnoting]) (fun h => ?_) rfl
    rw [hnoted] at h
    cases h

theorem jobMove_of_lose {j : JobId} {job : Job} (h : job.joinFinished = false) :
    JobMove j job { job with lost := true } none := by
  refine .moved ⟨rfl, id, fun hover => ?_⟩ rfl (fun _ => rfl) rfl
  rw [h] at hover
  cases hover

/-! ## Jobs -/

/-- No job is forgotten, and a job whose supervisor is finished stays as it is. -/
def JobsLater (s s' : State) : Prop :=
  ∀ j job, s.jobs.lookup j = some job → ∃ job', s'.jobs.lookup j = some job' ∧ job.Later job'

namespace JobsLater

theorem of_eq (h : s'.jobs = s.jobs) : JobsLater s s' := fun j job hj =>
  ⟨job, by rw [h]; exact hj, .refl job⟩

theorem of_new {j : JobId} {job : Job} (hj : j ∉ s.jobs) (h : s'.jobs = s.jobs.insert j job) :
    JobsLater s s' := by
  intro k other hk
  have hne : k ≠ j := by
    rintro rfl
    exact hj (AList.lookup_isSome.mp (by rw [hk]; rfl))
  exact ⟨other, by rw [h, AList.lookup_insert_ne hne]; exact hk, .refl other⟩

theorem of_one {j : JobId} {job job' : Job} (hj : s.jobs.lookup j = some job)
    (hlater : job.Later job') (h : s'.jobs = s.jobs.insert j job') : JobsLater s s' := by
  intro k other hk
  by_cases heq : k = j
  · subst heq
    obtain rfl := Option.some.inj (hj.symm.trans hk)
    exact ⟨job', by rw [h, AList.lookup_insert], hlater⟩
  · exact ⟨other, by rw [h, AList.lookup_insert_ne heq]; exact hk, .refl other⟩

theorem isOver (h : JobsLater s s') {j : JobId} (hj : s.isOver j = true) : s'.isOver j = true := by
  obtain ⟨job, hjob, hover⟩ := (Option.any_eq_true _ _).mp hj
  obtain ⟨job', hjob', hlater⟩ := h j job hjob
  rw [isOver_eq hjob']
  exact hlater.joinFinished hover

end JobsLater

/-! ## Steps -/

/-- What one step of the system is. -/
inductive Step (s s' : State) : Prop
  | job {j : JobId} {job job' : Job} {f : Option ShutdownFailure}
      (hj : s.jobs.lookup j = some job) (hmove : JobMove j job job' f)
      (h : s' = { s with jobs := s.jobs.insert j job', failures := s.failures ++ f.toList })
  | spawned {j : JobId} {task : ShutdownTask} {cleanup : Bool} (hj : j ∉ s.jobs)
      (h : s' = { s.spawn j task cleanup with untracked := j :: s.untracked })
  | tracked {j : JobId} (hj : j ∈ s.untracked)
      (h : s' = { s.track j with untracked := s.untracked.erase j })
  | refused (h : s' = s.keepFailure (.work .refused))
  | flush {flushes : AList fun _ : FlushId => FlushPc} (h : s' = { s with flushes })
  | flushed {f : FlushId} {flushes : AList fun _ : FlushId => FlushPc}
      (hcollected : ∀ j, j ∈ s.handles → s.isFlushed j = true → s.isFinished j = true)
      (h : s' = { s with flushes, history := .flushed f :: s.history })
  | begun {d : ShutdownId} (hd : d ∉ s.shutdowns)
      (h : s' = s.setShutdown d { pc := .gate, failures := [], plugins := [] })
  | shutdown {d : ShutdownId} {sd : Shutdown} {input : Input} (hd : s.shutdowns.lookup d = some sd)
      (h : stepShutdown s d sd input = some s')
  | dropped {d : ShutdownId} {sd : Shutdown} (hd : s.shutdowns.lookup d = some sd)
      (h : dropShutdown s d sd = some s')

theorem step_of_stepFlush {f : FlushId} {pc : FlushPc} (h : stepFlush s f pc = some s') :
    Step s s' := by
  cases pc with
  | collect =>
    simp only [stepFlush] at h
    split at h
    · rename_i hempty
      cases h
      refine .flushed (fun j hj hflushed => ?_) rfl
      have hnot := List.filter_eq_nil_iff.mp (List.isEmpty_iff.mp hempty) j hj
      rw [hflushed, Bool.true_and, Bool.not_eq_true', Bool.not_eq_false] at hnot
      exact hnot
    · cases h
      exact .flush rfl
  | waiting pending =>
    cases pending with
    | nil =>
      cases h
      exact .flush rfl
    | cons j pending =>
      simp only [stepFlush] at h
      split at h <;> cases h
      exact .flush rfl
  | done => cases h

theorem step_of_next {a : Action} (h : next s a = some s') : Step s s' := by
  cases a with
  | spawn j task cleanup =>
    simp only [next] at h
    split at h
    · cases h
    · rename_i hj
      cases h
      exact .spawned hj rfl
  | track j =>
    simp only [next] at h
    split at h
    · rename_i hj
      cases h
      exact .tracked hj rfl
    · cases h
  | refuse =>
    cases h
    exact .refused rfl
  | work j outcome =>
    simp only [next] at h
    split at h
    · cases h
    · rename_i job hj
      split at h
      · cases h
      · rename_i hlost
        obtain ⟨job', hended, heq⟩ := Option.map_eq_some_iff.mp h
        cases heq
        refine .job hj (jobMove_of_endWork (Bool.eq_false_of_not_eq_true hlost) hended) ?_
        rw [Option.toList_none, List.append_nil]
        rfl
  | supervise j =>
    simp only [next] at h
    split at h
    · cases h
    · rename_i job hj
      split at h
      · cases h
      · rename_i hlost
        obtain ⟨job', f, hmove, heq⟩ := jobMove_of_step (Bool.eq_false_of_not_eq_true hlost) h
        exact .job hj hmove heq
  | lose j =>
    simp only [next] at h
    split at h
    · cases h
    · rename_i job hj
      split at h
      · cases h
      · rename_i hover
        cases h
        refine .job hj (jobMove_of_lose (Bool.eq_false_of_not_eq_true hover)) ?_
        rw [Option.toList_none, List.append_nil]
        rfl
  | flush f =>
    simp only [next] at h
    split at h <;> cases h
    exact .flush rfl
  | stepFlush f =>
    simp only [next] at h
    split at h
    · cases h
    · exact step_of_stepFlush h
  | shutdown d =>
    simp only [next] at h
    split at h
    · cases h
    · rename_i hd
      cases h
      exact .begun hd rfl
  | stepShutdown d input =>
    simp only [next] at h
    split at h
    · cases h
    · rename_i sd hd
      exact .shutdown hd h
  | dropShutdown d =>
    simp only [next] at h
    split at h
    · cases h
    · rename_i sd hd
      exact .dropped hd h

/-! ## The gate -/

namespace ShutdownPc

/-- The future has the gate. -/
def inside : ShutdownPc → Bool
  | .gate | .done _ | .dropped _ => false
  | _ => true

/-- It has seen that the cache is not closed. -/
def working : ShutdownPc → Bool
  | .gate | .check | .done _ | .dropped _ => false
  | _ => true

/-- It has not taken any failures. -/
def early : ShutdownPc → Bool
  | .gate | .check | .close | .scopes | .plugins | .lock .first | .pop .first | .join .first _
  | .joinFailed .first _ | .take .first => true
  | _ => false

theorem inside_of_working {pc : ShutdownPc} (h : pc.working = true) : pc.inside = true := by
  cases pc <;> first | rfl | cases h

end ShutdownPc

/-- The shutdown whose report closed the cache. -/
def Closer (s : State) (d : ShutdownId) (report : List ShutdownFailure) : Prop :=
  ∃ sd, s.shutdowns.lookup d = some sd ∧ sd.pc = .done report ∧
    report = sd.failures ++ sd.plugins.map .plugin

structure Gated (s : State) : Prop where
  gate : ∀ d sd, s.shutdowns.lookup d = some sd → sd.pc.inside = true → s.gate = some d
  working : ∀ d sd, s.shutdowns.lookup d = some sd → sd.pc.working = true →
    ∀ c report, s.lifecycle ≠ .closed c report
  closer : ∀ c report, s.lifecycle = .closed c report → Closer s c report
  early : ∀ d sd, s.shutdowns.lookup d = some sd → sd.pc.early = true → sd.failures = []
  taken : ∀ d sd, s.shutdowns.lookup d = some sd → sd.failures ≠ [] → sd.pc.working = true ∨
    (∃ j, sd.pc = .dropped j) ∨ ∃ report, s.lifecycle = .closed d report

namespace Gated

theorem unique (h : Gated s) {d e : ShutdownId} {sd other : Shutdown}
    (hd : s.shutdowns.lookup d = some sd) (he : s.shutdowns.lookup e = some other)
    (hpc : sd.pc.inside = true) (hpc' : other.pc.inside = true) : d = e :=
  Option.some.inj ((h.gate d sd hd hpc).symm.trans (h.gate e other he hpc'))

/-- A step that leaves the shutdowns, the gate and the lifecycle alone. -/
theorem frame (h : Gated s) (hshutdowns : s'.shutdowns = s.shutdowns) (hgate : s'.gate = s.gate)
    (hlifecycle : s'.lifecycle = s.lifecycle) : Gated s' := by
  obtain ⟨jobs', untracked', handles', failures', gate', join', lifecycle', flushes', shutdowns',
    history'⟩ := s'
  cases hshutdowns
  cases hgate
  cases hlifecycle
  exact ⟨h.gate, h.working, h.closer, h.early, h.taken⟩

/-- A shutdown that goes on from where it has seen the cache open. -/
theorem within {d : ShutdownId} {sd sd' : Shutdown} (h : Gated s)
    (hd : s.shutdowns.lookup d = some sd) (hshutdowns : s'.shutdowns = s.shutdowns.insert d sd')
    (hpc : sd.pc.working = true) (hpc' : sd'.pc.working = true)
    (hearly : sd'.pc.early = true → sd'.failures = []) (hgate : s'.gate = s.gate)
    (hlifecycle : ∀ c report, s'.lifecycle ≠ .closed c report) : Gated s' := by
  have hcases {e : ShutdownId} {other : Shutdown} (he : s'.shutdowns.lookup e = some other) :
      e = d ∧ other = sd' ∨ e ≠ d ∧ s.shutdowns.lookup e = some other :=
    AList.lookup_insert_cases (hshutdowns ▸ he)
  refine ⟨fun e other he hinside => ?_, fun _ _ _ _ => hlifecycle,
    fun c report hclosed => absurd hclosed (hlifecycle c report), fun e other he hother => ?_,
    fun e other he hother => ?_⟩
  · rcases hcases he with ⟨rfl, -⟩ | ⟨-, he⟩
    · exact hgate.trans (h.gate e sd hd (ShutdownPc.inside_of_working hpc))
    · exact hgate.trans (h.gate e other he hinside)
  · rcases hcases he with ⟨-, rfl⟩ | ⟨-, he⟩
    · exact hearly hother
    · exact h.early e other he hother
  · rcases hcases he with ⟨-, rfl⟩ | ⟨-, he⟩
    · exact .inl hpc'
    · rcases h.taken e other he hother with hworking | hdropped | ⟨report, hclosed⟩
      · exact .inl hworking
      · exact .inr (.inl hdropped)
      · exact absurd hclosed (h.working d sd hd hpc e report)

/-- A step of one shutdown that leaves the lifecycle alone. -/
theorem put {d : ShutdownId} {sd sd' : Shutdown} (h : Gated s)
    (hd : s.shutdowns.lookup d = some sd) (hundone : ∀ report, sd.pc ≠ .done report)
    (hshutdowns : s'.shutdowns = s.shutdowns.insert d sd') (hlifecycle : s'.lifecycle = s.lifecycle)
    (hothers : ∀ e other, e ≠ d → s.shutdowns.lookup e = some other → other.pc.inside = true →
      s'.gate = some e)
    (hgate : sd'.pc.inside = true → s'.gate = some d)
    (hworking : sd'.pc.working = true → ∀ c report, s.lifecycle ≠ .closed c report)
    (hearly : sd'.pc.early = true → sd'.failures = [])
    (htaken : sd'.failures ≠ [] → sd'.pc.working = true ∨ ∃ j, sd'.pc = .dropped j) : Gated s' := by
  have hcases {e : ShutdownId} {other : Shutdown} (he : s'.shutdowns.lookup e = some other) :
      e = d ∧ other = sd' ∨ e ≠ d ∧ s.shutdowns.lookup e = some other :=
    AList.lookup_insert_cases (hshutdowns ▸ he)
  refine ⟨fun e other he hinside => ?_, fun e other he hother => ?_, fun c report hclosed => ?_,
    fun e other he hother => ?_, fun e other he hother => ?_⟩
  · rcases hcases he with ⟨rfl, rfl⟩ | ⟨hed, he⟩
    · exact hgate hinside
    · exact hothers e other hed he hinside
  · rw [hlifecycle]
    rcases hcases he with ⟨-, rfl⟩ | ⟨-, he⟩
    · exact hworking hother
    · exact h.working e other he hother
  · obtain ⟨other, hc, hpc, hreport⟩ := h.closer c report (hlifecycle ▸ hclosed)
    have hne : c ≠ d := by
      rintro rfl
      obtain rfl := Option.some.inj (hd.symm.trans hc)
      exact hundone report hpc
    exact ⟨other, by rw [hshutdowns, AList.lookup_insert_ne hne]; exact hc, hpc, hreport⟩
  · rcases hcases he with ⟨-, rfl⟩ | ⟨-, he⟩
    · exact hearly hother
    · exact h.early e other he hother
  · rcases hcases he with ⟨-, rfl⟩ | ⟨-, he⟩
    · exact (htaken hother).imp_right .inl
    · rw [hlifecycle]
      exact h.taken e other he hother

/-- Nobody else is inside while a shutdown is. -/
theorem alone {d : ShutdownId} {sd : Shutdown} (h : Gated s) (hd : s.shutdowns.lookup d = some sd)
    (hpc : sd.pc.inside = true) {e : ShutdownId} {other : Shutdown} (hne : e ≠ d)
    (he : s.shutdowns.lookup e = some other) : ¬ other.pc.inside = true :=
  fun hinside => absurd (h.unique he hd hinside hpc) hne

theorem shutdown {d : ShutdownId} {sd : Shutdown} {input : Input} (h : Gated s)
    (hd : s.shutdowns.lookup d = some sd) (hstep : stepShutdown s d sd input = some s') :
    Gated s' := by
  obtain ⟨pc, failures, plugins⟩ := sd
  have hearly := h.early d _ hd
  cases pc with
  | gate =>
    simp only [stepShutdown] at hstep
    split at hstep
    · rename_i hfree
      cases hstep
      refine h.put hd (fun _ h => (by cases h)) rfl rfl (fun e other _ he hinside => ?_)
        (fun _ => rfl) (fun h => (by cases h)) (fun _ => hearly rfl) fun h => absurd (hearly rfl) h
      exact absurd (hfree.symm.trans (h.gate e other he hinside)) (Option.some_ne_none e).symm
    · cases hstep
  | check =>
    simp only [stepShutdown] at hstep
    split at hstep
    · cases hstep
      exact h.put hd (fun _ h => (by cases h)) rfl rfl
        (fun _ _ hne he hinside => absurd hinside (h.alone hd rfl hne he)) (fun h => (by cases h))
        (fun h => (by cases h)) (fun _ => hearly rfl) fun h => absurd (hearly rfl) h
    · rename_i hopen
      cases hstep
      exact h.put hd (fun _ h => (by cases h)) rfl rfl
        (fun _ _ hne he hinside => absurd hinside (h.alone hd rfl hne he))
        (fun _ => h.gate d _ hd rfl) (fun _ c report hclosed => hopen c report hclosed)
        (fun _ => hearly rfl) fun h => absurd (hearly rfl) h
  | close =>
    have hopen := h.working d _ hd rfl
    cases hstep
    refine h.within hd rfl rfl rfl (fun _ => hearly rfl) rfl fun c report hclosed => ?_
    dsimp only [State.setShutdown] at hclosed
    split at hclosed
    · cases hclosed
    · exact hopen c report hclosed
  | lock round | pop round =>
    have hopen := h.working d _ hd rfl
    simp only [stepShutdown] at hstep
    split at hstep <;> cases hstep <;> cases round <;>
      exact h.within hd rfl rfl rfl (fun hpc => by first | exact hearly rfl | cases hpc) rfl hopen
  | scopes | track job =>
    have hopen := h.working d _ hd rfl
    cases hstep
    exact h.within hd rfl rfl rfl (fun hpc => by first | exact hearly rfl | cases hpc) rfl hopen
  | plugins | recovery | locks =>
    have hopen := h.working d _ hd rfl
    simp only [stepShutdown] at hstep
    repeat' split at hstep
    all_goals
      cases hstep
      try
        exact h.within hd rfl rfl rfl (fun hpc => by first | exact hearly rfl | cases hpc) rfl
          hopen
  | join round job =>
    have hopen := h.working d _ hd rfl
    simp only [stepShutdown] at hstep
    repeat' split at hstep
    all_goals
      cases hstep
      try
        cases round <;>
          exact h.within hd rfl rfl rfl (fun hpc => by first | exact hearly rfl | cases hpc) rfl
            hopen
  | joinFailed round job =>
    have hopen := h.working d _ hd rfl
    obtain ⟨job, -, heq⟩ := Option.map_eq_some_iff.mp hstep
    cases heq
    cases round <;>
      exact h.within hd rfl rfl rfl (fun hpc => by first | exact hearly rfl | cases hpc) rfl hopen
  | take round =>
    have hopen := h.working d _ hd rfl
    cases round <;> cases hstep <;>
      exact h.within hd rfl rfl rfl (fun hpc => by cases hpc) rfl hopen
  | finish =>
    cases hstep
    refine ⟨fun e other he hinside => ?_, fun e other he hworking => ?_, fun c report hclosed => ?_,
      fun e other he hother => ?_, fun e other he htaken => ?_⟩
    · rcases AList.lookup_insert_cases he with ⟨-, rfl⟩ | ⟨hne, he⟩
      · cases hinside
      · exact absurd hinside (h.alone hd rfl hne he)
    · rcases AList.lookup_insert_cases he with ⟨-, rfl⟩ | ⟨hne, he⟩
      · cases hworking
      · exact absurd (ShutdownPc.inside_of_working hworking) (h.alone hd rfl hne he)
    · cases hclosed
      exact ⟨_, AList.lookup_insert _, rfl, rfl⟩
    · rcases AList.lookup_insert_cases he with ⟨-, rfl⟩ | ⟨-, he⟩
      · cases hother
      · exact h.early e other he hother
    · rcases AList.lookup_insert_cases he with ⟨rfl, rfl⟩ | ⟨hne, he⟩
      · exact .inr (.inr ⟨_, rfl⟩)
      · rcases h.taken e other he htaken with hworking | hdropped | ⟨report, hclosed⟩
        · exact absurd (ShutdownPc.inside_of_working hworking) (h.alone hd rfl hne he)
        · exact .inr (.inl hdropped)
        · exact absurd hclosed (h.working d _ hd rfl e report)
  | done | dropped => cases hstep

theorem drop {d : ShutdownId} {sd : Shutdown} (h : Gated s) (hd : s.shutdowns.lookup d = some sd)
    (hdrop : dropShutdown s d sd = some s') : Gated s' := by
  obtain ⟨pc, failures, plugins⟩ := sd
  cases pc with
  | gate =>
    cases hdrop
    exact h.put hd (fun _ h => (by cases h)) rfl rfl
      (fun e other _ he hinside => h.gate e other he hinside) (fun h => (by cases h))
      (fun h => (by cases h)) (fun h => by cases h) fun _ => .inr ⟨_, rfl⟩
  | scopes | plugins | lock round | recovery | join round job =>
    cases hdrop
    exact h.put hd (fun _ h => (by cases h)) rfl rfl
      (fun _ _ hne he hinside => absurd hinside (h.alone hd rfl hne he)) (fun h => (by cases h))
      (fun h => (by cases h)) (fun h => by cases h) fun _ => .inr ⟨_, rfl⟩
  | _ => cases hdrop

theorem next (h : Gated s) (hstep : Step s s') : Gated s' := by
  cases hstep with
  | shutdown hd hstep => exact h.shutdown hd hstep
  | dropped hd hdrop => exact h.drop hd hdrop
  | @begun d hd heq =>
    subst heq
    have hne {e : ShutdownId} {sd : Shutdown} (he : s.shutdowns.lookup e = some sd) : e ≠ d := by
      rintro rfl
      exact hd (AList.lookup_isSome.mp (by rw [he]; rfl))
    refine ⟨fun e other he hinside => ?_, fun e other he hworking => ?_, fun c report hclosed => ?_,
      fun e other he hearly => ?_, fun e other he htaken => ?_⟩
    · rcases AList.lookup_insert_cases he with ⟨-, rfl⟩ | ⟨-, he⟩
      · cases hinside
      · exact h.gate e other he hinside
    · rcases AList.lookup_insert_cases he with ⟨-, rfl⟩ | ⟨-, he⟩
      · cases hworking
      · exact h.working e other he hworking
    · obtain ⟨sd, hc, hpc, hreport⟩ := h.closer c report hclosed
      exact ⟨sd, (AList.lookup_insert_ne (hne hc)).trans hc, hpc, hreport⟩
    · rcases AList.lookup_insert_cases he with ⟨-, rfl⟩ | ⟨-, he⟩
      · rfl
      · exact h.early e other he hearly
    · rcases AList.lookup_insert_cases he with ⟨-, rfl⟩ | ⟨-, he⟩
      · exact absurd rfl htaken
      · exact h.taken e other he htaken
  | job _ _ heq | spawned _ heq | tracked _ heq | refused heq | flush heq | flushed _ heq =>
    subst heq
    exact h.frame rfl rfl rfl

end Gated

/-! ## Where a supervisor is awaited -/

/-- The handle that a drain, or a drain that was dropped, has taken from the queue. -/
def ShutdownPc.holds : ShutdownPc → Option JobId
  | .join _ j | .dropped (some j) => some j
  | _ => none

/-- The supervisor is finished, or a drain has its handle. -/
def Accounted (s : State) (j : JobId) : Prop :=
  s.isOver j = true ∨ ∃ d sd, s.shutdowns.lookup d = some sd ∧ sd.pc.holds = some j

/-- A shutdown was dropped while it joined the task. -/
def DroppedWith (s : State) (j : JobId) : Prop :=
  ∃ d sd, s.shutdowns.lookup d = some sd ∧ sd.pc = .dropped (some j)

/-- The task is on its way to the queue. -/
def Coming (s : State) (j : JobId) : Prop :=
  j ∈ s.untracked ∨ ∃ d sd, s.shutdowns.lookup d = some sd ∧ sd.pc = .track j

/-- What a step does to the queue and to what is awaited. -/
structure Awaits (s s' : State) : Prop where
  jobs : JobsLater s s'
  accounted : ∀ j, Accounted s j → Accounted s' j
  droppedWith : ∀ j, DroppedWith s j → DroppedWith s' j
  handles : ∀ j, j ∈ s.handles → j ∈ s'.handles ∨ Accounted s' j
  spawned : ∀ j, j ∈ s'.jobs → j ∈ s.jobs ∨ Coming s' j
  coming : ∀ j, Coming s j → Coming s' j ∨ .tracked j ∈ s'.history
  known : ∀ j, Coming s' j → Coming s j ∨ j ∈ s'.jobs
  history : s'.history = s.history ∨
    (∃ j, s'.history = .tracked j :: s.history ∧ j ∈ s'.handles ∧ Coming s j) ∨
    (∃ f, s'.history = .flushed f :: s.history ∧
      ∀ j, j ∈ s.handles → s.isFlushed j = true → s.isFinished j = true) ∨
    ∃ d round sd, s'.history = .drained d round :: s.history ∧ s.handles = [] ∧
      s.shutdowns.lookup d = some sd ∧ sd.pc = .pop round

/-- A handle that leaves the queue of `supervise` is of a finished supervisor. -/
theorem mem_prune {j : JobId} : ∀ (n : Nat) (handles : List JobId), j ∈ handles →
    j ∈ s.prune n handles ∨ s.isOver j = true
  | 0, _, hj => .inl hj
  | _ + 1, [], hj => absurd hj List.not_mem_nil
  | n + 1, k :: handles, hj => by
    rw [State.prune]
    split
    · rename_i hover
      rcases List.mem_cons.mp hj with rfl | hj
      · exact .inr hover
      · exact mem_prune n handles hj
    · refine mem_prune n _ ?_
      rcases List.mem_cons.mp hj with rfl | hj
      · exact List.mem_append_right _ (List.mem_singleton.mpr rfl)
      · exact List.mem_append_left _ hj

theorem mem_track {j k : JobId} (hj : j ∈ s.handles) :
    j ∈ (s.track k).handles ∨ s.isOver j = true :=
  (mem_prune _ s.handles hj).imp_left (List.mem_append_left _)

namespace Awaits

/-- A step that leaves the shutdowns alone. -/
theorem frame (hshutdowns : s'.shutdowns = s.shutdowns) (hjobs : JobsLater s s')
    (hhandles : ∀ j, j ∈ s.handles → j ∈ s'.handles ∨ s'.isOver j = true)
    (hspawned : ∀ j, j ∈ s'.jobs → j ∈ s.jobs ∨ j ∈ s'.untracked)
    (huntracked : ∀ j, j ∈ s.untracked → j ∈ s'.untracked ∨ .tracked j ∈ s'.history)
    (hknown : ∀ j, j ∈ s'.untracked → j ∈ s.untracked ∨ j ∈ s'.jobs)
    (hhistory : s'.history = s.history ∨
      (∃ j, s'.history = .tracked j :: s.history ∧ j ∈ s'.handles ∧ j ∈ s.untracked) ∨
      ∃ f, s'.history = .flushed f :: s.history ∧
        ∀ j, j ∈ s.handles → s.isFlushed j = true → s.isFinished j = true) : Awaits s s' where
  jobs := hjobs
  accounted := fun j hj => hj.imp hjobs.isOver fun ⟨d, sd, hd, hpc⟩ => ⟨d, sd, hshutdowns ▸ hd, hpc⟩
  droppedWith := fun j ⟨d, sd, hd, hpc⟩ => ⟨d, sd, hshutdowns ▸ hd, hpc⟩
  handles := fun j hj => (hhandles j hj).imp_right .inl
  spawned := fun j hj => (hspawned j hj).imp_right .inl
  coming := fun j hj => by
    rcases hj with hj | ⟨d, sd, hd, hpc⟩
    · exact (huntracked j hj).imp_left .inl
    · exact .inl (.inr ⟨d, sd, hshutdowns ▸ hd, hpc⟩)
  known := fun j hj => by
    rcases hj with hj | ⟨d, sd, hd, hpc⟩
    · exact (hknown j hj).imp_left .inl
    · exact .inl (.inr ⟨d, sd, hshutdowns ▸ hd, hpc⟩)
  history := by
    rcases hhistory with heq | ⟨j, heq, hj, hfrom⟩ | hflushed
    · exact .inl heq
    · exact .inr (.inl ⟨j, heq, hj, .inl hfrom⟩)
    · exact .inr (.inr (.inl hflushed))

/-- A step of one shutdown. -/
theorem shutdown {d : ShutdownId} {sd sd' : Shutdown} (hd : s.shutdowns.lookup d = some sd)
    (hshutdowns : s'.shutdowns = s.shutdowns.insert d sd') (huntracked : s'.untracked = s.untracked)
    (hjobs : JobsLater s s') (hundropped : ∀ j, sd.pc ≠ .dropped j)
    (hholds : ∀ j, sd.pc.holds = some j → sd'.pc.holds = some j ∨ s.isOver j = true)
    (hhandles : ∀ j, j ∈ s.handles → j ∈ s'.handles ∨ s'.isOver j = true ∨ sd'.pc.holds = some j)
    (hspawned : ∀ j, j ∈ s'.jobs → j ∈ s.jobs ∨ sd'.pc = .track j)
    (htracked : ∀ j, sd.pc = .track j → .tracked j ∈ s'.history)
    (hknown : ∀ j, sd'.pc = .track j → j ∈ s'.jobs)
    (hhistory : s'.history = s.history ∨
      (∃ j, s'.history = .tracked j :: s.history ∧ j ∈ s'.handles ∧ sd.pc = .track j) ∨
      ∃ round, s'.history = .drained d round :: s.history ∧ s.handles = [] ∧ sd.pc = .pop round) :
    Awaits s s' := by
  have hself : s'.shutdowns.lookup d = some sd' := by rw [hshutdowns, AList.lookup_insert]
  have hother {e : ShutdownId} {other : Shutdown} (hne : e ≠ d)
      (he : s.shutdowns.lookup e = some other) : s'.shutdowns.lookup e = some other := by
    rw [hshutdowns, AList.lookup_insert_ne hne]
    exact he
  refine ⟨hjobs, fun j hj => ?_, fun j hj => ?_, fun j hj => ?_, fun j hj => ?_, fun j hj => ?_,
    fun j hj => ?_, ?_⟩
  · rcases hj with hover | ⟨e, other, he, hpc⟩
    · exact .inl (hjobs.isOver hover)
    · by_cases hne : e = d
      · subst hne
        obtain rfl := Option.some.inj (hd.symm.trans he)
        rcases hholds j hpc with hpc' | hover
        · exact .inr ⟨e, sd', hself, hpc'⟩
        · exact .inl (hjobs.isOver hover)
      · exact .inr ⟨e, other, hother hne he, hpc⟩
  · obtain ⟨e, other, he, hpc⟩ := hj
    refine ⟨e, other, hother ?_ he, hpc⟩
    rintro rfl
    obtain rfl := Option.some.inj (hd.symm.trans he)
    exact hundropped _ hpc
  · rcases hhandles j hj with hj | hover | hpc
    · exact .inl hj
    · exact .inr (.inl hover)
    · exact .inr (.inr ⟨d, sd', hself, hpc⟩)
  · exact (hspawned j hj).imp_right fun hpc => .inr ⟨d, sd', hself, hpc⟩
  · rcases hj with hj | ⟨e, other, he, hpc⟩
    · exact .inl (.inl (huntracked ▸ hj))
    · by_cases hne : e = d
      · subst hne
        obtain rfl := Option.some.inj (hd.symm.trans he)
        exact .inr (htracked j hpc)
      · exact .inl (.inr ⟨e, other, hother hne he, hpc⟩)
  · rcases hj with hj | ⟨e, other, he, hpc⟩
    · exact .inl (.inl (huntracked ▸ hj))
    · rcases AList.lookup_insert_cases (hshutdowns ▸ he) with ⟨-, rfl⟩ | ⟨-, he⟩
      · exact .inr (hknown j hpc)
      · exact .inl (.inr ⟨e, other, he, hpc⟩)
  · rcases hhistory with heq | ⟨j, heq, hj, hpc⟩ | ⟨round, heq, hempty, hpc⟩
    · exact .inl heq
    · exact .inr (.inl ⟨j, heq, hj, .inr ⟨d, sd, hd, hpc⟩⟩)
    · exact .inr (.inr (.inr ⟨d, round, sd, heq, hempty, hd, hpc⟩))

/-- A step of one shutdown that leaves the jobs and the queue alone. -/
theorem quiet {d : ShutdownId} {sd sd' : Shutdown} (hd : s.shutdowns.lookup d = some sd)
    (hshutdowns : s'.shutdowns = s.shutdowns.insert d sd') (huntracked : s'.untracked = s.untracked)
    (hjobs : s'.jobs = s.jobs) (hhandles : s'.handles = s.handles)
    (hhistory : s'.history = s.history)
    (hundropped : ∀ j, sd.pc ≠ .dropped j) (htrack : ∀ j, sd.pc ≠ .track j)
    (htrack' : ∀ j, sd'.pc ≠ .track j)
    (hholds : ∀ j, sd.pc.holds = some j → sd'.pc.holds = some j ∨ s.isOver j = true) :
    Awaits s s' :=
  .shutdown hd hshutdowns huntracked (.of_eq hjobs) hundropped hholds
    (fun _ hj => .inl (hhandles ▸ hj)) (fun _ hj => .inl (hjobs ▸ hj))
    (fun j hpc => absurd hpc (htrack j)) (fun j hpc => absurd hpc (htrack' j)) (.inl hhistory)

end Awaits

theorem awaits_of_stepShutdown {d : ShutdownId} {sd : Shutdown} {input : Input}
    (hd : s.shutdowns.lookup d = some sd) (h : stepShutdown s d sd input = some s') :
    Awaits s s' := by
  obtain ⟨pc, failures, plugins⟩ := sd
  cases pc with
  | gate | check | lock round | plugins | recovery =>
    simp only [stepShutdown] at h
    split at h <;> cases h
    all_goals
      exact .quiet hd rfl rfl rfl rfl rfl (fun _ h => (by cases h)) (fun _ h => (by cases h))
        (fun _ h => (by cases h)) fun _ h => by cases h
  | close | scopes | finish =>
    cases h
    exact .quiet hd rfl rfl rfl rfl rfl (fun _ h => (by cases h)) (fun _ h => (by cases h))
      (fun _ h => (by cases h)) fun _ h => by cases h
  | take round =>
    cases round <;> cases h <;>
      exact .quiet hd rfl rfl rfl rfl rfl (fun _ h => (by cases h)) (fun _ h => (by cases h))
        (fun _ h => (by cases h)) fun _ h => by cases h
  | joinFailed round j =>
    obtain ⟨job, -, heq⟩ := Option.map_eq_some_iff.mp h
    cases heq
    exact .quiet hd rfl rfl rfl rfl rfl (fun _ h => (by cases h)) (fun _ h => (by cases h))
      (fun _ h => (by cases h)) fun _ h => by cases h
  | join round j =>
    simp only [stepShutdown] at h
    split at h
    · cases h
    · rename_i job hj
      -- The supervisor is finished, with an error or without.
      have hover (hjob : job.joinFinished = true) (k : JobId)
          (hk : (ShutdownPc.join round j).holds = some k) : s.isOver k = true := by
        cases hk
        rw [isOver_eq hj]
        exact hjob
      split at h
      · rename_i hlost
        cases h
        exact .quiet hd rfl rfl rfl rfl rfl (fun _ h => (by cases h)) (fun _ h => (by cases h))
          (fun _ h => (by cases h)) fun k hk =>
            .inr (hover (by rw [Job.joinFinished, hlost, Bool.true_or]) k hk)
      · split at h
        · rename_i hjob
          cases h
          exact .quiet hd rfl rfl rfl rfl rfl (fun _ h => (by cases h)) (fun _ h => (by cases h))
            (fun _ h => (by cases h)) fun k hk => .inr (hover hjob k hk)
        · cases h
  | pop round =>
    simp only [stepShutdown] at h
    split at h
    · rename_i hempty
      cases h
      exact .shutdown hd rfl rfl (.of_eq rfl) (fun _ h => (by cases h)) (fun _ h => (by cases h))
        (fun j hj => .inl hj) (fun j hj => .inl hj) (fun _ h => (by cases h))
        (fun _ h => (by cases h)) (.inr (.inr ⟨round, rfl, hempty, rfl⟩))
    · rename_i k handles hhandles
      cases h
      refine .shutdown hd rfl rfl (.of_eq rfl) (fun _ h => (by cases h)) (fun _ h => (by cases h))
        (fun j hj => ?_) (fun j hj => .inl hj) (fun _ h => (by cases h)) (fun _ h => (by cases h))
        (.inl rfl)
      rw [hhandles] at hj
      rcases List.mem_cons.mp hj with rfl | hj
      · exact .inr (.inr rfl)
      · exact .inl hj
  | locks =>
    simp only [stepShutdown] at h
    split at h
    · cases h
      exact .quiet hd rfl rfl rfl rfl rfl (fun _ h => (by cases h)) (fun _ h => (by cases h))
        (fun _ h => (by cases h)) fun _ h => by cases h
    · cases h
      exact .quiet hd rfl rfl rfl rfl rfl (fun _ h => (by cases h)) (fun _ h => (by cases h))
        (fun _ h => (by cases h)) fun _ h => by cases h
    · split at h
      · cases h
      · rename_i j hnew
        cases h
        refine .shutdown hd rfl rfl (.of_new hnew rfl) (fun _ h => (by cases h))
          (fun _ h => (by cases h)) (fun j hj => .inl hj) (fun k hk => ?_) (fun _ h => (by cases h))
          (fun k hk => ?_) (.inl rfl)
        · rcases (AList.mem_insert _).mp hk with rfl | hk
          · exact .inr rfl
          · exact .inl hk
        · cases hk
          exact (AList.mem_insert _).mpr (.inl rfl)
    · cases h
  | track j =>
    cases h
    refine .shutdown hd rfl rfl (.of_eq rfl) (fun _ h => (by cases h)) (fun _ h => (by cases h))
      (fun k hk => ?_) (fun j hj => .inl hj) (fun k hk => ?_) (fun _ h => (by cases h))
      (.inr (.inl ⟨j, rfl, List.mem_append_right _ (List.mem_singleton.mpr rfl), rfl⟩))
    · exact (mem_track hk).imp_right .inl
    · cases hk
      exact List.mem_cons_self ..
  | done | dropped => cases h

theorem awaits_of_dropShutdown {d : ShutdownId} {sd : Shutdown}
    (hd : s.shutdowns.lookup d = some sd) (h : dropShutdown s d sd = some s') : Awaits s s' := by
  obtain ⟨pc, failures, plugins⟩ := sd
  cases pc with
  | gate | scopes | plugins | lock round | recovery =>
    cases h
    exact .quiet hd rfl rfl rfl rfl rfl (fun _ h => (by cases h)) (fun _ h => (by cases h))
      (fun _ h => (by cases h)) fun _ h => by cases h
  | join round j =>
    cases h
    exact .quiet hd rfl rfl rfl rfl rfl (fun _ h => (by cases h)) (fun _ h => (by cases h))
      (fun _ h => (by cases h)) fun k hk => .inl hk
  | _ => cases h

theorem awaits_of_step (h : Step s s') : Awaits s s' := by
  cases h with
  | shutdown hd h => exact awaits_of_stepShutdown hd h
  | dropped hd h => exact awaits_of_dropShutdown hd h
  | @job j job job' f hj hmove h =>
    subst h
    have hlater : job.Later job' := by
      cases hmove with
      | moved hlater | settled hlater | noted hlater => exact hlater
    refine .frame rfl (.of_one hj hlater rfl) (fun _ hj => .inl hj) (fun k hk => ?_)
      (fun _ hj => .inl hj) (fun _ hj => .inl hj) (.inl rfl)
    rcases (AList.mem_insert _).mp hk with rfl | hk
    · exact .inl (AList.lookup_isSome.mp (by rw [hj]; rfl))
    · exact .inl hk
  | @spawned j task cleanup hnew h =>
    subst h
    refine .frame rfl (.of_new hnew rfl) (fun _ hj => .inl hj) (fun k hk => ?_)
      (fun _ hj => .inl (List.mem_cons_of_mem _ hj)) (fun k hk => ?_) (.inl rfl)
    · rcases (AList.mem_insert _).mp hk with rfl | hk
      · exact .inr (List.mem_cons_self ..)
      · exact .inl hk
    · rcases List.mem_cons.mp hk with rfl | hk
      · exact .inr ((AList.mem_insert _).mpr (.inl rfl))
      · exact .inl hk
  | @tracked j hj h =>
    subst h
    refine .frame rfl (.of_eq rfl) (fun k hk => mem_track hk) (fun _ hj => .inl hj) (fun k hk => ?_)
      (fun k hk => .inl (List.mem_of_mem_erase hk))
      (.inr (.inl ⟨j, rfl, List.mem_append_right _ (List.mem_singleton.mpr rfl), hj⟩))
    by_cases hkj : k = j
    · subst hkj
      exact .inr (List.mem_cons_self ..)
    · exact .inl ((List.mem_erase_of_ne hkj).mpr hk)
  | refused h | flush h =>
    subst h
    exact .frame rfl (.of_eq rfl) (fun _ hj => .inl hj) (fun _ hj => .inl hj) (fun _ hj => .inl hj)
      (fun _ hj => .inl hj) (.inl rfl)
  | @flushed f flushes hcollected h =>
    subst h
    exact .frame rfl (.of_eq rfl) (fun _ hj => .inl hj) (fun _ hj => .inl hj) (fun _ hj => .inl hj)
      (fun _ hj => .inl hj) (.inr (.inr ⟨f, rfl, hcollected⟩))
  | @begun d hd h =>
    subst h
    have hkept {e : ShutdownId} {sd : Shutdown} (he : s.shutdowns.lookup e = some sd) :
        (s.shutdowns.insert d ⟨.gate, [], []⟩).lookup e = some sd := by
      rw [AList.lookup_insert_ne fun heq => hd (AList.lookup_isSome.mp (by rw [← heq, he]; rfl))]
      exact he
    refine ⟨.of_eq rfl, fun j hj => ?_, fun j ⟨e, sd, he, hpc⟩ => ⟨e, sd, hkept he, hpc⟩,
      fun _ hj => .inl hj, fun _ hj => .inl hj, fun j hj => .inl ?_, fun j hj => .inl ?_, .inl rfl⟩
    · exact hj.imp_right fun ⟨e, sd, he, hpc⟩ => ⟨e, sd, hkept he, hpc⟩
    · exact hj.imp_right fun ⟨e, sd, he, hpc⟩ => ⟨e, sd, hkept he, hpc⟩
    · refine hj.imp_right fun ⟨e, sd, he, hpc⟩ => ?_
      rcases AList.lookup_insert_cases he with ⟨-, rfl⟩ | ⟨-, he⟩
      · cases hpc
      · exact ⟨e, sd, he, hpc⟩

/-! ## What a drain and a flush have waited for -/

theorem isFinished_eq {j : JobId} {job : Job} (h : s.jobs.lookup j = some job) :
    s.isFinished j = job.finished := by
  unfold State.isFinished
  rw [h]
  rfl

theorem isFlushed_eq {j : JobId} {job : Job} (h : s.jobs.lookup j = some job) :
    s.isFlushed j = job.task.flushed := by
  unfold State.isFlushed
  rw [h]
  rfl

namespace JobsLater

theorem mem (h : JobsLater s s') {j : JobId} (hj : j ∈ s.jobs) : j ∈ s'.jobs := by
  obtain ⟨job, hjob⟩ := Option.isSome_iff_exists.mp (AList.lookup_isSome.mpr hj)
  obtain ⟨job', hjob', -⟩ := h j job hjob
  exact AList.lookup_isSome.mp (by rw [hjob']; rfl)

theorem finished (h : JobsLater s s') {j : JobId} (hj : s.isFinished j = true) :
    s'.isFinished j = true := by
  obtain ⟨job, hjob, hfinished⟩ := (Option.any_eq_true _ _).mp hj
  obtain ⟨job', hjob', hlater⟩ := h j job hjob
  rw [isFinished_eq hjob']
  exact hlater.finished hfinished

/-- The kind of a task never changes. -/
theorem flushed (h : JobsLater s s') {j : JobId} (hj : j ∈ s.jobs) :
    s'.isFlushed j = s.isFlushed j := by
  obtain ⟨job, hjob⟩ := Option.isSome_iff_exists.mp (AList.lookup_isSome.mpr hj)
  obtain ⟨job', hjob', hlater⟩ := h j job hjob
  rw [isFlushed_eq hjob', isFlushed_eq hjob, hlater.task]

end JobsLater

structure Queue (s : State) : Prop where
  known : ∀ j, Coming s j ∨ .tracked j ∈ s.history → j ∈ s.jobs
  spawned : ∀ j, j ∈ s.jobs → Coming s j ∨ .tracked j ∈ s.history
  queued : ∀ j, .tracked j ∈ s.history → j ∈ s.handles ∨ Accounted s j
  drained : ∀ later d round earlier, s.history = later ++ .drained d round :: earlier →
    ∀ j, .tracked j ∈ earlier → s.isOver j = true ∨ DroppedWith s j
  flushed : ∀ later f earlier, s.history = later ++ .flushed f :: earlier →
    ∀ j, .tracked j ∈ earlier → s.isFlushed j = true → s.isFinished j = true ∨ Accounted s j

/-- Another drain cannot be joining while this one finds the queue empty. -/
theorem Gated.accounted {d : ShutdownId} {sd : Shutdown} {round : Round} {j : JobId}
    (h : Gated s) (hd : s.shutdowns.lookup d = some sd) (hpc : sd.pc = .pop round)
    (hj : Accounted s j) : s.isOver j = true ∨ DroppedWith s j := by
  refine hj.imp_right fun ⟨e, other, he, hholds⟩ => ?_
  obtain ⟨pc, failures, plugins⟩ := other
  have hinside : sd.pc.inside = true := by rw [hpc]; rfl
  cases pc with
  | join round' k =>
    obtain rfl := h.unique hd he hinside rfl
    obtain rfl := Option.some.inj (hd.symm.trans he)
    cases hpc
  | dropped k =>
    cases k with
    | none => cases hholds
    | some k =>
      cases hholds
      exact ⟨e, _, he, rfl⟩
  | _ => cases hholds

namespace Queue

/-- What was tracked before the step, or has just arrived. -/
theorem tracked_of_step (h : Awaits s s') {j : JobId} (hj : .tracked j ∈ s'.history) :
    .tracked j ∈ s.history ∨ j ∈ s'.handles ∧ Coming s j := by
  rcases h.history with heq | ⟨k, heq, hk, hcoming⟩ | ⟨f, heq, -⟩ | ⟨d, round, sd, heq, -⟩ <;>
    rw [heq] at hj
  · exact .inl hj
  · rcases List.mem_cons.mp hj with hj | hj
    · cases hj
      exact .inr ⟨hk, hcoming⟩
    · exact .inl hj
  · exact .inl ((List.mem_cons.mp hj).resolve_left fun h => by cases h)
  · exact .inl ((List.mem_cons.mp hj).resolve_left fun h => by cases h)

/-- An event stays in the history. -/
theorem mem_of_step (h : Awaits s s') {e : Event} (he : e ∈ s.history) : e ∈ s'.history := by
  rcases h.history with heq | ⟨k, heq, -⟩ | ⟨f, heq, -⟩ | ⟨d, round, sd, heq, -⟩ <;> rw [heq]
  · exact he
  · exact List.mem_cons_of_mem _ he
  · exact List.mem_cons_of_mem _ he
  · exact List.mem_cons_of_mem _ he

theorem next (h : Queue s) (hgated : Gated s) (haw : Awaits s s') : Queue s' := by
  refine ⟨fun j hj => ?_, fun j hj => ?_, fun j hj => ?_, fun later d round earlier heq j hj => ?_,
    fun later f earlier heq j hj hflushed => ?_⟩
  · rcases hj with hj | hj
    · rcases haw.known j hj with hj | hj
      · exact haw.jobs.mem (h.known j (.inl hj))
      · exact hj
    · rcases tracked_of_step haw hj with hj | ⟨-, hj⟩
      · exact haw.jobs.mem (h.known j (.inr hj))
      · exact haw.jobs.mem (h.known j (.inl hj))
  · rcases haw.spawned j hj with hj | hj
    · rcases h.spawned j hj with hj | hj
      · exact haw.coming j hj
      · exact .inr (mem_of_step haw hj)
    · exact .inl hj
  · rcases tracked_of_step haw hj with hj | ⟨hj, -⟩
    · rcases h.queued j hj with hj | hj
      · exact haw.handles j hj
      · exact .inr (haw.accounted j hj)
    · exact .inl hj
  · -- The drain may be the event of this step, or is an earlier one.
    have hold (rest : List Event) (hrest : s.history = rest ++ .drained d round :: earlier) :
        s'.isOver j = true ∨ DroppedWith s' j :=
      (h.drained rest d round earlier hrest j hj).imp haw.jobs.isOver (haw.droppedWith j)
    rcases haw.history with hs | ⟨k, hs, -⟩ | ⟨f, hs, -⟩ | ⟨e, round', sd, hs, hempty, he, hpc⟩ <;>
      rw [hs] at heq
    · exact hold later heq
    · obtain ⟨-, hevent, -⟩ | ⟨rest, -, hrest⟩ := History.split_cons heq
      · cases hevent
      · exact hold rest hrest
    · obtain ⟨-, hevent, -⟩ | ⟨rest, -, hrest⟩ := History.split_cons heq
      · cases hevent
      · exact hold rest hrest
    · obtain ⟨-, -, rfl⟩ | ⟨rest, -, hrest⟩ := History.split_cons heq
      · rcases h.queued j hj with hin | haccounted
        · rw [hempty] at hin
          exact absurd hin List.not_mem_nil
        · exact (hgated.accounted he hpc haccounted).imp haw.jobs.isOver (haw.droppedWith j)
      · exact hold rest hrest
  · have hbefore (htracked : .tracked j ∈ s.history) : s.isFlushed j = true :=
      (haw.jobs.flushed (h.known j (.inr htracked))).symm.trans hflushed
    have hold (rest : List Event) (hrest : s.history = rest ++ .flushed f :: earlier) :
        s'.isFinished j = true ∨ Accounted s' j := by
      have htracked : .tracked j ∈ s.history := by
        rw [hrest]
        exact List.mem_append_right _ (List.mem_cons_of_mem _ hj)
      exact (h.flushed rest f earlier hrest j hj (hbefore htracked)).imp haw.jobs.finished
        (haw.accounted j)
    rcases haw.history with hs | ⟨k, hs, -⟩ | ⟨g, hs, hcollected⟩ | ⟨e, round, sd, hs, -⟩ <;>
      rw [hs] at heq
    · exact hold later heq
    · obtain ⟨-, hevent, -⟩ | ⟨rest, -, hrest⟩ := History.split_cons heq
      · cases hevent
      · exact hold rest hrest
    · obtain ⟨-, -, rfl⟩ | ⟨rest, -, hrest⟩ := History.split_cons heq
      · rcases h.queued j hj with hin | haccounted
        · exact .inl (haw.jobs.finished (hcollected j hin (hbefore hj)))
        · exact .inr (haw.accounted j haccounted)
      · exact hold rest hrest
    · obtain ⟨-, hevent, -⟩ | ⟨rest, -, hrest⟩ := History.split_cons heq
      · cases hevent
      · exact hold rest hrest

end Queue

theorem gated_init : Gated init := by
  refine ⟨fun d sd hd => ?_, fun d sd hd => ?_, fun c report hclosed => ?_, fun d sd hd => ?_,
    fun d sd hd => ?_⟩
  all_goals first | cases hd | cases hclosed

theorem queue_init : Queue init := by
  refine ⟨fun j hj => ?_, fun j hj => ?_, fun j hj => ?_, fun later d round earlier heq => ?_,
    fun later f earlier heq => ?_⟩
  · rcases hj with (hj | ⟨d, sd, hd, -⟩) | hj
    · exact absurd hj List.not_mem_nil
    · cases hd
    · exact absurd hj List.not_mem_nil
  · exact absurd hj (AList.notMem_empty j)
  · exact absurd hj List.not_mem_nil
  · exact absurd heq.symm (List.append_ne_nil_of_right_ne_nil _ (List.cons_ne_nil _ _))
  · exact absurd heq.symm (List.append_ne_nil_of_right_ne_nil _ (List.cons_ne_nil _ _))

theorem queue_of_reachable (hreach : Run.Reachable Tasks.next init s) : Gated s ∧ Queue s :=
  hreach.invariant (I := fun s => Gated s ∧ Queue s) ⟨gated_init, queue_init⟩
    fun _ _ _ ⟨hgated, hqueue⟩ hnext =>
      have hstep := step_of_next hnext
      ⟨hgated.next hstep, hqueue.next hgated (awaits_of_step hstep)⟩

/-- **Completeness.** An unfinished supervisor is on its way to the queue, in it, or held by one
drain, so no task is forgotten. What was tracked before a drain emptied the queue is finished,
except for the one handle that a dropped shutdown took with it; a task of a flushed kind tracked
before a flush returned has published its completion, or its supervisor was lost or is held by a
drain. -/
theorem tasks_are_awaited (hreach : Run.Reachable Tasks.next init s) :
    (∀ j, j ∈ s.jobs → Coming s j ∨ j ∈ s.handles ∨ Accounted s j) ∧
      (∀ later d round earlier, s.history = later ++ .drained d round :: earlier →
        ∀ j, .tracked j ∈ earlier → s.isOver j = true ∨ DroppedWith s j) ∧
      ∀ later f earlier, s.history = later ++ .flushed f :: earlier →
        ∀ j, .tracked j ∈ earlier → s.isFlushed j = true →
          s.isFinished j = true ∨ Accounted s j := by
  obtain ⟨-, h⟩ := queue_of_reachable hreach
  exact ⟨fun j hj => (h.spawned j hj).imp_right (h.queued j), h.drained, h.flushed⟩

/-- A worker panics before a shutdown joins its supervisor. -/
def panicking : List Action :=
  [.spawn 0 .factory false, .track 0, .work 0 .panicked, .supervise 0, .supervise 0, .supervise 0,
    .shutdown 3, .stepShutdown 3 .ready, .stepShutdown 3 .ready, .stepShutdown 3 .ready,
    .stepShutdown 3 .ready, .stepShutdown 3 (.plugins []), .stepShutdown 3 .ready,
    .stepShutdown 3 .ready, .stepShutdown 3 .ready, .stepShutdown 3 .ready]

theorem tasks_are_awaited_drained :
    ∃ s, Run.exec Tasks.next init panicking = some s ∧
      s.history = [.drained 3 .first, .tracked 0] ∧
      (s.isOver 0 = true ∨ DroppedWith s 0) := by
  have hreach : Run.Reachable Tasks.next init _ := ⟨panicking, rfl⟩
  exact ⟨_, rfl, rfl, (tasks_are_awaited hreach).2.1 [] 3 .first [.tracked 0] rfl 0
    (List.mem_cons_self ..)⟩

end Tasks

end Amalgam
