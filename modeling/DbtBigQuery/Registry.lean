import DbtBigQuery.Retry

/-!
# The job registry under any interleaving

`jobs_by_thread` while any number of threads run `raw_execute` and `cancel_open`
step by step, in any order. `Registry` is the invariant:

* every job submitted by `client.query` is registered under the thread that
  submitted it, a key of `thread_connections`;
* ids are drawn fresh, and each one is registered under a single thread;
* a call whose `generate_job_id` has run and whose `client.query` has not holds
  the last id of its thread's list, which no one has submitted yet.

`Sys.step_cases` says once what a step can do to the registry; `Registry.step`
and `registry_run` follow from it, and `registered_before_submitted` collects
what every step of every run from a fresh manager does.
-/

namespace DbtBigQuery

/-- The calls a frame holds: `raw_execute`'s, or the `cancel_job` call a sweep
is making. -/
def Frame.calls : Frame → List Call
  | .query c => [c]
  | .sweep ⟨_, some (.loop _ _ _ _ (some c)), _⟩ => [c]
  | _ => []

/-- Every job submitted is registered under the thread that submitted it, and
that thread keys a connection. -/
def Submitted (m : Manager) : Prop :=
  ∀ t k j, (t, k, .query j) ∈ m.requests → t ∈ m.threads ∧ j ∈ m.jobsByThread t

structure Registry (s : Sys) : Prop where
  submitted : Submitted s.m
  fresh : ∀ t j, j ∈ s.m.jobsByThread t → j < s.m.nextJob
  owned : ∀ t t' j, j ∈ s.m.jobsByThread t → j ∈ s.m.jobsByThread t' → t = t'
  queries : ∀ t, ∀ c ∈ (s.frames t).calls, c.fn = .query → t ∈ s.m.threads
  pending : ∀ t, ∀ c ∈ (s.frames t).calls, ∀ id, c.phase = .registered id →
    c.fn = .query ∧ (s.m.jobsByThread t).getLast? = some id ∧
      ∀ t' k, (t', k, .query id) ∉ s.m.requests

/-- A step of thread `t` that leaves the registry as it is and gives `t` the frame
`f`, whose call, if any, has not registered a job. -/
def Quiet (m m' : Manager) (t : Tid) (f : Frame) : Prop :=
  m'.jobsByThread = m.jobsByThread ∧ m'.nextJob = m.nextJob ∧ m'.requests = m.requests ∧
    m'.threads = m.threads ∧
    ∀ c ∈ f.calls, (c.fn = .query → t ∈ m.threads) ∧ ∀ id, c.phase ≠ .registered id

@[simp] theorem Sys.put_m (s : Sys) (m : Manager) (t : Tid) (f : Frame) : (s.put m t f).m = m := rfl

theorem Sys.put_frames (s : Sys) (m : Manager) (t t' : Tid) (f : Frame) :
    (s.put m t f).frames t' = if t' = t then f else s.frames t' := by
  simp only [Sys.put, Function.update_apply]

theorem Frame.calls_sweep (sw : Sweep) :
    (Frame.sweep sw).calls = match sw.cur with
      | some (.loop _ _ _ _ (some c)) => [c]
      | _ => [] := by
  obtain ⟨_, cur, _⟩ := sw
  rcases cur with _ | (_ | _ | ⟨_, _, _, _, _ | _⟩ | _ | _) <;> rfl

@[simp] theorem Manager.generateJobId_jobs_self (m : Manager) (t : Tid) :
    (m.generateJobId t).jobsByThread t = m.jobsByThread t ++ [m.nextJob] := by
  simp [Manager.generateJobId]

theorem Manager.generateJobId_jobs_of_ne (m : Manager) {t t' : Tid} (h : t' ≠ t) :
    (m.generateJobId t).jobsByThread t' = m.jobsByThread t' := by
  simp [Manager.generateJobId, Function.update_apply, h]

theorem Manager.mem_generateJobId_jobs {m : Manager} {t t' : Tid} {j : JobId} :
    j ∈ (m.generateJobId t).jobsByThread t' ↔ j ∈ m.jobsByThread t' ∨ (t' = t ∧ j = m.nextJob) := by
  by_cases h : t' = t
  · subst h; simp
  · simp [Manager.generateJobId_jobs_of_ne m h, h]

/-- A query call's first step of an attempt is `generate_job_id`. -/
theorem Call.step_start_query {m : Manager} {t : Tid} {c : Call} {env : Env} (hp : c.phase = .start)
    (hfn : c.fn = .query) :
    c.step m t env = (m.generateJobId t, { c with attempts := c.attempts + 1, phase := .registered m.nextJob }) := by
  simp [Call.step, hp, hfn]

theorem Call.step_keeps_jobs (m : Manager) (t : Tid) (c : Call) (env : Env)
    (h : ¬(c.phase = .start ∧ c.fn = .query)) :
    (c.step m t env).1.jobsByThread = m.jobsByThread ∧ (c.step m t env).1.nextJob = m.nextJob ∧
      ∀ id, (c.step m t env).2.phase ≠ .registered id := by
  cases hp : c.phase
  case start =>
    cases hfn : c.fn with
    | query => exact absurd ⟨hp, hfn⟩ h
    | call o =>
      simp only [Call.step, hp, hfn]
      split
      · contradiction
      · cases m.answerTo _ env <;> simp [Call.answered, Call.fail, Manager.issue]
      · simp [Call.fail]
  case failed e =>
    simp only [Call.step, hp, true_and]
    intro id h
    rcases c.judge_cases e with h' | h' <;> rw [h'] at h <;> cases h
  all_goals
    simp only [Call.step, hp]
    repeat' split
    all_goals simp [Manager.issue, Manager.create, Manager.putConn, Manager.setHandle,
      Manager.setState, Call.fail, Call.raise, Call.markClose, Call.markOpen]

theorem Call.step_threads (m : Manager) (t : Tid) (c : Call) (env : Env) :
    (c.step m t env).1.threads = m.threads := by
  cases hp : c.phase <;> simp only [Call.step, hp] <;> (repeat' split) <;> rfl

/-- What a step of thread `t` can do to the registry: nothing (the lock is held),
something quiet, or one step of the call its frame holds. -/
theorem Sys.begin_cases (s : Sys) (t : Tid) (env : Env) :
    s.begin t env = s ∨ ∃ m f, s.begin t env = s.put m t f ∧ Quiet s.m m t f := by
  unfold Sys.begin
  split
  · exact .inl rfl
  · split
    · split
      · dsimp only
        split
        · exact .inr ⟨_, _, rfl, rfl, rfl, rfl, rfl, by simp [Frame.calls]⟩
        · rename_i hmem _ _
          exact .inr ⟨_, _, rfl, rfl, rfl, rfl, rfl, by simp [Frame.calls, Call.start, hmem]⟩
      · exact .inr ⟨_, _, rfl, rfl, rfl, rfl, rfl, by simp [Frame.calls]⟩
    · exact .inr ⟨_, _, rfl, rfl, rfl, rfl, rfl, by simp [Frame.calls]⟩

theorem Sys.sweepStep_cases (s : Sys) (t : Tid) (sw : Sweep) (env : Env) :
    (∃ m f, s.sweepStep t sw env = s.put m t f ∧ Quiet s.m m t f) ∨
    ∃ c ∈ (Frame.sweep sw).calls, ∃ f,
      s.sweepStep t sw env = s.put (c.step s.m t env).1 t f ∧ f.calls = [(c.step s.m t env).2] := by
  simp only [Sys.sweepStep, Sys.endSweep]
  repeat' split
  all_goals first
    | exact .inl ⟨_, _, rfl, rfl, rfl, rfl, rfl, by simp [Frame.calls, Frame.calls_sweep, Call.start, *]⟩
    | exact .inr ⟨_, by simp [Frame.calls_sweep, *], _, rfl, rfl⟩

theorem Sys.step_cases (s : Sys) (t : Tid) (env : Env) :
    s.step t env = s ∨ (∃ m f, s.step t env = s.put m t f ∧ Quiet s.m m t f) ∨
    ∃ c ∈ (s.frames t).calls, ∃ f,
      s.step t env = s.put (c.step s.m t env).1 t f ∧ f.calls = [(c.step s.m t env).2] := by
  unfold Sys.step
  split
  · exact (s.begin_cases t env).imp_right .inl
  · exact (s.begin_cases t env).imp_right .inl
  · rename_i c hc
    split
    · exact (s.begin_cases t env).imp_right .inl
    · exact .inr (.inr ⟨c, by simp [hc, Frame.calls], _, rfl, rfl⟩)
  · rename_i sw hsw
    rcases s.sweepStep_cases t sw env with h | ⟨c, hc, f, hs, hf⟩
    · exact .inr (.inl h)
    · exact .inr (.inr ⟨c, by rwa [hsw], f, hs, hf⟩)

theorem Registry.quiet {s : Sys} (h : Registry s) {m : Manager} {t : Tid} {f : Frame}
    (hq : Quiet s.m m t f) : Registry (s.put m t f) := by
  obtain ⟨hj, hn, hr, ht, hf⟩ := hq
  refine ⟨?_, ?_, ?_, fun t₁ c hc hfn => ?_, fun t₁ c hc id hp => ?_⟩
  · intro t₁ k j hq
    simp only [Sys.put_m, hr, hj, ht] at hq ⊢
    exact h.submitted t₁ k j hq
  · simpa only [Sys.put_m, hj, hn] using h.fresh
  · simpa only [Sys.put_m, hj] using h.owned
  · rw [Sys.put_frames] at hc
    simp only [Sys.put_m, ht]
    split_ifs at hc with h₁
    · subst h₁; exact (hf c hc).1 hfn
    · exact h.queries t₁ c hc hfn
  · rw [Sys.put_frames] at hc
    simp only [Sys.put_m, hj, hr]
    split_ifs at hc with h₁
    · exact absurd hp ((hf c hc).2 id)
    · exact h.pending t₁ c hc id hp

/-- A step of a call that registers nothing: what it submits, it submits for the
id its thread registered last. -/
theorem Registry.advance {s : Sys} (h : Registry s) {t : Tid} {c : Call}
    (hc : c ∈ (s.frames t).calls) {m : Manager} {c' : Call} {f : Frame}
    (hj : m.jobsByThread = s.m.jobsByThread) (hn : m.nextJob = s.m.nextJob)
    (ht : m.threads = s.m.threads) {new : List (Tid × Client × Request)}
    (hr : m.requests = new ++ s.m.requests)
    (hnew : ∀ q ∈ new, q.1 = t ∧ ∀ j, q.2.2 = .query j → c.phase = .registered j)
    (hfn : c'.fn = c.fn) (hreg : ∀ id, c'.phase ≠ .registered id) (hf : f.calls = [c']) :
    Registry (s.put m t f) := by
  have last : ∀ {t₁ j}, (t₁, j) ∈ new.map (fun q => (q.1, q.2.2)) → ∀ id, j = .query id →
      t₁ = t ∧ id ∈ s.m.jobsByThread t ∧ (s.m.jobsByThread t).getLast? = some id := by
    intro t₁ j hq id hj
    obtain ⟨q, hq, hqe⟩ := List.mem_map.mp hq
    obtain ⟨h₁, h₂⟩ := hnew q hq
    simp only [Prod.mk.injEq] at hqe
    obtain ⟨-, hl, -⟩ := h.pending t c hc id (h₂ id (hqe.2.trans hj))
    exact ⟨hqe.1 ▸ h₁, List.mem_of_getLast?_eq_some hl, hl⟩
  refine ⟨?_, ?_, ?_, fun t₁ c₁ hc₁ hfn₁ => ?_, fun t₁ c₁ hc₁ id hp => ?_⟩
  · intro t₁ k j hq
    simp only [Sys.put_m, hr, hj, ht, List.mem_append] at hq ⊢
    rcases hq with hq | hq
    · obtain ⟨ht₁, hmem, -⟩ := last (List.mem_map_of_mem (fun q => (q.1, q.2.2)) hq) j rfl
      obtain ⟨hfq, -⟩ := h.pending t c hc j ((hnew _ hq).2 j rfl)
      rw [show t₁ = t from ht₁]
      exact ⟨h.queries t c hc hfq, hmem⟩
    · exact h.submitted t₁ k j hq
  · simpa only [Sys.put_m, hj, hn] using h.fresh
  · simpa only [Sys.put_m, hj] using h.owned
  · rw [Sys.put_frames] at hc₁
    simp only [Sys.put_m, ht]
    split_ifs at hc₁ with h₁
    · subst h₁
      rw [hf, List.mem_singleton] at hc₁
      subst hc₁
      exact h.queries _ c hc (hfn ▸ hfn₁)
    · exact h.queries t₁ c₁ hc₁ hfn₁
  · rw [Sys.put_frames] at hc₁
    simp only [Sys.put_m, hj, hr]
    split_ifs at hc₁ with h₁
    · rw [hf, List.mem_singleton] at hc₁
      exact absurd (hc₁ ▸ hp) (hreg id)
    · obtain ⟨hfq, hl, hns⟩ := h.pending t₁ c₁ hc₁ id hp
      refine ⟨hfq, hl, fun t₂ k hq => ?_⟩
      rcases List.mem_append.mp hq with hq | hq
      · obtain ⟨rfl, hmem, -⟩ := last (List.mem_map_of_mem (fun q => (q.1, q.2.2)) hq) id rfl
        exact h₁ (h.owned _ _ id (List.mem_of_getLast?_eq_some hl) hmem)
      · exact hns t₂ k hq

/-- `generate_job_id`: the next id, fresh, is appended to the list of the thread
whose call takes the step, and its call now holds it. -/
theorem Registry.register {s : Sys} (h : Registry s) {t : Tid} {c : Call}
    (hc : c ∈ (s.frames t).calls) (hfn : c.fn = .query) {f : Frame}
    (hf : f.calls = [{ c with attempts := c.attempts + 1, phase := .registered s.m.nextJob }]) :
    Registry (s.put (s.m.generateJobId t) t f) := by
  have unsent : ∀ t₂ k, (t₂, k, .query s.m.nextJob) ∉ s.m.requests := fun t₂ k hq =>
    Nat.lt_irrefl _ (h.fresh _ _ (h.submitted t₂ k _ hq).2)
  refine ⟨?_, ?_, ?_, fun t₁ c₁ hc₁ hfn₁ => ?_, fun t₁ c₁ hc₁ id hp => ?_⟩
  · intro t₁ k j hq
    obtain ⟨hth, hj⟩ := h.submitted t₁ k j hq
    exact ⟨hth, Manager.mem_generateJobId_jobs.mpr (.inl hj)⟩
  · intro t₁ j hj
    show j < s.m.nextJob + 1
    rcases Manager.mem_generateJobId_jobs.mp hj with hj | ⟨-, rfl⟩
    · exact Nat.lt_succ_of_lt (h.fresh _ _ hj)
    · exact Nat.lt_succ_self _
  · intro t₁ t₂ j h₁ h₂
    rcases Manager.mem_generateJobId_jobs.mp h₁ with h₁ | ⟨ht₁, hj⟩ <;>
      rcases Manager.mem_generateJobId_jobs.mp h₂ with h₂ | ⟨ht₂, hj'⟩
    · exact h.owned _ _ _ h₁ h₂
    · exact absurd (hj' ▸ h.fresh _ _ h₁) (Nat.lt_irrefl _)
    · exact absurd (hj ▸ h.fresh _ _ h₂) (Nat.lt_irrefl _)
    · exact ht₁.trans ht₂.symm
  · rw [Sys.put_frames] at hc₁
    split_ifs at hc₁ with h₁
    · subst h₁
      rw [hf, List.mem_singleton] at hc₁
      subst hc₁
      exact h.queries _ c hc hfn
    · exact h.queries t₁ c₁ hc₁ hfn₁
  · rw [Sys.put_frames] at hc₁
    split_ifs at hc₁ with h₁
    · subst h₁
      rw [hf, List.mem_singleton] at hc₁
      subst hc₁
      cases hp
      exact ⟨hfn, by simp, unsent⟩
    · obtain ⟨hfq, hl, hns⟩ := h.pending t₁ c₁ hc₁ id hp
      exact ⟨hfq, by rw [Sys.put_m, Manager.generateJobId_jobs_of_ne _ h₁]; exact hl, hns⟩

/-- One step of any thread keeps the registry. -/
theorem Registry.step {s : Sys} (h : Registry s) (t : Tid) (env : Env) : Registry (s.step t env) := by
  rcases s.step_cases t env with hs | ⟨m, f, hs, hq⟩ | ⟨c, hc, f, hs, hf⟩
  · rwa [hs]
  · rw [hs]; exact h.quiet hq
  · rw [hs]
    by_cases hsq : c.phase = .start ∧ c.fn = .query
    · rw [Call.step_start_query hsq.1 hsq.2] at hf ⊢
      exact h.register hc hsq.2 hf
    · obtain ⟨hj, hn, hreg⟩ := c.step_keeps_jobs s.m t env hsq
      obtain ⟨new, hr, hnew⟩ := c.step_requests s.m t env
      exact h.advance hc hj hn (c.step_threads s.m t env) hr
        (fun q hq => ⟨(hnew q hq).1, (hnew q hq).2.2⟩) (Call.step_fixed s.m t c env).1 hreg hf

theorem registry_run {s : Sys} (h : Registry s) (sched : List (Tid × Env)) :
    Registry (s.run sched) := by
  induction sched generalizing s with
  | nil => exact h
  | cons p sched ih => exact ih (h.step p.1 p.2)

/-- What one step does to the registry: no id leaves a list and no request is
forgotten, and a new `client.query` is one of the stepping thread's call, for the
id that call registered: the last of the thread's list, submitted by no one yet. -/
theorem Registry.step_facts {s : Sys} (h : Registry s) (t : Tid) (env : Env) :
    (∀ t', s.m.jobsByThread t' <+: (s.step t env).m.jobsByThread t') ∧
      s.m.requests <:+ (s.step t env).m.requests ∧
      ∀ t' k j, (t', k, .query j) ∈ (s.step t env).m.requests → (t', k, .query j) ∉ s.m.requests →
        t' = t ∧ (∃ c ∈ (s.frames t).calls, c.phase = .registered j) ∧
          (s.m.jobsByThread t).getLast? = some j ∧ ∀ t'' k', (t'', k', .query j) ∉ s.m.requests := by
  rcases s.step_cases t env with hs | ⟨m, f, hs, hj, -, hr, -⟩ | ⟨c, hc, f, hs, -⟩
  · rw [hs]
    exact ⟨fun _ => List.prefix_refl _, List.suffix_refl _, fun _ _ _ h₁ h₂ => absurd h₁ h₂⟩
  · rw [hs, Sys.put_m, hj, hr]
    exact ⟨fun _ => List.prefix_refl _, List.suffix_refl _, fun _ _ _ h₁ h₂ => absurd h₁ h₂⟩
  · rw [hs, Sys.put_m]
    by_cases hsq : c.phase = .start ∧ c.fn = .query
    · rw [Call.step_start_query hsq.1 hsq.2]
      refine ⟨fun t' => ?_, List.suffix_refl _, fun _ _ _ h₁ h₂ => absurd h₁ h₂⟩
      by_cases ht : t' = t
      · subst ht; simp
      · simp only [Manager.generateJobId_jobs_of_ne _ ht, List.prefix_refl]
    · obtain ⟨hj, -, -⟩ := c.step_keeps_jobs s.m t env hsq
      obtain ⟨new, hr, hnew⟩ := c.step_requests s.m t env
      refine ⟨fun t' => by simp only [hj, List.prefix_refl], hr ▸ List.suffix_append _ _, fun t' k j h₁ h₂ => ?_⟩
      rw [hr] at h₁
      have hq := (List.mem_append.mp h₁).resolve_right h₂
      obtain ⟨ht, -, hp⟩ := hnew _ hq
      have hp := hp j rfl
      obtain ⟨-, hl, hns⟩ := h.pending t c hc j hp
      exact ⟨ht, ⟨c, hc, hp⟩, hl, hns⟩

/-- A manager as the adapter creates it: no job registered, submitted or running
and no lock held, its connections and clients in any state. -/
def Manager.fresh (config : Config) (threads : List Tid) (conns : Tid → Connection) (pool : Pool)
    (remote : List JobId) : Manager :=
  ⟨config, threads, conns, fun _ => [], remote, 0, pool, [], none⟩

theorem registry_fresh (config : Config) (threads : List Tid) (conns : Tid → Connection)
    (pool : Pool) (remote : List JobId) :
    Registry (Sys.idle (Manager.fresh config threads conns pool remote)) where
  submitted _ _ _ h := by cases h
  fresh _ _ h := by cases h
  owned _ _ _ h := by cases h
  queries _ _ h := by cases h
  pending _ _ h := by cases h

theorem Registry.run_requests {s : Sys} (h : Registry s) (sched : List (Tid × Env)) :
    s.m.requests <:+ (s.run sched).m.requests := by
  induction sched generalizing s with
  | nil => exact List.suffix_refl _
  | cons p sched ih => exact (h.step_facts p.1 p.2).2.1.trans (ih (h.step p.1 p.2))

theorem registered_before_submitted (config : Config) (threads : List Tid)
    (conns : Tid → Connection) (pool : Pool) (remote : List JobId) (sched : List (Tid × Env))
    (t : Tid) (env : Env) :
    let s := (Sys.idle (Manager.fresh config threads conns pool remote)).run sched
    Submitted s.m ∧
      (∀ t', s.m.jobsByThread t' <+: (s.step t env).m.jobsByThread t') ∧
      s.m.requests <:+ (s.step t env).m.requests ∧
      (∀ t' k j, (t', k, .query j) ∈ (s.step t env).m.requests → (t', k, .query j) ∉ s.m.requests →
        t' = t ∧ (∃ c ∈ (s.frames t).calls, c.phase = .registered j) ∧
          (s.m.jobsByThread t).getLast? = some j ∧ ∀ t'' k', (t'', k', .query j) ∉ s.m.requests) ∧
      ∀ later t' k j, (t', k, .query j) ∈ s.m.requests → j ∈ (s.run later).m.jobsByThread t' := by
  intro s
  have h : Registry s := registry_run (registry_fresh config threads conns pool remote) sched
  obtain ⟨hjobs, hreq, hnew⟩ := h.step_facts t env
  refine ⟨h.submitted, hjobs, hreq, hnew, fun later t' k j hq => ?_⟩
  exact ((registry_run h later).submitted t' k j ((h.run_requests later).subset hq)).2

/-- Two threads with open connections, no retries, nothing registered. -/
def twoThreads : Manager :=
  Manager.fresh ⟨0, none, none⟩ [0, 1] (fun t => ⟨some ("model_" ++ toString t), .open, .client t⟩)
    ⟨2, []⟩ []

/-- Thread 0's `client.query` times out before the service creates job 0; then
thread 1 runs `cancel_open`. -/
def lostQuery : List (Tid × Env) :=
  [(0, .quiet none), (0, .quiet none), (0, .quiet (some (.of .timeoutError "timed out"))),
    (0, .quiet none), (1, { Env.quiet none with cmd := .cancelOpen })] ++
    List.replicate 7 (1, .quiet none)

theorem cancel_open_raises_on_unsubmitted_job :
    ((Sys.idle twoThreads).run lostQuery).frames 1 =
        .ended (.error (.of .dbtDatabaseError "Not found: Job 0")) ∧
      (((Sys.idle twoThreads).run lostQuery).m.conns 0).state = .open ∧
      ((Sys.idle twoThreads).run lostQuery).m.jobsByThread 0 = [0] ∧
      ((Sys.idle twoThreads).run lostQuery).m.remote = [] := by
  decide

end DbtBigQuery
