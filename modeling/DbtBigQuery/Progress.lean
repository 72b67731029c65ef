import DbtBigQuery.Cancel

/-!
# `_retry_and_handle` and `cancel_open` finish

Every step of a `_retry_and_handle` call moves it towards the end of its attempt,
and a new attempt follows only an error `count_error` accepted, which it does
at most `retries` times. So a call finishes, returning or raising, within a
bound of its own steps, whatever the service answers, whatever `open` does and
however the other threads interleave.

`cancel_open` loops over `jobs_by_thread` lists that other threads may still
append to. While it holds `self.lock` no thread can start a command, and a call
already running appends at most one id for each attempt it can still start; so
the sweep too ends within a bound of its own steps fixed when it takes the lock.

* `Call.budget`, `Call.budget_step`: the steps a call can still take, and that
  each step of an unfinished call lowers it;
* `call_finishes`: in any schedule, a thread inside a call finishes it within
  `budget` of its own steps;
* `Sys.jobsBound`, `Sys.sweepBudget`: the ids a thread can still have, and the
  steps a sweep can still take; `Sys.sweepStep_budget`: each of its steps lowers
  it, and `Sys.jobsBound_step_of_locked`: no other thread's step raises it;
* `cancel_open_finishes`: read off them by induction over the schedule.
-/

namespace DbtBigQuery

/-- The steps left in the current attempt, from `on_error` back to the end of
the attempt: a phase later in the loop body is nearer its end. -/
def Phase.rank : Phase → Nat
  | .accepted _ => 10
  | .closing _ => 9
  | .reopening _ => 8
  | .opening _ _ => 7
  | .opened _ _ => 6
  | .sleeping _ => 5
  | .start => 4
  | .registered _ => 3
  | .waiting _ => 2
  | .failed _ => 1
  | .returned | .raised _ => 0

/-- An upper bound on the steps the call can still take: ten for each error
`count_error` can still accept, and the rank of its phase. -/
def Call.budget (c : Call) : Nat :=
  10 * (c.counter.retries - c.counter.errorCount).toNat + c.phase.rank

theorem Phase.rank_eq_zero {p : Phase} (h : p.rank = 0) : p.finished = true := by
  cases p <;> simp_all [Phase.rank, Phase.finished]

/-- `count_error` never lets the count of errors it can still accept grow, and
lowers it when it accepts. -/
theorem countError_allowance {c k : ErrorCounter} {e : Exc} {b : Bool}
    (h : c.countError e = .ok (b, k)) :
    (k.retries - k.errorCount).toNat + (if b then 1 else 0) ≤ (c.retries - c.errorCount).toNat := by
  cases b
  · unfold ErrorCounter.countError at h
    split at h
    · cases h; simp
    · split at h
      · cases h
      · simp only [Except.ok.injEq, Prod.mk.injEq] at h
        obtain ⟨-, rfl⟩ := h
        simp only [Bool.false_eq_true, if_false]
        omega
  · obtain ⟨-, -, hr, he, hle⟩ := countError_accepts h
    simp only [if_true, hr, he] at hle ⊢
    omega

theorem Call.budget_judge (c : Call) (e : Exc) :
    (c.judge e).budget < 10 * (c.counter.retries - c.counter.errorCount).toNat + 1 := by
  unfold Call.judge
  split
  · split
    · simp [Call.budget, Call.raise, Phase.rank]
    · rename_i b k hk
      have := countError_allowance hk
      cases b <;> simp only [Call.budget, Phase.rank, Bool.false_eq_true, if_true, if_false] at this ⊢ <;>
        omega
  · simp [Call.budget, Phase.rank]

/-- Each step of an unfinished call lowers its budget. -/
theorem Call.budget_step (m : Manager) (t : Tid) (c : Call) (env : Env)
    (h : c.phase.finished = false) : (c.step m t env).2.budget < c.budget := by
  cases hp : c.phase with
  | returned | raised _ => simp [hp, Phase.finished] at h
  | failed e =>
    simpa only [Call.step, hp, Call.budget, Phase.rank] using c.budget_judge e
  | start =>
    simp only [Call.step, hp]
    split
    · simp [Call.budget, Phase.rank, hp]
    · cases m.answerTo _ env <;> simp [Call.budget, Phase.rank, hp, Call.answered, Call.fail]
    · simp [Call.budget, Phase.rank, hp, Call.fail]
  | _ =>
    simp only [Call.step, hp]
    repeat' split
    all_goals simp [Call.budget, Phase.rank, hp, Call.fail, Call.raise, Call.markClose, Call.markOpen]

@[simp] theorem Call.budget_start (fn : Fn) (conn : Tid) (client : Handle) (r : Int) :
    (Call.start fn conn client r).budget = 10 * r.toNat + 4 := by
  simp [Call.budget, Call.start, ErrorCounter.new, Phase.rank]

/-- In any schedule, a thread inside `raw_execute`'s `_retry_and_handle` call
finishes it, returning or raising, within `budget` of its own steps (for a call
just started with `retries`, `10 * max retries 0 + 4`), whatever the other threads
do in between and whatever the service answers. -/
theorem call_finishes (s : Sys) (t : Tid) (c : Call) (sched : List (Tid × Env))
    (hf : s.frames t = .query c) (hn : c.budget ≤ sched.countP (·.1 = t)) :
    ∃ pre, pre <+: sched ∧ ∃ c', (s.run pre).frames t = .query c' ∧ c'.phase.finished = true := by
  induction sched generalizing s c with
  | nil =>
    refine ⟨[], List.prefix_refl _, c, hf, Phase.rank_eq_zero ?_⟩
    simp only [List.countP_nil, Nat.le_zero, Call.budget] at hn
    omega
  | cons p rest ih =>
    by_cases hfin : c.phase.finished = true
    · exact ⟨[], List.nil_prefix, c, hf, hfin⟩
    obtain ⟨t', env⟩ := p
    by_cases ht : t' = t
    · subst ht
      have hlt := c.budget_step s.m t' env (Bool.not_eq_true _ ▸ hfin)
      have hf' : (s.step t' env).frames t' = .query (c.step s.m t' env).2 := by
        simp only [Sys.step, hf, Bool.not_eq_true _ ▸ hfin, Bool.false_eq_true, if_false,
          Sys.put_frames_self]
      have hn' : (c.step s.m t' env).2.budget ≤ rest.countP (·.1 = t') := by
        simp only [List.countP_cons, decide_True, if_true] at hn
        omega
      obtain ⟨pre, hpre, hc⟩ := ih (s.step t' env) _ hf' hn'
      exact ⟨(t', env) :: pre, List.cons_prefix_cons.mpr ⟨rfl, hpre⟩, hc⟩
    · have hf' : (s.step t' env).frames t = .query c := by rw [s.step_frames_of_ne (Ne.symm ht)]; exact hf
      have hn' : c.budget ≤ rest.countP (·.1 = t) := by
        simpa [List.countP_cons, ht] using hn
      obtain ⟨pre, hpre, hc⟩ := ih (s.step t' env) c hf' hn'
      exact ⟨(t', env) :: pre, List.cons_prefix_cons.mpr ⟨rfl, hpre⟩, hc⟩

theorem call_finishes_under_resets :
    ((Sys.idle oneConnection).run [(0, .quiet none)]).frames 0 = .query (Call.start .query 0 (.client 0) 1) ∧
      (Call.start .query 0 (.client 0) 1).budget ≤
        (List.replicate 14 (0, Env.quiet (some connectionReset))).countP (·.1 = 0) ∧
      ∃ pre, pre <+: List.replicate 14 (0, Env.quiet (some connectionReset)) ∧ ∃ c',
        (((Sys.idle oneConnection).run [(0, .quiet none)]).run pre).frames 0 = .query c' ∧
          c'.phase.finished = true :=
  have hf : ((Sys.idle oneConnection).run [(0, .quiet none)]).frames 0 =
      .query (Call.start .query 0 (.client 0) 1) := rfl
  have hn : (Call.start .query 0 (.client 0) 1).budget ≤
      (List.replicate 14 (0, Env.quiet (some connectionReset))).countP (·.1 = 0) := by decide
  ⟨hf, hn, call_finishes _ 0 _ _ hf hn⟩

/-! ## Job ids still to come

While `cancel_open` holds `self.lock`, no thread can start `raw_execute`; the
calls already running append to `jobs_by_thread` only at the start of an
attempt, one id each. -/

/-- The phases after which the current attempt has not yet called `fn`. -/
def Phase.beforeFn : Phase → Nat
  | .start | .accepted _ | .closing _ | .reopening _ | .opening _ _ | .opened _ _ | .sleeping _ => 1
  | _ => 0

/-- The ids `raw_execute`'s call can still append with `generate_job_id`: one
for each attempt it can still start. -/
def Call.registrations (c : Call) : Nat :=
  if c.fn = .query ∧ c.phase.finished = false then
    (c.counter.retries - c.counter.errorCount).toNat + c.phase.beforeFn
  else 0

theorem Call.registrations_judge (c : Call) (e : Exc) (hfn : c.fn = .query) :
    (c.judge e).registrations ≤ (c.counter.retries - c.counter.errorCount).toNat := by
  unfold Call.judge
  split
  · split
    · simp [Call.registrations, Call.raise, Phase.finished]
    · rename_i b k hk
      have := countError_allowance hk
      cases b <;> simp only [Call.registrations, Phase.beforeFn, Phase.finished, hfn, Bool.false_eq_true,
        Bool.true_eq_false, if_true, if_false, true_and, and_true, and_false] at this ⊢ <;> omega
  · simp [Call.registrations, Phase.finished]

/-- No step lets a call register more ids than it could before. -/
theorem Call.registrations_step_le (m : Manager) (t : Tid) (c : Call) (env : Env) :
    (c.step m t env).2.registrations ≤ c.registrations := by
  have hfn' := (Call.step_fixed m t c env).1
  by_cases hfn : c.fn = .query
  · cases hp : c.phase with
    | failed e =>
      simpa only [Call.step, hp, Call.registrations, hfn, Phase.finished, Phase.beforeFn, true_and,
        if_true, Nat.add_zero] using c.registrations_judge e hfn
    | returned | raised _ => simp [Call.step, hp]
    | start => simp [Call.step, hp, hfn, Call.registrations, Phase.beforeFn, Phase.finished]
    | _ =>
      simp only [Call.step, hp]
      repeat' split
      all_goals simp [Call.registrations, Phase.beforeFn, Phase.finished, hp, Call.fail, Call.raise,
        Call.markClose, Call.markOpen]
  · simp [Call.registrations, hfn', hfn]

theorem Call.registrations_step (m : Manager) (t : Tid) (c : Call) (env : Env) :
    ((c.step m t env).1.jobsByThread t).length + (c.step m t env).2.registrations ≤
      (m.jobsByThread t).length + c.registrations := by
  by_cases hsq : c.phase = .start ∧ c.fn = .query
  · rw [Call.step_start_query hsq.1 hsq.2]
    simp [Call.registrations, hsq.1, hsq.2, Phase.beforeFn, Phase.finished]
    omega
  · rw [(c.step_keeps_jobs m t env hsq).1]
    exact Nat.add_le_add_left (c.registrations_step_le m t env) _

/-- The ids thread `tid` has appended to `jobs_by_thread`, and those its
`raw_execute` call can still append. -/
def Sys.jobsBound (s : Sys) (tid : Tid) : Nat :=
  (s.m.jobsByThread tid).length + match s.frames tid with
    | .query c => c.registrations
    | _ => 0

theorem Call.step_jobs_of_ne (m : Manager) {t tid : Tid} (h : tid ≠ t) (c : Call) (env : Env) :
    (c.step m t env).1.jobsByThread tid = m.jobsByThread tid := by
  by_cases hsq : c.phase = .start ∧ c.fn = .query
  · rw [Call.step_start_query hsq.1 hsq.2, Manager.generateJobId_jobs_of_ne _ h]
  · rw [(c.step_keeps_jobs m t env hsq).1]

/-- A step of a thread outside `cancel_open` while the lock is held: it cannot
start a command, and its call registers an id only in place of one it could. -/
theorem Sys.jobsBound_step_of_locked {s : Sys} {t' : Tid} (hl : s.m.lock.isSome)
    (hsw : ∀ sw, s.frames t' ≠ .sweep sw) (env : Env) (tid : Tid) :
    (s.step t' env).jobsBound tid ≤ s.jobsBound tid := by
  have hbegin : s.begin t' env = s := by simp [Sys.begin, hl]
  unfold Sys.step
  split
  · rw [hbegin]
  · rw [hbegin]
  · rename_i c hc
    split
    · rw [hbegin]
    · simp only [Sys.jobsBound, Sys.put_m, Sys.put_frames]
      by_cases ht : tid = t'
      · subst ht
        simpa only [if_true, hc] using c.registrations_step s.m tid env
      · simp only [if_neg ht, Call.step_jobs_of_ne _ ht, le_refl]
  · exact absurd ‹_› (hsw _)

theorem Call.step_config (m : Manager) (t : Tid) (c : Call) (env : Env) :
    (c.step m t env).1.config = m.config := by
  cases hp : c.phase <;> simp only [Call.step, hp] <;> (repeat' split) <;> rfl

theorem Sys.step_config (s : Sys) (t : Tid) (env : Env) : (s.step t env).m.config = s.m.config := by
  simp only [Sys.step, Sys.begin, Sys.sweepStep, Sys.endSweep, Sys.put_m]
  repeat' split
  all_goals first | rfl | exact Call.step_config ..

/-- The steps one `_retry_and_handle` of `client.cancel_job` takes at most. -/
def cancelBudget (m : Manager) : Nat := 10 * m.config.jobRetries.toNat + 4

/-- The `cancel_job` call in progress in a visit. -/
def Visit.sub : Visit → Option Call
  | .loop _ _ _ _ sub => sub
  | _ => none

/-- The steps left to the visit `v`: reading the handle and `jobs_by_thread`;
for each id still to come, one to start its `cancel_job`, its call, and one to
take its result; then the end of the loop and the two statements of `close`. -/
def Sys.visitBudget (s : Sys) : Visit → Nat
  | .checked tid => s.jobsBound tid * (cancelBudget s.m + 2) + 5
  | .got tid _ => s.jobsBound tid * (cancelBudget s.m + 2) + 4
  | .loop tid _ _ i none => (s.jobsBound tid - i) * (cancelBudget s.m + 2) + 3
  | .loop tid _ _ i (some c) => (s.jobsBound tid - i) * (cancelBudget s.m + 2) + c.budget + 4
  | .close _ => 2
  | .closing _ => 1

/-- The steps left to the threads `tids` still to do: the check of each, and a
visit of it. -/
def Sys.todoBudget (s : Sys) : List Tid → Nat
  | [] => 0
  | tid :: rest => 6 + s.jobsBound tid * (cancelBudget s.m + 2) + s.todoBudget rest

/-- The steps left to the sweep `sw`: the visit under way, the threads still to
do, and the step that returns. -/
def Sys.sweepBudget (s : Sys) (sw : Sweep) : Nat :=
  1 + (match sw.cur with
    | none => 0
    | some v => s.visitBudget v) + s.todoBudget sw.todo

/-- The `cancel_job` calls of the sweep call a method: none registers an id. -/
def Sweep.Calls (sw : Sweep) : Prop :=
  ∀ v c, sw.cur = some v → v.sub = some c → ∃ o, c.fn = .call o

theorem Sweep.calls_of_no_sub {sw : Sweep} (h : ∀ v, sw.cur = some v → v.sub = none) : sw.Calls :=
  fun v _ hv hs => by rw [h v hv] at hs; cases hs

theorem Sys.todoBudget_mono {s s' : Sys} (hc : s'.m.config = s.m.config)
    (hb : ∀ tid, s'.jobsBound tid ≤ s.jobsBound tid) (tids : List Tid) :
    s'.todoBudget tids ≤ s.todoBudget tids := by
  induction tids with
  | nil => exact le_rfl
  | cons tid rest ih =>
    simp only [Sys.todoBudget, cancelBudget, hc] at ih ⊢
    exact Nat.add_le_add (Nat.add_le_add_left (Nat.mul_le_mul_right _ (hb tid)) _) ih

theorem Sys.visitBudget_mono {s s' : Sys} (hc : s'.m.config = s.m.config)
    (hb : ∀ tid, s'.jobsBound tid ≤ s.jobsBound tid) (v : Visit) :
    s'.visitBudget v ≤ s.visitBudget v := by
  have key : ∀ tid i, (s'.jobsBound tid - i) * (cancelBudget s'.m + 2) ≤
      (s.jobsBound tid - i) * (cancelBudget s.m + 2) := fun tid i => by
    rw [show cancelBudget s'.m = cancelBudget s.m by simp only [cancelBudget, hc]]
    exact Nat.mul_le_mul_right _ (Nat.sub_le_sub_right (hb tid) i)
  rcases v with tid | ⟨tid, _⟩ | ⟨tid, _, _, i, _ | _⟩ | _ | _ <;> simp only [Sys.visitBudget]
  · simpa using Nat.add_le_add_right (key tid 0) 5
  · simpa using Nat.add_le_add_right (key tid 0) 4
  · exact Nat.add_le_add_right (key tid i) 3
  · exact Nat.add_le_add_right (Nat.add_le_add_right (key tid i) _) 4
  all_goals exact le_rfl

theorem Sys.sweepBudget_mono {s s' : Sys} (sw : Sweep) (hc : s'.m.config = s.m.config)
    (hb : ∀ tid, s'.jobsBound tid ≤ s.jobsBound tid) : s'.sweepBudget sw ≤ s.sweepBudget sw := by
  refine Nat.add_le_add (Nat.add_le_add_left ?_ _) (Sys.todoBudget_mono hc hb sw.todo)
  split
  · exact le_rfl
  · exact Sys.visitBudget_mono hc hb _

theorem Sys.sweepBudget_congr {s s' : Sys} (hj : s'.jobsBound = s.jobsBound)
    (hc : s'.m.config = s.m.config) (sw : Sweep) : s'.sweepBudget sw = s.sweepBudget sw :=
  Nat.le_antisymm (Sys.sweepBudget_mono sw hc fun _ => hj ▸ le_rfl)
    (Sys.sweepBudget_mono sw hc.symm fun _ => hj ▸ le_rfl)

/-- A step of the sweeping thread `t` that keeps `jobs_by_thread` and leaves it
outside any query keeps every thread's bound. -/
theorem Sys.jobsBound_put_sweep {s : Sys} {m : Manager} {t : Tid} {sw : Sweep} {f : Frame}
    (hj : m.jobsByThread = s.m.jobsByThread) (hf : s.frames t = .sweep sw) (hq : ∀ c, f ≠ .query c) :
    (s.put m t f).jobsBound = s.jobsBound := by
  funext tid
  simp only [Sys.jobsBound, Sys.put_m, Sys.put_frames, hj]
  by_cases ht : tid = t
  · subst ht
    rw [if_pos rfl, hf]
    cases f with
    | query c => exact absurd rfl (hq c)
    | _ => rfl
  · rw [if_neg ht]

theorem loopIds_length_le (m : Manager) (tid : Tid) (d : Bool) :
    (loopIds m tid d).length ≤ (m.jobsByThread tid).length := by
  unfold loopIds
  split
  · exact Nat.zero_le _
  · exact le_rfl

/-- One step of the sweep: it ends, or it goes on, still calling only methods,
with a smaller budget. -/
theorem Sys.sweepStep_budget {s : Sys} {t : Tid} {sw : Sweep} (hf : s.frames t = .sweep sw)
    (hc : sw.Calls) (env : Env) :
    (∃ r, (s.sweepStep t sw env).frames t = .ended r) ∨
      ∃ sw', (s.sweepStep t sw env).frames t = .sweep sw' ∧ sw'.Calls ∧
        (s.sweepStep t sw env).sweepBudget sw' < s.sweepBudget sw := by
  have same : ∀ m sw', m.jobsByThread = s.m.jobsByThread → m.config = s.m.config →
      (s.put m t (.sweep sw')).sweepBudget sw' = s.sweepBudget sw' := fun m sw' hj hcfg =>
    Sys.sweepBudget_congr (Sys.jobsBound_put_sweep hj hf fun _ h => by cases h) hcfg sw'
  -- the sweep goes on as `sw'` under a manager with the same jobs and configuration
  have goOn : ∀ m sw', m.jobsByThread = s.m.jobsByThread → m.config = s.m.config → sw'.Calls →
      s.sweepBudget sw' < s.sweepBudget sw →
      ∃ sw'', (s.put m t (.sweep sw')).frames t = .sweep sw'' ∧ sw''.Calls ∧
        (s.put m t (.sweep sw')).sweepBudget sw'' < s.sweepBudget sw :=
    fun m sw' hj hcfg hc' hlt => ⟨sw', Sys.put_frames_self .., hc', (same m sw' hj hcfg).symm ▸ hlt⟩
  have ended : ∀ m r, ∃ r', (s.endSweep m t r).frames t = .ended r' := fun _ r => ⟨r, Sys.put_frames_self ..⟩
  have noCall : ∀ todo v ns, v.sub = none → Sweep.Calls ⟨todo, some v, ns⟩ :=
    fun _ _ _ hv => Sweep.calls_of_no_sub fun _ h => by cases h; exact hv
  have passed : ∀ todo ns, Sweep.Calls ⟨todo, none, ns⟩ :=
    fun _ _ => Sweep.calls_of_no_sub fun _ h => by cases h
  obtain ⟨todo, cur, ns⟩ := sw
  cases cur with
  | none =>
    cases todo with
    | nil => exact .inl (ended _ _)
    | cons tid rest =>
      simp only [Sys.sweepStep]
      split
      · exact .inr (goOn _ _ rfl rfl (passed _ _) (by simp only [Sys.sweepBudget, Sys.todoBudget]; omega))
      · split
        · exact .inl (ended _ _)
        · split
          · refine .inr (goOn _ _ rfl rfl (noCall _ _ _ rfl) ?_)
            simp only [Sys.sweepBudget, Sys.visitBudget, Sys.todoBudget]
            omega
          · exact .inr (goOn _ _ rfl rfl (passed _ _) (by simp only [Sys.sweepBudget, Sys.todoBudget]; omega))
  | some v =>
    cases v with
    | checked tid =>
      simp only [Sys.sweepStep]
      split
      · exact .inl (ended _ _)
      · exact .inr (goOn _ _ rfl rfl (noCall _ _ _ rfl) (by simp only [Sys.sweepBudget, Sys.visitBudget]; omega))
    | got tid k =>
      exact .inr (goOn _ _ rfl rfl (noCall _ _ _ rfl)
        (by simp only [Sys.sweepBudget, Sys.visitBudget, Nat.sub_zero]; omega))
    | loop tid k d i sub =>
      cases sub with
      | none =>
        simp only [Sys.sweepStep]
        split
        · rename_i id hid
          refine .inr (goOn _ _ rfl rfl (fun v' c hv' hc' => by cases hv'; cases hc'; exact ⟨_, rfl⟩) ?_)
          have hlt : i < s.jobsBound tid := Nat.lt_of_lt_of_le (List.getElem?_eq_some_iff.mp hid).1
            ((loopIds_length_le _ _ _).trans (Nat.le_add_right _ _))
          obtain ⟨n, hn⟩ : ∃ n, s.jobsBound tid - i = n + 1 := ⟨_, (Nat.succ_pred_eq_of_pos (by omega)).symm⟩
          have hn' : s.jobsBound tid - (i + 1) = n := by omega
          simp only [Sys.sweepBudget, Sys.visitBudget, Call.budget_start, cancelBudget, hn, hn',
            Nat.succ_mul]
          omega
        · exact .inr (goOn _ _ rfl rfl (noCall _ _ _ rfl) (by simp only [Sys.sweepBudget, Sys.visitBudget]; omega))
      | some c =>
        obtain ⟨o, ho⟩ := hc _ c rfl rfl
        simp only [Sys.sweepStep]
        split
        · exact .inr (goOn _ _ rfl rfl (noCall _ _ _ rfl) (by simp only [Sys.sweepBudget, Sys.visitBudget]; omega))
        · exact .inl (ended _ _)
        · rename_i hret hraised
          have hfin : c.phase.finished = false := by
            cases hp : c.phase <;> first | rfl | exact absurd hp hret | exact absurd hp (hraised _)
          have hj := (c.step_keeps_jobs s.m t env fun h => by rw [ho] at h; cases h.2).1
          refine .inr (goOn _ _ hj (Call.step_config ..)
            (fun v' c' hv' hc' => by cases hv'; cases hc'; exact ⟨o, (Call.step_fixed ..).1.trans ho⟩) ?_)
          have := c.budget_step s.m t env hfin
          simp only [Sys.sweepBudget, Sys.visitBudget]
          omega
    | close tid =>
      simp only [Sys.sweepStep]
      split
      · exact .inl (ended _ _)
      · exact .inr (goOn _ _ rfl rfl (noCall _ _ _ rfl) (by simp only [Sys.sweepBudget, Sys.visitBudget]; omega))
    | closing tid =>
      exact .inr (goOn _ _ rfl rfl (passed _ _) (by simp only [Sys.sweepBudget, Sys.visitBudget]; omega))

/-- In any schedule, the sweep of thread `t` ends within its budget of `t`'s
own steps: its steps lower the budget, and the steps of the other threads, which
cannot start a command while `t` holds the lock, do not raise it. -/
theorem Sys.sweep_finishes {s : Sys} (hl : LockHeld s) {t : Tid} {sw : Sweep} (sched : List (Tid × Env))
    (hf : s.frames t = .sweep sw) (hc : sw.Calls) (hn : s.sweepBudget sw ≤ sched.countP (·.1 = t)) :
    ∃ pre, pre <+: sched ∧ ∃ r, (s.run pre).frames t = .ended r := by
  induction sched generalizing s sw with
  | nil =>
    simp only [Sys.sweepBudget, List.countP_nil] at hn
    omega
  | cons p rest ih =>
    obtain ⟨t', env⟩ := p
    by_cases ht : t' = t
    · subst ht
      have hstep : s.step t' env = s.sweepStep t' sw env := by simp only [Sys.step, hf]
      rcases s.sweepStep_budget hf hc env with ⟨r, hr⟩ | ⟨sw', hf', hc', hlt⟩
      · exact ⟨[(t', env)], List.cons_prefix_cons.mpr ⟨rfl, List.nil_prefix⟩, r, by
          simp only [Sys.run, hstep, hr]⟩
      · have hn' : (s.step t' env).sweepBudget sw' ≤ rest.countP (·.1 = t') := by
          simp only [List.countP_cons, decide_True, if_true] at hn
          rw [hstep]
          omega
        obtain ⟨pre, hpre, hend⟩ := ih (hl.step t' env) (hstep ▸ hf') hc' hn'
        exact ⟨(t', env) :: pre, List.cons_prefix_cons.mpr ⟨rfl, hpre⟩, hend⟩
    · have hlock := hl.sweeping t sw hf
      have hsw : ∀ sw', s.frames t' ≠ .sweep sw' := fun sw' h' => ht (Option.some.inj
        ((hl.sweeping t' sw' h').symm.trans hlock))
      have hle := Sys.sweepBudget_mono sw (s.step_config t' env)
        (Sys.jobsBound_step_of_locked (by rw [hlock]; rfl) hsw env)
      have hn' : (s.step t' env).sweepBudget sw ≤ rest.countP (·.1 = t) := by
        simp only [List.countP_cons, ht, decide_False, Bool.false_eq_true, if_false, Nat.add_zero] at hn
        omega
      obtain ⟨pre, hpre, hend⟩ :=
        ih (hl.step t' env) (by rw [s.step_frames_of_ne (Ne.symm ht)]; exact hf) hc hn'
      exact ⟨(t', env) :: pre, List.cons_prefix_cons.mpr ⟨rfl, hpre⟩, hend⟩

/-- From the step where `cancel_open` of thread `t` takes `self.lock`, in any
state reachable from a manager whose lock is free and under any interleaving:
it returns or raises within a number of its own steps fixed when it took the
lock, although the threads it visits may still append to `jobs_by_thread`. -/
theorem cancel_open_finishes (m : Manager) (hm : m.lock = none) (before : List (Tid × Env)) (t : Tid)
    (sched : List (Tid × Env)) :
    let s := (Sys.idle m).run before
    s.frames t = .sweep ⟨s.m.threads, none, []⟩ →
    1 + s.todoBudget s.m.threads ≤ sched.countP (·.1 = t) →
    ∃ pre, pre <+: sched ∧ ∃ r, (s.run pre).frames t = .ended r := by
  intro s hf hn
  refine Sys.sweep_finishes ((lockHeld_idle hm).run before) sched hf
    (Sweep.calls_of_no_sub fun _ h => by cases h) ?_
  simpa only [Sys.sweepBudget, Nat.add_zero] using hn

theorem cancel_open_finishes_after_query :
    twoThreads.lock = none ∧
      ((Sys.idle twoThreads).run (cancelAfterQuery.take 4)).frames 0 = .sweep ⟨[0, 1], none, []⟩ ∧
      1 + ((Sys.idle twoThreads).run (cancelAfterQuery.take 4)).todoBudget [0, 1] ≤
        (List.replicate 19 (0, Env.quiet none)).countP (·.1 = 0) ∧
      ∃ pre, pre <+: List.replicate 19 (0, Env.quiet none) ∧ ∃ r,
        (((Sys.idle twoThreads).run (cancelAfterQuery.take 4)).run pre).frames 0 = .ended r :=
  have hf : ((Sys.idle twoThreads).run (cancelAfterQuery.take 4)).frames 0 = .sweep ⟨[0, 1], none, []⟩ := by
    decide
  have hn : 1 + ((Sys.idle twoThreads).run (cancelAfterQuery.take 4)).todoBudget [0, 1] ≤
      (List.replicate 19 (0, Env.quiet none)).countP (·.1 = 0) := by decide
  ⟨rfl, hf, hn, cancel_open_finishes twoThreads rfl (cancelAfterQuery.take 4) 0 _ hf hn⟩

end DbtBigQuery
