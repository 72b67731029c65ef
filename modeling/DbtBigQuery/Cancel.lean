import DbtBigQuery.Registry

/-!
# What `cancel_open` returns

The sweep of `cancel_open` walks `thread_connections` under `self.lock`; it
appends every other connection's name that is not `None`, whether it closed the
connection or not.

* `Call.step_name`, `Sys.step_name`: no write to a connection changes its name;
* `Sweeping.step`, `Sweeping.run`: what a sweep has appended to `names`, after
  every step of any thread;
* `cancel_open_names`: read off it.
-/

namespace DbtBigQuery

theorem Call.step_name (m : Manager) (t : Tid) (c : Call) (env : Env) (tid : Tid) :
    ((c.step m t env).1.conns tid).name = (m.conns tid).name := by
  cases hp : c.phase <;> simp only [Call.step, hp] <;> (repeat' split) <;>
    simp only [Manager.putConn_conns, Manager.setState_conns, Manager.setHandle_conns,
      Manager.generateJobId_conns, Manager.issue_conns, Manager.create_conns] <;>
    first | rfl | exact update_name (by simp) tid

/-! ## The sweep -/

/-- The names `cancel_open` of thread `t` appends for the connections of `tids`:
every one but its own that is not `None`, in order. -/
def otherNames (names : Tid → Option String) (t : Tid) (tids : List Tid) : List String :=
  (tids.filter (· ≠ t)).filterMap names

theorem otherNames_append_self (names : Tid → Option String) (t : Tid) (pre : List Tid) :
    otherNames names t (pre ++ [t]) = otherNames names t pre := by
  simp [otherNames, List.filter_append]

theorem otherNames_append_of_ne (names : Tid → Option String) {t tid : Tid} (h : tid ≠ t)
    (pre : List Tid) : otherNames names t (pre ++ [tid]) = otherNames names t pre ++ (names tid).toList := by
  cases hn : names tid <;> simp [otherNames, List.filter_append, h, hn]

/-- The sweep `sw` of thread `t`: the threads it has passed (`pre`), the one it
visits and those still to do make up `thread_connections`, `names` holds the
names of those passed, and the visit is of another thread. -/
structure Sweep.Ok (names : Tid → Option String) (threads : List Tid) (t : Tid) (sw : Sweep) : Prop where
  done : ∃ pre, pre ++ (sw.cur.map Visit.tid).toList ++ sw.todo = threads ∧
    sw.names = otherNames names t pre
  visit : ∀ v, sw.cur = some v → v.tid ≠ t

/-- The frame of thread `t`: a sweep as `Sweep.Ok` says, or what `cancel_open`
returned. -/
def FrameOk (names : Tid → Option String) (threads : List Tid) (t : Tid) : Frame → Prop
  | .sweep sw => sw.Ok names threads t
  | .ended (.ok ns) => ns = otherNames names t threads
  | _ => True

section Sweep

variable {names : Tid → Option String} {threads : List Tid} {t : Tid}

/-- A sweep that moves past the thread `tid` with `names` extended by its name. -/
theorem Sweep.Ok.pass {tid : Tid} {todo : List Tid} {ns : List String} {pre : List Tid}
    (hpre : pre ++ [tid] ++ todo = threads) (hns : ns = otherNames names t pre) (ht : tid ≠ t) :
    Sweep.Ok names threads t ⟨todo, none, ns ++ (names tid).toList⟩ :=
  ⟨⟨pre ++ [tid], by simpa using hpre, by rw [hns, otherNames_append_of_ne names ht]⟩, fun _ h => by cases h⟩

@[simp] theorem Sys.put_frames_self (s : Sys) (m : Manager) (t : Tid) (f : Frame) :
    (s.put m t f).frames t = f :=
  Function.update_same _ _ _

/-- A sweep that goes on visiting the same thread. -/
theorem Sweep.Ok.stay {sw : Sweep} (h : sw.Ok names threads t) {v : Visit} (hv : sw.cur = some v)
    (s : Sys) (m : Manager) (v' : Visit) (ht : v'.tid = v.tid) :
    FrameOk names threads t ((s.put m t (.sweep { sw with cur := some v' })).frames t) := by
  obtain ⟨⟨pre, hpre, hns⟩, hvis⟩ := h
  rw [hv] at hpre hvis
  simp only [Sys.put_frames_self, FrameOk]
  exact ⟨⟨pre, by simpa [ht] using hpre, hns⟩, fun _ h => by cases h; rw [ht]; exact hvis v rfl⟩

@[simp] theorem FrameOk.endSweep_error (s : Sys) (m : Manager) (x : Exc) :
    FrameOk names threads t ((s.endSweep m t (.error x)).frames t) := by
  simp [Sys.endSweep, FrameOk]

theorem Sys.sweepStep_frameOk {s : Sys} {sw : Sweep} (h : sw.Ok names threads t)
    (hn : ∀ tid, (s.m.conns tid).name = names tid) (env : Env) :
    FrameOk names threads t ((s.sweepStep t sw env).frames t) := by
  obtain ⟨todo, cur, ns⟩ := sw
  cases cur with
  | none =>
    obtain ⟨⟨pre, hpre, hns⟩, -⟩ := h
    simp only [Option.map_none', Option.toList_none, List.append_nil] at hpre hns
    cases todo with
    | nil =>
      simp only [Sys.sweepStep, Sys.endSweep, Sys.put_frames_self, FrameOk]
      rw [hns, ← hpre, List.append_nil]
    | cons tid rest =>
      have hpre' : pre ++ [tid] ++ rest = threads := by simpa using hpre
      simp only [Sys.sweepStep]
      split
      · rename_i htid
        subst htid
        simp only [Sys.put_frames_self, FrameOk]
        exact ⟨⟨pre ++ [tid], by simpa using hpre, by rw [hns, otherNames_append_self]⟩, fun _ h => by cases h⟩
      · rename_i htid
        split
        · exact FrameOk.endSweep_error ..
        · split <;> simp only [Sys.put_frames_self, FrameOk]
          · exact ⟨⟨pre, hpre', hns⟩, fun v hv => by cases hv; exact htid⟩
          · rw [addName, readHandle_name, hn]
            exact .pass hpre' hns htid
  | some v =>
    have hv := h.visit v rfl
    cases v with
    | checked tid =>
      simp only [Sys.sweepStep]
      split
      · exact FrameOk.endSweep_error ..
      · exact h.stay rfl _ _ _ rfl
    | got tid k => exact h.stay rfl _ _ _ rfl
    | loop tid k d i sub =>
      cases sub with
      | none =>
        simp only [Sys.sweepStep]
        split <;> exact h.stay rfl _ _ _ rfl
      | some c =>
        simp only [Sys.sweepStep]
        split
        · exact h.stay rfl _ _ _ rfl
        · exact FrameOk.endSweep_error ..
        · exact h.stay rfl _ _ _ rfl
    | close tid =>
      simp only [Sys.sweepStep]
      split
      · exact FrameOk.endSweep_error ..
      · exact h.stay rfl _ _ _ rfl
    | closing tid =>
      obtain ⟨⟨pre, hpre, hns⟩, -⟩ := h
      simp only [Sys.sweepStep, Sys.put_frames_self, FrameOk, addName, Manager.setState_conns,
        Function.update_same, hn]
      exact .pass hpre hns hv

theorem Sys.begin_frameOk {s : Sys} (h : FrameOk names threads t (s.frames t))
    (hth : s.m.threads = threads) (env : Env) : FrameOk names threads t ((s.begin t env).frames t) := by
  simp only [Sys.begin]
  split
  · exact h
  · split
    · split
      · split <;> simp only [Sys.put_frames_self, FrameOk]
      · simp only [Sys.put_frames_self, FrameOk]
    · simp only [Sys.put_frames_self, FrameOk]
      exact ⟨⟨[], by rw [hth]; rfl, rfl⟩, fun _ h => by cases h⟩

end Sweep

theorem Sys.step_frames_of_ne (s : Sys) {t t' : Tid} (h : t' ≠ t) (env : Env) :
    (s.step t env).frames t' = s.frames t' := by
  rcases s.step_cases t env with hs | ⟨_, _, hs, -⟩ | ⟨_, -, _, hs, -⟩ <;>
    simp only [hs, Sys.put_frames, if_neg h]

theorem Sys.step_threads (s : Sys) (t : Tid) (env : Env) : (s.step t env).m.threads = s.m.threads := by
  rcases s.step_cases t env with hs | ⟨_, _, hs, -, -, -, ht, -⟩ | ⟨_, -, _, hs, -⟩ <;> rw [hs]
  · exact ht
  · exact Call.step_threads ..

theorem Sys.step_name (s : Sys) (t : Tid) (env : Env) (tid : Tid) :
    ((s.step t env).m.conns tid).name = (s.m.conns tid).name := by
  simp only [Sys.step, Sys.begin, Sys.sweepStep, Sys.endSweep]
  repeat' split
  all_goals simp only [Sys.put_m, Manager.putConn_conns, Manager.setState_conns]
  all_goals first | rfl | exact update_name (by simp) tid | exact Call.step_name ..

/-- What every sweep has done and every `cancel_open` has returned, over a
manager whose `thread_connections` are `threads` and whose connections are
named by `names`. -/
structure Sweeping (names : Tid → Option String) (threads : List Tid) (s : Sys) : Prop where
  sameThreads : s.m.threads = threads
  named : ∀ tid, (s.m.conns tid).name = names tid
  frame : ∀ t, FrameOk names threads t (s.frames t)

theorem Sweeping.step {names : Tid → Option String} {threads : List Tid} {s : Sys}
    (h : Sweeping names threads s) (t : Tid) (env : Env) : Sweeping names threads (s.step t env) := by
  refine ⟨(s.step_threads t env).trans h.sameThreads,
    fun tid => (s.step_name t env tid).trans (h.named tid), fun t' => ?_⟩
  by_cases ht : t' = t
  · subst ht
    have hf := h.frame t'
    unfold Sys.step
    split
    · exact Sys.begin_frameOk (by rename_i hi; rwa [hi] at hf ⊢) h.sameThreads env
    · exact Sys.begin_frameOk (by rename_i hi; rwa [hi] at hf ⊢) h.sameThreads env
    · split
      · exact Sys.begin_frameOk (by rename_i hi _; rwa [hi] at hf ⊢) h.sameThreads env
      · simp only [Sys.put_frames_self, FrameOk]
    · rename_i sw hi
      rw [hi] at hf
      exact Sys.sweepStep_frameOk hf h.named env
  · rw [s.step_frames_of_ne ht]
    exact h.frame t'

theorem Sweeping.run {names : Tid → Option String} {threads : List Tid} {s : Sys}
    (h : Sweeping names threads s) (sched : List (Tid × Env)) : Sweeping names threads (s.run sched) := by
  induction sched generalizing s with
  | nil => exact h
  | cons p rest ih => exact ih (h.step p.1 p.2)

theorem sweeping_fresh (config : Config) (threads : List Tid) (conns : Tid → Connection)
    (pool : Pool) (remote : List JobId) :
    Sweeping (fun t => (conns t).name) threads (Sys.idle (Manager.fresh config threads conns pool remote)) :=
  ⟨rfl, fun _ => rfl, fun _ => trivial⟩

/-- Whenever `cancel_open` of thread `t` returns, under any interleaving with
other threads: it returns the names that are not `None` of every other
connection of `thread_connections`, in order, whether it was open or not. -/
theorem cancel_open_names (config : Config) (threads : List Tid) (conns : Tid → Connection)
    (pool : Pool) (remote : List JobId) (sched : List (Tid × Env)) (t : Tid) (ns : List String)
    (h : ((Sys.idle (Manager.fresh config threads conns pool remote)).run sched).frames t = .ended (.ok ns)) :
    ns = (threads.filter (· ≠ t)).filterMap fun tid => (conns tid).name := by
  have hf := ((sweeping_fresh config threads conns pool remote).run sched).frame t
  rw [h] at hf
  exact hf

/-- Thread 1 runs a query; then thread 0 runs `cancel_open`, which cancels the
job and closes the connection of thread 1. -/
def cancelAfterQuery : List (Tid × Env) :=
  [(1, .quiet none), (1, .quiet none), (1, .quiet none), (0, { Env.quiet none with cmd := .cancelOpen })] ++
    List.replicate 11 (0, .quiet none)

theorem cancel_open_names_after_query :
    ((Sys.idle twoThreads).run cancelAfterQuery).frames 0 = .ended (.ok ["model_1"]) ∧
      ["model_1"] = ([0, 1].filter (· ≠ 0)).filterMap fun tid =>
        (((fun t => ⟨some ("model_" ++ toString t), .open, .client t⟩) : Tid → Connection) tid).name :=
  ⟨by decide, cancel_open_names ⟨0, none, none⟩ [0, 1] _ ⟨2, []⟩ [] cancelAfterQuery 0 _ (by decide)⟩

end DbtBigQuery
