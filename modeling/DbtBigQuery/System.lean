import DbtBigQuery.Manager

/-!
# Threads, `raw_execute` and `cancel_open`

Every thread has a frame: idle, inside `raw_execute`'s `_retry_and_handle`
call, inside a `cancel_open` sweep, or done with its last command. `Sys.step`
moves one thread by one statement; `Sys.run` follows a schedule. A thread that
needs `self.lock` while another holds it does not move. `get_thread_connection`
and `get_if_exists` take the lock too; each is one step with what follows it
(`client = conn.handle`, or `with self.lock`), since `thread_connections` never
changes and `close` never changes a handle.

`LockHeld.step`, `LockHeld.run`: the thread inside a `cancel_open` sweep holds
the lock, and the holder is inside a sweep, after every step of any thread.
-/

namespace DbtBigQuery

/-- The connection a sweep is visiting, at the statement it runs next. -/
inductive Visit
  /-- The `if` passed: `client = connection.handle` is next. -/
  | checked (tid : Tid)
  /-- `self.jobs_by_thread.get(thread_id, [])` is next. -/
  | got (tid : Tid) (client : Handle)
  /-- The `for` loop over the live list of `jobs_by_thread[tid]`, or over a
  fresh `[]` when the key was missing (`detached`): the index of the next id,
  and the `_retry_and_handle` call of `client.cancel_job` in progress. -/
  | loop (tid : Tid) (client : Handle) (detached : Bool) (next : Nat) (sub : Option Call)
  /-- The loop is over: `connection.handle.close()` is next. -/
  | close (tid : Tid)
  /-- `connection.state = ConnectionState.CLOSED` is next, then the name. -/
  | closing (tid : Tid)
  deriving DecidableEq, Repr

def Visit.tid : Visit → Tid
  | .checked tid | .got tid _ | .loop tid _ _ _ _ | .close tid | .closing tid => tid

/-- The list the loop iterates. -/
def loopIds (m : Manager) (tid : Tid) (detached : Bool) : List JobId :=
  if detached then [] else m.jobsByThread tid

/-- A `cancel_open` in progress: the connections of `thread_connections` still
to visit, the one being visited, and `names` so far. -/
structure Sweep where
  todo : List Tid
  cur : Option Visit
  names : List String
  deriving DecidableEq, Repr

inductive Frame
  | idle
  | query (c : Call)
  | sweep (sw : Sweep)
  /-- The last command ended outside a call: what `cancel_open` returned, or
  what `raw_execute` or `cancel_open` raised. -/
  | ended (r : Except Exc (List String))
  deriving DecidableEq, Repr

structure Sys where
  m : Manager
  frames : Tid → Frame

def Sys.put (s : Sys) (m : Manager) (t : Tid) (f : Frame) : Sys :=
  ⟨m, Function.update s.frames t f⟩

/-- A thread starts `raw_execute` (`get_thread_connection`, `client = conn.handle`,
then `_retry_and_handle`) or `cancel_open` (`get_if_exists`, then `with self.lock`). -/
def Sys.begin (s : Sys) (t : Tid) (env : Env) : Sys :=
  if s.m.lock.isSome then s
  else match env.cmd with
    | .rawExecute =>
      if t ∈ s.m.threads then
        let o := readHandle env.opener s.m.pool (s.m.conns t)
        let m := s.m.putConn t o
        match o.raised with
        | some x => s.put m t (.ended (.error x))
        | none => s.put m t (.query (.start .query t o.conn.handle m.config.jobRetries))
      else s.put s.m t (.ended (.error (.of .exception "no connection for this thread")))
    | .cancelOpen => s.put { s.m with lock := some t } t (.sweep ⟨s.m.threads, none, []⟩)

/-- `names.append(connection.name)` when it is not `None`. -/
def addName (names : List String) (conn : Connection) : List String :=
  names ++ conn.name.toList

/-- The sweep of thread `t` ends, returning `names` or raising; `with self.lock`
releases the lock either way. -/
def Sys.endSweep (s : Sys) (m : Manager) (t : Tid) (r : Except Exc (List String)) : Sys :=
  s.put { m with lock := none } t (.ended r)

/-- One step of the sweep `sw` of thread `t`. -/
def Sys.sweepStep (s : Sys) (t : Tid) (sw : Sweep) (env : Env) : Sys :=
  let m := s.m
  match sw.cur with
  | none =>
    match sw.todo with
    | [] => s.endSweep m t (.ok sw.names)
    | tid :: rest =>
      if tid = t then s.put m t (.sweep { sw with todo := rest })
      else
        -- `if connection.handle is not None and connection.state == OPEN`
        let o := readHandle env.opener m.pool (m.conns tid)
        let m := m.putConn tid o
        match o.raised with
        | some x => s.endSweep m t (.error x)
        | none =>
          if o.conn.handle ≠ .none ∧ o.conn.state = .open then
            s.put m t (.sweep ⟨rest, some (.checked tid), sw.names⟩)
          else s.put m t (.sweep ⟨rest, none, addName sw.names o.conn⟩)
  | some (.checked tid) =>
    let o := readHandle env.opener m.pool (m.conns tid)
    let m := m.putConn tid o
    match o.raised with
    | some x => s.endSweep m t (.error x)
    | none => s.put m t (.sweep { sw with cur := some (.got tid o.conn.handle) })
  | some (.got tid k) =>
    s.put m t (.sweep { sw with cur := some (.loop tid k (m.jobsByThread tid).isEmpty 0 none) })
  | some (.loop tid k d i none) =>
    match (loopIds m tid d)[i]? with
    | some id =>
      let c := Call.start (.call (.cancelJob id)) tid k m.config.jobRetries
      s.put m t (.sweep { sw with cur := some (.loop tid k d (i + 1) (some c)) })
    | none => s.put m t (.sweep { sw with cur := some (.close tid) })
  | some (.loop tid k d i (some c)) =>
    match c.phase with
    | .returned => s.put m t (.sweep { sw with cur := some (.loop tid k d i none) })
    | .raised x => s.endSweep m t (.error x)
    | _ =>
      let r := c.step m t env
      s.put r.1 t (.sweep { sw with cur := some (.loop tid k d i (some r.2)) })
  | some (.close tid) =>
    let o := closeHandle env.opener m.pool (m.conns tid)
    let m := m.putConn tid o
    match o.raised with
    | some x => s.endSweep m t (.error x)
    | none => s.put m t (.sweep { sw with cur := some (.closing tid) })
  | some (.closing tid) =>
    let m := m.setState tid .closed
    s.put m t (.sweep ⟨sw.todo, none, addName sw.names (m.conns tid)⟩)

def Phase.finished : Phase → Bool
  | .returned | .raised _ => true
  | _ => false

/-- Thread `t` takes one step. -/
def Sys.step (s : Sys) (t : Tid) (env : Env) : Sys :=
  match s.frames t with
  | .idle | .ended _ => s.begin t env
  | .query c =>
    if c.phase.finished then s.begin t env
    else
      let r := c.step s.m t env
      s.put r.1 t (.query r.2)
  | .sweep sw => s.sweepStep t sw env

/-- Follow a schedule of steps. -/
def Sys.run (s : Sys) : List (Tid × Env) → Sys
  | [] => s
  | (t, env) :: rest => (s.step t env).run rest

/-- A `_retry_and_handle` call run alone: no other thread moves. -/
def retryAndHandle (m : Manager) (t : Tid) (c : Call) : List Env → Manager × Call
  | [] => (m, c)
  | env :: envs =>
    let r := c.step m t env
    retryAndHandle r.1 t r.2 envs

/-- Every thread idle. -/
def Sys.idle (m : Manager) : Sys := ⟨m, fun _ => .idle⟩

theorem run_append (s : Sys) (l l' : List (Tid × Env)) : s.run (l ++ l') = (s.run l).run l' := by
  induction l generalizing s with
  | nil => rfl
  | cons p l ih => exact ih _

/-- One thread, 0, whose connection is open on client 0, with one retry and no
deadline. -/
def oneConnection : Manager :=
  ⟨⟨1, none, none⟩, [0], fun _ => ⟨some "main", .open, .client 0⟩, fun _ => [], [], 0, ⟨1, []⟩,
    [], none⟩

/-- A step of `raw_execute` whose remote call answers `a`, with nothing else going
wrong. -/
def Env.quiet (a : Option Exc) : Env := ⟨.rawExecute, a, false, false, ⟨none, none, none⟩⟩

def connectionReset : Exc := .of .connectionResetError "Connection reset by peer"

/-! ## `self.lock` -/

theorem Call.step_lock (m : Manager) (t : Tid) (c : Call) (env : Env) :
    (c.step m t env).1.lock = m.lock := by
  cases hp : c.phase <;> simp only [Call.step, hp] <;> (repeat' split) <;> rfl

/-- What a sweep step does to the lock: the sweep goes on with the lock as it
was, or ends and releases it. -/
theorem Sys.sweepStep_lock (s : Sys) (t : Tid) (sw : Sweep) (env : Env) :
    (∃ m sw', m.lock = s.m.lock ∧ s.sweepStep t sw env = s.put m t (.sweep sw')) ∨
      ∃ m r, s.sweepStep t sw env = s.endSweep m t r := by
  simp only [Sys.sweepStep]
  repeat' split
  all_goals first
    | exact .inr ⟨_, _, rfl⟩
    | refine .inl ⟨_, _, ?_, rfl⟩; first | rfl | exact Call.step_lock ..

/-- What starting a command does to the lock: nothing while it is held;
otherwise `raw_execute` leaves it free, and `cancel_open` takes it and sweeps. -/
theorem Sys.begin_lock (s : Sys) (t : Tid) (env : Env) :
    s.begin t env = s ∨ s.m.lock = none ∧
      ((∃ m f, s.begin t env = s.put m t f ∧ m.lock = none ∧ ∀ sw, f ≠ .sweep sw) ∨
        ∃ sw, s.begin t env = s.put { s.m with lock := some t } t (.sweep sw)) := by
  unfold Sys.begin
  split
  · exact .inl rfl
  · rename_i hl
    have hn : s.m.lock = none := Option.not_isSome_iff_eq_none.mp hl
    refine .inr ⟨hn, ?_⟩
    split
    · simp only
      split
      · split
        · exact .inl ⟨_, _, rfl, hn, fun _ => nofun⟩
        · exact .inl ⟨_, _, rfl, hn, fun _ => nofun⟩
      · exact .inl ⟨_, _, rfl, hn, fun _ => nofun⟩
    · exact .inr ⟨_, rfl⟩

/-- `self.lock` as `cancel_open` holds it: a thread inside a sweep holds the
lock, and the thread holding it is inside a sweep. -/
structure LockHeld (s : Sys) : Prop where
  sweeping : ∀ t sw, s.frames t = .sweep sw → s.m.lock = some t
  holder : ∀ t, s.m.lock = some t → ∃ sw, s.frames t = .sweep sw

section LockHeld

variable {s : Sys} (h : LockHeld s)
include h

theorem LockHeld.put {m : Manager} {t : Tid} {f : Frame} (hl : m.lock = s.m.lock)
    (hf : (∃ sw, f = .sweep sw) ↔ ∃ sw, s.frames t = .sweep sw) : LockHeld (s.put m t f) where
  sweeping t' sw hsw := by
    simp only [Sys.put, Function.update_apply] at hsw
    show m.lock = some t'
    rw [hl]
    split at hsw
    · subst t'
      obtain ⟨sw', hsw'⟩ := hf.mp ⟨sw, hsw⟩
      exact h.sweeping t sw' hsw'
    · exact h.sweeping t' sw hsw
  holder t' ht' := by
    obtain ⟨sw, hsw⟩ := h.holder t' (hl ▸ ht')
    simp only [Sys.put, Function.update_apply]
    split
    · subst t'
      exact hf.mpr ⟨sw, hsw⟩
    · exact ⟨sw, hsw⟩

theorem LockHeld.acquire (hn : s.m.lock = none) {m : Manager} {t : Tid} (hm : m.lock = some t)
    (sw : Sweep) : LockHeld (s.put m t (.sweep sw)) where
  sweeping t' sw' hsw := by
    simp only [Sys.put, Function.update_apply] at hsw
    split at hsw
    · subst t'; exact hm
    · exact absurd (hn ▸ h.sweeping t' sw' hsw) nofun
  holder t' ht' := by
    obtain rfl : t' = t := Option.some_injective _ (ht'.symm.trans hm)
    exact ⟨sw, by simp [Sys.put]⟩

theorem LockHeld.release {t : Tid} (ht : s.m.lock = some t) {m : Manager} (hm : m.lock = none)
    (r : Except Exc (List String)) : LockHeld (s.put m t (.ended r)) where
  sweeping t' sw hsw := by
    simp only [Sys.put, Function.update_apply] at hsw
    split at hsw
    · cases hsw
    · rename_i hne
      exact absurd (Option.some_injective _ ((h.sweeping t' sw hsw).symm.trans ht)) hne
  holder t' ht' := absurd (hm ▸ ht') nofun

theorem LockHeld.begin (t : Tid) (env : Env) (hf : ∀ sw, s.frames t ≠ .sweep sw) :
    LockHeld (s.begin t env) := by
  rcases s.begin_lock t env with he | ⟨hn, ⟨m, f, he, hm, hfs⟩ | ⟨sw, he⟩⟩ <;> rw [he]
  · exact h
  · exact h.put (hm.trans hn.symm) (iff_of_false (fun ⟨sw, hsw⟩ => hfs sw hsw) fun ⟨sw, hsw⟩ => hf sw hsw)
  · exact h.acquire hn rfl sw

/-- One step of any thread keeps the lock held by the thread inside a sweep. -/
theorem LockHeld.step (t : Tid) (env : Env) : LockHeld (s.step t env) := by
  unfold Sys.step
  split
  · rename_i hi
    exact h.begin t env (by simp [hi])
  · rename_i r hr
    exact h.begin t env (by simp [hr])
  · rename_i c hc
    split
    · exact h.begin t env (by simp [hc])
    · exact h.put (Call.step_lock ..) (by simp [hc])
  · rename_i sw hsw
    rcases s.sweepStep_lock t sw env with ⟨m, sw', hm, he⟩ | ⟨m, r, he⟩ <;> rw [he]
    · exact h.put hm ⟨fun _ => ⟨sw, hsw⟩, fun _ => ⟨sw', rfl⟩⟩
    · exact h.release (h.sweeping t sw hsw) rfl r

end LockHeld

theorem LockHeld.run {s : Sys} (h : LockHeld s) (sched : List (Tid × Env)) : LockHeld (s.run sched) := by
  induction sched generalizing s with
  | nil => exact h
  | cons p sched ih => exact ih (h.step p.1 p.2)

theorem lockHeld_idle {m : Manager} (hm : m.lock = none) : LockHeld (Sys.idle m) where
  sweeping _ _ h := nomatch h
  holder _ ht := absurd (hm ▸ ht) nofun

end DbtBigQuery
