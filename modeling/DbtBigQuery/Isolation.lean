import DbtBigQuery.Progress

/-!
# A query runs as if alone

The threads of a dbt run share one `BigQueryConnectionManager`: the pool of
clients, the counter behind `generate_job_id`, `jobs_by_thread` and the service.
None of it reaches a query. While no thread runs `cancel_open`, the
`_retry_and_handle` call of thread `t` ends exactly as `retryAndHandle` ends when
the call runs alone on the answers of `t`'s own steps (`call_runs_alone`). The
other threads change only the client numbers and job ids the call meets, so the
two runs agree up to those numbers at every step (`Alone`).

`cancel_open` is left out on purpose: it closes the connections it visits, and
its `_retry_and_handle` of `client.cancel_job` closes and opens them again after
a reopenable error, so it can change how a visited thread's query ends.
-/

namespace DbtBigQuery

/-- A handle with the number of its client forgotten. -/
def Handle.erase : Handle → Handle
  | .client _ => .client 0
  | h => h

/-- A connection with the number of its client forgotten. -/
def Connection.erase (conn : Connection) : Connection := { conn with handle := conn.handle.erase }

def Opened.erase : Opened → Opened
  | .client _ => .client 0
  | w => w

/-- A phase with its job id, or the number of the client `open` built, forgotten. -/
def Phase.erase : Phase → Phase
  | .registered _ => .registered 0
  | .waiting _ => .waiting 0
  | .opening e w => .opening e w.erase
  | .opened e w => .opened e w.erase
  | p => p

/-- A call with the job id of its phase forgotten. -/
def Call.erase (c : Call) : Call := { c with phase := c.phase.erase }

/-- Two runs of `open` or `close` left the connection alike up to its client
number, and raised the same. -/
structure Outcome.Agree (o o' : Outcome) : Prop where
  conn : o.conn.erase = o'.conn.erase
  raised : o.raised = o'.raised

theorem Connection.erase_eq_iff {a b : Connection} :
    a.erase = b.erase ↔ a.name = b.name ∧ a.state = b.state ∧ a.handle.erase = b.handle.erase := by
  obtain ⟨_, _, _⟩ := a
  obtain ⟨_, _, _⟩ := b
  simp [Connection.erase]

@[simp] theorem Connection.erase_install (conn : Connection) (w : Opened) :
    (conn.install w).erase = conn.erase.install w.erase := by
  cases w <;> rfl

@[simp] theorem Connection.erase_setState (conn : Connection) (s : ConnState) :
    ({ conn with state := s } : Connection).erase = { conn.erase with state := s } := rfl

@[simp] theorem Connection.erase_setHandle (conn : Connection) (h : Handle) :
    ({ conn with handle := h } : Connection).erase = { conn.erase with handle := h.erase } := rfl

@[simp] theorem Opened.erase_erase (w : Opened) : w.erase.erase = w.erase := by
  cases w <;> rfl

@[simp] theorem Phase.erase_finished (p : Phase) : p.erase.finished = p.finished := by
  cases p <;> rfl

theorem Phase.erase_of_finished {p : Phase} (h : p.finished = true) : p.erase = p := by
  cases p <;> first | rfl | cases h

/-- A finished call has no job id to forget. -/
theorem Call.eq_of_erase_eq {c c' : Call} (h : c.erase = c'.erase) (hf : c'.phase.finished = true) :
    c = c' := by
  have hp : c.phase.erase = c'.phase.erase := congrArg Call.phase h
  have hfin : c.phase.finished = true := by rw [← Phase.erase_finished, hp, Phase.erase_finished, hf]
  rw [Phase.erase_of_finished hfin, Phase.erase_of_finished hf] at hp
  obtain ⟨_, _, _, _, _, _, _⟩ := c
  obtain ⟨_, _, _, _, _, _, _⟩ := c'
  simp only [Call.erase, Call.mk.injEq] at h hp ⊢
  exact ⟨h.1, h.2.1, h.2.2.1, h.2.2.2.1, hp, h.2.2.2.2.2⟩

/-- `open` reads the state of the connection only. -/
theorem openStart_agree (env : OpenEnv) {conn conn' : Connection} (h : conn.erase = conn'.erase) :
    openStart env conn = openStart env conn' := by
  obtain ⟨-, hs, -⟩ := Connection.erase_eq_iff.mp h
  simp only [openStart, hs]

theorem openConn_agree (env : OpenEnv) (pool pool' : Pool) {conn conn' : Connection}
    (h : conn.erase = conn'.erase) : (openConn env pool conn).Agree (openConn env pool' conn') := by
  unfold openConn
  rw [openStart_agree env h]
  split <;> exact ⟨by simp only [Connection.erase_install, Opened.erase, h], rfl⟩

theorem readHandle_agree (env : OpenEnv) (pool pool' : Pool) {conn conn' : Connection}
    (h : conn.erase = conn'.erase) : (readHandle env pool conn).Agree (readHandle env pool' conn') := by
  obtain ⟨-, -, hh⟩ := Connection.erase_eq_iff.mp h
  unfold readHandle
  cases h1 : conn.handle <;> cases h2 : conn'.handle <;> simp only [h1, h2, Handle.erase] at hh ⊢ <;>
    first | exact ⟨h, rfl⟩ | exact openConn_agree env pool pool' h | cases hh

theorem closeRead_agree {o o' : Outcome} (h : o.Agree o') : (closeRead o).Agree (closeRead o') := by
  obtain ⟨hc, hr⟩ := h
  obtain ⟨-, -, hh⟩ := Connection.erase_eq_iff.mp hc
  unfold closeRead
  rw [hr]
  cases o'.raised with
  | some _ => exact ⟨hc, hr⟩
  | none =>
    cases h1 : o.conn.handle <;> cases h2 : o'.conn.handle <;> simp only [h1, h2, Handle.erase] at hh ⊢ <;>
      first | exact ⟨hc, rfl⟩ | cases hh

theorem closeHandle_agree (env : OpenEnv) (pool pool' : Pool) {conn conn' : Connection}
    (h : conn.erase = conn'.erase) : (closeHandle env pool conn).Agree (closeHandle env pool' conn') :=
  closeRead_agree (readHandle_agree env pool pool' h)

@[simp] theorem Call.erase_conn (c : Call) : c.erase.conn = c.conn := rfl
@[simp] theorem Call.erase_fn (c : Call) : c.erase.fn = c.fn := rfl

theorem Call.erase_of_phase {c : Call} (h : c.phase.erase = c.phase) : c.erase = c := by
  rw [Call.erase, h]

theorem Call.step_conns_of_ne (m : Manager) (t : Tid) (c : Call) (env : Env) {tid : Tid}
    (h : tid ≠ c.conn) : (c.step m t env).1.conns tid = m.conns tid := by
  cases hp : c.phase <;> simp only [Call.step, hp] <;> (repeat' split) <;>
    simp [Manager.putConn, Manager.setHandle, Manager.setState, Manager.issue, Manager.create,
      Manager.generateJobId, Function.update_apply, h]

/-- A step of a call forgets its job id and client number as the call does. -/
theorem Call.step_erase_self (m : Manager) (t : Tid) (c : Call) (env : Env) :
    (c.step m t env).2.erase = (c.erase.step m t env).2.erase ∧
      ((c.step m t env).1.conns c.conn).erase = ((c.erase.step m t env).1.conns c.conn).erase := by
  cases hp : c.phase
  case registered id =>
    simp only [Call.step, Call.erase, hp, Phase.erase]
    split
    · split
      · exact ⟨rfl, rfl⟩
      · split <;> exact ⟨rfl, rfl⟩
    · exact ⟨rfl, rfl⟩
  case waiting id =>
    simp only [Call.step, Call.erase, hp, Phase.erase]
    split <;> exact ⟨rfl, rfl⟩
  case opening e w =>
    simp only [Call.step, Call.erase, hp, Phase.erase, Opened.erase_erase, Manager.setHandle_conns,
      Function.update_same, Connection.erase_setHandle, true_and]
    cases w <;> rfl
  case opened e w =>
    simp only [Call.step, Call.erase, hp, Phase.erase]
    cases w <;> exact ⟨rfl, rfl⟩
  all_goals
    rw [Call.erase_of_phase (c := c) (by rw [hp]; rfl)]
    exact ⟨rfl, rfl⟩

/-- A step of one query call on two managers that agree on its connection, up to
the client number, and on the configuration. -/
theorem Call.step_agree {m m' : Manager} (t : Tid) (c : Call) (env : Env) (hfn : c.fn = .query)
    (hconn : (m.conns c.conn).erase = (m'.conns c.conn).erase) (hcfg : m.config = m'.config) :
    (c.step m t env).2.erase = (c.step m' t env).2.erase ∧
      ((c.step m t env).1.conns c.conn).erase = ((c.step m' t env).1.conns c.conn).erase := by
  cases hp : c.phase with
  | start =>
    rw [Call.step_start_query hp hfn, Call.step_start_query hp hfn]
    exact ⟨rfl, hconn⟩
  | registered id =>
    simp only [Call.step, hp]
    split
    · split
      · exact ⟨rfl, hconn⟩
      · split <;> exact ⟨rfl, hconn⟩
    · exact ⟨rfl, hconn⟩
  | waiting id => simp only [Call.step, hp, hcfg]; split <;> exact ⟨rfl, hconn⟩
  | failed e => simpa only [Call.step, hp, true_and] using hconn
  | accepted e =>
    obtain ⟨hc, hr⟩ := closeHandle_agree env.opener m.pool m'.pool hconn
    simp only [Call.step, hp]
    split
    · rw [hr]
      split <;> exact ⟨rfl, by simpa only [Manager.putConn_conns, Function.update_same] using hc⟩
    · exact ⟨rfl, hconn⟩
  | closing e =>
    simp only [Call.step, hp, Manager.setState_conns, Function.update_same, Connection.erase_setState, hconn,
      and_self]
  | reopening e =>
    simp only [Call.step, hp]
    rw [openStart_agree env.opener hconn]
    split <;> exact ⟨rfl, hconn⟩
  | opening e w =>
    simp only [Call.step, hp, Manager.setHandle_conns, Function.update_same, Connection.erase_setHandle, hconn,
      and_self]
  | opened e w =>
    simp only [Call.step, hp, Manager.setState_conns, Function.update_same, Connection.erase_setState, hconn,
      and_self]
  | sleeping e =>
    simp only [Call.step, hp, hcfg]
    split
    · split <;> exact ⟨rfl, hconn⟩
    · exact ⟨rfl, hconn⟩
  | returned => simpa only [Call.step, hp, true_and] using hconn
  | raised x => simpa only [Call.step, hp, true_and] using hconn

/-- A step of two query calls alike up to job ids, on two managers alike on the
call's connection and the configuration, leaves them alike. -/
theorem Call.step_erase {m m' : Manager} (t : Tid) {c c' : Call} (env : Env) (hc : c.erase = c'.erase)
    (hfn : c.fn = .query) (hconn : (m.conns c.conn).erase = (m'.conns c.conn).erase)
    (hcfg : m.config = m'.config) :
    (c.step m t env).2.erase = (c'.step m' t env).2.erase ∧
      ((c.step m t env).1.conns c.conn).erase = ((c'.step m' t env).1.conns c.conn).erase := by
  obtain ⟨h1, h1c⟩ := c.step_erase_self m t env
  obtain ⟨h2, h2c⟩ := c.erase.step_agree t env hfn hconn hcfg
  obtain ⟨h3, h3c⟩ := c'.step_erase_self m' t env
  have hcc : c'.conn = c.conn := by rw [← Call.erase_conn c', ← hc, Call.erase_conn]
  rw [← hc] at h3 h3c
  rw [hcc] at h3c
  exact ⟨h1.trans (h2.trans h3.symm), h1c.trans (h2c.trans h3c.symm)⟩

/-! ## The other threads -/

/-- Every query frame holds a `raw_execute` call on its own thread's connection. -/
def OwnConns (s : Sys) : Prop := ∀ t c, s.frames t = .query c → c.conn = t ∧ c.fn = .query

def NoSweep (s : Sys) : Prop := ∀ t sw, s.frames t ≠ .sweep sw

theorem Sys.begin_conns_of_ne (s : Sys) {t tid : Tid} (h : tid ≠ t) (env : Env) :
    (s.begin t env).m.conns tid = s.m.conns tid := by
  simp only [Sys.begin]
  repeat' split
  all_goals simp [Manager.putConn, Function.update_apply, h]

theorem Sys.sweepStep_not_query (s : Sys) (t : Tid) (sw : Sweep) (env : Env) (c : Call) :
    (s.sweepStep t sw env).frames t ≠ .query c := by
  simp only [Sys.sweepStep, Sys.endSweep]
  repeat' split
  all_goals simp

/-- A query frame after `begin` was there before, or is a new `raw_execute` call
on the thread's own connection. -/
theorem Sys.begin_query (s : Sys) (t : Tid) (env : Env) {c : Call} (h : (s.begin t env).frames t = .query c) :
    s.frames t = .query c ∨ (c.conn = t ∧ c.fn = .query) := by
  simp only [Sys.begin] at h
  split at h
  · exact .inl h
  · split at h
    · split at h
      · split at h
        · simp at h
        · simp only [Sys.put_frames_self, Frame.query.injEq] at h
          subst h
          exact .inr ⟨rfl, rfl⟩
      · simp at h
    · simp at h

theorem OwnConns.step {s : Sys} (h : OwnConns s) (t : Tid) (env : Env) : OwnConns (s.step t env) := by
  intro t' c hc
  by_cases ht : t' = t
  · subst ht
    simp only [Sys.step] at hc
    split at hc
    · exact (s.begin_query t' env hc).elim (h t' c) id
    · exact (s.begin_query t' env hc).elim (h t' c) id
    · rename_i ci hci
      split at hc
      · exact (s.begin_query t' env hc).elim (h t' c) id
      · simp only [Sys.put_frames_self, Frame.query.injEq] at hc
        obtain ⟨hfn, hconn, -, -⟩ := ci.step_fixed s.m t' env
        subst hc
        exact ⟨hconn.trans (h t' ci hci).1, hfn.trans (h t' ci hci).2⟩
    · exact absurd hc (s.sweepStep_not_query t' _ env c)
  · rw [s.step_frames_of_ne ht] at hc
    exact h t' c hc

theorem OwnConns.run {s : Sys} (h : OwnConns s) (sched : List (Tid × Env)) : OwnConns (s.run sched) := by
  induction sched generalizing s with
  | nil => exact h
  | cons p sched ih => exact ih (h.step p.1 p.2)

theorem ownConns_idle (m : Manager) : OwnConns (Sys.idle m) := fun _ _ h => by cases h

/-- A step of another thread leaves the connection of `t` alone. -/
theorem Sys.step_conns_of_ne {s : Sys} (ho : OwnConns s) (hs : NoSweep s) {t t' : Tid} (h : t ≠ t')
    (env : Env) : (s.step t' env).m.conns t = s.m.conns t := by
  simp only [Sys.step]
  split
  · exact s.begin_conns_of_ne h env
  · exact s.begin_conns_of_ne h env
  · rename_i c hc
    split
    · exact s.begin_conns_of_ne h env
    · exact c.step_conns_of_ne s.m t' env (by rw [(ho t' c hc).1]; exact h)
  · exact absurd ‹_› (hs t' _)

theorem NoSweep.step {s : Sys} (hs : NoSweep s) (t : Tid) {env : Env} (hq : env.cmd = .rawExecute) :
    NoSweep (s.step t env) := by
  intro t' sw hsw
  by_cases ht : t' = t
  · subst ht
    have hb : ∀ sw', (s.begin t' env).frames t' = .sweep sw' → s.frames t' = .sweep sw' := by
      intro sw' hb
      simp only [Sys.begin, hq] at hb
      split at hb
      · exact hb
      · split at hb
        · split at hb <;> simp at hb
        · simp at hb
    simp only [Sys.step] at hsw
    split at hsw
    · exact hs t' sw (hb sw hsw)
    · exact hs t' sw (hb sw hsw)
    · split at hsw
      · exact hs t' sw (hb sw hsw)
      · simp at hsw
    · exact hs t' _ ‹_›
  · rw [s.step_frames_of_ne ht] at hsw
    exact hs t' sw hsw

/-! ## A call against the same call run alone -/

/-- Thread `t`'s call in `s` against the call `c` run alone to the manager `m`:
alike up to job ids, on a connection alike up to its client number, with the same
configuration. -/
structure Alone (t : Tid) (s : Sys) (m : Manager) (c : Call) : Prop where
  frame : ∃ ci, s.frames t = .query ci ∧ ci.erase = c.erase
  conn : (s.m.conns t).erase = (m.conns t).erase
  config : s.m.config = m.config

/-- A step of another thread keeps the two alike. -/
theorem Alone.other {t t' : Tid} {s : Sys} {m : Manager} {c : Call} (h : Alone t s m c)
    (ho : OwnConns s) (hs : NoSweep s) (ht : t ≠ t') (env : Env) : Alone t (s.step t' env) m c where
  frame := by rw [s.step_frames_of_ne ht]; exact h.frame
  conn := by rw [Sys.step_conns_of_ne ho hs ht]; exact h.conn
  config := by rw [s.step_config]; exact h.config

/-- A step of `t` in the system and the same step of the call run alone keep the
two alike. -/
theorem Alone.own {t : Tid} {s : Sys} {m : Manager} {c : Call} (h : Alone t s m c)
    (hconn : c.conn = t) (hfn : c.fn = .query) (hfin : c.phase.finished = false) (env : Env) :
    Alone t (s.step t env) (c.step m t env).1 (c.step m t env).2 := by
  obtain ⟨ci, hci, he⟩ := h.frame
  have hfi : ci.phase.finished = false := by
    have h' := congrArg (fun c : Call => c.phase.finished) he
    simp only [Call.erase, Phase.erase_finished] at h'
    rw [h', hfin]
  have hconn' : ci.conn = t := by rw [← Call.erase_conn, he, Call.erase_conn, hconn]
  have hfn' : ci.fn = .query := by rw [← Call.erase_fn, he, Call.erase_fn, hfn]
  obtain ⟨hc, hk⟩ := Call.step_erase t env he hfn' (by rw [hconn']; exact h.conn) h.config
  rw [hconn'] at hk
  have hs : s.step t env = s.put (ci.step s.m t env).1 t (.query (ci.step s.m t env).2) := by
    simp only [Sys.step, hci, hfi, Bool.false_eq_true, if_false]
  rw [hs]
  exact ⟨⟨_, Sys.put_frames_self .., hc⟩, hk, by simp only [Sys.put_m, Call.step_config, h.config]⟩

/-- The answers thread `t`'s own steps receive. -/
def ownEnvs (t : Tid) : List (Tid × Env) → List Env
  | [] => []
  | (t', env) :: rest => if t' = t then env :: ownEnvs t rest else ownEnvs t rest

theorem Alone.run {t : Tid} (sched : List (Tid × Env)) {s : Sys} {m : Manager} {c : Call}
    (h : Alone t s m c) (ho : OwnConns s) (hs : NoSweep s) (hq : ∀ p ∈ sched, p.2.cmd = .rawExecute)
    (hconn : c.conn = t) (hfn : c.fn = .query) (hfin : c.phase.finished = false) :
    let r := retryAndHandle m t c (ownEnvs t sched)
    (r.2.phase.finished = false ∧ ∃ c', (s.run sched).frames t = .query c' ∧ c'.erase = r.2.erase) ∨
      (r.2.phase.finished = true ∧ ∃ pre, pre <+: sched ∧ (s.run pre).frames t = .query r.2) := by
  induction sched generalizing s m c with
  | nil => exact .inl ⟨hfin, h.frame⟩
  | cons p rest ih =>
    obtain ⟨t', env⟩ := p
    have hq' : ∀ p ∈ rest, p.2.cmd = .rawExecute := fun p hp => hq p (List.mem_cons_of_mem _ hp)
    have ho' := ho.step t' env
    have hs' := hs.step t' (hq _ (List.mem_cons_self _ _))
    have extend : ∀ {r : Call}, (∃ pre, pre <+: rest ∧ ((s.step t' env).run pre).frames t = .query r) →
        ∃ pre, pre <+: (t', env) :: rest ∧ (s.run pre).frames t = .query r :=
      fun ⟨pre, hpre, hr⟩ => ⟨(t', env) :: pre, List.cons_prefix_cons.mpr ⟨rfl, hpre⟩, hr⟩
    by_cases ht : t' = t
    · subst ht
      have h1 := h.own hconn hfn hfin env
      obtain ⟨hfn1, hconn1, -, -⟩ := c.step_fixed m t' env
      simp only [ownEnvs, if_true, retryAndHandle]
      cases hf1 : (c.step m t' env).2.phase.finished
      · exact (ih h1 ho' hs' hq' (hconn1.trans hconn) (hfn1.trans hfn) hf1).imp id
          fun ⟨hr, hpre⟩ => ⟨hr, extend hpre⟩
      · rw [retryAndHandle_of_finished _ _ hf1]
        obtain ⟨ci, hci, he⟩ := h1.frame
        exact .inr ⟨hf1, [(t', env)], List.cons_prefix_cons.mpr ⟨rfl, List.nil_prefix⟩,
          by rw [Sys.run, Sys.run, hci, Call.eq_of_erase_eq he hf1]⟩
    · simp only [ownEnvs, ht, if_false]
      exact (ih (h.other ho hs (Ne.symm ht) env) ho' hs' hq' hconn hfn hfin).imp id
        fun ⟨hr, hpre⟩ => ⟨hr, extend hpre⟩

/-- A `raw_execute` query runs as if alone. Take any schedule of the threads from
a reachable state where no thread is inside `cancel_open` and thread `t` is in the
`_retry_and_handle` call `c`, and in which no thread starts `cancel_open`. Let the
call run alone on the answers of `t`'s own steps. While that run goes on, `t`'s
call is the same up to the job ids it meets; once it has ended, `t`'s call ended
exactly so, with the same attempts and failures, at a point of the schedule. -/
theorem call_runs_alone (m : Manager) (hm : m.lock = none) (before sched : List (Tid × Env))
    (t : Tid) (c : Call) :
    let s := (Sys.idle m).run before
    s.m.lock = none → s.frames t = .query c → (∀ p ∈ sched, p.2.cmd = .rawExecute) →
    let r := retryAndHandle s.m t c (ownEnvs t sched)
    (r.2.phase.finished = false ∧ ∃ c', (s.run sched).frames t = .query c' ∧ c'.erase = r.2.erase) ∨
      (r.2.phase.finished = true ∧ ∃ pre, pre <+: sched ∧ (s.run pre).frames t = .query r.2) := by
  intro s hl hf hq
  have ho : OwnConns s := (ownConns_idle m).run before
  have hs : NoSweep s := fun t' sw hsw => by
    cases hl.symm.trans (((lockHeld_idle hm).run before).sweeping t' sw hsw)
  cases hfin : c.phase.finished
  · exact Alone.run sched ⟨⟨c, hf, rfl⟩, rfl, rfl⟩ ho hs hq (ho t c hf).1 (ho t c hf).2 hfin
  · rw [retryAndHandle_of_finished _ _ hfin]
    exact .inr ⟨hfin, [], List.nil_prefix, hf⟩

/-- Thread 1 runs a query while thread 0 runs one to its end. -/
def besideQuery : List (Tid × Env) :=
  [(1, .quiet none), (0, .quiet none), (1, .quiet none), (0, .quiet none), (0, .quiet none)]

theorem query_runs_alone_beside_query :
    twoThreads.lock = none ∧ ((Sys.idle twoThreads).run [(0, .quiet none)]).m.lock = none ∧
      ((Sys.idle twoThreads).run [(0, .quiet none)]).frames 0 = .query (.start .query 0 (.client 0) 0) ∧
      (∀ p ∈ besideQuery, p.2.cmd = .rawExecute) ∧
      (((retryAndHandle ((Sys.idle twoThreads).run [(0, .quiet none)]).m 0 (.start .query 0 (.client 0) 0)
          (ownEnvs 0 besideQuery)).2.phase.finished = false ∧
        ∃ c', (((Sys.idle twoThreads).run [(0, .quiet none)]).run besideQuery).frames 0 = .query c' ∧
          c'.erase = (retryAndHandle ((Sys.idle twoThreads).run [(0, .quiet none)]).m 0
            (.start .query 0 (.client 0) 0) (ownEnvs 0 besideQuery)).2.erase) ∨
      ((retryAndHandle ((Sys.idle twoThreads).run [(0, .quiet none)]).m 0 (.start .query 0 (.client 0) 0)
          (ownEnvs 0 besideQuery)).2.phase.finished = true ∧
        ∃ pre, pre <+: besideQuery ∧ (((Sys.idle twoThreads).run [(0, .quiet none)]).run pre).frames 0 =
          .query (retryAndHandle ((Sys.idle twoThreads).run [(0, .quiet none)]).m 0
            (.start .query 0 (.client 0) 0) (ownEnvs 0 besideQuery)).2)) :=
  have hl : ((Sys.idle twoThreads).run [(0, .quiet none)]).m.lock = none := by decide
  have hf : ((Sys.idle twoThreads).run [(0, .quiet none)]).frames 0 =
      .query (.start .query 0 (.client 0) 0) := by decide
  have hq : ∀ p ∈ besideQuery, p.2.cmd = .rawExecute := by decide
  ⟨rfl, hl, hf, hq, call_runs_alone twoThreads rfl [(0, .quiet none)] besideQuery 0 _ hl hf hq⟩

end DbtBigQuery
