import DbtBigQuery.Handler
import DbtBigQuery.Connection

/-!
# The connection manager as a system of threads

`BigQueryConnectionManager` shared by worker threads. The shared state is
`thread_connections`, `jobs_by_thread`, the clients built and closed, the jobs the
service knows, the remote requests issued so far, and `self.lock`. Each thread
runs one command at a time, one statement that touches shared state per step:

* `raw_execute`: read the thread's connection and its handle, then one
  `_retry_and_handle` call whose attempts are `generate_job_id`, `client.query`
  with that id, and `query_job.result`;
* `cancel_open`: under the lock, for every other connection that is OPEN, one
  `_retry_and_handle` call of `client.cancel_job` per id of `jobs_by_thread`,
  then `close`.

`reopen_conn_on_error` holds no lock: its `close` and `open` take one step per
statement, so other threads see the connection between them. A step is a
function of the state, the thread and what the environment answers (`Env`): a
schedule is any list of threads and answers, so runs cover every interleaving
and every outcome of the remote calls. `uuid4` is modelled by a counter, so
every drawn id is new. `retry.retry_target` is google-api-core 2.43.2's.
-/

namespace DbtBigQuery

abbrev Tid := Nat

abbrev JobId := Nat

/-- A single remote call that a caller retries as the whole of its `fn`:
`cancel_open`'s `client.cancel_job`, `copy_bq_table`'s `client.copy_table`, and
`create_dataset`, `drop_dataset` and `list_dataset`. -/
inductive Op
  | cancelJob (id : JobId)
  | copyTable
  | createDataset
  | dropDataset
  | listDataset
  deriving DecidableEq, Repr

def Op.method : Op → String
  | .cancelJob _ => "cancel_job"
  | .copyTable => "copy_table"
  | .createDataset => "create_dataset"
  | .dropDataset => "delete_dataset"
  | .listDataset => "list_datasets"

inductive Request
  | query (id : JobId)
  | op (o : Op)
  deriving DecidableEq, Repr

/-- The `fn` a `_retry_and_handle` call retries: `raw_execute`'s, or one single
remote call through the captured client. -/
inductive Fn
  | query
  | call (o : Op)
  deriving DecidableEq, Repr

structure Config where
  jobRetries : Int
  jobRetryDeadlineSeconds : Option Nat
  jobExecutionTimeoutSeconds : Option Nat
  deriving DecidableEq, Repr

structure Manager where
  config : Config
  /-- The keys of `thread_connections`, in insertion order. -/
  threads : List Tid
  conns : Tid → Connection
  /-- `jobs_by_thread`; a thread's key exists once its list is not empty. -/
  jobsByThread : Tid → List JobId
  remote : List JobId
  nextJob : JobId
  pool : Pool
  /-- Every remote request issued: thread, client, request; newest first. -/
  requests : List (Tid × Client × Request)
  lock : Option Tid

inductive Cmd
  | rawExecute
  | cancelOpen
  deriving DecidableEq, Repr

/-- What the environment answers to one step: the command an idle thread starts,
what the remote call of the step raises, whether a failed `client.query` still
created its job, whether the deadline has passed, and what an `open` meets. -/
structure Env where
  cmd : Cmd
  answer : Option Exc
  created : Bool
  late : Bool
  opener : OpenEnv

def Manager.generateJobId (m : Manager) (t : Tid) : Manager :=
  { m with
    jobsByThread := Function.update m.jobsByThread t (m.jobsByThread t ++ [m.nextJob])
    nextJob := m.nextJob + 1 }

def Manager.issue (m : Manager) (t : Tid) (k : Client) (r : Request) : Manager :=
  { m with requests := (t, k, r) :: m.requests }

def Manager.create (m : Manager) (id : JobId) : Manager := { m with remote := id :: m.remote }

def Manager.putConn (m : Manager) (tid : Tid) (o : Outcome) : Manager :=
  { m with conns := Function.update m.conns tid o.conn, pool := o.pool }

def Manager.setHandle (m : Manager) (tid : Tid) (h : Handle) : Manager :=
  { m with conns := Function.update m.conns tid { m.conns tid with handle := h } }

def Manager.setState (m : Manager) (tid : Tid) (s : ConnState) : Manager :=
  { m with conns := Function.update m.conns tid { m.conns tid with state := s } }

@[simp] theorem Manager.generateJobId_conns (m : Manager) (t : Tid) :
    (m.generateJobId t).conns = m.conns := rfl
@[simp] theorem Manager.issue_conns (m : Manager) (t : Tid) (k : Client) (r : Request) :
    (m.issue t k r).conns = m.conns := rfl
@[simp] theorem Manager.create_conns (m : Manager) (id : JobId) : (m.create id).conns = m.conns := rfl
@[simp] theorem Manager.putConn_conns (m : Manager) (tid : Tid) (o : Outcome) :
    (m.putConn tid o).conns = Function.update m.conns tid o.conn := rfl
@[simp] theorem Manager.setHandle_conns (m : Manager) (tid : Tid) (h : Handle) :
    (m.setHandle tid h).conns = Function.update m.conns tid { m.conns tid with handle := h } := rfl
@[simp] theorem Manager.setState_conns (m : Manager) (tid : Tid) (s : ConnState) :
    (m.setState tid s).conns = Function.update m.conns tid { m.conns tid with state := s } := rfl
@[simp] theorem Manager.generateJobId_requests (m : Manager) (t : Tid) :
    (m.generateJobId t).requests = m.requests := rfl
@[simp] theorem Manager.issue_requests (m : Manager) (t : Tid) (k : Client) (r : Request) :
    (m.issue t k r).requests = (t, k, r) :: m.requests := rfl
@[simp] theorem Manager.create_requests (m : Manager) (id : JobId) :
    (m.create id).requests = m.requests := rfl
@[simp] theorem Manager.putConn_requests (m : Manager) (tid : Tid) (o : Outcome) :
    (m.putConn tid o).requests = m.requests := rfl
@[simp] theorem Manager.setHandle_requests (m : Manager) (tid : Tid) (h : Handle) :
    (m.setHandle tid h).requests = m.requests := rfl
@[simp] theorem Manager.setState_requests (m : Manager) (tid : Tid) (s : ConnState) :
    (m.setState tid s).requests = m.requests := rfl

theorem update_name {f : Tid → Connection} {tid : Tid} {c : Connection} (h : c.name = (f tid).name)
    (tid' : Tid) : (Function.update f tid c tid').name = (f tid').name := by
  by_cases ht : tid' = tid
  · subst ht; simpa using h
  · rw [Function.update_noteq ht]

/-- The `NotFound` the service answers to `cancel_job` for an id it has no job for. -/
def notFoundJob (id : JobId) : Exc :=
  ⟨[.notFound], "404 Not found: Job " ++ toString id,
    [[("message", .str ("Not found: Job " ++ toString id)), ("reason", .str "notFound")]]⟩

def Manager.answerTo (m : Manager) (o : Op) (env : Env) : Option Exc :=
  match o with
  | .cancelJob id => if id ∈ m.remote then env.answer else some (notFoundJob id)
  | _ => env.answer

def noMethod (h : Handle) (method : String) : Exc :=
  .of .attributeError ("\x27" ++ (if h = .lazy then "LazyHandle" else "NoneType") ++
    "\x27 object has no attribute \x27" ++ method ++ "\x27")

def optText : Option Nat → String
  | some n => toString n
  | none => "None"

/-- What `_query_and_results` raises when `query_job.result` raises `e`. -/
def queryResultError (timeout : Option Nat) (e : Exc) : Exc :=
  if e.isInstance .timeoutError then
    .of .timeoutError ("Operation did not complete within the designated timeout of " ++
      optText timeout ++ " seconds.")
  else e

/-- `build_retry_error` on a timeout: `RetryError(f"Timeout of {timeout:0.1f}s
exceeded", last)`, whose `str` appends the last exception. -/
def retryError (deadline : Nat) (last : Exc) : Exc :=
  .of .retryError ("Timeout of " ++ toString deadline ++ ".0s exceeded, last exception: " ++
    last.text)

/-- Where a `_retry_and_handle` call is: the statement it runs next. -/
inductive Phase
  | start
  | registered (id : JobId)
  | waiting (id : JobId)
  | failed (e : Exc)
  | accepted (e : Exc)
  /-- `close(conn)` ran `connection.handle.close()`; setting the state is next. -/
  | closing (e : Exc)
  /-- `close(conn)` returned; `open(conn)` is next. -/
  | reopening (e : Exc)
  /-- `open` is about to write `connection.handle`, then `connection.state`. -/
  | opening (e : Exc) (w : Opened)
  | opened (e : Exc) (w : Opened)
  | sleeping (e : Exc)
  | returned
  /-- The exception that leaves `exception_handler`. -/
  | raised (x : Exc)
  deriving DecidableEq, Repr

/-- One failed attempt: its error, `count_error`'s answer, and how many calls of
`close` and of `open` on `conn` ran to their end after it. -/
structure Failure where
  error : Exc
  accepted : Bool
  closes : Nat
  opens : Nat
  deriving DecidableEq, Repr

/-- One `_retry_and_handle(msg, conn, fn)` call. `client` is the handle `fn`
closes over, read before the call; `attempts` and `failures` (newest first)
record the run. -/
structure Call where
  fn : Fn
  conn : Tid
  client : Handle
  counter : ErrorCounter
  phase : Phase
  attempts : Nat
  failures : List Failure
  deriving DecidableEq, Repr

def Call.start (fn : Fn) (conn : Tid) (client : Handle) (retries : Int) : Call :=
  ⟨fn, conn, client, .new retries, .start, 0, []⟩

def Call.fail (c : Call) (e : Exc) : Call := { c with phase := .failed e }

def Call.raise (c : Call) (x : Exc) : Call := { c with phase := .raised (exceptionHandler x) }

def Call.answered (c : Call) : Option Exc → Call
  | none => { c with phase := .returned }
  | some e => c.fail e

def Call.markClose (c : Call) : Call :=
  { c with failures := match c.failures with
    | f :: fs => { f with closes := f.closes + 1 } :: fs
    | [] => [] }

def Call.markOpen (c : Call) : Call :=
  { c with failures := match c.failures with
    | f :: fs => { f with opens := f.opens + 1 } :: fs
    | [] => [] }

/-- `retry_target`'s `except Exception` clause: `count_error(e)`, then on to
`on_error` or out of the loop. A `BaseException` is not caught at all. -/
def Call.judge (c : Call) (e : Exc) : Call :=
  if e.isInstance .exception then
    match c.counter.countError e with
    | .error x => { c.raise x with failures := ⟨e, false, 0, 0⟩ :: c.failures }
    | .ok (b, k) =>
      { c with counter := k, failures := ⟨e, b, 0, 0⟩ :: c.failures,
               phase := if b then .accepted e else .raised (exceptionHandler e) }
  else { c with phase := .raised e, failures := ⟨e, false, 0, 0⟩ :: c.failures }

def Call.step (m : Manager) (t : Tid) (c : Call) (env : Env) : Manager × Call :=
  match c.phase with
  | .start =>
    let c := { c with attempts := c.attempts + 1 }
    match c.fn, c.client with
    | .query, _ => (m.generateJobId t, { c with phase := .registered m.nextJob })
    | .call o, .client k => (m.issue t k (.op o), c.answered (m.answerTo o env))
    | .call o, h => (m, c.fail (noMethod h o.method))
  | .registered id =>
    match c.client with
    | .client k =>
      let m := m.issue t k (.query id)
      match env.answer with
      | none => (m.create id, { c with phase := .waiting id })
      | some e => (if env.created then m.create id else m, c.fail e)
    | h => (m, c.fail (noMethod h "query"))
  | .waiting _ =>
    match env.answer with
    | none => (m, { c with phase := .returned })
    | some e => (m, c.fail (queryResultError m.config.jobExecutionTimeoutSeconds e))
  | .failed e => (m, c.judge e)
  | .accepted e =>
    if e.isInstanceAny reopenableErrors then
      let o := closeHandle env.opener m.pool (m.conns c.conn)
      match o.raised with
      | some x => (m.putConn c.conn o, c.markClose.raise x)
      | none => (m.putConn c.conn o, { c with phase := .closing e })
    else (m, { c with phase := .sleeping e })
  | .closing e => (m.setState c.conn .closed, { c.markClose with phase := .reopening e })
  | .reopening e =>
    match openStart env.opener (m.conns c.conn) with
    | .done => (m, { c.markOpen with phase := .sleeping e })
    | .build => ({ m with pool := m.pool.build }, { c with phase := .opening e (.client m.pool.next) })
    | .fail x => (m, { c with phase := .opening e (.failed x) })
    | .escape x => (m, c.markOpen.raise x)
  | .opening e w => (m.setHandle c.conn w.handle, { c with phase := .opened e w })
  | .opened e w =>
    (m.setState c.conn w.state, match w with
      | .client _ => { c.markOpen with phase := .sleeping e }
      | .failed x => c.markOpen.raise x)
  | .sleeping e =>
    match m.config.jobRetryDeadlineSeconds with
    | some d => if env.late then (m, c.raise (retryError d e)) else (m, { c with phase := .start })
    | none => (m, { c with phase := .start })
  | .returned => (m, c)
  | .raised _ => (m, c)

end DbtBigQuery
