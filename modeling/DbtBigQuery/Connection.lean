import DbtBigQuery.Errors

/-!
# Connection lifecycle

`open` and `close` of `BigQueryConnectionManager` on one dbt `Connection`. dbt
starts a connection in state INIT with a `LazyHandle`: the first read of
`connection.handle` runs `open`. Clients are numbered in the order they are
built; the pool records which of them have had `close()` called.

Neither method holds a lock, so other threads can run between their
statements. `openStart` is what `open` does before it first writes to the
connection: the state check and `get_bigquery_client`, which touch nothing
shared but the pool. The writes that follow (`connection.handle = ...`, then
`connection.state = ...`) and the two statements of `close` are steps of their
own in the callers. `openConn` and `closeHandle` are the whole of a lazy
handle's `open` and the first statement of `close`.
-/

namespace DbtBigQuery

/-- `google.cloud.bigquery.Client` objects, numbered as built. -/
abbrev Client := Nat

/-- `connection.handle`: `None`, dbt's `LazyHandle`, or a client. -/
inductive Handle
  | none
  | lazy
  | client (c : Client)
  deriving DecidableEq, Repr

inductive ConnState
  | init
  | «open»
  | closed
  | fail
  deriving DecidableEq, Repr

structure Connection where
  name : Option String
  state : ConnState
  handle : Handle
  deriving DecidableEq, Repr

/-- The clients built so far, and those whose `close()` has run. -/
structure Pool where
  next : Client
  closed : List Client
  deriving DecidableEq, Repr

def Pool.build (pool : Pool) : Pool := { pool with next := pool.next + 1 }

def Pool.close (pool : Pool) (c : Client) : Pool := { pool with closed := c :: pool.closed }

/-- What `get_bigquery_client`, `setup_default_credentials` and the second
`get_bigquery_client` of one `open` raise (`none`: they return). -/
structure OpenEnv where
  first : Option Exc
  setup : Option Exc
  second : Option Exc
  deriving DecidableEq, Repr

/-- A connection and the pool after a call, and what the call raised. -/
structure Outcome where
  conn : Connection
  pool : Pool
  raised : Option Exc
  deriving DecidableEq, Repr

/-- How `open` goes on after its state check and `get_bigquery_client`. -/
inductive OpenStart
  /-- The state was `"open"`: `open` returns. -/
  | done
  /-- A client was built: `connection.handle = handle` is next. -/
  | build
  /-- `get_bigquery_client` raised an `Exception`: `open` writes `None` and
  `"fail"`, then raises `x`. -/
  | fail (x : Exc)
  /-- `x` leaves `open` with nothing written. -/
  | escape (x : Exc)
  deriving DecidableEq, Repr

/-- The statements of `open(connection)` before its first write. An exception
raised inside the `DefaultCredentialsError` clause is not caught by the
`except Exception` clause after it. -/
def openStart (env : OpenEnv) (conn : Connection) : OpenStart :=
  if conn.state = .open then .done
  else match env.first with
    | none => .build
    | some e =>
      if e.isInstance .defaultCredentialsError then
        match env.setup, env.second with
        | some x, _ => .escape x
        | none, none => .build
        | none, some x => .escape x
      else if e.isInstance .exception then .fail (.of .failedToConnectError e.text)
      else .escape e

/-- What the two writes of `open` put in the connection: the client it built and
`"open"`, or `None` and `"fail"` before raising `x`. -/
inductive Opened
  | client (k : Client)
  | failed (x : Exc)
  deriving DecidableEq, Repr

def Opened.handle : Opened → Handle
  | .client k => .client k
  | .failed _ => .none

def Opened.state : Opened → ConnState
  | .client _ => .open
  | .failed _ => .fail

def Connection.install (conn : Connection) (w : Opened) : Connection :=
  { { conn with handle := w.handle } with state := w.state }

/-- `open(connection)` run to its end with no other thread in between, as
reading a lazy handle runs it. -/
def openConn (env : OpenEnv) (pool : Pool) (conn : Connection) : Outcome :=
  match openStart env conn with
  | .done => ⟨conn, pool, none⟩
  | .build => ⟨conn.install (.client pool.next), pool.build, none⟩
  | .fail x => ⟨conn.install (.failed x), pool, some x⟩
  | .escape x => ⟨conn, pool, some x⟩

/-- Reading `connection.handle`: a lazy handle opens the connection. -/
def readHandle (env : OpenEnv) (pool : Pool) (conn : Connection) : Outcome :=
  match conn.handle with
  | .lazy => openConn env pool conn
  | _ => ⟨conn, pool, none⟩

def noCloseOn (typeName : String) : Exc :=
  .of .attributeError ("\x27" ++ typeName ++ "\x27 object has no attribute \x27close\x27")

/-- `.close()` on the handle just read. -/
def closeRead (o : Outcome) : Outcome :=
  match o.raised, o.conn.handle with
  | some _, _ => o
  | none, .client c => { o with pool := o.pool.close c }
  | none, .none => { o with raised := some (noCloseOn "NoneType") }
  | none, .lazy => { o with raised := some (noCloseOn "LazyHandle") }

/-- `connection.handle.close()`, the first statement of `close(connection)`;
`connection.state = ConnectionState.CLOSED` is the second. -/
def closeHandle (env : OpenEnv) (pool : Pool) (conn : Connection) : Outcome :=
  closeRead (readHandle env pool conn)

theorem openConn_cases (env : OpenEnv) (pool : Pool) (conn : Connection) :
    let o := openConn env pool conn
    (o.conn = conn ∧ o.pool = pool) ∨
      (o.conn = conn.install (.client pool.next) ∧ o.pool = pool.build ∧ o.raised = none) ∨
      ∃ x, o.conn = conn.install (.failed x) ∧ o.pool = pool ∧ o.raised = some x := by
  unfold openConn
  split
  · exact .inl ⟨rfl, rfl⟩
  · exact .inr (.inl ⟨rfl, rfl, rfl⟩)
  · exact .inr (.inr ⟨_, rfl, rfl, rfl⟩)
  · exact .inl ⟨rfl, rfl⟩

theorem readHandle_cases (env : OpenEnv) (pool : Pool) (conn : Connection) :
    let o := readHandle env pool conn
    (o.conn = conn ∧ o.pool = pool) ∨
      (o.conn = conn.install (.client pool.next) ∧ o.pool = pool.build ∧ o.raised = none) ∨
      ∃ x, o.conn = conn.install (.failed x) ∧ o.pool = pool ∧ o.raised = some x := by
  unfold readHandle
  split
  · exact openConn_cases env pool conn
  · exact .inl ⟨rfl, rfl⟩

@[simp] theorem readHandle_of_client {conn : Connection} {c : Client} (h : conn.handle = .client c)
    (env : OpenEnv) (pool : Pool) : readHandle env pool conn = ⟨conn, pool, none⟩ := by
  simp [readHandle, h]

theorem closeHandle_of_client {conn : Connection} {c : Client} (h : conn.handle = .client c)
    (env : OpenEnv) (pool : Pool) : closeHandle env pool conn = ⟨conn, pool.close c, none⟩ := by
  simp [closeHandle, closeRead, h]

@[simp] theorem Connection.install_name (conn : Connection) (w : Opened) :
    (conn.install w).name = conn.name := rfl

@[simp] theorem readHandle_name (env : OpenEnv) (pool : Pool) (conn : Connection) :
    (readHandle env pool conn).conn.name = conn.name := by
  rcases readHandle_cases env pool conn with ⟨h, -⟩ | ⟨h, -⟩ | ⟨_, h, -⟩ <;> simp [h]

@[simp] theorem closeRead_conn (o : Outcome) : (closeRead o).conn = o.conn := by
  unfold closeRead; split <;> rfl

@[simp] theorem closeHandle_name (env : OpenEnv) (pool : Pool) (conn : Connection) :
    (closeHandle env pool conn).conn.name = conn.name := by
  simp [closeHandle]

/-- A connection as dbt creates it: INIT, with a lazy handle. -/
def Connection.initial (name : Option String) : Connection := ⟨name, .init, .lazy⟩

theorem open_lets_credentials_failure_escape (name : Option String) (pool : Pool) (t : String)
    (x : Exc) (second : Option Exc) (env : OpenEnv) :
    openConn ⟨some (.of .defaultCredentialsError t), some x, second⟩ pool (.initial name) =
        ⟨.initial name, pool, some x⟩ ∧
      openConn ⟨some (.of .defaultCredentialsError t), none, some x⟩ pool (.initial name) =
        ⟨.initial name, pool, some x⟩ ∧
      closeHandle env pool ((Connection.initial name).install (.failed x)) =
        ⟨(Connection.initial name).install (.failed x), pool, some (noCloseOn "NoneType")⟩ :=
  ⟨rfl, rfl, rfl⟩

end DbtBigQuery
