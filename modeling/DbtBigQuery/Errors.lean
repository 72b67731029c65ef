import DbtBigQuery.Text

/-!
# Exceptions and their classification

The exceptions `connections.py` catches, tests with `isinstance` or raises. A
raised value names the classes its own class derives from, so a caller's
subclass of any of them (or of several) is an exception like any other, and
`isinstance` follows each named class up to its ancestors. `RETRYABLE_ERRORS`,
`REOPENABLE_ERRORS`, `_is_retryable` and `_ErrorCounter.count_error` are
translated over this hierarchy; `_is_retryable` can itself raise, as the code's
`e["reason"]` does on an entry without that key.
-/

namespace DbtBigQuery

instance decEqExcept {ε α : Type} [DecidableEq ε] [DecidableEq α] : DecidableEq (Except ε α)
  | .ok a, .ok b => decidable_of_iff (a = b) ⟨congrArg _, Except.ok.inj⟩
  | .error a, .error b => decidable_of_iff (a = b) ⟨congrArg _, Except.error.inj⟩
  | .ok _, .error _ => isFalse nofun
  | .error _, .ok _ => isFalse nofun

inductive Val
  | str (s : String)
  | other (typeName : String)
  deriving DecidableEq, Repr

/-- One entry of `e.errors`, a string-keyed map; `List.lookup` is `entry[key]`. -/
abbrev Entry := List (String × Val)

/-- The classes the module names. `exception` is Python's `Exception`; a value
none of whose classes derives from it (`KeyboardInterrupt`) is a bare
`BaseException`, which no `except Exception` clause catches. -/
inductive Cls
  | exception
  | serverError | badGateway | badRequest | forbidden | notFound
  | connectionResetError | requestsConnectionError
  | timeoutError | refreshError | defaultCredentialsError
  | dbtRuntimeError | dbtDatabaseError | failedToConnectError
  | retryError | keyError | attributeError | typeError
  | overflowError | recursionError
  | keyboardInterrupt
  deriving DecidableEq, Repr

def Cls.ancestors : Cls → List Cls
  | .exception => [.exception]
  | .keyboardInterrupt => [.keyboardInterrupt]
  | .badGateway => [.badGateway, .serverError, .exception]
  | .dbtDatabaseError => [.dbtDatabaseError, .dbtRuntimeError, .exception]
  | .failedToConnectError => [.failedToConnectError, .dbtDatabaseError, .dbtRuntimeError, .exception]
  | c => [c, .exception]

/-- A raised value: the classes its class derives from, `str(e)` (a dbt error's
`msg`), and `e.errors` for the google API errors. -/
structure Exc where
  bases : List Cls
  text : String
  errors : List Entry
  deriving DecidableEq, Repr

def Exc.of (c : Cls) (text : String) : Exc := ⟨[c], text, []⟩

def Exc.isInstance (e : Exc) (c : Cls) : Bool := e.bases.any fun b => b.ancestors.contains c

def Exc.isInstanceAny (e : Exc) (cs : List Cls) : Bool := cs.any e.isInstance

/-- `KeyError(key)`, whose `str` is the key's repr. -/
def keyError (key : String) : Exc := .of .keyError ("\x27" ++ key ++ "\x27")

def reopenableErrors : List Cls := [.connectionResetError, .requestsConnectionError]

def retryableErrors : List Cls :=
  [.serverError, .badRequest, .badGateway, .connectionResetError, .requestsConnectionError]

/-- `any(e["reason"] == "rateLimitExceeded" for e in errors)`: it stops at the
first match, and an entry without `reason` met before one raises `KeyError`. -/
def anyRateLimitExceeded : List Entry → Except Exc Bool
  | [] => .ok false
  | e :: es =>
    match List.lookup "reason" e with
    | none => .error (keyError "reason")
    | some v => if v = .str "rateLimitExceeded" then .ok true else anyRateLimitExceeded es

def isRetryable (error : Exc) : Except Exc Bool :=
  if error.isInstanceAny retryableErrors then .ok true
  else if error.isInstance .forbidden then anyRateLimitExceeded error.errors
  else .ok false

structure ErrorCounter where
  retries : Int
  errorCount : Nat
  deriving DecidableEq, Repr

def ErrorCounter.new (retries : Int) : ErrorCounter := ⟨retries, 0⟩

/-- `count_error(error)`: the answer and the counter after it, or what
`_is_retryable` raised. The counter counts every error it is asked about once
`retries` is nonzero, accepted or not. -/
def ErrorCounter.countError (c : ErrorCounter) (error : Exc) : Except Exc (Bool × ErrorCounter) :=
  if c.retries = 0 then .ok (false, c)
  else
    let c' : ErrorCounter := { c with errorCount := c.errorCount + 1 }
    match isRetryable error with
    | .error x => .error x
    | .ok r => .ok (r && decide ((c'.errorCount : Int) ≤ c.retries), c')

theorem isInstance_of_mem_ancestors {e : Exc} {b c : Cls} (hb : b ∈ e.bases)
    (hc : c ∈ b.ancestors) : e.isInstance c = true :=
  List.any_eq_true.mpr ⟨b, hb, List.elem_iff.mpr hc⟩

theorem Cls.exception_mem_ancestors {b c : Cls} (hc : c ∈ b.ancestors)
    (hk : c ≠ .keyboardInterrupt) : .exception ∈ b.ancestors := by
  cases b <;> simp_all [Cls.ancestors]

theorem Exc.isInstance_exception {e : Exc} {c : Cls} (h : e.isInstance c = true)
    (hc : c ≠ .keyboardInterrupt) : e.isInstance .exception = true := by
  obtain ⟨b, hb, hcb⟩ := List.any_eq_true.mp h
  exact isInstance_of_mem_ancestors hb (Cls.exception_mem_ancestors (List.elem_iff.mp hcb) hc)

theorem isRetryable_error {e x : Exc} (h : isRetryable e = .error x) : x = keyError "reason" := by
  have any : ∀ es : List Entry, anyRateLimitExceeded es = .error x → x = keyError "reason" := by
    intro es
    induction es with
    | nil => intro h; cases h
    | cons e es ih =>
      intro h
      simp only [anyRateLimitExceeded] at h
      split at h
      · cases h; rfl
      · split at h
        · cases h
        · exact ih h
  unfold isRetryable at h
  split at h
  · cases h
  · split at h
    · exact any _ h
    · cases h

theorem isRetryable_of_retryableErrors {e : Exc} (h : e.isInstanceAny retryableErrors = true) :
    isRetryable e = .ok true := by
  simp [isRetryable, h]

theorem isRetryable_of_not_forbidden {e : Exc} (h : e.isInstanceAny retryableErrors = false)
    (hf : e.isInstance .forbidden = false) : isRetryable e = .ok false := by
  simp [isRetryable, h, hf]

/-- What an accepted error says: retries are on, the error is retryable, and
counting it kept the count within `retries`. -/
theorem countError_accepts {c c' : ErrorCounter} {e : Exc}
    (h : c.countError e = .ok (true, c')) :
    c.retries ≠ 0 ∧ isRetryable e = .ok true ∧ c'.retries = c.retries ∧
      c'.errorCount = c.errorCount + 1 ∧ (c'.errorCount : Int) ≤ c.retries := by
  unfold ErrorCounter.countError at h
  split at h
  · cases h
  · split at h
    · cases h
    · rename_i r hr
      simp only [Except.ok.injEq, Prod.mk.injEq, Bool.and_eq_true, decide_eq_true_eq] at h
      obtain ⟨⟨rfl, hle⟩, rfl⟩ := h
      exact ⟨by assumption, hr, rfl, rfl, hle⟩

theorem countError_of_retries_zero {c : ErrorCounter} (h : c.retries = 0) (e : Exc) :
    c.countError e = .ok (false, c) := by
  simp [ErrorCounter.countError, h]

theorem countError_error {c : ErrorCounter} {e x : Exc} (h : c.countError e = .error x) :
    c.retries ≠ 0 ∧ isRetryable e = .error x := by
  unfold ErrorCounter.countError at h
  split at h
  · cases h
  · split at h
    · cases h; exact ⟨by assumption, by assumption⟩
    · cases h

theorem countError_retries {c c' : ErrorCounter} {e : Exc} {b : Bool}
    (h : c.countError e = .ok (b, c')) : c'.retries = c.retries := by
  unfold ErrorCounter.countError at h
  split at h
  · cases h; rfl
  · split at h
    · cases h
    · cases h; rfl

end DbtBigQuery
