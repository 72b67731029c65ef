import DbtBigQuery.Errors

/-!
# `exception_handler`

What reaches the caller of `_retry_and_handle` for an exception that leaves the
retry loop. `handle_error` reads `item["message"]` of every entry and joins them,
so on an entry without one, or with a message that is not a `str`, the `KeyError`
or `TypeError` it raises is what leaves the handler.
-/

namespace DbtBigQuery

def bqQueryJobSplit : String := "-----Query Job SQL Follows-----"

/-- `[item["message"] for item in errors]`. -/
def messages : List Entry → Except Exc (List Val)
  | [] => .ok []
  | item :: items =>
    match List.lookup "message" item with
    | none => .error (keyError "message")
    | some v => (v :: ·) <$> messages items

/-- The checks `"\n".join(values)` makes, item `i` onwards: every item is a `str`. -/
def strItems (i : Nat) : List Val → Except Exc (List String)
  | [] => .ok []
  | .str s :: vs => (s :: ·) <$> strItems (i + 1) vs
  | .other t :: _ =>
    .error (.of .typeError ("sequence item " ++ toString i ++ ": expected str instance, " ++ t ++
      " found"))

/-- The exception `handle_error(error, message)` raises. -/
def handleError (error : Exc) : Exc :=
  match messages error.errors >>= strItems 0 with
  | .ok lines => .of .dbtDatabaseError ("\n".intercalate lines)
  | .error x => x

/-- The remediation `exception_handler` puts before the text of a `RefreshError`. -/
def refreshErrorMessage : String :=
  "Unable to generate access token, if you\x27re using impersonate_service_account, make sure " ++
  "your initial account has the \"roles/iam.serviceAccountTokenCreator\" role on the account " ++
  "you are trying to impersonate.\n\n"

/-- `str(e)` without the query log the google library appends after
`BQ_QUERY_JOB_SPLIT`. -/
def cutQueryLog (text : String) : String :=
  match splitFirst bqQueryJobSplit.toList text.toList with
  | some before => String.mk (pyStrip before)
  | none => text

/-- The exception that leaves `exception_handler` when its body raises `e`. The
`BadRequest`, `Forbidden` and `NotFound` clauses differ only in a message that
`handle_error` does not use. -/
def exceptionHandler (e : Exc) : Exc :=
  if e.isInstanceAny [.badRequest, .forbidden, .notFound] then handleError e
  else if e.isInstance .refreshError then .of .dbtRuntimeError (refreshErrorMessage ++ e.text)
  else if !e.isInstance .exception then e
  else if e.isInstance .dbtRuntimeError then e
  else .of .dbtRuntimeError (cutQueryLog e.text)

/-- The `message` entries of `errors` when each entry has one and it is a `str`. -/
def messageTexts : List Entry → Option (List String)
  | [] => some []
  | item :: items =>
    match List.lookup "message" item with
    | some (.str s) => (s :: ·) <$> messageTexts items
    | _ => none

theorem strItems_str (i : Nat) (ss : List String) : strItems i (ss.map .str) = .ok ss := by
  induction ss generalizing i with
  | nil => rfl
  | cons s ss ih => simp [strItems, ih]

/-- `handle_error` on well-formed entries raises the joined messages. -/
theorem handleError_of_messageTexts {e : Exc} {ss : List String}
    (h : messageTexts e.errors = some ss) :
    handleError e = .of .dbtDatabaseError ("\n".intercalate ss) := by
  have hm : ∀ (es : List Entry) (ss : List String), messageTexts es = some ss →
      messages es = .ok (ss.map .str) := by
    intro es
    induction es with
    | nil => intro ss h; cases h; rfl
    | cons item items ih =>
      intro ss h
      simp only [messageTexts] at h
      split at h
      · rename_i s hs
        obtain ⟨ss', h', rfl⟩ := Option.map_eq_some'.mp h
        simp [messages, hs, ih ss' h']
      · cases h
  simp only [handleError, hm _ _ h, bind, Except.bind, strItems_str]

theorem messages_error {es : List Entry} {x : Exc} (h : messages es = .error x) :
    x = keyError "message" := by
  induction es with
  | nil => cases h
  | cons item items ih =>
    simp only [messages] at h
    split at h
    · cases h; rfl
    · cases hm : messages items <;> simp only [hm, Functor.map, Except.map] at h
      · cases h; exact ih hm
      · cases h

theorem strItems_error {i : Nat} {vs : List Val} {x : Exc} (h : strItems i vs = .error x) :
    x.bases = [.typeError] := by
  induction vs generalizing i with
  | nil => cases h
  | cons v vs ih =>
    cases v with
    | str s =>
      cases hs : strItems (i + 1) vs <;> simp only [strItems, hs, Functor.map, Except.map] at h
      · cases h; exact ih hs
      · cases h
    | other t => cases h; rfl

theorem messageTexts_of_ok {es : List Entry} {vs : List Val} {i : Nat} {ss : List String}
    (hm : messages es = .ok vs) (hs : strItems i vs = .ok ss) : messageTexts es = some ss := by
  induction es generalizing vs i ss with
  | nil => cases hm; cases hs; rfl
  | cons item items ih =>
    simp only [messages] at hm
    split at hm
    · cases hm
    · rename_i v hv
      cases hr : messages items with
      | error x => simp only [hr, Functor.map, Except.map] at hm; cases hm
      | ok vs' =>
        simp only [hr, Functor.map, Except.map, Except.ok.injEq] at hm
        subst hm
        cases v with
        | str s =>
          cases hs' : strItems (i + 1) vs' <;>
            simp only [strItems, hs', Functor.map, Except.map, Except.ok.injEq, reduceCtorEq] at hs
          subst hs
          simp [messageTexts, hv, ih hr hs']
        | other t => cases hs

/-- `handle_error` on entries that are not all `str` messages raises what the
list comprehension or the join raises: `KeyError('message')`, or a `TypeError`. -/
theorem handleError_of_malformed {e : Exc} (h : messageTexts e.errors = none) :
    handleError e = keyError "message" ∨ (handleError e).bases = [.typeError] := by
  unfold handleError
  cases hm : messages e.errors with
  | error x => exact .inl (messages_error hm)
  | ok vs =>
    cases hs : strItems 0 vs with
    | error x => exact .inr (by simpa [hm, hs, bind, Except.bind] using strItems_error hs)
    | ok ss => cases h.symm.trans (messageTexts_of_ok hm hs)

/-- The translation of an exception `y` leaving the retry loop into the exception
`x` the caller receives, class by class: for `BadRequest`, `Forbidden` and
`NotFound` the joined messages, or what `handle_error` itself raises on entries
that are not all `str` messages; the remediation for a `RefreshError`; `y` itself
for a `DbtRuntimeError` or a bare `BaseException`; otherwise `str(y)` without the
query log. -/
def Translated (y x : Exc) : Prop :=
  if y.isInstanceAny [.badRequest, .forbidden, .notFound] then
    match messageTexts y.errors with
    | some ss => x = .of .dbtDatabaseError ("\n".intercalate ss)
    | none => x = keyError "message" ∨ x.bases = [.typeError]
  else if y.isInstance .refreshError then x = .of .dbtRuntimeError (refreshErrorMessage ++ y.text)
  else if y.isInstance .exception = false ∨ y.isInstance .dbtRuntimeError then x = y
  else x = .of .dbtRuntimeError (cutQueryLog y.text)

/-- A bare `BaseException` passes `exception_handler` unchanged. -/
theorem exceptionHandler_of_not_exception {e : Exc} (h : e.isInstance .exception = false) :
    exceptionHandler e = e := by
  have hsub : ∀ c, c ≠ .keyboardInterrupt → e.isInstance c = false := fun c hc => by
    cases hi : e.isInstance c
    · rfl
    · rw [Exc.isInstance_exception hi hc] at h; cases h
  have hany : e.isInstanceAny [.badRequest, .forbidden, .notFound] = false := by
    simp [Exc.isInstanceAny, hsub]
  simp [exceptionHandler, hany, hsub, h]

theorem translated_exceptionHandler (y : Exc) : Translated y (exceptionHandler y) := by
  unfold Translated exceptionHandler
  split
  · split
    · exact handleError_of_messageTexts ‹_›
    · exact handleError_of_malformed ‹_›
  · split
    · rfl
    · cases hx : y.isInstance .exception <;> cases hd : y.isInstance .dbtRuntimeError <;> simp

end DbtBigQuery
