import DbtBigQuery.Binary64

/-!
# Adapter responses

`format_bytes` and `format_rows_number` over Python floats, and the
`BigQueryAdapterResponse`s that `execute` and `dry_run` build from a finished
query job.

* `forUnits_eq`: the unit loop prints the value divided `k` times, with the
  `k`-th unit, for the first `k` at which it is small, or multiplied back with
  the last unit once the units run out; `forUnits_exact` when the divisor is a
  power of two, as `1024.0` is;
* `format_rounds_as_binary64`: what the two functions print, with the rounding
  to one decimal stated on the exact value printed;
* `bytesProcessed_agree_iff`: `dry_run` reports `format_bytes` of the count,
  `execute` the count itself.
-/

namespace DbtBigQuery

/-- The `for unit in units` loop of `format_bytes` and `format_rows_number`, from
`unit` on, over a float: `x` is printed with the first unit at which it is below
`base` in size, and divided by `base` otherwise; after the last unit it is
multiplied back and printed with that unit. -/
def forUnits (base : ℕ) (render : Binary64 → String → String) : String → List String → Binary64 → String
  | unit, [], x => if x.absLt base then render x unit else render ((x.div base).mul base) unit
  | unit, u :: units, x =>
    if x.absLt base then render x unit else forUnits base render u units (x.div base)

/-- A value as Python holds it in a response field: `None`, an `int` or a `str`. -/
inductive PyVal
  | none
  | int (n : ℤ)
  | str (s : String)
  deriving DecidableEq, Repr

def PyVal.format : PyVal → String
  | .none => "None"
  | .int n => toString n
  | .str s => s

def bytesText (x : Binary64) (unit : String) : String := fmt31 x ++ " " ++ unit

def rowsText (x : Binary64) (unit : String) : String := String.mk (pyStrip (fmt31 x ++ unit).toList)

/-- `format_bytes(num_bytes)`: a falsy count (`0` or `None`) comes back as it is.
The first test is on the `int`; the first division converts it with `float`. -/
def formatBytes : Option ℤ → Except Exc PyVal
  | some n =>
    if n ≠ 0 then
      if |n| < 1024 then .ok (.str (bytesText (.ofInt n) "Bytes"))
      else (floatOfInt n).map fun x =>
        .str (forUnits 1024 bytesText "KiB" ["MiB", "GiB", "TiB", "PiB"] (x.div 1024))
    else .ok (.int 0)
  | none => .ok .none

def formatRowsNumber (rowsNumber : ℤ) : Except Exc String :=
  if |rowsNumber| < 1000 then .ok (rowsText (.ofInt rowsNumber) "")
  else (floatOfInt rowsNumber).map fun x => forUnits 1000 rowsText "k" ["m", "b", "t"] (x.div 1000)

def byteUnits : List String := ["Bytes", "KiB", "MiB", "GiB", "TiB", "PiB"]

def rowUnits : List String := ["", "k", "m", "b", "t"]

/-- Where the unit loop stops: the least `k < count` at which `x` divided `k`
times by `base` is below `base` in size. -/
def unitStop (base : ℕ) (x : Binary64) (count : ℕ) : Option ℕ :=
  (List.range count).find? fun k => ((·.div base)^[k] x).absLt base

theorem unitStop_succ (base : ℕ) (x : Binary64) (c : ℕ) :
    unitStop base x (c + 2) =
      if x.absLt base then some 0 else (unitStop base (x.div base) (c + 1)).map (· + 1) := by
  have hp : ((fun k => ((·.div base)^[k] x).absLt base) ∘ Nat.succ) =
      fun k => ((·.div base)^[k] (x.div base)).absLt base := by
    funext k
    simp only [Function.comp, Function.iterate_succ_apply]
  simp only [unitStop, List.range_succ_eq_map (c + 1), List.find?_cons, Function.iterate_zero_apply,
    List.find?_map, hp]
  cases x.absLt base <;> rfl

/-- The unit loop prints `x` divided `k` times with the `k`-th unit, `k` where it
stops, or the value multiplied back with the last unit. -/
theorem forUnits_eq (base : ℕ) (render : Binary64 → String → String) (unit : String)
    (units : List String) (x : Binary64) :
    forUnits base render unit units x =
      match unitStop base x (units.length + 1) with
      | some k => render ((·.div base)^[k] x) ((unit :: units).getD k "")
      | none => render (((·.div base)^[units.length + 1] x).mul base) ((unit :: units).getD units.length "") := by
  induction units generalizing unit x with
  | nil =>
    simp only [forUnits, unitStop, List.length_nil, show List.range (0 + 1) = [0] from rfl,
      List.find?_cons, Function.iterate_zero_apply, List.find?_nil, Function.iterate_one]
    cases x.absLt base <;> rfl
  | cons u units ih =>
    rw [forUnits, List.length_cons, unitStop_succ]
    split
    · rfl
    · rw [ih]
      cases unitStop base (x.div base) (units.length + 1) <;> rfl

/-- The unit a magnitude `x` is printed in, as exact arithmetic has it: the least
`k < count` with `|x| < base ^ (k + 1)`, and `count - 1` when there is none. -/
def unitIndex (base x : ℚ) (count : ℕ) : ℕ :=
  ((List.range count).find? fun k => |x| < base ^ (k + 1)).getD (count - 1)

theorem unitIndex_one (base x : ℚ) : unitIndex base x 1 = 0 := by
  simp only [unitIndex, show List.range 1 = [0] from rfl, List.find?_cons, List.find?_nil]
  split <;> rfl

theorem unitIndex_succ {base : ℚ} (hb : 0 < base) (x : ℚ) (c : ℕ) :
    unitIndex base x (c + 2) = if |x| < base then 0 else unitIndex base (x / base) (c + 1) + 1 := by
  have hp : ((fun k => decide (|x| < base ^ (k + 1))) ∘ Nat.succ) =
      fun k => decide (|x / base| < base ^ (k + 1)) := by
    funext k
    simp only [Function.comp, abs_div, abs_of_pos hb, div_lt_iff₀ hb, pow_succ base (k + 1)]
  simp only [unitIndex, List.range_succ_eq_map (c + 1), List.find?_cons, zero_add, pow_one,
    List.find?_map, hp]
  split <;> rename_i h <;> simp only [decide_eq_true_eq, decide_eq_false_iff_not] at h
  · rw [if_pos h]; rfl
  · rw [if_neg h, show c + 2 - 1 = Nat.succ c from rfl, Option.getD_map, Nat.add_sub_cancel]

/-- Dividing by `1024.0` is exact, so the loop prints `x / 1024 ^ k` with the
`k`-th unit, `k` the unit index of the value of `x`. -/
theorem forUnits_exact (render : Binary64 → String → String) (unit : String) (units : List String)
    {x : Binary64} (hx : 0 < x.mant) :
    ∃ y : Binary64, y.val = x.val / 1024 ^ unitIndex 1024 x.val (units.length + 1) ∧
      forUnits 1024 render unit units x =
        render y ((unit :: units).getD (unitIndex 1024 x.val (units.length + 1)) "") := by
  have hdiv : ∀ {y : Binary64}, 0 < y.mant → (y.div 1024).val = y.val / 1024 ∧ 0 < (y.div 1024).mant :=
    fun hy => by simpa using Binary64.div_pow_two hy 10
  induction units generalizing unit x with
  | nil =>
    rw [List.length_nil, Nat.zero_add, unitIndex_one, pow_zero, div_one]
    simp only [forUnits]
    split
    · exact ⟨x, rfl, rfl⟩
    · obtain ⟨hv, hm⟩ := hdiv hx
      refine ⟨_, ?_, rfl⟩
      have hmul := Binary64.mul_pow_two hm 10
      norm_num at hmul
      rw [hmul, hv]
      ring
  | cons u units ih =>
    rw [List.length_cons, unitIndex_succ (by norm_num)]
    simp only [forUnits, Binary64.absLt_iff x 1024]
    split
    · rename_i h
      rw [if_pos (by exact_mod_cast h)]
      exact ⟨x, by simp, rfl⟩
    · rename_i h
      rw [if_neg (by exact_mod_cast h)]
      obtain ⟨hv, hm⟩ := hdiv hx
      obtain ⟨y, hy, he⟩ := ih u hm
      refine ⟨y, ?_, ?_⟩
      · rw [hy, hv, pow_succ', div_div]
      · rw [he, hv]
        norm_num

theorem floatOfInt_of_lt {n : ℤ} (h : |n| < 2 ^ 53) : floatOfInt n = .ok (.ofInt n) := by
  have : ¬ (2 : ℚ) ^ 1024 ≤ |(Binary64.ofInt n).val| := by
    rw [Binary64.ofInt_val_of_lt h, not_le]
    have : (|n| : ℚ) < 2 ^ 53 := by exact_mod_cast h
    calc |(n : ℚ)| < 2 ^ 53 := this
      _ < 2 ^ 1024 := by norm_num
  rw [floatOfInt, if_neg (by rwa [Binary64.overflows_iff])]

theorem floatOfInt_of_overflow {n : ℤ} (h : 2 ^ 1024 ≤ |(Binary64.ofInt n).val|) :
    floatOfInt n = .error intTooLarge := by
  rw [floatOfInt, if_pos ((Binary64.overflows_iff _).mpr h)]

theorem formatBytes_of_ne_zero {n : ℤ} (hn : n ≠ 0) :
    formatBytes (some n) =
      (floatOfInt n).map fun x => .str (forUnits 1024 bytesText "Bytes" ["KiB", "MiB", "GiB", "TiB", "PiB"] x) := by
  rw [formatBytes, if_pos hn]
  split
  · rename_i h
    rw [floatOfInt_of_lt (lt_trans h (by norm_num))]
    simp only [Except.map, forUnits, Binary64.ofInt_absLt n (by norm_num : 1024 ≤ 2 ^ 53),
      decide_eq_true (by exact_mod_cast h : |n| < ((1024 : ℕ) : ℤ)), if_true]
  · rename_i h
    unfold floatOfInt
    split
    · rfl
    · simp only [Except.map, forUnits, Binary64.ofInt_absLt n (by norm_num : 1024 ≤ 2 ^ 53),
        decide_eq_false (by exact_mod_cast h : ¬ |n| < ((1024 : ℕ) : ℤ)), Bool.false_eq_true, if_false]

theorem formatRowsNumber_eq (n : ℤ) :
    formatRowsNumber n = (floatOfInt n).map (forUnits 1000 rowsText "" ["k", "m", "b", "t"]) := by
  rw [formatRowsNumber]
  split
  · rename_i h
    rw [floatOfInt_of_lt (lt_trans h (by norm_num))]
    simp only [Except.map, forUnits, Binary64.ofInt_absLt n (by norm_num : 1000 ≤ 2 ^ 53),
      decide_eq_true (by exact_mod_cast h : |n| < ((1000 : ℕ) : ℤ)), if_true]
  · rename_i h
    unfold floatOfInt
    split
    · rfl
    · simp only [Except.map, forUnits, Binary64.ofInt_absLt n (by norm_num : 1000 ≤ 2 ^ 53),
        decide_eq_false (by exact_mod_cast h : ¬ |n| < ((1000 : ℕ) : ℤ)), Bool.false_eq_true, if_false]

/-- The float the rows loop prints, and the index of its unit. -/
def rowsPrinted (x : Binary64) : Binary64 × ℕ :=
  match unitStop 1000 x 5 with
  | some k => ((·.div 1000)^[k] x, k)
  | none => (((·.div 1000)^[5] x).mul 1000, 4)

theorem formatRowsNumber_closed_form (n : ℤ) :
    formatRowsNumber n =
      (floatOfInt n).map fun x => rowsText (rowsPrinted x).1 (rowUnits.getD (rowsPrinted x).2 "") := by
  rw [formatRowsNumber_eq]
  congr 1
  funext x
  rw [forUnits_eq]
  simp only [List.length_cons, List.length_nil, Nat.zero_add, Nat.reduceAdd, rowsPrinted, rowUnits]
  cases unitStop 1000 x 5 <;> rfl

theorem formatBytes_closed_form {n : ℤ} (hn : n ≠ 0) (ho : |(Binary64.ofInt n).val| < 2 ^ 1024) :
    ∃ y : Binary64, y.val = (Binary64.ofInt n).val / 1024 ^ unitIndex 1024 (Binary64.ofInt n).val 6 ∧
      formatBytes (some n) =
        .ok (.str (bytesText y (byteUnits.getD (unitIndex 1024 (Binary64.ofInt n).val 6) ""))) := by
  have hf : floatOfInt n = .ok (.ofInt n) := by
    rw [floatOfInt, if_neg (by rw [Binary64.overflows_iff]; exact not_le.mpr ho)]
  have hm : 0 < (Binary64.ofInt n).mant :=
    Binary64.round_mant_pos (Int.natAbs_pos.mpr hn) one_pos _ _
  obtain ⟨y, hy, he⟩ := forUnits_exact bytesText "Bytes" ["KiB", "MiB", "GiB", "TiB", "PiB"] hm
  refine ⟨y, hy, ?_⟩
  rw [formatBytes_of_ne_zero hn, hf]
  simp only [Except.map, he]
  rfl

/-- What `format_bytes` and `format_rows_number` print, computing over Python
floats: `float(n)` (exactly `n` below `2 ** 53`) raises `OverflowError` from
`2 ** 1024` on; otherwise `format_bytes` prints `float(n) / 1024 ^ k` rounded to
one decimal with the `k`-th unit, `k` the unit index of `float(n)`, and
`format_rows_number` prints the float its loop reaches by rounded divisions by
`1000.0`, rounded to one decimal, with its unit. -/
theorem format_rounds_as_binary64 (n : ℤ) :
    (|n| < 2 ^ 53 → (Binary64.ofInt n).val = n) ∧
      (2 ^ 1024 ≤ |(Binary64.ofInt n).val| →
        formatBytes (some n) = .error intTooLarge ∧ formatRowsNumber n = .error intTooLarge) ∧
      (|(Binary64.ofInt n).val| < 2 ^ 1024 →
        (n ≠ 0 → ∃ s, OneDecimal ((Binary64.ofInt n).val / 1024 ^ unitIndex 1024 (Binary64.ofInt n).val 6) s ∧
          formatBytes (some n) =
            .ok (.str (s ++ " " ++ byteUnits.getD (unitIndex 1024 (Binary64.ofInt n).val 6) ""))) ∧
        ∃ s, OneDecimal (rowsPrinted (Binary64.ofInt n)).1.val s ∧
          formatRowsNumber n =
            .ok (String.mk (pyStrip (s ++ rowUnits.getD (rowsPrinted (Binary64.ofInt n)).2 "").toList))) := by
  refine ⟨Binary64.ofInt_val_of_lt, fun ho => ?_, fun ho => ⟨fun hn => ?_, ?_⟩⟩
  · have hn : n ≠ 0 := by
      rintro rfl
      norm_num [Binary64.ofInt, Binary64.round_of_zero] at ho
    rw [formatBytes_of_ne_zero hn, formatRowsNumber_eq, floatOfInt_of_overflow ho]
    exact ⟨rfl, rfl⟩
  · obtain ⟨y, hy, he⟩ := formatBytes_closed_form hn ho
    exact ⟨fmt31 y, hy ▸ fmt31_spec y, he⟩
  · have hf : floatOfInt n = .ok (.ofInt n) := by
      rw [floatOfInt, if_neg (by rw [Binary64.overflows_iff]; exact not_le.mpr ho)]
    refine ⟨_, fmt31_spec _, ?_⟩
    rw [formatRowsNumber_closed_form, hf]
    rfl

theorem OneDecimal.eq_of_nearest {v : ℚ} {N : ℕ} (hN : NearestEven (10 * |v|) N) (hv : 0 ≤ v)
    {s : String} (h : OneDecimal v s) : s = pad3 (decimalText false N) :=
  h.unique ⟨N, hN, by rw [decide_eq_false (not_lt.mpr hv)]⟩

theorem format_rounds_as_binary64_at_1050 :
    |(Binary64.ofInt 1050).val| < 2 ^ 1024 ∧
      ∃ s, OneDecimal (rowsPrinted (Binary64.ofInt 1050)).1.val s ∧
        formatRowsNumber 1050 =
          .ok (String.mk (pyStrip (s ++ rowUnits.getD (rowsPrinted (Binary64.ofInt 1050)).2 "").toList)) :=
  have h : |(Binary64.ofInt 1050).val| < 2 ^ 1024 := by
    rw [Binary64.ofInt_val_of_lt (by norm_num)]; norm_num
  ⟨h, ((format_rounds_as_binary64 1050).2.2 h).2⟩

/-- Exact arithmetic rounds `1050 / 1000 = 1.05` and `1150 / 1000 = 1.15` half to
even, to `1.0` and `1.2`; the float quotients lie just above and just below, and
print `1.1k` both. `float(9063494250083123)` rounds up past `8.05 * 2 ** 50`, so
the count prints as `8.1 PiB` where exact division gives `8.0`. `2 ** 1024`
raises. -/
theorem format_exact_rounding_fails :
    formatRowsNumber 1050 = .ok "1.1k" ∧ (∀ s, OneDecimal (1050 / 1000) s → s = "1.0") ∧
      formatRowsNumber 1150 = .ok "1.1k" ∧ (∀ s, OneDecimal (1150 / 1000) s → s = "1.2") ∧
      formatBytes (some 9063494250083123) = .ok (.str "8.1 PiB") ∧
      (∀ s, OneDecimal (9063494250083123 / 1024 ^ 5) s → s = "8.0") ∧
      formatBytes (some (2 ^ 1024)) = .error intTooLarge := by
  refine ⟨by decide, fun s h => ?_, by decide, fun s h => ?_, by decide, fun s h => ?_, ?_⟩
  · exact (h.eq_of_nearest (N := 10) (.inr ⟨by norm_num [abs_of_pos, abs_of_neg], rfl⟩) (by norm_num)).trans (by decide)
  · exact (h.eq_of_nearest (N := 12) (.inr ⟨by norm_num [abs_of_pos, abs_of_neg], rfl⟩) (by norm_num)).trans (by decide)
  · exact (h.eq_of_nearest (N := 80) (.inl (by norm_num [abs_of_pos, abs_of_neg])) (by norm_num)).trans (by decide)
  · rw [formatBytes_of_ne_zero (by positivity),
      floatOfInt_of_overflow (by rw [Binary64.ofInt_two_pow_val]; norm_num)]
    rfl

/-! ## Responses -/

structure QueryJob where
  statementType : Option String
  totalBytesProcessed : Option ℤ
  totalBytesBilled : Option ℤ
  slotMillis : Option ℤ
  location : Option String
  project : Option String
  jobId : Option String
  numDmlAffectedRows : Option ℤ
  /-- `num_rows` of `client.get_table(query_job.destination)`. -/
  destinationRows : Option ℤ
  deriving DecidableEq, Repr

/-- `BigQueryAdapterResponse`. `bytes_processed` is declared `Optional[int]`, but
holds whatever the builder puts there. -/
structure AdapterResponse where
  message : String
  code : Option String
  rowsAffected : Option ℤ
  bytesProcessed : PyVal
  bytesBilled : Option ℤ
  location : Option String
  projectId : Option String
  jobId : Option String
  slotMs : Option ℤ
  deriving DecidableEq, Repr

def PyVal.ofOption : Option ℤ → PyVal
  | .some n => .int n
  | .none => .none

def optStr : Option String → String
  | some s => s
  | none => "None"

def executeCode (j : QueryJob) : Option String × Option ℤ :=
  if j.statementType = some "CREATE_VIEW" then (some "CREATE VIEW", none)
  else if j.statementType = some "CREATE_TABLE_AS_SELECT" then (some "CREATE TABLE", j.destinationRows)
  else if j.statementType = some "SCRIPT" then (some "SCRIPT", none)
  else if j.statementType ∈ [some "INSERT", some "DELETE", some "MERGE", some "UPDATE"] then
    (j.statementType, j.numDmlAffectedRows)
  else if j.statementType = some "SELECT" then (some "SELECT", j.destinationRows)
  else (none, none)

/-- The message `execute` builds: `format_bytes` first, then `format_rows_number`
when there is a row count. -/
def executeMessage (j : QueryJob) : Except Exc String := do
  let processedBytes ← formatBytes j.totalBytesProcessed
  match (executeCode j).2 with
  | some r =>
    let rows ← formatRowsNumber r
    pure (optStr (executeCode j).1 ++ " (" ++ rows ++ " rows, " ++ processedBytes.format ++ " processed)")
  | none =>
    pure (if j.totalBytesProcessed.isSome then
      optStr (executeCode j).1 ++ " (" ++ processedBytes.format ++ " processed)"
    else optStr (executeCode j).1)

def executeResponse (j : QueryJob) : Except Exc AdapterResponse :=
  (executeMessage j).map fun message =>
    ⟨message, (executeCode j).1, (executeCode j).2, .ofOption j.totalBytesProcessed, j.totalBytesBilled,
      j.location, j.project, j.jobId, j.slotMillis⟩

def dryRunResponse (j : QueryJob) : Except Exc AdapterResponse :=
  (formatBytes j.totalBytesProcessed).map fun processedBytes =>
    ⟨"Ran dry run query for statement of type " ++ optStr j.statementType, some "DRY RUN", none,
      processedBytes, j.totalBytesBilled, j.location, j.project, j.jobId, j.slotMillis⟩

theorem map_eq_ok {ε α β : Type} {e : Except ε α} {f : α → β} {b : β} (h : e.map f = .ok b) :
    ∃ a, e = .ok a ∧ f a = b := by
  cases e with
  | error _ => cases h
  | ok a => exact ⟨a, rfl, Except.ok.inj h⟩

theorem formatBytes_eq_ofOption_iff {x : Option ℤ} {v : PyVal} (h : formatBytes x = .ok v) :
    v = .ofOption x ↔ x = some 0 ∨ x = none := by
  rcases x with _ | n
  · cases h; simp [PyVal.ofOption]
  by_cases hn : n = 0
  · subst hn; cases h; simp [PyVal.ofOption]
  · rw [formatBytes_of_ne_zero hn] at h
    obtain ⟨_, -, rfl⟩ := map_eq_ok h
    simp [PyVal.ofOption, hn]

/-- Whenever both succeed, `dry_run` and `execute` report the same
`bytes_processed` exactly when the job's count is `0` or `None`. -/
theorem bytesProcessed_agree_iff (j : QueryJob) {r r' : AdapterResponse}
    (hd : dryRunResponse j = .ok r) (he : executeResponse j = .ok r') :
    r.bytesProcessed = r'.bytesProcessed ↔
      j.totalBytesProcessed = some 0 ∨ j.totalBytesProcessed = none := by
  obtain ⟨v, hv, rfl⟩ := map_eq_ok hd
  obtain ⟨_, -, rfl⟩ := map_eq_ok he
  exact formatBytes_eq_ofOption_iff hv

def selectJob : QueryJob :=
  ⟨some "SELECT", some 2048, some 10485760, some 12, some "US", some "analytics", some "job_1",
    none, some 3⟩

theorem dry_run_bytes_processed_formatted :
    (dryRunResponse selectJob).map (·.bytesProcessed) = .ok (.str "2.0 KiB") ∧
      (executeResponse selectJob).map (·.bytesProcessed) = .ok (.int 2048) := by
  decide

end DbtBigQuery
