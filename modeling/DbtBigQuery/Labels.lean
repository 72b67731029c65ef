import Mathlib.Data.List.Nodup
import DbtBigQuery.Errors

/-!
# Job labels from the query comment

`_labels_from_query_comment` parses the comment with `json.loads` and sanitizes
every key and value with `_sanitize_label`, or sanitizes the whole comment when
it is not JSON. `json.loads` is modelled after CPython's scanner: whitespace,
the literals, numbers with their backtracking exponent, strings with escapes and
surrogate pairs, and arrays and objects (a `dict`: a repeated key keeps its first
place and its last value), each entered only while the recursion limit leaves
room. `str()` of a decoded value is left abstract, and so is the room, which
depends on the interpreter and on how deep its stack already is.

* `jsonLoads_total`: the scanner never runs out of fuel, so `jsonLoads` is
  `json.loads` on every input;
* `rawExecuteLabels_nested`: a comment nested deeper than the room raises
  `RecursionError` out of `raw_execute`;
* `labels_legal`: whatever `_labels_from_query_comment` returns has distinct
  keys, each key and value short and in `[a-z0-9_-]`; a JSON document that is
  not an object makes it raise instead;
* `job_label_lookup`: what a job's labels hold under each key, when the comment
  is a JSON object: the invocation id under `dbt_invocation_id`, and elsewhere
  the value of the last member whose key sanitizes to that key.
-/

namespace DbtBigQuery

/-- A code point of a Python `str`: a Unicode scalar value, or a lone surrogate,
which `json.loads` makes of an unpaired `\uD800`..`\uDFFF` escape and a Lean
`Char` cannot hold. -/
inductive PyChar
  | char (c : Char)
  | surrogate (n : Nat)
  deriving DecidableEq, Repr

/-- The code point `n` as `json.loads` stores it. -/
def PyChar.ofNat (n : Nat) : PyChar :=
  if 0xD800 ≤ n ∧ n < 0xE000 then .surrogate n else .char (Char.ofNat n)

/-- What `json.loads` returns. A float keeps the text it was read from, which
determines it. -/
inductive JsonVal
  | null
  | bool (b : Bool)
  | int (n : ℤ)
  | float (lexeme : String)
  | str (s : List PyChar)
  | arr (items : List JsonVal)
  | obj (members : List (List PyChar × JsonVal))
  deriving Repr

/-- `type(v).__name__`. -/
def JsonVal.typeName : JsonVal → String
  | .null => "NoneType"
  | .bool _ => "bool"
  | .int _ => "int"
  | .float _ => "float"
  | .str _ => "str"
  | .arr _ => "list"
  | .obj _ => "dict"

/-- `d[k] = v` on a `dict` kept as its items in order. -/
def dictSet {α β : Type} [DecidableEq α] (d : List (α × β)) (k : α) (v : β) : List (α × β) :=
  if d.any (·.1 = k) then d.map fun p => if p.1 = k then (k, v) else p else d ++ [(k, v)]

theorem dictSet_keys {α β : Type} [DecidableEq α] (d : List (α × β)) (k : α) (v : β) :
    (dictSet d k v).map Prod.fst = if d.any (·.1 = k) then d.map Prod.fst else d.map Prod.fst ++ [k] := by
  unfold dictSet
  split
  · simp only [List.map_map]
    congr 1
    funext p
    by_cases h : p.1 = k <;> simp [h]
  · simp

theorem mem_dictSet {α β : Type} [DecidableEq α] {d : List (α × β)} {k : α} {v : β} {p : α × β}
    (h : p ∈ dictSet d k v) : p ∈ d ∨ p = (k, v) := by
  unfold dictSet at h
  split at h
  · obtain ⟨q, hq, rfl⟩ := List.mem_map.mp h
    split
    · exact .inr rfl
    · exact .inl hq
  · simpa using h

/-- `d.get(k)` on a `dict` kept as its items in order. -/
def dictGet {α β : Type} [DecidableEq α] (d : List (α × β)) (k : α) : Option β :=
  (d.find? (·.1 = k)).map Prod.snd

/-- `d[k] = v` then `d.get(k')`: the new value under `k`, the old one elsewhere. -/
theorem dictGet_dictSet {α β : Type} [DecidableEq α] (d : List (α × β)) (k k' : α) (v : β) :
    dictGet (dictSet d k v) k' = if k' = k then some v else dictGet d k' := by
  unfold dictGet dictSet
  split
  · rename_i hany
    have hcomp : ((fun q : α × β => decide (q.1 = k')) ∘ fun p => if p.1 = k then (k, v) else p) =
        fun q => decide (q.1 = k') := by
      funext p
      by_cases hp : p.1 = k <;> simp [hp]
    rw [List.find?_map, hcomp]
    split
    · subst k'
      obtain ⟨q, hq, hqk⟩ := List.any_eq_true.mp hany
      cases hf : d.find? (·.1 = k) with
      | none => exact absurd hqk (by simpa using List.find?_eq_none.mp hf q hq)
      | some p =>
        have hp : p.1 = k := by simpa using List.find?_some hf
        simp [hp]
    · rename_i hne
      cases hf : d.find? (·.1 = k') with
      | none => rfl
      | some p =>
        have hp : p.1 = k' := by simpa using List.find?_some hf
        simp [hp, hne]
  · rename_i hany
    rw [List.find?_append]
    split
    · subst k'
      rw [List.find?_eq_none.mpr fun q hq hqk => hany (List.any_eq_true.mpr ⟨q, hq, hqk⟩)]
      simp
    · rename_i hne
      simp [Ne.symm hne]

/-- A `dict` built by setting `f m` to `g m` for every `m` of `ms` in order holds,
under `k`, the value of the last `m` with `f m = k`. -/
theorem dictGet_foldl {α β γ : Type} [DecidableEq α] (f : γ → α) (g : γ → β) (ms : List γ)
    (d : List (α × β)) (k : α) :
    dictGet (ms.foldl (fun d m => dictSet d (f m) (g m)) d) k =
      ((ms.reverse.find? (f · = k)).map g).or (dictGet d k) := by
  induction ms generalizing d with
  | nil => rfl
  | cons m ms ih =>
    rw [List.foldl_cons, ih, dictGet_dictSet, List.reverse_cons, List.find?_append]
    cases ms.reverse.find? (f · = k) with
    | some x => rfl
    | none => by_cases h : k = f m <;> simp [h, eq_comm]

/-- Why scanning stopped: the text is not JSON (`json.loads` raises a
`ValueError`), an array or object went deeper than the recursion limit allows
(a `RecursionError` naming it), or the scanner's fuel ran out. -/
inductive ScanError
  | invalid
  | recursion (what : String)
  | fuel
  deriving DecidableEq, Repr

def isJsonSpace (c : Char) : Bool := c = ' ' || c = '\t' || c = '\n' || c = '\r'

def skipWs (s : List Char) : List Char := s.dropWhile isJsonSpace

def isDigit (c : Char) : Bool := '0' ≤ c && c ≤ '9'

def hexDigit (c : Char) : Option Nat :=
  if '0' ≤ c ∧ c ≤ '9' then some (c.toNat - '0'.toNat)
  else if 'a' ≤ c ∧ c ≤ 'f' then some (c.toNat - 'a'.toNat + 10)
  else if 'A' ≤ c ∧ c ≤ 'F' then some (c.toNat - 'A'.toNat + 10)
  else none

/-- The four hex digits of a `\uXXXX` escape. -/
def hex4 (a b c d : Char) : Option Nat := do
  return (((← hexDigit a) * 16 + (← hexDigit b)) * 16 + (← hexDigit c)) * 16 + (← hexDigit d)

/-- The character of a one-letter escape. -/
def simpleEscape : Char → Option Char
  | '"' => some '"'
  | '\\' => some '\\'
  | '/' => some '/'
  | 'b' => some '\x08'
  | 'f' => some '\x0c'
  | 'n' => some '\n'
  | 'r' => some '\r'
  | 't' => some '\t'
  | _ => none

/-- The code point of a `\uXXXX` escape, pushed onto the decoded text (newest
first): a low surrogate right after a high one, which can only come from the
escape just before, is joined with it. -/
def pushUnit (n : Nat) : List PyChar → List PyChar
  | .surrogate hi :: acc =>
    if hi < 0xDC00 ∧ 0xDC00 ≤ n ∧ n < 0xE000 then
      .ofNat (0x10000 + (hi - 0xD800) * 0x400 + (n - 0xDC00)) :: acc
    else .ofNat n :: .surrogate hi :: acc
  | acc => .ofNat n :: acc

/-- `scanstring` from after the opening quote: the decoded string and the text
after the closing quote. A control character is refused; an unpaired surrogate
escape is kept as it is. -/
def scanString : List Char → List PyChar → Except ScanError (List PyChar × List Char)
  | [], _ => .error .invalid
  | '"' :: rest, acc => .ok (acc.reverse, rest)
  | '\\' :: 'u' :: a :: b :: c :: d :: rest, acc =>
    match hex4 a b c d with
    | some n => scanString rest (pushUnit n acc)
    | none => .error .invalid
  | '\\' :: e :: rest, acc =>
    match simpleEscape e with
    | some c => scanString rest (.char c :: acc)
    | none => .error .invalid
  | '\\' :: [], _ => .error .invalid
  | c :: rest, acc => if c.toNat ≤ 0x1f then .error .invalid else scanString rest (.char c :: acc)

example : scanString "\\ud83d\\ude00\\ud800\"".toList [] = .ok ([.ofNat 0x1F600, .surrogate 0xD800], []) :=
  rfl

def digitsValue (ds : List Char) : Nat := ds.foldl (fun n d => 10 * n + (d.toNat - '0'.toNat)) 0

/-- An optional sign, one of `signs`, in front of `s`: the sign read and the rest. -/
def takeSign (signs : List Char) : List Char → List Char × List Char
  | c :: r => if c ∈ signs then ([c], r) else ([], c :: r)
  | [] => ([], [])

/-- The integer part of a number: `0`, or a nonzero digit and the digits after it. -/
def intPart : List Char → Option (List Char × List Char)
  | '0' :: r => some (['0'], r)
  | d :: r => if '1' ≤ d ∧ d ≤ '9' then some (d :: r.takeWhile isDigit, r.dropWhile isDigit) else none
  | [] => none

/-- A fraction: a dot followed by at least one digit. -/
def fracPart : List Char → Option (List Char) × List Char
  | '.' :: d :: r => if isDigit d then (some (d :: r.takeWhile isDigit), r.dropWhile isDigit) else (none, '.' :: d :: r)
  | s => (none, s)

/-- An exponent: `e` or `E`, a sign, and at least one digit; without the digit,
the scanner backtracks to before the `e`. -/
def expPart : List Char → Option (List Char) × List Char
  | e :: r =>
    let sign := takeSign ['+', '-'] r
    let ds := sign.2.takeWhile isDigit
    if (e = 'e' ∨ e = 'E') ∧ ds ≠ [] then (some (e :: sign.1 ++ ds), sign.2.dropWhile isDigit)
    else (none, e :: r)
  | [] => (none, [])

/-- Python's limit on the digits `int()` converts. -/
def maxStrDigits : Nat := 4300

/-- `_match_number`: an `int`, or a `float` when there is a fraction or an
exponent. -/
def scanNumber (s : List Char) : Except ScanError (JsonVal × List Char) :=
  let sign := takeSign ['-'] s
  match intPart sign.2 with
  | none => .error .invalid
  | some (ds, s₂) =>
    let frac := fracPart s₂
    let exp := expPart frac.2
    if frac.1.isSome || exp.1.isSome then
      .ok (.float (String.mk (sign.1 ++ ds ++ (frac.1.map ('.' :: ·)).getD [] ++ exp.1.getD [])), exp.2)
    else if maxStrDigits < ds.length then .error .invalid
    else .ok (.int (if sign.1 = [] then (digitsValue ds : ℤ) else -(digitsValue ds : ℤ)), exp.2)

/-- The named constants `scan_once` recognises, each by its first letter. -/
def literals : List (List Char × JsonVal) :=
  [("null".toList, .null), ("true".toList, .bool true), ("false".toList, .bool false),
    ("NaN".toList, .float "NaN"), ("Infinity".toList, .float "Infinity"),
    ("-Infinity".toList, .float "-Infinity")]

/-- The named constant at the front of `s`, and the text after it. -/
def scanLiteral (s : List Char) : Option (JsonVal × List Char) :=
  (literals.find? fun l => l.1.isPrefixOf s).map fun l => (l.2, s.drop l.1.length)

mutual
/-- `scan_once`: one value at the front of the text; what is not a string, an
array, an object or a named constant is read as a number. `room` is how many
more arrays and objects the interpreter's recursion limit lets it enter: each
`{` and `[` passes `_Py_EnterRecursiveCall`, which raises when none is left. -/
def scanValue : Nat → Nat → List Char → Except ScanError (JsonVal × List Char)
  | 0, _, _ => .error .fuel
  | f + 1, room, s =>
    match s with
    | '"' :: rest => (scanString rest []).map fun p => (.str p.1, p.2)
    | '{' :: rest =>
      match room with
      | 0 => .error (.recursion "object")
      | room + 1 =>
        match skipWs rest with
        | '}' :: r => .ok (.obj [], r)
        | r => scanMembers f room r []
    | '[' :: rest =>
      match room with
      | 0 => .error (.recursion "array")
      | room + 1 =>
        match skipWs rest with
        | ']' :: r => .ok (.arr [], r)
        | r => scanItems f room r []
    | s =>
      match scanLiteral s with
      | some r => .ok r
      | none => scanNumber s

/-- The items of an array after its first one begins, `items` read so far. -/
def scanItems : Nat → Nat → List Char → List JsonVal → Except ScanError (JsonVal × List Char)
  | 0, _, _, _ => .error .fuel
  | f + 1, room, s, items =>
    match scanValue f room s with
    | .error e => .error e
    | .ok (v, r) =>
      match skipWs r with
      | ']' :: r' => .ok (.arr (items ++ [v]), r')
      | ',' :: r' => scanItems f room (skipWs r') (items ++ [v])
      | _ => .error .invalid

/-- The members of an object after its first one begins, into the `dict` `d`. -/
def scanMembers : Nat → Nat → List Char → List (List PyChar × JsonVal) →
    Except ScanError (JsonVal × List Char)
  | 0, _, _, _ => .error .fuel
  | f + 1, room, s, d =>
    match s with
    | '"' :: rest =>
      match scanString rest [] with
      | .error e => .error e
      | .ok (key, r) =>
        match skipWs r with
        | ':' :: r' =>
          match scanValue f room (skipWs r') with
          | .error e => .error e
          | .ok (v, r'') =>
            match skipWs r'' with
            | '}' :: r₃ => .ok (.obj (dictSet d key v), r₃)
            | ',' :: r₃ => scanMembers f room (skipWs r₃) (dictSet d key v)
            | _ => .error .invalid
        | _ => .error .invalid
    | _ => .error .invalid
end

/-- `json.loads(s)` with `room` levels of nesting left: a byte order mark is
refused, then one value between whitespace and nothing after it. -/
def jsonLoads (room : Nat) (s : List Char) : Except ScanError JsonVal :=
  match s with
  | '\ufeff' :: _ => .error .invalid
  | _ =>
    match scanValue (2 * s.length + 1) room (skipWs s) with
    | .ok (v, rest) => if skipWs rest = [] then .ok v else .error .invalid
    | .error e => .error e

/-- Scanning `s` raised, or read a value and left a strictly shorter rest:
either way it did not run out of fuel. -/
def Consumes {α : Type} (s : List Char) : Except ScanError (α × List Char) → Prop
  | .ok p => p.2.length < s.length
  | .error e => e ≠ .fuel

theorem Consumes.invalid {α : Type} {s : List Char} : Consumes (α := α) s (.error .invalid) := nofun

theorem Consumes.recursion {α : Type} {s : List Char} {what : String} :
    Consumes (α := α) s (.error (.recursion what)) := nofun

theorem Consumes.mono {α : Type} {s s' : List Char} {x : Except ScanError (α × List Char)}
    (hs : s.length ≤ s'.length) (h : Consumes s x) : Consumes s' x := by
  cases x with
  | ok p => exact Nat.lt_of_lt_of_le h hs
  | error e => exact h

theorem Consumes.map {α β : Type} {s : List Char} {x : Except ScanError (α × List Char)}
    (f : α → β) (h : Consumes s x) : Consumes s (x.map fun p => (f p.1, p.2)) := by
  cases x with
  | ok p => exact h
  | error e => exact h

theorem intPart_length_lt {s ds r : List Char} (h : intPart s = some (ds, r)) : r.length < s.length := by
  unfold intPart at h
  split at h
  · cases h; simp
  · split_ifs at h
    cases h
    exact Nat.lt_succ_of_le ((List.dropWhile_suffix _).length_le)
  · cases h

theorem fracPart_length_le (s : List Char) : (fracPart s).2.length ≤ s.length := by
  unfold fracPart
  split
  · split
    · exact ((List.dropWhile_suffix _).length_le).trans (by simp only [List.length_cons]; omega)
    · exact le_rfl
  · exact le_rfl

theorem takeSign_length_le (signs s : List Char) : (takeSign signs s).2.length ≤ s.length := by
  cases s with
  | nil => exact le_rfl
  | cons c r => simp only [takeSign]; split <;> simp

theorem expPart_length_le (s : List Char) : (expPart s).2.length ≤ s.length := by
  cases s with
  | nil => exact le_rfl
  | cons e r =>
    simp only [expPart]
    split
    · exact ((List.dropWhile_suffix _).length_le).trans ((takeSign_length_le _ _).trans (by simp))
    · exact le_rfl

theorem scanNumber_consumes (s : List Char) : Consumes s (scanNumber s) := by
  unfold scanNumber
  dsimp only
  split
  · exact .invalid
  · rename_i ds s₂ h
    have hlen : (expPart (fracPart s₂).2).2.length < s.length := calc
      _ ≤ (fracPart s₂).2.length := expPart_length_le _
      _ ≤ s₂.length := fracPart_length_le _
      _ < (takeSign ['-'] s).2.length := intPart_length_lt h
      _ ≤ s.length := takeSign_length_le _ _
    split_ifs <;> first | exact .invalid | exact hlen

theorem scanString_consumes (s : List Char) (acc : List PyChar) : Consumes s (scanString s acc) := by
  induction s, acc using scanString.induct with
  | case1 acc => rw [scanString.eq_1]; exact .invalid
  | case2 rest acc => rw [scanString.eq_2]; exact Nat.lt_succ_self _
  | case3 a b c d rest acc n hn ih =>
    rw [scanString.eq_3, hn]
    exact ih.mono (by simp only [List.length_cons]; omega)
  | case4 a b c d rest acc hn => rw [scanString.eq_3, hn]; exact .invalid
  | case5 e rest acc hne c hc ih =>
    rw [scanString.eq_4 _ _ _ hne, hc]
    exact ih.mono (Nat.le_succ_of_le (Nat.le_succ _))
  | case6 e rest acc hne hc => rw [scanString.eq_4 _ _ _ hne, hc]; exact .invalid
  | case7 acc => rw [scanString.eq_5]; exact .invalid
  | case8 c rest acc h₁ h₂ h₃ h₄ hc => rw [scanString.eq_6 _ _ _ h₁ h₂ h₃ h₄, if_pos hc]; exact .invalid
  | case9 c rest acc h₁ h₂ h₃ h₄ hc ih =>
    rw [scanString.eq_6 _ _ _ h₁ h₂ h₃ h₄, if_neg hc]
    exact ih.mono (Nat.le_succ _)

theorem literals_ne_nil : ∀ l ∈ literals, l.1 ≠ [] := by decide

theorem scanLiteral_length_lt {s r : List Char} {v : JsonVal} (h : scanLiteral s = some (v, r)) :
    r.length < s.length := by
  obtain ⟨l, hl, hlr⟩ := Option.map_eq_some'.mp h
  have hpre : l.1 <+: s := List.isPrefixOf_iff_prefix.mp (List.find?_some hl :)
  have hne := List.length_pos.mpr (literals_ne_nil l (List.mem_of_find?_eq_some hl))
  cases hlr
  have := hpre.length_le
  simp only [List.length_drop]
  omega

theorem skipWs_length_le (s : List Char) : (skipWs s).length ≤ s.length := (List.dropWhile_suffix _).length_le

theorem skipWs_cons_length_lt {r r' : List Char} {c : Char} (h : skipWs r = c :: r') :
    r'.length < r.length := by
  have := skipWs_length_le r
  rw [h, List.length_cons] at this
  omega

section Fuel

variable {f : Nat}

theorem scanValue_consumes
    (hi : ∀ room s items, 2 * s.length + 1 < f → Consumes s (scanItems f room s items))
    (hm : ∀ room s d, 2 * s.length + 1 < f → Consumes s (scanMembers f room s d))
    (room : Nat) (s : List Char) (hs : 2 * s.length < f + 1) : Consumes s (scanValue (f + 1) room s) := by
  rw [scanValue.eq_def]
  dsimp only
  split
  · exact ((scanString_consumes _ _).map _).mono (by simp)
  · rename_i _ rest
    have := skipWs_length_le rest
    split
    · exact .recursion
    · split
      · rename_i r hr
        exact Nat.lt_succ_of_lt (skipWs_cons_length_lt hr)
      · exact (hm _ _ _ (by simp only [List.length_cons] at hs; omega)).mono (by simp; omega)
  · rename_i _ rest
    have := skipWs_length_le rest
    split
    · exact .recursion
    · split
      · rename_i r hr
        exact Nat.lt_succ_of_lt (skipWs_cons_length_lt hr)
      · exact (hi _ _ _ (by simp only [List.length_cons] at hs; omega)).mono (by simp; omega)
  · split
    · rename_i p hp
      exact scanLiteral_length_lt hp
    · exact scanNumber_consumes s

theorem scanItems_consumes
    (hv : ∀ room s, 2 * s.length < f → Consumes s (scanValue f room s))
    (hi : ∀ room s items, 2 * s.length + 1 < f → Consumes s (scanItems f room s items))
    (room : Nat) (s : List Char) (items : List JsonVal) (hs : 2 * s.length + 1 < f + 1) :
    Consumes s (scanItems (f + 1) room s items) := by
  have hval := hv room s (by omega)
  rw [scanItems]
  split
  · rename_i e he
    rwa [he] at hval
  · rename_i v r hr
    have hr : r.length < s.length := by rw [hr] at hval; exact hval
    split
    · rename_i r' hr'
      exact (skipWs_cons_length_lt hr').trans hr
    · rename_i r' hr'
      have h₁ := skipWs_cons_length_lt hr'
      have h₂ := skipWs_length_le r'
      exact (hi _ _ _ (by omega)).mono (by omega)
    · exact .invalid

theorem scanMembers_consumes
    (hv : ∀ room s, 2 * s.length < f → Consumes s (scanValue f room s))
    (hm : ∀ room s d, 2 * s.length + 1 < f → Consumes s (scanMembers f room s d))
    (room : Nat) (s : List Char) (d : List (List PyChar × JsonVal)) (hs : 2 * s.length + 1 < f + 1) :
    Consumes s (scanMembers (f + 1) room s d) := by
  rw [scanMembers.eq_def]
  dsimp only
  split
  · rename_i rest
    simp only [List.length_cons] at hs
    have hkey := scanString_consumes rest []
    split
    · rename_i e he
      rwa [he] at hkey
    · rename_i key r hr
      have hr : r.length < rest.length := by rw [hr] at hkey; exact hkey
      split
      · rename_i r' hr'
        have h₁ := skipWs_cons_length_lt hr'
        have h₂ := skipWs_length_le r'
        have hval := hv room (skipWs r') (by omega)
        split
        · rename_i e he
          rwa [he] at hval
        · rename_i v r'' hr''
          have hr'' : r''.length < (skipWs r').length := by rw [hr''] at hval; exact hval
          split
          · rename_i r₃ hr₃
            have := skipWs_cons_length_lt hr₃
            simp only [Consumes, List.length_cons]
            omega
          · rename_i r₃ hr₃
            have h₃ := skipWs_cons_length_lt hr₃
            have h₄ := skipWs_length_le r₃
            exact (hm _ _ _ (by omega)).mono (by simp only [List.length_cons]; omega)
          · exact .invalid
      · exact .invalid
  · exact .invalid

/-- Fuel above twice the length of the text is enough: a value costs one unit
and reads at least one character, and a round of a loop costs one more and also
reads its separator. -/
theorem scan_consumes (f : Nat) :
    (∀ room s, 2 * s.length < f → Consumes s (scanValue f room s)) ∧
    (∀ room s items, 2 * s.length + 1 < f → Consumes s (scanItems f room s items)) ∧
    (∀ room s d, 2 * s.length + 1 < f → Consumes s (scanMembers f room s d)) := by
  induction f with
  | zero => exact ⟨fun _ _ h => absurd h (Nat.not_lt_zero _), fun _ _ _ h => absurd h (Nat.not_lt_zero _),
      fun _ _ _ h => absurd h (Nat.not_lt_zero _)⟩
  | succ f ih =>
    obtain ⟨hv, hi, hm⟩ := ih
    exact ⟨scanValue_consumes hi hm, scanItems_consumes hv hi, scanMembers_consumes hv hm⟩

end Fuel

/-- `json.loads` never runs out of fuel: at every depth of recursion left,
`jsonLoads` decodes every text as the unbounded scanner does. -/
theorem jsonLoads_total (room : Nat) (s : List Char) : jsonLoads room s ≠ .error .fuel := by
  unfold jsonLoads
  split
  · simp
  · have h := (scan_consumes (2 * s.length + 1)).1 room (skipWs s) (by have := skipWs_length_le s; omega)
    split
    · split_ifs <;> simp
    · rename_i e he
      rw [he] at h
      exact fun he' => h (Except.error.inj he')

/-- Text opening more arrays than there is room for: the scanner enters one per
level until none is left. -/
theorem scanValue_nested (room f : Nat) (hf : 2 * room < f) (s : List Char) :
    scanValue f room (List.replicate (room + 1) '[' ++ s) = .error (.recursion "array") := by
  induction room generalizing f with
  | zero =>
    obtain ⟨f, rfl⟩ : ∃ f', f = f' + 1 := ⟨f - 1, by omega⟩
    rfl
  | succ room ih =>
    obtain ⟨f, rfl⟩ : ∃ f', f = f' + 2 := ⟨f - 2, by omega⟩
    have hs : skipWs (List.replicate (room + 1) '[' ++ s) = '[' :: (List.replicate room '[' ++ s) := rfl
    rw [List.replicate_succ, List.cons_append, scanValue.eq_6, hs]
    show scanItems (f + 1) room ('[' :: (List.replicate room '[' ++ s)) [] = _
    rw [scanItems, ← List.cons_append, ← List.replicate_succ, ih f (by omega)]

theorem jsonLoads_nested (room : Nat) :
    jsonLoads room (List.replicate (room + 1) '[') = .error (.recursion "array") := by
  have h := scanValue_nested room (2 * (room + 1) + 1) (by omega) []
  rw [List.append_nil] at h
  unfold jsonLoads
  rw [List.length_replicate]
  split
  · rename_i t ht
    rw [List.replicate_succ] at ht
    cases ht
  · rw [show skipWs (List.replicate (room + 1) '[') = List.replicate (room + 1) '[' from rfl, h]

/-! ## Labels -/

/-- A code point that `_SANITIZE_LABEL_PATTERN`, `[^a-z0-9_-]`, does not match. -/
def labelChar (c : Char) : Bool :=
  ('a' ≤ c && c ≤ 'z') || ('0' ≤ c && c ≤ '9') || c = '_' || c = '-'

def validateLabelLengthLimit : Nat := 63

/-- `_sanitize_label(value)`: strip, lower, every code point outside the label
alphabet to `_`, and the first 63 code points. -/
def sanitizeLabel (value : List Char) : List Char :=
  ((pyLower (pyStrip value)).map fun c => if labelChar c then c else '_').take
    validateLabelLengthLimit

/-- A lone surrogate as `_sanitize_label` sees it: not a space, its own lower
case, and outside the label alphabet, like U+FFFD. -/
def PyChar.forLabel : PyChar → Char
  | .char c => c
  | .surrogate _ => '\ufffd'

/-- `_sanitize_label` of a decoded string. -/
def sanitizeDecoded (s : List PyChar) : List Char := sanitizeLabel (s.map PyChar.forLabel)

/-- `_labels_from_query_comment(comment)`, with `str()` of a decoded value given
as `str` and `room` levels of nesting left to `json.loads`. The `except` clause
catches only the `ValueError` of a text that is not JSON, and the dict
comprehension calls `items()` on whatever `json.loads` returned. -/
def labelsFromQueryComment (str : JsonVal → List PyChar) (room : Nat) (comment : String) :
    Except Exc (List (List Char × List Char)) :=
  match jsonLoads room comment.toList with
  | .error (.recursion what) =>
    .error (.of .recursionError
      ("maximum recursion depth exceeded while decoding a JSON " ++ what ++ " from a unicode string"))
  | .error _ => .ok [("query_comment".toList, sanitizeLabel comment.toList)]
  | .ok (.obj members) =>
    .ok (members.foldl (fun d m => dictSet d (sanitizeDecoded m.1) (sanitizeDecoded (str m.2))) [])
  | .ok v =>
    .error (.of .attributeError ("\x27" ++ v.typeName ++ "\x27 object has no attribute \x27items\x27"))

/-- `get_labels_from_query_comment()`: `comment` is the query header's comment
when the profile's `query_comment` sets `job_label` and there is a header, and
`none` otherwise. -/
def getLabelsFromQueryComment (str : JsonVal → List PyChar) (room : Nat) :
    Option String → Except Exc (List (List Char × List Char))
  | some comment => labelsFromQueryComment str room comment
  | none => .ok []

/-- The labels `raw_execute` puts in the job parameters, before `fn` is built
and any job is submitted. -/
def rawExecuteLabels (str : JsonVal → List PyChar) (room : Nat) (comment : Option String)
    (invocationId : List Char) : Except Exc (List (List Char × List Char)) := do
  let labels ← getLabelsFromQueryComment str room comment
  return dictSet labels "dbt_invocation_id".toList invocationId

theorem integer_comment_has_no_items (str : JsonVal → List PyChar) (room : Nat) (invocationId : List Char) :
    labelsFromQueryComment str room "1" =
        .error (.of .attributeError "\x27int\x27 object has no attribute \x27items\x27") ∧
      rawExecuteLabels str room (some "1") invocationId =
        .error (.of .attributeError "\x27int\x27 object has no attribute \x27items\x27") :=
  ⟨rfl, rfl⟩

/-- A comment nested deeper than the interpreter's recursion limit allows makes
`raw_execute` raise `RecursionError`, which is not one of the errors the
`except` clause falls back on. -/
theorem rawExecuteLabels_nested (str : JsonVal → List PyChar) (room : Nat) (invocationId : List Char) :
    rawExecuteLabels str room (some (String.mk (List.replicate (room + 1) '['))) invocationId =
      .error (.of .recursionError
        "maximum recursion depth exceeded while decoding a JSON array from a unicode string") := by
  have h : (String.mk (List.replicate (room + 1) '[')).toList = List.replicate (room + 1) '[' := rfl
  simp only [rawExecuteLabels, getLabelsFromQueryComment, labelsFromQueryComment, h, jsonLoads_nested,
    String.reduceAppend]
  rfl

/-- A label BigQuery accepts: at most 63 code points of `[a-z0-9_-]`. -/
def LegalLabel (s : List Char) : Prop :=
  s.length ≤ validateLabelLengthLimit ∧ ∀ c ∈ s, labelChar c = true

instance (s : List Char) : Decidable (LegalLabel s) := inferInstanceAs (Decidable (_ ∧ _))

theorem sanitizeLabel_legal (value : List Char) : LegalLabel (sanitizeLabel value) := by
  refine ⟨List.length_take_le _ _, fun c hc => ?_⟩
  obtain ⟨x, -, rfl⟩ := List.mem_map.mp (List.mem_of_mem_take hc)
  split
  · assumption
  · rfl

theorem labelChar_toNat {c : Char} (h : labelChar c = true) :
    (97 ≤ c.toNat ∧ c.toNat ≤ 122) ∨ (48 ≤ c.toNat ∧ c.toNat ≤ 57) ∨ c.toNat = 95 ∨ c.toNat = 45 := by
  simp only [labelChar, Bool.or_eq_true, Bool.and_eq_true, decide_eq_true_eq, char_le_iff_toNat,
    char_eq_iff_toNat, Char.reduceToNat] at h
  omega

theorem isPySpace_of_labelChar {c : Char} (h : labelChar c = true) : isPySpace c = false := by
  have := labelChar_toNat h
  simp only [isPySpace, Bool.or_eq_false_iff, Bool.and_eq_false_iff, decide_eq_false_iff_not,
    char_le_iff_toNat, char_eq_iff_toNat, Char.reduceToNat]
  omega

theorem lowerChar_of_labelChar {c : Char} (h : labelChar c = true) : lowerChar c = [c] := by
  have := labelChar_toNat h
  rw [lowerChar, if_neg, if_neg, if_neg] <;>
    simp only [Bool.and_eq_true, decide_eq_true_eq, char_le_iff_toNat, char_eq_iff_toNat, Char.reduceToNat] <;>
    omega

/-- A legal label is left as it is: `strip`, `lower` and the substitution change
none of its code points, and it is no longer than the cut. -/
theorem sanitizeLabel_of_legal {x : List Char} (h : LegalLabel x) : sanitizeLabel x = x := by
  rw [sanitizeLabel, pyStrip_of_no_space fun c hc => isPySpace_of_labelChar (h.2 c hc),
    pyLower_of_forall fun c hc => lowerChar_of_labelChar (h.2 c hc),
    List.map_congr_left fun c hc => if_pos (h.2 c hc), List.map_id', List.take_of_length_le h.1]

theorem sanitize_label_legal_idempotent :
    (∀ s : List Char, LegalLabel (sanitizeLabel s) ∧ sanitizeLabel (sanitizeLabel s) = sanitizeLabel s) ∧
      ∀ s : List PyChar, LegalLabel (sanitizeDecoded s) ∧
        sanitizeDecoded ((sanitizeDecoded s).map .char) = sanitizeDecoded s := by
  refine ⟨fun s => ⟨sanitizeLabel_legal s, sanitizeLabel_of_legal (sanitizeLabel_legal s)⟩,
    fun s => ⟨sanitizeLabel_legal _, ?_⟩⟩
  rw [sanitizeDecoded, List.map_map, show PyChar.forLabel ∘ PyChar.char = id from rfl, List.map_id]
  exact sanitizeLabel_of_legal (sanitizeLabel_legal _)

example : sanitizeLabel " \u0130stanbul Office ".toList = "i_stanbul_office".toList := by decide

/-- A job's labels as BigQuery takes them: distinct keys, and every key and
value legal. -/
structure LegalLabels (d : List (List Char × List Char)) : Prop where
  keys_nodup : (d.map Prod.fst).Nodup
  legal : ∀ p ∈ d, LegalLabel p.1 ∧ LegalLabel p.2

theorem LegalLabels.insert {d : List (List Char × List Char)} {k v : List Char}
    (hd : LegalLabels d) (hk : LegalLabel k) (hv : LegalLabel v) : LegalLabels (dictSet d k v) where
  keys_nodup := by
    rw [dictSet_keys]
    split
    · exact hd.keys_nodup
    · rename_i h
      refine hd.keys_nodup.append (List.nodup_singleton k) ?_
      simpa using h
  legal p hp := by
    rcases mem_dictSet hp with hp | rfl
    · exact hd.legal p hp
    · exact ⟨hk, hv⟩

theorem LegalLabels.nil : LegalLabels [] := ⟨List.nodup_nil, fun _ h => absurd h (List.not_mem_nil _)⟩

/-- The dict comprehension keeps the labels legal, entry after entry. -/
theorem LegalLabels.foldl (str : JsonVal → List PyChar) (members : List (List PyChar × JsonVal))
    {d : List (List Char × List Char)} (hd : LegalLabels d) :
    LegalLabels (members.foldl (fun d m => dictSet d (sanitizeDecoded m.1) (sanitizeDecoded (str m.2))) d) := by
  induction members generalizing d with
  | nil => exact hd
  | cons m ms ih => exact ih (hd.insert (sanitizeLabel_legal _) (sanitizeLabel_legal _))

theorem labels_legal (str : JsonVal → List PyChar) (room : Nat) (comment : String)
    (labels : List (List Char × List Char)) (h : labelsFromQueryComment str room comment = .ok labels) :
    LegalLabels labels := by
  unfold labelsFromQueryComment at h
  split at h
  · cases h
  · cases h
    refine ⟨List.nodup_singleton _, fun p hp => ?_⟩
    obtain rfl := List.mem_singleton.mp hp
    exact ⟨(by decide : LegalLabel "query_comment".toList), sanitizeLabel_legal _⟩
  · cases h
    exact .foldl str _ .nil
  · cases h

theorem labels_legal_of_team_comment :
    labelsFromQueryComment (fun _ => "Data Eng".toList.map .char) 1 "\x7b\"Team\": 1\x7d" =
        .ok [("team".toList, "data_eng".toList)] ∧
      LegalLabels [("team".toList, "data_eng".toList)] :=
  have h : labelsFromQueryComment (fun _ => "Data Eng".toList.map .char) 1 "\x7b\"Team\": 1\x7d" =
      .ok [("team".toList, "data_eng".toList)] := rfl
  ⟨h, labels_legal _ _ _ _ h⟩

/-- The label `raw_execute` gives a job under the key `k` when the query comment
is a JSON object with the members `ms`: the invocation id under
`dbt_invocation_id`, whatever the comment says; under any other key, the
sanitized value of the last member whose key sanitizes to `k`, or none. -/
theorem job_label_lookup (str : JsonVal → List PyChar) (room : Nat) (comment : String)
    (ms : List (List PyChar × JsonVal)) (h : jsonLoads room comment.toList = .ok (.obj ms))
    (invocationId : List Char) :
    ∃ labels, rawExecuteLabels str room (some comment) invocationId = .ok labels ∧ ∀ k,
      dictGet labels k = if k = "dbt_invocation_id".toList then some invocationId
        else (ms.reverse.find? (sanitizeDecoded ·.1 = k)).map fun m => sanitizeDecoded (str m.2) := by
  refine ⟨_, by simp only [rawExecuteLabels, getLabelsFromQueryComment, labelsFromQueryComment, h]; rfl,
    fun k => ?_⟩
  rw [dictGet_dictSet, dictGet_foldl]
  split
  · rfl
  · exact Option.or_none

/-- Two keys that sanitize to the same label: the later one wins. -/
def collidingComment : String := "\x7b\"A\":1,\"a\":2\x7d"

/-- `str()` of a decoded integer. -/
def strOfInt : JsonVal → List PyChar
  | .int n => (toString n).toList.map .char
  | _ => []

theorem later_colliding_key_wins :
    jsonLoads 1 collidingComment.toList = .ok (.obj [(['A'].map .char, .int 1), (['a'].map .char, .int 2)]) ∧
      ∃ labels, rawExecuteLabels strOfInt 1 (some collidingComment) "run".toList = .ok labels ∧ ∀ k,
        dictGet labels k = if k = "dbt_invocation_id".toList then some "run".toList
          else (([(['A'].map .char, .int 1), (['a'].map .char, .int 2)] : List (List PyChar × JsonVal)).reverse.find?
            (sanitizeDecoded ·.1 = k)).map fun m => sanitizeDecoded (strOfInt m.2) :=
  have h : jsonLoads 1 collidingComment.toList =
      .ok (.obj [(['A'].map .char, .int 1), (['a'].map .char, .int 2)]) := rfl
  ⟨h, job_label_lookup _ _ _ _ h _⟩

end DbtBigQuery
