import Mathlib.Data.List.Basic

/-!
# Python string operations

The few `str` methods `connections.py` applies to messages and labels, over
`List Char`: `strip()` with no argument, `lower()`, and the prefix before the
first occurrence of a separator (`s.split(sep)[0]` when `sep in s`).
-/

namespace DbtBigQuery

/-- `str.isspace` for one code point: the characters `str.strip()` removes. -/
def isPySpace (c : Char) : Bool :=
  ('\t' ≤ c && c ≤ '\r') || ('\x1c' ≤ c && c ≤ ' ') || c = '\x85' || c = '\xa0' ||
  c = '\u1680' || ('\u2000' ≤ c && c ≤ '\u200a') || c = '\u2028' || c = '\u2029' ||
  c = '\u202f' || c = '\u205f' || c = '\u3000'

/-- `s.strip()`. -/
def pyStrip (s : List Char) : List Char :=
  ((s.dropWhile isPySpace).reverse.dropWhile isPySpace).reverse

/-- `str.lower` on one code point, as far as `_sanitize_label` can see it: the
ASCII capitals, and the two code points whose lower case is ASCII (U+0130 becomes
`i` and a combining dot, KELVIN SIGN becomes `k`). Every other code point keeps
its length under `lower`, and its lower case is not in `[a-z0-9_-]` unless it
already was. -/
def lowerChar (c : Char) : List Char :=
  if 'A' ≤ c && c ≤ 'Z' then [Char.ofNat (c.toNat + 32)]
  else if c = '\u0130' then ['i', '\u0307']
  else if c = '\u212a' then ['k']
  else [c]

/-- `s.lower()`. -/
def pyLower (s : List Char) : List Char := s.flatMap lowerChar

/-- `s.split(sep)[0]` when `sep in s`, and `none` when it does not occur. -/
def splitFirst (sep : List Char) : List Char → Option (List Char)
  | [] => if sep = [] then some [] else none
  | c :: cs => if sep.isPrefixOf (c :: cs) then some [] else (c :: ·) <$> splitFirst sep cs

/-- Code points compare as numbers. -/
theorem char_le_iff_toNat {a b : Char} : a ≤ b ↔ a.toNat ≤ b.toNat := Iff.rfl

theorem char_eq_iff_toNat {a b : Char} : a = b ↔ a.toNat = b.toNat :=
  ⟨congrArg _, fun h => by rw [← Char.ofNat_toNat a, ← Char.ofNat_toNat b, h]⟩

theorem pyStrip_of_no_space {s : List Char} (h : ∀ c ∈ s, isPySpace c = false) :
    pyStrip s = s := by
  have drop : ∀ l : List Char, (∀ c ∈ l, isPySpace c = false) → l.dropWhile isPySpace = l
    | [], _ => rfl
    | c :: cs, hl => by simp [List.dropWhile, hl c (List.mem_cons_self c cs)]
  have hr : ∀ c ∈ s.reverse, isPySpace c = false := fun c hc => h c (List.mem_reverse.mp hc)
  simp only [pyStrip, drop s h, drop s.reverse hr, List.reverse_reverse]

theorem pyLower_of_forall {s : List Char} (h : ∀ c ∈ s, lowerChar c = [c]) : pyLower s = s := by
  induction s with
  | nil => rfl
  | cons c s ih =>
    rw [pyLower, List.flatMap_cons, h c (List.mem_cons_self c s), ← pyLower,
      ih fun d hd => h d (List.mem_cons_of_mem c hd)]
    rfl

end DbtBigQuery
