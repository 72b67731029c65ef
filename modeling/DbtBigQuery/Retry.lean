import DbtBigQuery.System

/-!
# One `_retry_and_handle` call

What a single call records as it runs alone, whatever the remote calls, the
clock and `open` answer:

* `Recorded`: by phase, the attempts made, and the failures so far (newest
  first): every failure after which the run went on was accepted by
  `count_error`, is retryable and within the retries, and was followed by one
  `close` and one `open` of `conn` exactly when it is a reopenable error;
* `recorded_retryAndHandle`: every run keeps it, once `conn` holds a client
  whenever `fn`'s captured client is one (as `raw_execute` and `cancel_open`
  arrange before the call).
-/

namespace DbtBigQuery

/-- The closes and opens of `conn` that follow an accepted failure `e`. -/
def reopens (e : Exc) : Nat := if e.isInstanceAny reopenableErrors then 1 else 0

/-- The `n`-th failure `f` of a run that went on after it: accepted, retryable,
at most the `r`-th, and followed by `reopens` closes and opens. -/
def SettledAt (r : Int) (n : Nat) (f : Failure) : Prop :=
  f.accepted = true ∧ isRetryable f.error = .ok true ∧ (n : Int) ≤ r ∧
    f.closes = reopens f.error ∧ f.opens = reopens f.error

/-- Failures after which the run went on, newest first. -/
def Settled (r : Int) : List Failure → Prop
  | [] => True
  | f :: fs => SettledAt r (fs.length + 1) f ∧ Settled r fs

/-- The failure a run ended on, with `older` failures before it: closes and opens
match, there are some only after an accepted reopenable error, and an accepted
error is retryable and within the retries. -/
def Ended (r : Int) (f : Failure) (older : Nat) : Prop :=
  f.opens = f.closes ∧ f.closes = (if f.accepted then reopens f.error else 0) ∧
    (f.accepted = true → isRetryable f.error = .ok true ∧ ((older + 1 : Nat) : Int) ≤ r)

/-- `_ErrorCounter` has counted every failure, once retries are on. -/
def Counted (c : Call) : Prop :=
  c.counter.errorCount = if c.counter.retries = 0 then 0 else c.failures.length

def Between (c : Call) : Prop :=
  c.attempts = c.failures.length ∧ Settled c.counter.retries c.failures ∧ Counted c

/-- An attempt under way, or returned: one attempt more than failures. -/
def Running (c : Call) : Prop :=
  c.attempts = c.failures.length + 1 ∧ Settled c.counter.retries c.failures ∧ Counted c

/-- `on_error` is under way for the newest failure `e`, accepted, after `closes`
calls of `close` on `conn` have ended. -/
def Reopening (c : Call) (e : Exc) (closes : Nat) : Prop :=
  c.attempts = c.failures.length ∧ Counted c ∧ ∃ gs, c.failures = ⟨e, true, closes, 0⟩ :: gs ∧
    isRetryable e = .ok true ∧ ((gs.length + 1 : Nat) : Int) ≤ c.counter.retries ∧
    Settled c.counter.retries gs

def Stopped (c : Call) : Prop :=
  c.attempts = c.failures.length ∧
    ∃ f gs, c.failures = f :: gs ∧ Ended c.counter.retries f gs.length ∧ Settled c.counter.retries gs

/-- What the run of a call has recorded, phase by phase. -/
def Recorded (c : Call) : Prop :=
  match c.phase with
  | .start => Between c
  | .sleeping _ => Between c ∧ c.failures ≠ []
  | .registered _ | .waiting _ | .failed _ | .returned => Running c
  | .accepted e => Reopening c e 0
  | .closing e => Reopening c e 0 ∧ reopens e = 1
  | .reopening e | .opening e _ | .opened e _ => Reopening c e 1 ∧ reopens e = 1
  | .raised _ => Stopped c

/-- The error, if any, that the phase is about. -/
def Phase.error? : Phase → Option Exc
  | .failed e | .accepted e | .closing e | .reopening e | .opening e _ | .opened e _
  | .sleeping e => some e
  | _ => none

/-- The phases in which `conn` holds a client, when `fn`'s client is one: all but
the end of the call and the step after a failed `open` wrote `None`. -/
def Phase.holdsClient : Phase → Bool
  | .returned | .raised _ | .opened _ (.failed _) => false
  | _ => true

/-- What ties a call to its connection: `conn` holds a client whenever the phase
says so and `fn`'s client is one; a wait on a job follows a request through a
client; and a reopenable error can only come from a client. -/
def Wired (m : Manager) (c : Call) : Prop :=
  (c.phase.holdsClient = true → ∀ k, c.client = .client k →
    ∃ k', (m.conns c.conn).handle = .client k') ∧
  (∀ id, c.phase = .waiting id → ∃ k, c.client = .client k) ∧
  (∀ e, c.phase.error? = some e → reopens e = 1 → ∃ k, c.client = .client k)

@[simp] theorem Call.fail_phase (c : Call) (e : Exc) : (c.fail e).phase = .failed e := rfl
@[simp] theorem Call.raise_phase (c : Call) (x : Exc) :
    (c.raise x).phase = .raised (exceptionHandler x) := rfl

theorem Call.judge_fixed (c : Call) (e : Exc) :
    (c.judge e).fn = c.fn ∧ (c.judge e).conn = c.conn ∧ (c.judge e).client = c.client ∧
      (c.judge e).counter.retries = c.counter.retries := by
  unfold Call.judge
  split
  · split
    · exact ⟨rfl, rfl, rfl, rfl⟩
    · exact ⟨rfl, rfl, rfl, countError_retries ‹_›⟩
  · exact ⟨rfl, rfl, rfl, rfl⟩

/-- A step leaves what the call was started with: `fn`, `conn`, the client and
the configured retries. -/
theorem Call.step_fixed (m : Manager) (t : Tid) (c : Call) (env : Env) :
    (c.step m t env).2.fn = c.fn ∧ (c.step m t env).2.conn = c.conn ∧
      (c.step m t env).2.client = c.client ∧
      (c.step m t env).2.counter.retries = c.counter.retries := by
  cases hp : c.phase
  case failed e => simpa only [Call.step, hp] using c.judge_fixed e
  all_goals
    simp only [Call.step, hp]
    repeat' split
    all_goals first
      | (simp [Call.raise, Call.markClose, Call.markOpen, Call.fail]; done)
      | cases (Manager.answerTo _ _ env) <;> simp [Call.answered, Call.fail]

/-- What leaves the retry loop when `count_error` is asked about `e`: `e`, or the
`KeyError` that `_is_retryable` raised on it. -/
def leftLoop (retries : Int) (e : Exc) : Exc :=
  if retries ≠ 0 ∧ e.isInstance .exception ∧ isRetryable e = .error (keyError "reason") then
    keyError "reason"
  else e

theorem Call.judge_cases (c : Call) (e : Exc) :
    (c.judge e).phase = .accepted e ∨
      (c.judge e).phase = .raised (exceptionHandler (leftLoop c.counter.retries e)) := by
  unfold Call.judge
  split
  · rename_i hx
    split
    · rename_i x hc
      obtain ⟨h0, hr⟩ := countError_error hc
      obtain rfl := isRetryable_error hr
      exact .inr (by simp [leftLoop, Call.raise, h0, hx, hr])
    · rename_i b k hc
      cases b
      · refine .inr ?_
        have : ¬(c.counter.retries ≠ 0 ∧ isRetryable e = .error (keyError "reason")) :=
          fun ⟨h0, hr⟩ => by simp [ErrorCounter.countError, h0, hr] at hc
        simp only [leftLoop, hx, true_and, if_neg this]
        rfl
      · exact .inl rfl
  · rename_i hx
    have hx : e.isInstance .exception = false := by simpa using hx
    exact .inr (by simp [leftLoop, hx, exceptionHandler_of_not_exception hx])

theorem Wired.conn_client {m : Manager} {c : Call} (hw : Wired m c) {e : Exc}
    (he : c.phase.error? = some e) (h1 : reopens e = 1) (hh : c.phase.holdsClient = true) :
    ∃ k', (m.conns c.conn).handle = .client k' := by
  obtain ⟨k, hk⟩ := hw.2.2 e he h1
  exact hw.1 hh k hk

theorem Settled.retryable {r : Int} {fs : List Failure} (h : Settled r fs) {f : Failure}
    (hf : f ∈ fs) : f.accepted = true ∧ isRetryable f.error = .ok true := by
  induction fs with
  | nil => cases hf
  | cons g gs ih =>
    rcases List.mem_cons.mp hf with rfl | hf
    exacts [⟨h.1.1, h.1.2.1⟩, ih h.2 hf]

/-- Settled failures are at most `r` in number. -/
theorem Settled.length_le {r : Int} {fs : List Failure} (h : Settled r fs) :
    (fs.length : Int) ≤ max r 0 := by
  cases fs with
  | nil => simp only [List.length_nil]; omega
  | cons f fs => have := h.1.2.2.1; simp only [List.length_cons] at this ⊢; omega

theorem Settled.ended {r : Int} {f : Failure} {gs : List Failure} (h : Settled r (f :: gs)) :
    Ended r f gs.length := by
  obtain ⟨⟨ha, hr, hle, hc, ho⟩, -⟩ := h
  exact ⟨ho.trans hc.symm, by simp [ha, hc], fun _ => ⟨hr, hle⟩⟩

theorem ended_rejected (r : Int) (e : Exc) (older : Nat) : Ended r ⟨e, false, 0, 0⟩ older :=
  ⟨rfl, rfl, fun h => by cases h⟩

/-- `count_error`'s verdict on the failure `e` keeps the record. -/
theorem Recorded.judge {c : Call} {e : Exc} (h : Running c) : Recorded (c.judge e) := by
  obtain ⟨ha, hs, hc⟩ := h
  unfold Call.judge
  split
  · split
    · exact ⟨by simp [Call.raise, ha], _, _, rfl, ended_rejected _ e _, hs⟩
    · rename_i b k hk
      have hkr := countError_retries hk
      cases b with
      | true =>
        obtain ⟨hr0, hre, -, hcnt, hle⟩ := countError_accepts hk
        simp only [Counted, hr0, if_false] at hc
        refine ⟨by simp [ha], ?_, c.failures, rfl, hre, ?_, ?_⟩
        · show k.errorCount = if k.retries = 0 then 0 else c.failures.length + 1
          rw [hkr, if_neg hr0]; omega
        · show _ ≤ k.retries
          rw [hkr]; omega
        · show Settled k.retries _
          rwa [hkr]
      | false =>
        refine ⟨by simp [ha], _, _, rfl, ended_rejected _ e _, ?_⟩
        simp only [hkr]; exact hs
  · exact ⟨by simp [ha], _, _, rfl, ended_rejected _ e _, hs⟩

theorem running_of_between {c : Call} (h : Between c) (p : Phase)
    (hp : p = .returned ∨ (∃ id, p = .registered id) ∨ ∃ e, p = .failed e) :
    Recorded { c with attempts := c.attempts + 1, phase := p } := by
  obtain ⟨ha, hs, hc⟩ := h
  have hrun : Running { c with attempts := c.attempts + 1, phase := p } := ⟨by simp [ha], hs, hc⟩
  rcases hp with rfl | ⟨id, rfl⟩ | ⟨e, rfl⟩ <;> exact hrun

theorem running_keep {c : Call} (h : Running c) (p : Phase)
    (hp : p = .returned ∨ (∃ id, p = .waiting id) ∨ ∃ e, p = .failed e) :
    Recorded { c with phase := p } := by
  rcases hp with rfl | ⟨id, rfl⟩ | ⟨e, rfl⟩ <;> exact h

/-- `close` has ended after the accepted failure `e`. -/
theorem Reopening.markClose {c : Call} {e : Exc} (h : Reopening c e 0) : Reopening c.markClose e 1 := by
  obtain ⟨ha, hc, gs, hf, hre, hle, hs⟩ := h
  have hmc : c.markClose.failures = ⟨e, true, 1, 0⟩ :: gs := by simp [Call.markClose, hf]
  refine ⟨?_, ?_, gs, hmc, hre, hle, hs⟩
  · rw [hmc, show c.markClose.attempts = c.attempts from rfl, ha, hf]; rfl
  · simpa only [Counted, hmc, hf, List.length_cons] using hc

/-- `open` has ended after the accepted failure `e`: the call goes on to the
deadline check, or raises what `open` raised. -/
theorem Reopening.opened {c : Call} {e : Exc} (h : Reopening c e 1) (h1 : reopens e = 1) :
    Recorded { c.markOpen with phase := .sleeping e } ∧ ∀ x, Recorded (c.markOpen.raise x) := by
  obtain ⟨ha, hc, gs, hf, hre, hle, hs⟩ := h
  have hmo : c.markOpen.failures = ⟨e, true, 1, 1⟩ :: gs := by simp [Call.markOpen, hf]
  have hset : Settled c.counter.retries c.markOpen.failures := by
    rw [hmo]; exact ⟨⟨rfl, hre, hle, h1.symm, h1.symm⟩, hs⟩
  have hlen : c.markOpen.attempts = c.markOpen.failures.length := by
    rw [hmo, show c.markOpen.attempts = c.attempts from rfl, ha, hf]; rfl
  have hcnt : Counted c.markOpen := by simpa only [Counted, hmo, hf, List.length_cons] using hc
  exact ⟨⟨⟨hlen, hset, hcnt⟩, by simp [hmo]⟩,
    fun x => ⟨hlen, _, gs, hmo, Settled.ended (hmo ▸ hset), hs⟩⟩

/-- One step of a call keeps its record. -/
theorem Recorded.step {m : Manager} {t : Tid} {c : Call} (env : Env) (hr : Recorded c)
    (hw : Wired m c) : Recorded (c.step m t env).2 := by
  cases hp : c.phase with
  | start =>
    have hb : Between c := by simpa only [Recorded, hp] using hr
    simp only [Call.step, hp]
    split
    · exact running_of_between hb _ (.inr (.inl ⟨_, rfl⟩))
    · cases m.answerTo _ env with
      | none => exact running_of_between hb _ (.inl rfl)
      | some e => exact running_of_between hb _ (.inr (.inr ⟨e, rfl⟩))
    · exact running_of_between hb _ (.inr (.inr ⟨_, rfl⟩))
  | registered id =>
    have hrun : Running c := by simpa only [Recorded, hp] using hr
    simp only [Call.step, hp]
    split
    · split
      · exact running_keep hrun _ (.inr (.inl ⟨id, rfl⟩))
      · exact running_keep hrun _ (.inr (.inr ⟨_, rfl⟩))
    · exact running_keep hrun _ (.inr (.inr ⟨_, rfl⟩))
  | waiting id =>
    have hrun : Running c := by simpa only [Recorded, hp] using hr
    simp only [Call.step, hp]
    split
    · exact running_keep hrun _ (.inl rfl)
    · exact running_keep hrun _ (.inr (.inr ⟨_, rfl⟩))
  | failed e =>
    have hrun : Running c := by simpa only [Recorded, hp] using hr
    simp only [Call.step, hp]
    exact Recorded.judge hrun
  | accepted e =>
    obtain ⟨ha, hc, gs, hf, hre, hle, hs⟩ : Reopening c e 0 := by
      simpa only [Recorded, hp] using hr
    simp only [Call.step, hp]
    split
    · rename_i hro
      have h1 : reopens e = 1 := by simp [reopens, hro]
      obtain ⟨k', hk'⟩ := hw.conn_client (e := e) (by simp [hp, Phase.error?]) h1
        (by simp [hp, Phase.holdsClient])
      simp only [closeHandle_of_client hk']
      exact ⟨⟨ha, hc, gs, hf, hre, hle, hs⟩, h1⟩
    · rename_i hro
      have h0 : reopens e = 0 := by simp [reopens, hro]
      exact ⟨⟨ha, by rw [hf]; exact ⟨⟨rfl, hre, hle, h0.symm, h0.symm⟩, hs⟩, hc⟩, by simp [hf]⟩
  | closing e =>
    obtain ⟨h, h1⟩ : Reopening c e 0 ∧ reopens e = 1 := by simpa only [Recorded, hp] using hr
    simp only [Call.step, hp]
    exact ⟨h.markClose, h1⟩
  | reopening e =>
    obtain ⟨h, h1⟩ : Reopening c e 1 ∧ reopens e = 1 := by simpa only [Recorded, hp] using hr
    simp only [Call.step, hp]
    split
    · exact (h.opened h1).1
    · exact ⟨h, h1⟩
    · exact ⟨h, h1⟩
    · exact (h.opened h1).2 _
  | opening e w =>
    simp only [Call.step, hp]
    exact (by simpa only [Recorded, hp] using hr : Reopening c e 1 ∧ reopens e = 1)
  | opened e w =>
    obtain ⟨h, h1⟩ : Reopening c e 1 ∧ reopens e = 1 := by simpa only [Recorded, hp] using hr
    simp only [Call.step, hp]
    cases w with
    | client k => exact (h.opened h1).1
    | failed x => exact (h.opened h1).2 x
  | sleeping e =>
    obtain ⟨hb, hne⟩ : Between c ∧ c.failures ≠ [] := by simpa only [Recorded, hp] using hr
    simp only [Call.step, hp]
    split
    · split
      · obtain ⟨ha, hs, -⟩ := hb
        obtain ⟨f, gs, hf⟩ := List.exists_cons_of_ne_nil hne
        rw [hf] at hs
        exact ⟨by simp [Call.raise, ha], f, gs, hf, hs.ended, hs.2⟩
      · exact hb
    · exact hb
  | returned => simpa only [Call.step, hp] using hr
  | raised x => simpa only [Call.step, hp] using hr

theorem reopens_noMethod (h : Handle) (method : String) : reopens (noMethod h method) = 0 := rfl

/-- A step that leaves `conn`'s handle as it was and moves the call to a phase
that holds a client only if the old one did, that waits on no job, and that
names a reopenable error only if the old one named it. -/
theorem Wired.keep {m m' : Manager} {c c' : Call} (hw : Wired m c) (hcl : c'.client = c.client)
    (hconn : c'.conn = c.conn) (hh : (m'.conns c.conn).handle = (m.conns c.conn).handle)
    (hhold : c'.phase.holdsClient = true → c.phase.holdsClient = true)
    (hwait : ∀ id, c'.phase ≠ .waiting id)
    (herr : ∀ e, c'.phase.error? = some e → reopens e = 1 → c.phase.error? = some e) :
    Wired m' c' := by
  rw [Wired, hcl, hconn, hh]
  exact ⟨fun h => hw.1 (hhold h), fun id h => absurd h (hwait id),
    fun e he h1 => hw.2.2 e (herr e he h1) h1⟩

/-- One step of a call keeps it tied to its connection. -/
theorem Wired.step {m : Manager} {t : Tid} {c : Call} (env : Env) (hw : Wired m c) :
    Wired (c.step m t env).1 (c.step m t env).2 := by
  obtain ⟨w1, w2, w3⟩ := id hw
  have keepHandle : ∀ (m' : Manager) (c' : Call), m'.conns = m.conns → c'.client = c.client →
      c'.conn = c.conn → (∀ id, c'.phase = .waiting id → ∃ k, c.client = .client k) →
      (∀ e, c'.phase.error? = some e → reopens e = 1 → ∃ k, c.client = .client k) →
      c.phase.holdsClient = true → Wired m' c' := fun m' c' hm hcl hconn h2 h3 hold => by
    unfold Wired
    rw [hcl, hconn, hm]
    exact ⟨fun _ => w1 hold, h2, h3⟩
  cases hp : c.phase with
  | start =>
    have hold : c.phase.holdsClient = true := by rw [hp]; rfl
    simp only [Call.step, hp]
    split
    · exact keepHandle _ _ rfl rfl rfl (fun _ h => by cases h) (fun _ h => by cases h) hold
    · rename_i o k _ hk
      cases m.answerTo o env with
      | none => exact keepHandle _ _ rfl rfl rfl (fun _ h => by cases h) (fun _ h => by cases h) hold
      | some e => exact keepHandle _ _ rfl rfl rfl (fun _ h => by cases h) (fun _ _ _ => ⟨k, hk⟩) hold
    · refine keepHandle _ _ rfl rfl rfl (fun _ h => by cases h) (fun e h h1 => ?_) hold
      cases h; rw [reopens_noMethod] at h1; cases h1
  | registered id =>
    have hold : c.phase.holdsClient = true := by rw [hp]; rfl
    simp only [Call.step, hp]
    split
    · rename_i k hk
      split
      · exact keepHandle _ _ rfl rfl rfl (fun _ _ => ⟨k, hk⟩) (fun _ h => by cases h) hold
      · refine keepHandle _ _ (by split <;> rfl) rfl rfl (fun _ h => by cases h)
          (fun _ _ _ => ⟨k, hk⟩) hold
    · refine keepHandle _ _ rfl rfl rfl (fun _ h => by cases h) (fun e h h1 => ?_) hold
      cases h; rw [reopens_noMethod] at h1; cases h1
  | waiting id =>
    have hold : c.phase.holdsClient = true := by rw [hp]; rfl
    obtain ⟨k, hk⟩ := w2 id hp
    simp only [Call.step, hp]
    split
    · exact keepHandle _ _ rfl rfl rfl (fun _ h => by cases h) (fun _ h => by cases h) hold
    · exact keepHandle _ _ rfl rfl rfl (fun _ h => by cases h) (fun _ _ _ => ⟨k, hk⟩) hold
  | failed e =>
    have hold : c.phase.holdsClient = true := by rw [hp]; rfl
    obtain ⟨-, hconn, hcl, -⟩ := c.judge_fixed e
    simp only [Call.step, hp]
    refine keepHandle _ _ rfl hcl hconn (fun id h => ?_) (fun e' h h1 => ?_) hold
    · rcases c.judge_cases e with h' | h' <;> rw [h'] at h <;> cases h
    · rcases c.judge_cases e with h' | h' <;> rw [h'] at h <;> cases h
      exact w3 e (by rw [hp]; rfl) h1
  | accepted e =>
    have hold : c.phase.holdsClient = true := by rw [hp]; rfl
    have herr : ∀ e', (Phase.closing e).error? = some e' → reopens e' = 1 → ∃ k, c.client = .client k :=
      fun e' h h1 => by cases h; exact w3 e (by rw [hp]; rfl) h1
    simp only [Call.step, hp]
    split
    · rename_i hro
      have h1 : reopens e = 1 := by simp [reopens, hro]
      obtain ⟨k, hk⟩ := w3 e (by rw [hp]; rfl) h1
      obtain ⟨k', hk'⟩ := w1 hold k hk
      simp only [closeHandle_of_client hk']
      exact keepHandle _ _ (by simp [Function.update_eq_self]) rfl rfl (fun _ h => by cases h) herr hold
    · exact keepHandle _ _ rfl rfl rfl (fun _ h => by cases h)
        (fun e' h h1 => by cases h; exact w3 e (by rw [hp]; rfl) h1) hold
  | closing e =>
    simp only [Call.step, hp]
    exact hw.keep rfl rfl (by simp) (fun _ => by rw [hp]; rfl) (fun _ h => by cases h)
      (fun e' h _ => by rw [hp]; exact h)
  | reopening e =>
    have hold : c.phase.holdsClient = true := by rw [hp]; rfl
    have herr : ∀ w e', (Phase.opening e w).error? = some e' → reopens e' = 1 → c.phase.error? = some e' :=
      fun _ _ h _ => by rw [hp]; exact h
    simp only [Call.step, hp]
    split
    · exact hw.keep rfl rfl rfl (fun _ => hold) (fun _ h => by cases h) (fun e' h _ => by rw [hp]; exact h)
    · exact hw.keep rfl rfl rfl (fun _ => hold) (fun _ h => by cases h) (herr _)
    · exact hw.keep rfl rfl rfl (fun _ => hold) (fun _ h => by cases h) (herr _)
    · exact hw.keep rfl rfl rfl (fun h => by cases h) (fun _ h => by cases h) (fun _ h => by cases h)
  | opening e w =>
    simp only [Call.step, hp]
    unfold Wired
    refine ⟨fun hold k _ => ?_, fun _ h => ?_, fun e' h h1 => ?_⟩
    · cases w with
      | client k' => exact ⟨k', by simp [Opened.handle]⟩
      | failed x => cases hold
    · cases h
    · cases h; exact w3 e (by rw [hp]; rfl) h1
  | opened e w =>
    simp only [Call.step, hp]
    cases w with
    | client k =>
      exact hw.keep rfl rfl (by simp) (fun _ => by rw [hp]; rfl) (fun _ h => by cases h)
        (fun e' h _ => by rw [hp]; exact h)
    | failed x =>
      exact hw.keep rfl rfl (by simp) (fun h => by cases h) (fun _ h => by cases h) (fun _ h => by cases h)
  | sleeping e =>
    have hold : c.phase.holdsClient = true := by rw [hp]; rfl
    have keep : Wired m { c with phase := .start } :=
      hw.keep rfl rfl rfl (fun _ => hold) (fun _ h => by cases h) (fun _ h => by cases h)
    simp only [Call.step, hp]
    split
    · split
      · exact hw.keep rfl rfl rfl (fun h => by cases h) (fun _ h => by cases h) (fun _ h => by cases h)
      · exact keep
    · exact keep
  | returned => simpa only [Call.step, hp] using hw
  | raised x => simpa only [Call.step, hp] using hw

/-- A run of a call alone keeps its record and its tie to the connection. -/
theorem recorded_retryAndHandle (m : Manager) (t : Tid) (c : Call) (envs : List Env)
    (hr : Recorded c) (hw : Wired m c) :
    Recorded (retryAndHandle m t c envs).2 ∧
      Wired (retryAndHandle m t c envs).1 (retryAndHandle m t c envs).2 := by
  induction envs generalizing m c with
  | nil => exact ⟨hr, hw⟩
  | cons env envs ih => exact ih _ _ (hr.step env hw) (hw.step env)

theorem retryAndHandle_fixed (m : Manager) (t : Tid) (c : Call) (envs : List Env) :
    (retryAndHandle m t c envs).2.counter.retries = c.counter.retries := by
  induction envs generalizing m c with
  | nil => rfl
  | cons env envs ih => exact (ih _ _).trans (Call.step_fixed m t c env).2.2.2

theorem Call.judge_attempts (c : Call) (e : Exc) : (c.judge e).attempts = c.attempts := by
  unfold Call.judge; split
  · split <;> rfl
  · rfl

/-- Only the first step of an attempt counts it. -/
theorem Call.step_attempts (m : Manager) (t : Tid) (c : Call) (env : Env) :
    (c.step m t env).2.attempts = if c.phase = .start then c.attempts + 1 else c.attempts := by
  cases hp : c.phase
  case failed e => simpa only [Call.step, hp, reduceCtorEq, if_false] using c.judge_attempts e
  case start =>
    simp only [Call.step, hp, if_true]
    split
    · rfl
    · cases Manager.answerTo _ _ env <;> rfl
    · rfl
  all_goals
    simp only [Call.step, hp, reduceCtorEq, if_false]
    repeat' split
    all_goals rfl

theorem retryAndHandle_attempts_mono (m : Manager) (t : Tid) (c : Call) (envs : List Env) :
    c.attempts ≤ (retryAndHandle m t c envs).2.attempts := by
  induction envs generalizing m c with
  | nil => exact le_refl _
  | cons env envs ih =>
    refine le_trans ?_ (ih _ _)
    rw [Call.step_attempts]
    split <;> omega

/-- The `i`-th failure (oldest first) of a settled list is settled as the
`i + 1`-th. -/
theorem Settled.reverse_get {r : Int} {fs : List Failure} (h : Settled r fs) {i : Nat}
    {f : Failure} (hf : fs.reverse[i]? = some f) : SettledAt r (i + 1) f := by
  induction fs with
  | nil => simp at hf
  | cons g gs ih =>
    rw [List.reverse_cons] at hf
    by_cases hi : i < gs.length
    · rw [List.getElem?_append_left (by simpa using hi)] at hf
      exact ih h.2 hf
    · rw [List.getElem?_append_right (by simpa using hi)] at hf
      obtain ⟨hlt, rfl⟩ := List.getElem?_eq_some_iff.mp hf
      simp only [List.length_reverse, List.length_singleton] at hlt
      obtain rfl : i = gs.length := by omega
      simpa using h.1

theorem Settled.mem {r : Int} {fs : List Failure} (h : Settled r fs) {f : Failure} (hf : f ∈ fs) :
    ∃ n, SettledAt r n f := by
  induction fs with
  | nil => cases hf
  | cons g gs ih =>
    rcases List.mem_cons.mp hf with rfl | hf
    exacts [⟨_, h.1⟩, ih h.2 hf]

theorem SettledAt.balanced {r : Int} {n : Nat} {f : Failure} (h : SettledAt r n f) :
    f.opens = f.closes ∧ f.closes = (if f.accepted then reopens f.error else 0) := by
  obtain ⟨ha, -, -, hc, ho⟩ := h
  exact ⟨ho.trans hc.symm, by simp [ha, hc]⟩

/-- The failures of a list with one newest failure before settled ones. -/
theorem reverse_get_tail {r : Int} {f₀ f : Failure} {gs : List Failure} (h : Settled r gs)
    {i : Nat} (hi : i < gs.length) (hf : (f₀ :: gs).reverse[i]? = some f) : SettledAt r (i + 1) f := by
  rw [List.reverse_cons, List.getElem?_append_left (by simpa using hi)] at hf
  exact h.reverse_get hf

/-- The four shapes a record takes. -/
theorem Recorded.cases {c : Call} (h : Recorded c) :
    Between c ∨ Running c ∨ (∃ e n, Reopening c e n ∧ n ≤ reopens e) ∨ Stopped c := by
  cases hp : c.phase <;> simp only [Recorded, hp] at h
  case start => exact .inl h
  case sleeping => exact .inl h.1
  case registered | waiting | failed | returned => exact .inr (.inl h)
  case accepted => exact .inr (.inr (.inl ⟨_, 0, h, Nat.zero_le _⟩))
  case closing => exact .inr (.inr (.inl ⟨_, 0, h.1, Nat.zero_le _⟩))
  case reopening | opening | opened => exact .inr (.inr (.inl ⟨_, 1, h.1, h.2.ge⟩))
  case raised => exact .inr (.inr (.inr h))

theorem Recorded.finished {c : Call} (h : Recorded c) (hf : c.phase.finished = true) :
    Running c ∨ Stopped c := by
  cases hp : c.phase <;>
    simp only [Recorded, hp, Phase.finished, Bool.false_eq_true] at h hf
  exacts [.inl h, .inr h]

/-- At most `max r 0 + 1` attempts. -/
theorem Recorded.attempts_le {c : Call} (h : Recorded c) :
    (c.attempts : Int) ≤ max c.counter.retries 0 + 1 := by
  rcases h.cases with ⟨ha, hs, -⟩ | ⟨ha, hs, -⟩ | ⟨e, n, ⟨ha, -, gs, hf, -, hle, -⟩, -⟩ |
      ⟨ha, f, gs, hf, -, hs⟩
  · have := hs.length_le; omega
  · have := hs.length_le; omega
  · rw [ha, hf]; simp only [List.length_cons] at hle ⊢; omega
  · have := hs.length_le; rw [ha, hf]; simp only [List.length_cons]; omega

/-- Every failure after which another attempt started is settled. -/
theorem Recorded.followed {c : Call} (h : Recorded c) {i : Nat} {f : Failure}
    (hf : c.failures.reverse[i]? = some f) (hi : i + 1 < c.attempts) :
    SettledAt c.counter.retries (i + 1) f := by
  rcases h.cases with ⟨-, hs, -⟩ | ⟨-, hs, -⟩ | ⟨e, n, ⟨ha, -, gs, hfs, -, -, hs⟩, -⟩ |
      ⟨ha, f₀, gs, hfs, -, hs⟩
  · exact hs.reverse_get hf
  · exact hs.reverse_get hf
  · rw [hfs] at hf ha
    exact reverse_get_tail hs (by simp only [List.length_cons] at ha; omega) hf
  · rw [hfs] at hf ha
    exact reverse_get_tail hs (by simp only [List.length_cons] at ha; omega) hf

/-- Closes and opens of `conn` follow only accepted reopenable failures, at most
once each. -/
theorem Recorded.reopen_le {c : Call} (h : Recorded c) {f : Failure} (hf : f ∈ c.failures) :
    f.opens ≤ f.closes ∧ f.closes ≤ (if f.accepted then reopens f.error else 0) := by
  have ofSettled : ∀ {fs : List Failure}, Settled c.counter.retries fs → f ∈ fs →
      f.opens ≤ f.closes ∧ f.closes ≤ (if f.accepted then reopens f.error else 0) :=
    fun hs hm => by
      obtain ⟨n, hn⟩ := hs.mem hm
      obtain ⟨ho, hc⟩ := hn.balanced
      exact ⟨ho.le, hc.le⟩
  rcases h.cases with ⟨-, hs, -⟩ | ⟨-, hs, -⟩ | ⟨e, n, ⟨-, -, gs, hfs, -, -, hs⟩, hn⟩ |
      ⟨-, f₀, gs, hfs, hend, hs⟩
  · exact ofSettled hs hf
  · exact ofSettled hs hf
  · rw [hfs] at hf
    rcases List.mem_cons.mp hf with rfl | hf
    exacts [⟨Nat.zero_le _, by simpa using hn⟩, ofSettled hs hf]
  · rw [hfs] at hf
    rcases List.mem_cons.mp hf with rfl | hf
    exacts [⟨hend.1.le, hend.2.1.le⟩, ofSettled hs hf]

/-- When the call has finished, every failure was followed by exactly the closes
and opens it calls for. -/
theorem Recorded.finished_balanced {c : Call} (h : Recorded c) (hfin : c.phase.finished = true)
    {f : Failure} (hf : f ∈ c.failures) :
    f.opens = f.closes ∧ f.closes = (if f.accepted then reopens f.error else 0) := by
  rcases h.finished hfin with ⟨-, hs, -⟩ | ⟨-, f₀, gs, hfs, hend, hs⟩
  · obtain ⟨n, hn⟩ := hs.mem hf; exact hn.balanced
  · rw [hfs] at hf
    rcases List.mem_cons.mp hf with rfl | hf
    · exact ⟨hend.1, hend.2.1⟩
    · obtain ⟨n, hn⟩ := hs.mem hf; exact hn.balanced

/-- A call that has left its start has made an attempt. -/
theorem Recorded.attempts_pos {c : Call} (h : Recorded c) (hs : c.phase ≠ .start) :
    0 < c.attempts := by
  have ofCons : ∀ {f gs}, c.attempts = c.failures.length → c.failures = f :: gs → 0 < c.attempts :=
    fun ha hf => by rw [ha, hf]; exact Nat.succ_pos _
  cases hp : c.phase <;> simp only [Recorded, hp] at h
  case start => exact absurd hp hs
  case registered | waiting | failed | returned => rw [h.1]; exact Nat.succ_pos _
  case accepted => obtain ⟨ha, -, gs, hf, -⟩ := h; exact ofCons ha hf
  case closing | reopening | opening | opened =>
    obtain ⟨⟨ha, -, gs, hf, -⟩, -⟩ := h; exact ofCons ha hf
  case sleeping => obtain ⟨⟨ha, -⟩, hne⟩ := h; rw [ha]; exact List.length_pos.mpr hne
  case raised => obtain ⟨ha, f, gs, hf, -⟩ := h; exact ofCons ha hf

/-- `fn`'s client, if it is one, is a client of `conn` too: so `raw_execute`,
`copy_bq_table`, the dataset calls and `cancel_open` start their calls. -/
def Captured (m : Manager) (conn : Tid) (client : Handle) : Prop :=
  ∀ k, client = .client k → ∃ k', (m.conns conn).handle = .client k'

/-- A call started with retries `r` keeps its record and `r` over any run. -/
theorem recorded_start_run (m : Manager) (t : Tid) (fn : Fn) (conn : Tid) (client : Handle)
    (r : Int) (hconn : Captured m conn client) (envs : List Env) :
    Recorded (retryAndHandle m t (Call.start fn conn client r) envs).2 ∧
      (retryAndHandle m t (Call.start fn conn client r) envs).2.counter.retries = r := by
  have h0 : Recorded (Call.start fn conn client r) :=
    ⟨rfl, trivial, by simp [Counted, Call.start, ErrorCounter.new]⟩
  have w0 : Wired m (Call.start fn conn client r) := by
    refine ⟨fun _ => hconn, fun _ h => ?_, fun _ h => ?_⟩ <;> cases h
  exact ⟨(recorded_retryAndHandle m t _ envs h0 w0).1, retryAndHandle_fixed m t _ envs⟩

/-- What one `_retry_and_handle` call with retries `r` has done at any point of its
run: at most `max r 0 + 1` attempts, and exactly one once it has begun when
`r = 0`; every failure after which another attempt began was accepted,
retryable and at most the `r`-th, and was followed by one close and one open of
`conn` exactly when it is reopenable; closes and opens follow no other failure,
and once the call has finished each failure has had all of its own. -/
def RetryBounds (r : Int) (c : Call) : Prop :=
  (c.attempts : Int) ≤ max r 0 + 1 ∧
  (r = 0 → c.phase ≠ .start → c.attempts = 1) ∧
  (∀ i f, c.failures.reverse[i]? = some f → i + 1 < c.attempts → SettledAt r (i + 1) f) ∧
  (∀ f ∈ c.failures, f.opens ≤ f.closes ∧ f.closes ≤ (if f.accepted then reopens f.error else 0)) ∧
  (c.phase.finished = true → ∀ f ∈ c.failures,
    f.opens = f.closes ∧ f.closes = (if f.accepted then reopens f.error else 0))

/-- The first step of a run begins an attempt. -/
theorem retryAndHandle_start_attempts (m : Manager) (t : Tid) (fn : Fn) (conn : Tid)
    (client : Handle) (r : Int) {envs : List Env} (h : envs ≠ []) :
    0 < (retryAndHandle m t (Call.start fn conn client r) envs).2.attempts := by
  obtain ⟨env, rest, rfl⟩ := List.exists_cons_of_ne_nil h
  have h1 : (Call.step m t (Call.start fn conn client r) env).2.attempts = 1 := by
    rw [Call.step_attempts]; rfl
  exact Nat.lt_of_lt_of_le (by omega) (retryAndHandle_attempts_mono _ t _ rest)

theorem retry_and_handle_bounds (m : Manager) (t : Tid) (fn : Fn) (conn : Tid) (client : Handle)
    (r : Int) (hconn : Captured m conn client) (envs : List Env) :
    RetryBounds r (retryAndHandle m t (Call.start fn conn client r) envs).2 ∧
      (envs ≠ [] → 0 < (retryAndHandle m t (Call.start fn conn client r) envs).2.attempts) := by
  obtain ⟨hr, hret⟩ := recorded_start_run m t fn conn client r hconn envs
  refine ⟨⟨?_, fun hr0 hs => ?_, fun i f hf hi => ?_, fun f hf => hr.reopen_le hf,
    fun hfin f hf => hr.finished_balanced hfin hf⟩,
    retryAndHandle_start_attempts m t fn conn client r⟩
  · simpa only [hret] using hr.attempts_le
  · have := hr.attempts_le
    have := hr.attempts_pos hs
    rw [hret, hr0] at *
    omega
  · simpa only [hret] using hr.followed hf hi

/-- A query whose first `client.query` meets a connection reset, retried once. -/
def resetEnvs : List Env := [.quiet none, .quiet (some connectionReset)] ++ List.replicate 10 (.quiet none)

theorem retry_and_handle_bounds_after_reset :
    Captured oneConnection 0 (.client 0) ∧
      (RetryBounds 1 (retryAndHandle oneConnection 0 (Call.start .query 0 (.client 0) 1) resetEnvs).2 ∧
        (resetEnvs ≠ [] →
          0 < (retryAndHandle oneConnection 0 (Call.start .query 0 (.client 0) 1) resetEnvs).2.attempts)) ∧
      (retryAndHandle oneConnection 0 (Call.start .query 0 (.client 0) 1) resetEnvs).2.attempts = 2 ∧
      (retryAndHandle oneConnection 0 (Call.start .query 0 (.client 0) 1) resetEnvs).2.failures =
        [⟨connectionReset, true, 1, 1⟩] :=
  ⟨fun _ _ => ⟨0, rfl⟩,
    retry_and_handle_bounds oneConnection 0 .query 0 (.client 0) 1 (fun _ _ => ⟨0, rfl⟩) _,
    by decide, by decide⟩

/-- A failure that `_is_retryable` does not answer `True` for is the newest of the
call: it was rejected, no close or open of `conn` followed it, no attempt began
after it, and the call has raised. -/
def StopsAtFatal (c : Call) : Prop :=
  ∀ f ∈ c.failures, isRetryable f.error ≠ .ok true →
    c.failures.head? = some f ∧ f.accepted = false ∧ f.closes = 0 ∧ f.opens = 0 ∧
      c.attempts = c.failures.length ∧ ∃ x, c.phase = .raised x

theorem Recorded.stopsAtFatal {c : Call} (h : Recorded c) : StopsAtFatal c := by
  intro f hf hfatal
  have older : ∀ {fs}, Settled c.counter.retries fs → f ∉ fs :=
    fun hs hm => hfatal (hs.retryable hm).2
  have newest : ∀ {e n gs}, c.failures = ⟨e, true, n, 0⟩ :: gs → isRetryable e = .ok true →
      Settled c.counter.retries gs → False := fun hfs hre hs => by
    rw [hfs] at hf
    rcases List.mem_cons.mp hf with rfl | hf
    exacts [hfatal hre, older hs hf]
  cases hp : c.phase <;> simp only [Recorded, hp] at h
  case start | registered | waiting | failed | returned => exact absurd hf (older h.2.1)
  case sleeping => exact absurd hf (older h.1.2.1)
  case accepted => obtain ⟨-, -, gs, hfs, hre, -, hs⟩ := h; exact (newest hfs hre hs).elim
  case closing | reopening | opening | opened =>
    obtain ⟨⟨-, -, gs, hfs, hre, -, hs⟩, -⟩ := h; exact (newest hfs hre hs).elim
  case raised x =>
    obtain ⟨ha, f₀, gs, hfs, ⟨ho, hc, hacc⟩, hs⟩ := h
    rw [hfs] at hf ⊢
    rcases List.mem_cons.mp hf with rfl | hf
    · have hrej : f.accepted = false := by
        cases hb : f.accepted
        · rfl
        · exact absurd (hacc hb).1 hfatal
      rw [hrej, if_neg Bool.false_ne_true] at hc
      exact ⟨rfl, hrej, hc, ho.trans hc, by rw [ha, hfs], x, rfl⟩
    · exact absurd hf (older hs)

theorem fatal_failure_ends_run (m : Manager) (t : Tid) (fn : Fn) (conn : Tid) (client : Handle)
    (r : Int) (hconn : Captured m conn client) (envs : List Env) :
    StopsAtFatal (retryAndHandle m t (Call.start fn conn client r) envs).2 :=
  (recorded_start_run m t fn conn client r hconn envs).1.stopsAtFatal

/-- A query with two retries whose first attempt meets a connection reset and
whose second meets a `NotFound`, with a retry still left. -/
def resetThenNotFound : List Env :=
  [.quiet none, .quiet (some connectionReset)] ++ List.replicate 8 (.quiet none) ++
    [.quiet (some (notFoundJob 1))] ++ List.replicate 2 (.quiet none)

theorem not_found_after_reset_ends_run :
    Captured oneConnection 0 (.client 0) ∧
      (retryAndHandle oneConnection 0 (Call.start .query 0 (.client 0) 2) resetThenNotFound).2.failures.map
          (·.error) = [notFoundJob 1, connectionReset] ∧
      StopsAtFatal (retryAndHandle oneConnection 0 (Call.start .query 0 (.client 0) 2) resetThenNotFound).2 :=
  have hc : Captured oneConnection 0 (.client 0) := fun _ _ => ⟨0, rfl⟩
  ⟨hc, by decide, fatal_failure_ends_run _ _ _ _ _ _ hc _⟩

/-- A `BadRequest`, as the service answers a query with a syntax error. -/
def syntaxError : Exc :=
  ⟨[.badRequest], "400 Syntax error", [[("message", .str "Syntax error"), ("reason", .str "invalidQuery")]]⟩

/-- A query whose first `client.query` meets the syntax error. -/
def syntaxErrorOnce : List Env := [.quiet none, .quiet (some syntaxError)] ++ List.replicate 4 (.quiet none)

theorem bad_request_retried :
    (retryAndHandle oneConnection 0 (Call.start .query 0 (.client 0) 1) syntaxErrorOnce).2.attempts = 2 ∧
      (retryAndHandle oneConnection 0 (Call.start .query 0 (.client 0) 1) syntaxErrorOnce).2.failures =
        [⟨syntaxError, true, 0, 0⟩] := by
  decide

theorem retryAndHandle_of_finished (m : Manager) (t : Tid) {c : Call}
    (h : c.phase.finished = true) (envs : List Env) : retryAndHandle m t c envs = (m, c) := by
  induction envs with
  | nil => rfl
  | cons env envs ih =>
    have hstep : c.step m t env = (m, c) := by
      unfold Call.step
      split <;> first | rfl | simp_all [Phase.finished]
    simpa only [retryAndHandle, hstep] using ih

/-- A `Forbidden` whose entry has no `reason`, and a `BadRequest` whose entry has no
`message`. -/
def quotaExceeded : Exc := ⟨[.forbidden], "403 Quota exceeded", [[("message", .str "Quota exceeded")]]⟩

def unexplained : Exc := ⟨[.badRequest], "400 Bad request", [[("reason", .str "invalid")]]⟩

theorem forbidden_without_reason_received :
    (Call.step oneConnection 0 { Call.start .query 0 (.client 0) 1 with
        phase := .failed quotaExceeded, attempts := 1 } (.quiet none)).2.phase =
      .raised (.of .dbtRuntimeError "\x27reason\x27") ∧
    exceptionHandler quotaExceeded = .of .dbtDatabaseError "Quota exceeded" ∧
    exceptionHandler unexplained = keyError "message" := by
  decide

/-- The requests a step adds: none, or one of thread `t` through the call's
client, a `client.query` only for the id the call registered. -/
theorem Call.step_requests (m : Manager) (t : Tid) (c : Call) (env : Env) :
    ∃ new, (c.step m t env).1.requests = new ++ m.requests ∧
      ∀ q ∈ new, q.1 = t ∧ c.client = .client q.2.1 ∧ ∀ j, q.2.2 = .query j → c.phase = .registered j := by
  have keep : ∀ (m' : Manager) (p : Phase), m'.requests = m.requests → ∃ new,
      m'.requests = new ++ m.requests ∧
      ∀ q ∈ new, q.1 = t ∧ c.client = .client q.2.1 ∧ ∀ j, q.2.2 = .query j → p = .registered j :=
    fun _ _ h => ⟨[], h, by simp⟩
  cases hp : c.phase
  case start =>
    simp only [Call.step, hp]
    split
    · exact keep _ _ rfl
    · rename_i k _ hk
      exact ⟨[(t, k, _)], rfl, by simpa using hk⟩
    · exact keep _ _ rfl
  case registered id =>
    simp only [Call.step, hp]
    split
    · rename_i k hk
      refine ⟨[(t, k, .query id)], ?_, by simpa using hk⟩
      split
      · rfl
      · split <;> rfl
    · exact keep _ _ rfl
  all_goals
    simp only [Call.step, hp]
    repeat' split
    all_goals exact keep _ _ rfl

/-- `raw_execute` by thread 0 of `oneConnection` whose first `client.query` meets
a connection reset. -/
def resetOnce : List (Tid × Env) :=
  [(0, .quiet none), (0, .quiet none), (0, .quiet (some connectionReset))] ++
    List.replicate 10 (0, .quiet none)

theorem retry_queries_through_closed_client :
    ((Sys.idle oneConnection).run resetOnce).m.requests = [(0, 0, .query 1), (0, 0, .query 0)] ∧
      0 ∈ ((Sys.idle oneConnection).run resetOnce).m.pool.closed ∧
      (((Sys.idle oneConnection).run resetOnce).m.conns 0).handle = .client 1 := by
  decide

/-! ## What a caller receives -/

/-- What a caller of `_retry_and_handle` can receive: a `DbtRuntimeError` (a
`DbtDatabaseError` is one), the `KeyError` or `TypeError` that `handle_error`
raises on error entries without a `str` message, or a bare `BaseException`. -/
def Received (x : Exc) : Prop :=
  x.isInstance .dbtRuntimeError = true ∨ x = keyError "message" ∨ x.bases = [.typeError] ∨
    x.isInstance .exception = false

instance decReceived (x : Exc) : Decidable (Received x) := inferInstanceAs (Decidable (_ ∨ _))

theorem Translated.received {y x : Exc} (h : Translated y x) : Received x := by
  unfold Translated at h
  split at h
  · split at h
    · exact .inl (h ▸ rfl)
    · exact h.elim (fun h => .inr (.inl h)) fun h => .inr (.inr (.inl h))
  · split at h
    · exact .inl (h ▸ rfl)
    · split at h
      · rename_i hy
        exact h ▸ hy.elim (fun h => .inr (.inr (.inr h))) .inl
      · exact .inl (h ▸ rfl)

theorem received_exceptionHandler (y : Exc) : Received (exceptionHandler y) :=
  (translated_exceptionHandler y).received

/-- A step ends a call only by raising what a caller can receive. -/
theorem Call.step_received (m : Manager) (t : Tid) (c : Call) (env : Env)
    (h : ∀ x, c.phase = .raised x → Received x) :
    ∀ x, (c.step m t env).2.phase = .raised x → Received x := by
  intro x hx
  cases hp : c.phase
  case raised y => simp only [Call.step, hp] at hx; exact h x (hp.trans hx)
  case failed e =>
    simp only [Call.step, hp] at hx
    rcases c.judge_cases e with h' | h' <;> rw [h'] at hx <;> cases hx
    exact received_exceptionHandler _
  case start =>
    simp only [Call.step, hp] at hx
    split at hx
    · cases hx
    · rename_i o _ _ _
      cases hr : m.answerTo o env <;> simp [hr, Call.answered] at hx
    · simp at hx
  case opened e w =>
    cases w <;> simp [Call.step, hp, Call.raise, Call.markOpen] at hx
    subst hx
    exact received_exceptionHandler _
  all_goals
    simp only [Call.step, hp] at hx
    repeat' split at hx
    all_goals first
      | (simp [Call.raise, Call.markClose, Call.markOpen] at hx; done)
      | (simp [Call.raise, Call.markClose, Call.markOpen] at hx; subst hx
         exact received_exceptionHandler _)

theorem retryAndHandle_received (m : Manager) (t : Tid) (c : Call) (envs : List Env)
    (h : ∀ x, c.phase = .raised x → Received x) :
    ∀ x, (retryAndHandle m t c envs).2.phase = .raised x → Received x := by
  induction envs generalizing m c with
  | nil => exact h
  | cons env envs ih => exact ih _ _ (c.step_received m t env h)

/-- Whatever the service answers and `open` does, what a `_retry_and_handle`
call raises to its caller is a `DbtRuntimeError`, the `KeyError` or `TypeError`
of `handle_error` on malformed error entries, or a bare `BaseException`: on a
failed attempt, a failed reopen, a failed close, a missing method or the
deadline alike. -/
theorem retry_and_handle_raises_received (m : Manager) (t : Tid) (fn : Fn) (conn : Tid)
    (client : Handle) (r : Int) (envs : List Env) (x : Exc)
    (h : (retryAndHandle m t (Call.start fn conn client r) envs).2.phase = .raised x) : Received x :=
  retryAndHandle_received m t _ envs (fun _ h => by cases h) x h

/-- A query that meets a syntax error twice, with one retry. -/
def twoSyntaxErrors : List Env :=
  [.quiet none, .quiet (some syntaxError), .quiet none, .quiet none, .quiet none, .quiet none,
    .quiet (some syntaxError), .quiet none]

theorem syntax_error_received :
    (retryAndHandle oneConnection 0 (Call.start .query 0 (.client 0) 1) twoSyntaxErrors).2.phase =
        .raised (.of .dbtDatabaseError "Syntax error") ∧
      Received (.of .dbtDatabaseError "Syntax error") :=
  have h : (retryAndHandle oneConnection 0 (Call.start .query 0 (.client 0) 1) twoSyntaxErrors).2.phase =
      .raised (.of .dbtDatabaseError "Syntax error") := by decide
  ⟨h, retry_and_handle_raises_received _ _ _ _ _ _ _ _ h⟩

end DbtBigQuery
