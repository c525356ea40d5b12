import Mathlib.Data.List.Basic

/-!
# `ConnectionLimiter`

How many web tasks a webseed may run at a time (webseed.cc): several while all is well, one after
an error until piece data arrives, and none for `TimeoutIntervalSecs` once
`MaxConsecutiveFailures` errors come in a row. `tr_time()` is passed as `now`.

* `taskStarted`, `taskFinished`, `gotData`, `slotsAvailable` : the class;
* `LimiterOp`, `run` : a sequence of calls on a fresh limiter;
* `referenceSlots` : the slot count read off the calls themselves, the failures since the last
  `gotData` and the tasks still outstanding;
* `run_fields` : what the three fields hold after a matched sequence, and `slotsAvailable_run` :
  the limiter answers `referenceSlots` after every matched sequence.
-/

namespace LibTransmission

/-- `ConnectionLimiter`. The `size_t` counters are `Nat`: they count tasks and failed fetches, far
below `2^64`; `paused_until` is a `tr_time()` value or zero. -/
structure ConnectionLimiter where
  nTasks : Nat := 0
  nConsecutiveFailures : Nat := 0
  pausedUntil : Nat := 0
  deriving Repr, DecidableEq

namespace ConnectionLimiter

def TimeoutIntervalSecs : Nat := 120

def MaxConnections : Nat := 4

def MaxConsecutiveFailures : Nat := MaxConnections

variable (l : ConnectionLimiter) (now : Nat)

def taskStarted : ConnectionLimiter := { l with nTasks := l.nTasks + 1 }

def taskFailed : ConnectionLimiter :=
  if l.nConsecutiveFailures + 1 ≥ MaxConsecutiveFailures then
    { l with nConsecutiveFailures := l.nConsecutiveFailures + 1,
             pausedUntil := now + TimeoutIntervalSecs }
  else { l with nConsecutiveFailures := l.nConsecutiveFailures + 1 }

def taskFinished (success : Bool) : ConnectionLimiter :=
  let l := if success then l else l.taskFailed now
  { l with nTasks := l.nTasks - 1 }

def gotData : ConnectionLimiter := { l with nConsecutiveFailures := 0, pausedUntil := 0 }

def isPaused : Bool := decide (now < l.pausedUntil)

def maxConnections : Nat := if l.nConsecutiveFailures > 0 then 1 else MaxConnections

def slotsAvailable : Nat :=
  if l.isPaused now then 0
  else if l.nTasks ≥ l.maxConnections then 0 else l.maxConnections - l.nTasks

@[simp] theorem taskStarted_nTasks : l.taskStarted.nTasks = l.nTasks + 1 := rfl
@[simp] theorem taskStarted_nConsecutiveFailures :
    l.taskStarted.nConsecutiveFailures = l.nConsecutiveFailures := rfl
@[simp] theorem taskStarted_pausedUntil : l.taskStarted.pausedUntil = l.pausedUntil := rfl
@[simp] theorem gotData_nTasks : l.gotData.nTasks = l.nTasks := rfl
@[simp] theorem gotData_nConsecutiveFailures : l.gotData.nConsecutiveFailures = 0 := rfl
@[simp] theorem gotData_pausedUntil : l.gotData.pausedUntil = 0 := rfl

@[simp] theorem taskFinished_nTasks (s : Bool) : (l.taskFinished now s).nTasks = l.nTasks - 1 := by
  cases s <;> simp only [taskFinished, taskFailed] <;> split_ifs <;> rfl

@[simp] theorem taskFinished_true : l.taskFinished now true = { l with nTasks := l.nTasks - 1 } :=
  rfl

theorem taskFinished_false_nConsecutiveFailures :
    (l.taskFinished now false).nConsecutiveFailures = l.nConsecutiveFailures + 1 := by
  simp only [taskFinished, taskFailed, Bool.false_eq_true, if_false]; split_ifs <;> rfl

theorem taskFinished_false_pausedUntil :
    (l.taskFinished now false).pausedUntil =
      if l.nConsecutiveFailures + 1 ≥ MaxConsecutiveFailures then now + TimeoutIntervalSecs
      else l.pausedUntil := by
  simp only [taskFinished, taskFailed, Bool.false_eq_true, if_false]; split_ifs <;> rfl

theorem slotsAvailable_eq :
    l.slotsAvailable now =
      if now < l.pausedUntil then 0
      else (if l.nConsecutiveFailures > 0 then 1 else 4) - l.nTasks := by
  simp only [slotsAvailable, isPaused, maxConnections, MaxConnections, decide_eq_true_eq]
  split_ifs <;> omega

end ConnectionLimiter

/-! ## Sequences of calls -/

/-- One call on the limiter; `taskFinished` carries the `tr_time()` it ran at. -/
inductive LimiterOp
  | taskStarted
  | taskFinished (success : Bool) (t : Nat)
  | gotData
  deriving DecidableEq, Repr

namespace LimiterOp

def apply : LimiterOp → ConnectionLimiter → ConnectionLimiter
  | taskStarted, l => l.taskStarted
  | taskFinished s t, l => l.taskFinished t s
  | gotData, l => l.gotData

def isStarted : LimiterOp → Bool
  | taskStarted => true
  | _ => false

def isFinished : LimiterOp → Bool
  | taskFinished _ _ => true
  | _ => false

/-- The time of a failed `taskFinished`. -/
def failureTime : LimiterOp → Option Nat
  | taskFinished false t => some t
  | _ => none

end LimiterOp

/-- The limiter after the calls `ops` on a fresh one. -/
def ConnectionLimiter.run (ops : List LimiterOp) : ConnectionLimiter :=
  ops.foldl (fun l op => op.apply l) {}

/-- The calls since the last `gotData`. -/
def sinceLastGotData (ops : List LimiterOp) : List LimiterOp :=
  (ops.reverse.takeWhile (· ≠ .gotData)).reverse

/-- The times of the failed `taskFinished` calls, in order. -/
def failureTimes (ops : List LimiterOp) : List Nat := ops.filterMap LimiterOp.failureTime

def startedCount (ops : List LimiterOp) : Nat := ops.countP LimiterOp.isStarted

def finishedCount (ops : List LimiterOp) : Nat := ops.countP LimiterOp.isFinished

/-- Every `taskFinished` is preceded by a `taskStarted` of its own. -/
def Matched (ops : List LimiterOp) : Prop :=
  ∀ k ≤ ops.length, finishedCount (ops.take k) ≤ startedCount (ops.take k)

instance (ops : List LimiterOp) : Decidable (Matched ops) :=
  inferInstanceAs (Decidable (∀ k ≤ ops.length, _))

/-- The slot count the calls call for. Since the last `gotData`, the failed `taskFinished` calls
from the fourth on are those that brought the failure count to at least 4; while the latest of
them is less than 120 s old there is no slot. Otherwise the cap is 1 after any failure since the
last `gotData` and 4 without one, less the tasks started and not finished. -/
def referenceSlots (ops : List LimiterOp) (now : Nat) : Nat :=
  let fails := failureTimes (sinceLastGotData ops)
  let cap := (if fails = [] then 4 else 1) - (startedCount ops - finishedCount ops)
  match (fails.drop 3).getLast? with
  | some t => if t + 120 > now then 0 else cap
  | none => cap

theorem ConnectionLimiter.run_snoc (ops : List LimiterOp) (op : LimiterOp) :
    ConnectionLimiter.run (ops ++ [op]) = op.apply (ConnectionLimiter.run ops) := by
  simp [ConnectionLimiter.run, List.foldl_append]

theorem sinceLastGotData_snoc (ops : List LimiterOp) (op : LimiterOp) :
    sinceLastGotData (ops ++ [op]) =
      if op = .gotData then [] else sinceLastGotData ops ++ [op] := by
  unfold sinceLastGotData
  by_cases h : op = .gotData <;> simp [List.takeWhile_cons, h]

theorem Matched.of_snoc {ops : List LimiterOp} {op : LimiterOp} (h : Matched (ops ++ [op])) :
    Matched ops ∧ finishedCount (ops ++ [op]) ≤ startedCount (ops ++ [op]) := by
  have hall := h (ops.length + 1) (by simp)
  rw [List.take_of_length_le (by simp)] at hall
  refine ⟨fun k hk => ?_, hall⟩
  have := h k (by simp; omega)
  rwa [List.take_append_of_le_length hk] at this

/-- The pause a list of failure times sets: from the fourth failure on, each re-arms it. -/
def pauseOf (fails : List Nat) : Nat :=
  match (fails.drop 3).getLast? with
  | some t => t + 120
  | none => 0

theorem pauseOf_snoc (fails : List Nat) (t : Nat) :
    pauseOf (fails ++ [t]) = if fails.length + 1 ≥ 4 then t + 120 else pauseOf fails := by
  simp only [pauseOf, List.getLast?_drop, List.length_append, List.length_singleton,
    List.getLast?_concat]
  split_ifs <;> first | rfl | omega

theorem run_fields (ops : List LimiterOp) (h : Matched ops) :
    (ConnectionLimiter.run ops).nTasks = startedCount ops - finishedCount ops ∧
    (ConnectionLimiter.run ops).nConsecutiveFailures =
      (failureTimes (sinceLastGotData ops)).length ∧
    (ConnectionLimiter.run ops).pausedUntil = pauseOf (failureTimes (sinceLastGotData ops)) := by
  induction ops using List.reverseRecOn with
  | nil => exact ⟨rfl, rfl, rfl⟩
  | append_singleton ops op ih =>
    obtain ⟨hm, hle⟩ := h.of_snoc
    obtain ⟨h1, h2, h3⟩ := ih hm
    have hops := hm ops.length le_rfl
    rw [List.take_length] at hops
    simp only [ConnectionLimiter.run_snoc, sinceLastGotData_snoc, startedCount, finishedCount,
      failureTimes, List.countP_append, List.countP_cons, List.countP_nil] at h1 h2 h3 hle hops ⊢
    cases op with
    | taskStarted =>
      simp [LimiterOp.apply, LimiterOp.isStarted, LimiterOp.isFinished, List.filterMap_append,
        LimiterOp.failureTime, h1, h2, h3] at hle ⊢
      omega
    | gotData =>
      simp [LimiterOp.apply, LimiterOp.isStarted, LimiterOp.isFinished, pauseOf, h1]
    | taskFinished s t =>
      cases s
      · simp [LimiterOp.apply, LimiterOp.isStarted, LimiterOp.isFinished, List.filterMap_append,
          LimiterOp.failureTime, ConnectionLimiter.taskFinished_false_nConsecutiveFailures,
          ConnectionLimiter.taskFinished_false_pausedUntil, pauseOf_snoc,
          ConnectionLimiter.MaxConsecutiveFailures, ConnectionLimiter.MaxConnections,
          ConnectionLimiter.TimeoutIntervalSecs, h1, h2, h3] at hle ⊢
        omega
      · simp [LimiterOp.apply, LimiterOp.isStarted, LimiterOp.isFinished, List.filterMap_append,
          LimiterOp.failureTime, h1, h2, h3] at hle ⊢
        omega

/-- The limiter answers what the calls call for, after every matched sequence of calls and at
every time. -/
theorem slotsAvailable_run (ops : List LimiterOp) (h : Matched ops) (now : Nat) :
    (ConnectionLimiter.run ops).slotsAvailable now = referenceSlots ops now := by
  obtain ⟨h1, h2, h3⟩ := run_fields ops h
  rw [ConnectionLimiter.slotsAvailable_eq, h1, h2, h3, referenceSlots, pauseOf]
  rcases (failureTimes (sinceLastGotData ops)).drop 3 |>.getLast? with _ | t <;>
    simp only [List.length_pos, ne_eq, gt_iff_lt] <;> split_ifs <;> omega

/-- Scenario D of the spec: four failed tasks on a fresh limiter, at times `0` to `3`. -/
def scenarioD : List LimiterOp :=
  [.taskStarted, .taskFinished false 0, .taskStarted, .taskFinished false 1,
   .taskStarted, .taskFinished false 2, .taskStarted, .taskFinished false 3]

theorem slotsAvailable_run_scenarioD :
    Matched scenarioD ∧ (ConnectionLimiter.run scenarioD).slotsAvailable 123 =
      referenceSlots scenarioD 123 :=
  ⟨by decide, slotsAvailable_run scenarioD (by decide) 123⟩

end LibTransmission
