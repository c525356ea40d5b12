import LibTransmission.Webseed.SessionInv

/-!
# Back-off of a webseed

How the limiter throttles task creation in the session, `requestBlocks` being reached only from
`on_idle`:

* `Inv.onIdle_creates`, `Inv.step_creates` : an event creates a task only when the limiter is not
  paused, and after a failure only one task, when no other fetch of a live task is in flight;
* `reachable_task_creation` : with `n_tasks` counting the fetches of live tasks, at most
  `MaxConnections` of them are ever in flight;
* `four_failed_fetches_leave_a_slot` : bytes the HTTP layer adds to a live task's buffer reach
  `gotData`, which clears the failure count whatever status the fetch then ends with, so four
  failed fetches in a row that each stream an error page leave a slot open instead of pausing
  the webseed.
-/

namespace LibTransmission

namespace ConnectionLimiter

variable {l : ConnectionLimiter} {now : Nat}

theorem isPaused_eq_false (h : 0 < l.slotsAvailable now) : l.isPaused now = false := by
  rw [slotsAvailable_eq] at h
  by_cases hp : now < l.pausedUntil
  · rw [if_pos hp] at h; omega
  · simpa [isPaused] using hp

theorem slotsAvailable_of_failure (h : 0 < l.slotsAvailable now)
    (hfail : 0 < l.nConsecutiveFailures) : l.nTasks = 0 ∧ l.slotsAvailable now = 1 := by
  rw [slotsAvailable_eq, if_pos hfail] at *
  split_ifs at h ⊢ <;> omega

end ConnectionLimiter

namespace World

variable {L : FileLayout} {w w' : World}

/-- The tasks `on_idle` creates: none while the limiter is paused, and after a failure one, when
no fetch of a live task is in flight, which is then the only one. -/
theorem Inv.onIdle_creates (hw : Inv w) (halive : w.alive = true) {spans : List BlockSpan}
    (h : World.onIdle L w spans = .ok w') (hlt : w.nextId < w'.nextId) :
    w.limiter.isPaused w.now = false ∧
      (0 < w.limiter.nConsecutiveFailures → w'.nextId = w.nextId + 1 ∧
        (w'.fetches.filter fun f => liveIn w'.heap f.task).map Fetch.task = [w.nextId]) := by
  rcases onIdle_cases h with rfl | ⟨hpos, hready, h⟩
  · exact absurd hlt (Nat.lt_irrefl _)
  refine ⟨ConnectionLimiter.isPaused_eq_false hpos, fun hfail => ?_⟩
  obtain ⟨hn0, hs1⟩ := ConnectionLimiter.slotsAvailable_of_failure hpos hfail
  have htor := torrentReady_isSome hready
  rw [hs1] at h
  cases spans with
  | nil => cases h; exact absurd hlt (Nat.lt_irrefl _)
  | cons span rest =>
    obtain ⟨w₁, h₁, hrest⟩ := foldlM_startTask_cons.mp h
    cases hrest
    obtain ⟨-, rfl⟩ := startTask_ok htor h₁
    refine ⟨rfl, ?_⟩
    -- no fetch of a live task was in flight, and the new one is live
    have hnone : ∀ f ∈ w.fetches, liveIn w.heap f.task = false := fun f hf =>
      Bool.eq_false_iff.mpr fun hl =>
        absurd (hw.n_tasks halive ▸ hn0) (Nat.pos_iff_ne_zero.mp (liveCount_pos hf hl))
    rw [List.filter_append, List.filter_eq_nil_iff.mpr fun f hf => ?_]
    · simp [Task.new]
    · have hne : f.task ≠ w.nextId := Nat.ne_of_lt (hw.alloc_lt hf)
      simp [hne, hnone f hf]

theorem retired_limiter (w : World) (f : Fetch) (drained : List Drained) :
    (((w.finishFetch f true).writeBlocks drained).eraseTask f.task).limiter.isPaused w.now =
        w.limiter.isPaused w.now ∧
      (((w.finishFetch f true).writeBlocks drained).eraseTask f.task).limiter.nConsecutiveFailures =
        w.limiter.nConsecutiveFailures := by
  simp [World.finishFetch, World.writeBlocks, World.eraseTask, ConnectionLimiter.isPaused]

/-- Only `on_idle` creates tasks: from the idle timer, or at the end of a span. -/
theorem Inv.step_creates (hw : Inv w) {st : Step} (h : w.step L st = .ok w')
    (hlt : w.nextId < w'.nextId) :
    w.limiter.isPaused w.now = false ∧
      (0 < w.limiter.nConsecutiveFailures → w'.nextId = w.nextId + 1 ∧
        (w'.fetches.filter fun f => liveIn w'.heap f.task).map Fetch.task = [w.nextId]) := by
  cases st with
  | idle spans =>
    simp only [World.step] at h
    split at h
    · exact hw.onIdle_creates ‹_› h hlt
    · cases Except.ok.inj h; exact absurd hlt (Nat.lt_irrefl _)
  | bufferGotData f bytes =>
    simp only [World.step] at h
    split at h
    · obtain ⟨task, -, rfl | ⟨-, -, -, -, rfl⟩⟩ := onBufferGotData_cases h <;>
        exact absurd hlt (Nat.lt_irrefl _)
    · cases Except.ok.inj h; exact absurd hlt (Nat.lt_irrefl _)
  | partialDataFetched f status spans =>
    simp only [World.step] at h
    split at h
    · rename_i hf
      obtain ⟨task, hk, ⟨-, rfl⟩ | ⟨hdead, halive, -, hcases⟩⟩ := onPartialDataFetched_cases h
      · exact absurd hlt (Nat.lt_irrefl _)
      rcases hcases with ⟨-, rfl⟩ | ⟨htor, ⟨blocks, rfl⟩ | ⟨task', drained, -, -, -, rfl⟩ |
        ⟨drained, h206, h⟩⟩
      · exact absurd hlt (Nat.lt_irrefl _)
      · exact absurd hlt (Nat.lt_irrefl _)
      · exact absurd hlt (Nat.lt_irrefl _)
      · subst h206
        have hlive : liveIn w.heap f.task = true := by simp [liveIn, hk, hdead]
        have hw₁ : Inv (((w.finishFetch f true).writeBlocks drained).eraseTask f.task) :=
          hw.retireTask halive hf hlive rfl rfl rfl rfl rfl id
            (ConnectionLimiter.taskFinished_nTasks _ _ _)
        obtain ⟨hp, hfail⟩ := retired_limiter w f drained
        obtain ⟨hp', hcreate⟩ := hw₁.onIdle_creates halive h hlt
        exact ⟨hp ▸ hp', fun h => hcreate (hfail ▸ h)⟩
    · cases Except.ok.inj h; exact absurd hlt (Nat.lt_irrefl _)
  | writeBlock =>
    rcases writeBlockFunc_cases h with rfl | ⟨job, rest, -, rfl | rfl⟩ <;>
      exact absurd hlt (Nat.lt_irrefl _)
  | destroyWebseed | updateTorrent _ =>
    cases Except.ok.inj h
    split at hlt <;> exact absurd hlt (Nat.lt_irrefl _)
  | removeTorrent | tick _ => cases Except.ok.inj h; exact absurd hlt (Nat.lt_irrefl _)

end World

/-- In every reachable world at most `MaxConnections` fetches of live tasks are in flight; an
event creates a task only while the limiter is not paused; and while the failure count is
positive, it creates one task, and only when no other fetch of a live task is in flight. -/
theorem reachable_task_creation {L : FileLayout} {w : World} (hw : Reachable L w) :
    w.liveCount ≤ ConnectionLimiter.MaxConnections ∧
    ∀ st w', w.step L st = .ok w' → w.nextId < w'.nextId →
      w.limiter.isPaused w.now = false ∧
      (0 < w.limiter.nConsecutiveFailures → w'.nextId = w.nextId + 1 ∧
        (w'.fetches.filter fun f => World.liveIn w'.heap f.task).map Fetch.task = [w.nextId]) :=
  ⟨hw.inv.n_tasks_le, fun _ _ h hlt => hw.inv.step_creates h hlt⟩

/-- A webseed on a one-byte torrent after its first fetch failed with 404: one failure on the
count, and no fetch in flight. -/
theorem reachable_task_creation_after_failure :
    ∃ w, runSteps (FileLayout.ofSizes [1]) (World.init 0 ⟨true, false, fun _ => false⟩)
        [.idle [⟨0, 1⟩], .partialDataFetched ⟨0, ⟨0, 0, 1⟩⟩ 404 []] = .ok w ∧
      w.limiter.nConsecutiveFailures = 1 ∧ w.liveCount = 0 ∧
      w.liveCount ≤ ConnectionLimiter.MaxConnections ∧
      ∀ st w', w.step (FileLayout.ofSizes [1]) st = .ok w' → w.nextId < w'.nextId →
        w.limiter.isPaused w.now = false ∧
        (0 < w.limiter.nConsecutiveFailures → w'.nextId = w.nextId + 1 ∧
          (w'.fetches.filter fun f => World.liveIn w'.heap f.task).map Fetch.task = [w.nextId]) := by
  have h : (runSteps (FileLayout.ofSizes [1]) (World.init 0 ⟨true, false, fun _ => false⟩)
      [.idle [⟨0, 1⟩], .partialDataFetched ⟨0, ⟨0, 0, 1⟩⟩ 404 []]).toOption.map
        (fun w => w.limiter.nConsecutiveFailures == 1 && w.liveCount == 0) = some true := by
    decide
  obtain ⟨w, hrun, hp⟩ := runSteps_exists h
  simp only [Bool.and_eq_true, beq_iff_eq] at hp
  exact ⟨w, hrun, hp.1, hp.2, reachable_task_creation (runSteps_reachable (.init 0 _) hrun)⟩

/-! ## Failed fetches that stream a body -/

/-- The events of a webseed on a one-byte torrent whose server answers four fetches in a row with
404 and a one-byte error page: each time the idle timer creates a task, the page reaches the
task's buffer, and the fetch fails. -/
def fourFailedFetches : List Step :=
  (List.range 4).flatMap fun k =>
    [.idle [⟨0, 1⟩], .bufferGotData ⟨k, ⟨0, 0, 1⟩⟩ [0], .partialDataFetched ⟨k, ⟨0, 0, 1⟩⟩ 404 []]

/-- After the fourth failed fetch in a row, with no time passed, the limiter has one slot: the
error pages reset the failure count each time, so it never reaches `MaxConsecutiveFailures`. -/
theorem four_failed_fetches_leave_a_slot :
    ∃ w, runSteps (FileLayout.ofSizes [1]) (World.init 0 ⟨true, false, fun _ => false⟩)
      fourFailedFetches = .ok w ∧
      w.limiter.nConsecutiveFailures = 1 ∧ w.limiter.slotsAvailable w.now = 1 := by
  have h : (runSteps (FileLayout.ofSizes [1]) (World.init 0 ⟨true, false, fun _ => false⟩)
      fourFailedFetches).toOption.map (fun w => w.limiter.nConsecutiveFailures == 1 &&
        w.limiter.slotsAvailable w.now == 1) = some true := by
    decide
  obtain ⟨w, hw, hp⟩ := runSteps_exists h
  simp only [Bool.and_eq_true, beq_iff_eq] at hp
  exact ⟨w, hw, hp⟩

end LibTransmission
