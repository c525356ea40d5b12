import LibTransmission.Webseed.Simulation

/-!
# After `~tr_webseed`

The destructor flags the tasks of the set dead and leaves their fetches running. What can still
run after it:

* `reachable_callbacks_after_destroy` : in every reachable world, a late buffer callback or
  completion of a dead task's fetch touches only that task, adding to its buffer or freeing it,
  and never the webseed;
* `writeBlock_after_destroy` : a `write_block_data` queued before the destructor still calls
  `webseed_->publish` when the session thread runs it, the torrent being there;
* `queued_write_after_destroy` : such a job exists: the block is handed off, the webseed is
  destroyed, and the job publishes through the freed webseed;
* `reachable_stalled_task_leaks` : a task left with no fetch in flight, as one is when its fetch
  completes after the torrent went away, is never freed, the destructor included.
-/

namespace LibTransmission

namespace World

variable {L : FileLayout} {w : World}

/-- The session thread runs a queued `write_block_data` after the destructor, with the torrent
there: `write_block_func` calls `publish` on the freed webseed. -/
theorem writeBlock_after_destroy (hdead : w.alive = false) (htor : w.torrent.isSome)
    (hjobs : w.jobs ≠ []) : w.step L .writeBlock = .error .useAfterFree := by
  obtain ⟨job, rest, hj⟩ := List.exists_cons_of_ne_nil hjobs
  simp [World.step, writeBlockFunc, hj, htor, hdead]

/-! ## Stalled tasks

`onPartialDataFetched` returns before `useFetchedBlocks` when the torrent is gone, and
`task_request_next_chunk` starts no fetch then: the task stays allocated with no fetch in flight.
The only `delete task` is in the completion of the task's own fetch, so nothing frees it. -/

/-- Task `k` is allocated and no fetch in flight fills it. -/
def Stalled (w : World) (k : Nat) : Prop := (w.heap k).isSome ∧ reqsOf w.fetches k = []

theorem reqsOf_eq_nil_iff {fs : List Fetch} {k : Nat} :
    reqsOf fs k = [] ↔ ∀ f ∈ fs, f.task ≠ k := by
  simp [reqsOf, List.filter_eq_nil_iff]

theorem Stalled.step {w' : World} (hw : Inv w) {k : Nat} (hs : w.Stalled k) {st : Step}
    (h : w.step L st = .ok w') : w'.Stalled k := by
  obtain ⟨hk, hnil⟩ := hs
  have hlt : k < w.nextId := Nat.lt_of_not_le fun h' => by simp [hw.fresh k h'] at hk
  have hne : ∀ {f}, f ∈ w.fetches → f.task ≠ k := reqsOf_eq_nil_iff.mp hnil _
  suffices (w'.heap k).isSome = (w.heap k).isSome ∧ reqsOf w'.fetches k = reqsOf w.fetches k from
    ⟨this.1 ▸ hk, this.2 ▸ hnil⟩
  cases st with
  | idle spans =>
    simp only [World.step] at h
    split at h
    · obtain ⟨h1, h2⟩ := (onIdle_frame h).2.2.2.2.2.2 k hlt
      exact ⟨by rw [h1], h2⟩
    · cases Except.ok.inj h; exact ⟨rfl, rfl⟩
  | bufferGotData f bytes =>
    simp only [World.step] at h
    split at h
    · obtain ⟨h1, h2⟩ := onBufferGotData_frame (hne ‹_›) h
      exact ⟨by rw [h1], h2⟩
    · cases Except.ok.inj h; exact ⟨rfl, rfl⟩
  | partialDataFetched f status spans =>
    simp only [World.step] at h
    split at h
    · obtain ⟨h1, h2⟩ := onPartialDataFetched_frame (hne ‹_›) hlt h
      exact ⟨by rw [h1], h2⟩
    · cases Except.ok.inj h; exact ⟨rfl, rfl⟩
  | writeBlock =>
    rcases writeBlockFunc_cases h with rfl | ⟨job, rest, -, rfl | rfl⟩ <;> exact ⟨rfl, rfl⟩
  | destroyWebseed =>
    cases Except.ok.inj h
    split
    · refine ⟨?_, rfl⟩
      simp only [destroy]
      split <;> simp
    · exact ⟨rfl, rfl⟩
  | updateTorrent t =>
    cases Except.ok.inj h
    split <;> exact ⟨rfl, rfl⟩
  | removeTorrent | tick _ => cases Except.ok.inj h; exact ⟨rfl, rfl⟩

theorem Stalled.runSteps {k : Nat} :
    ∀ {w w' : World} {trace : List Step}, Reachable L w → w.Stalled k →
      LibTransmission.runSteps L w trace = .ok w' → w'.Stalled k
  | _, _, [], _, hs, h => by cases h; exact hs
  | w, _, st :: rest, hw, hs, h => by
    simp only [LibTransmission.runSteps] at h
    cases hst : w.step L st with
    | error e => rw [hst] at h; cases h
    | ok w₁ =>
      rw [hst] at h
      exact Stalled.runSteps (hw.step hst) (hs.step hw.inv hst) h

end World

/-- **A stalled task is never freed.** In a reachable world, a task that is allocated with no
fetch in flight stays allocated with no fetch in flight after every run of events, the
destructor's among them: the memory of a task whose fetch completed after the torrent went away
is never reclaimed. -/
theorem reachable_stalled_task_leaks {L : FileLayout} {w : World} (hw : Reachable L w) {k : Nat}
    (hk : (w.heap k).isSome) (hidle : ∀ f ∈ w.fetches, f.task ≠ k) {trace : List Step}
    {w' : World} (hrun : runSteps L w trace = .ok w') :
    (w'.heap k).isSome ∧ ∀ f ∈ w'.fetches, f.task ≠ k := by
  obtain ⟨h1, h2⟩ := World.Stalled.runSteps hw ⟨hk, World.reqsOf_eq_nil_iff.mpr hidle⟩ hrun
  exact ⟨h1, World.reqsOf_eq_nil_iff.mp h2⟩

/-- The torrent of a one-byte webseed goes away while the first task's fetch is in flight; the
fetch completes, and the task outlives the webseed's destruction. -/
theorem reachable_stalled_task_leaks_after_destroy :
    ∃ w, runSteps (FileLayout.ofSizes [1]) (World.init 0 ⟨true, false, fun _ => false⟩)
        [.idle [⟨0, 1⟩], .removeTorrent, .partialDataFetched ⟨0, ⟨0, 0, 1⟩⟩ 206 []] =
          .ok w ∧
      (w.heap 0).isSome ∧ (∀ f ∈ w.fetches, f.task ≠ 0) ∧ w.alive = true ∧
      (w.destroy.heap 0).isSome ∧ ∀ f ∈ w.destroy.fetches, f.task ≠ 0 := by
  have h : (runSteps (FileLayout.ofSizes [1]) (World.init 0 ⟨true, false, fun _ => false⟩)
      [.idle [⟨0, 1⟩], .removeTorrent, .partialDataFetched ⟨0, ⟨0, 0, 1⟩⟩ 206 []]).toOption.map
        (fun w => (w.heap 0).isSome && w.fetches.all (·.task != 0) && w.alive) = some true := by
    decide
  obtain ⟨w, hrun, hp⟩ := runSteps_exists h
  simp only [Bool.and_eq_true, List.all_eq_true, bne_iff_ne] at hp
  obtain ⟨⟨hk, hidle⟩, halive⟩ := hp
  have hdestroy : runSteps (FileLayout.ofSizes [1]) w [.destroyWebseed] = .ok w.destroy := by
    simp only [runSteps, World.step, halive, if_true]; rfl
  exact ⟨w, hrun, hk, hidle, halive, reachable_stalled_task_leaks
    (runSteps_reachable (.init 0 _) hrun) hk hidle hdestroy⟩

/-- A webseed on a one-byte torrent: the task receives the byte and hands block 0 to the cache as
a queued job; the webseed is destroyed before the session thread runs the job, which then
publishes `GotBlock` through the freed webseed. -/
theorem queued_write_after_destroy :
    runSteps (FileLayout.ofSizes [1]) (World.init 0 ⟨true, false, fun _ => false⟩)
      [.idle [⟨0, 1⟩], .bufferGotData ⟨0, ⟨0, 0, 1⟩⟩ [7],
        .partialDataFetched ⟨0, ⟨0, 0, 1⟩⟩ 206 [], .destroyWebseed, .writeBlock] =
      .error .useAfterFree := by
  rfl

end LibTransmission
