import LibTransmission.Webseed.Simulation
import LibTransmission.Webseed.Delivery
import LibTransmission.Webseed.Requests

/-!
# What the session issues for a task

`reachable_tasks_follow_taskLog` puts every task of the session where `TaskLog.run` puts the span
and the answers recorded for it, so what is proved of `TaskLog` holds of what the session issued:

* `TaskLog.run_requests_fetching`, `TaskLog.run_requests_prefix` : the `i`-th request sent is the
  one the `i`-th answer completes, so a bound on each answer by the request it completes is a
  bound on the recorded answers; `TaskLog.mem_run_requests` : every request sent was in flight;
* `reachable_task_outcomes` : in every run, the blocks queued for a task and those published as
  rejected for it are distinct blocks of its span, queued in ascending order, and every range
  request sent for it asks for a non-empty range of one file, inside the span's bytes.
-/

namespace LibTransmission

open BlockInfo

namespace TaskLog

variable (L : FileLayout) {span : BlockSpan} {answer : Nat → FetchRequest → Reply}

theorem run_requests_fetching : ∀ {n : Nat} {q : FetchRequest},
    (run L span answer n).phase = .fetching q →
    (run L span answer n).requests.length = n + 1 ∧ (run L span answer n).requests[n]? = some q
  | 0, q, h => by
    simp only [run, start, Phase.fetching.injEq] at h ⊢
    simp [h]
  | n + 1, q, h => by
    rw [run] at h ⊢
    rcases hq : (run L span answer n).phase with q' | _ | _ | _
    · obtain ⟨hlen, -⟩ := run_requests_fetching hq
      rw [step_fetching L hq] at h ⊢
      rcases complete_cases L (run L span answer n) (answer n q') with ⟨-, heq⟩ | ⟨_, -, -, heq⟩ |
        ⟨_, -, -, -, heq⟩ | ⟨_, -, -, -, heq⟩ <;> rw [heq] at h ⊢ <;>
        simp only [Phase.fetching.injEq, reduceCtorEq] at h
      subst h
      simp [hlen]
    all_goals
      rw [step_of_not_fetching L (by simp [hq]), hq] at h
      cases h

theorem run_requests_prefix {n m : Nat} (h : n ≤ m) :
    (run L span answer n).requests <+: (run L span answer m).requests := by
  induction m, h using Nat.le_induction with
  | base => exact List.prefix_refl _
  | succ m _ ih =>
    refine ih.trans ?_
    rw [run]
    unfold step
    split
    · rw [complete_requests]; exact List.prefix_append _ _
    · exact List.prefix_refl _

/-- The `k`-th answer completes the `k`-th request sent. -/
theorem run_request_answered {k n : Nat} {q : FetchRequest} (hk : k < n)
    (h : (run L span answer k).phase = .fetching q) :
    (run L span answer n).requests[k]? = some q := by
  obtain ⟨hlen, hq⟩ := run_requests_fetching L h
  obtain ⟨t, ht⟩ : (run L span answer k).requests <+: (run L span answer n).requests :=
    run_requests_prefix L hk.le
  rw [← ht, List.getElem?_append_left (by omega), hq]

theorem mem_run_requests : ∀ {n : Nat} {q : FetchRequest}, q ∈ (run L span answer n).requests →
    ∃ k ≤ n, (run L span answer k).phase = .fetching q
  | 0, q, h => ⟨0, le_rfl, by simpa [run, start, eq_comm] using h⟩
  | n + 1, q, h => by
    rw [run] at h
    rcases hq : (run L span answer n).phase with q' | _ | _ | _
    · rw [step_fetching L hq, complete_requests, List.mem_append] at h
      rcases h with h | h
      · obtain ⟨k, hk, hk'⟩ := mem_run_requests h
        exact ⟨k, by omega, hk'⟩
      · refine ⟨n + 1, le_rfl, ?_⟩
        rw [run, step_fetching L hq]
        exact Phase.mem_inFlight.mp h
    all_goals
      rw [step_of_not_fetching L (by simp [hq])] at h
      obtain ⟨k, hk, hk'⟩ := mem_run_requests h
      exact ⟨k, by omega, hk'⟩

end TaskLog

/-- **What the session issues for a task.** Replay any events from a webseed's creation, with the
span `on_idle` created task `k` for inside the torrent, and each 206 answer the task's fetches got
no longer than the request it completes; then, while the webseed is not destroyed: the blocks
queued for the cache for task `k` and the blocks published as rejected for it are distinct
blocks of its span, those queued in ascending order; and every range request sent for it names a
file of the torrent and a non-empty range inside it, covering bytes of the span between its first
byte and its `end_byte`. -/
theorem reachable_task_outcomes {L : FileLayout} {k now : Nat} {t : TorrentState}
    {trace : List Step} {w : World} {hist : History}
    (hrun : recordSteps L k (World.init now t) History.empty trace = .ok (w, hist))
    (halive : w.alive = true) (hk : k < w.nextId)
    (hspans : ∀ span, hist.span = some span →
      span.begin < span.end ∧ span.end ≤ L.blockInfo.blockCount)
    (hbounded : ∀ (i : Nat) (q : FetchRequest) (r : Reply), hist.sent[i]? = some q →
      hist.replies[i]? = some r → r.status = 206 → r.body.length ≤ q.thisChunk) :
    ∃ span, hist.span = some span ∧
      (hist.queued.map WriteJob.block ++ hist.rejected).Nodup ∧
      (∀ b ∈ hist.queued.map WriteJob.block ++ hist.rejected, span.begin ≤ b ∧ b < span.end) ∧
      (hist.queued.map WriteJob.block).Pairwise (· < ·) ∧
      ∀ q ∈ hist.sent, q.fileIndex < L.fileSizes.length ∧ 0 < q.thisChunk ∧
        q.fileOffset + q.thisChunk ≤ L.fileSize q.fileIndex ∧
        (L.blockInfo.blockLoc span.begin).byte ≤ L.requestStart q ∧
        L.requestStart q + q.thisChunk ≤ (Task.new L.blockInfo span).endByte := by
  obtain ⟨span, hspan, -, hsent, hqueued, hrej⟩ := reachable_tasks_follow_taskLog hrun halive hk
  obtain ⟨hb, he⟩ := hspans span hspan
  -- each recorded answer is bounded by the request it completes
  have hr : ∀ i q, (TaskLog.run L span (TaskLog.replyAt hist.replies) i).phase = .fetching q →
      (TaskLog.replyAt hist.replies i q).status = 206 →
      (TaskLog.replyAt hist.replies i q).body.length ≤ q.thisChunk := by
    intro i q hq h206
    rcases Nat.lt_or_ge i hist.replies.length with hi | hi
    · refine hbounded i q _ ?_ ?_ h206
      · rw [hsent]; exact TaskLog.run_request_answered L hi hq
      · rw [TaskLog.replyAt, List.getD_eq_getElem?_getD, List.getElem?_eq_getElem hi]; rfl
    · simp [TaskLog.replyAt, List.getD_eq_getElem?_getD, List.getElem?_eq_none hi] at h206
  have hinv := TaskLog.Inv.run hb he hr
  obtain ⟨hnodup, hin, -⟩ := (hinv hist.replies.length).outcomes he
  obtain ⟨j, -, hblocks⟩ := (hinv hist.replies.length).drained_blocks
  -- the queued blocks are among the passes, which are consecutive
  have hsub : List.Sublist (hist.queued.map WriteJob.block)
      ((TaskLog.run L span (TaskLog.replyAt hist.replies) hist.replies.length).drained.map
        Drained.block) := by
    rw [hqueued, List.map_map]
    exact (List.filter_sublist _).map _
  have hsub' := hsub.append (List.Sublist.refl hist.rejected)
  rw [hrej] at hsub' ⊢
  refine ⟨span, hspan, hsub'.nodup hnodup, fun b hb => hin b (hsub'.subset hb),
    (List.pairwise_lt_range' _ _).sublist (hblocks ▸ hsub), fun q hq => ?_⟩
  -- a request sent was in flight once, and `Inv` places it
  rw [hsent] at hq
  obtain ⟨i, -, hqi⟩ := TaskLog.mem_run_requests L hq
  obtain ⟨hcont, hstart, hpos, hfit, hE, -⟩ := (hinv i).request_spec hqi
  rw [blockLoc_byte, ← L.blockInfo.boundary_of_lt (by omega), TaskLog.endByte_new hb he, hstart]
  exact ⟨hcont.1, hpos, hfit, Nat.le_add_right _ _, hE⟩

/-- On the straddling block the task sends one request per file, both answered in full, and
queues block 0. -/
theorem reachable_task_outcomes_straddling_block :
    ∃ w hist, recordSteps (FileLayout.ofSizes [2, 1]) 0
        (World.init 0 ⟨true, false, fun _ => false⟩) History.empty straddleTrace = .ok (w, hist) ∧
      hist.queued.map WriteJob.block = [0] ∧
      ∃ span, hist.span = some span ∧
        (hist.queued.map WriteJob.block ++ hist.rejected).Nodup ∧
        (∀ b ∈ hist.queued.map WriteJob.block ++ hist.rejected, span.begin ≤ b ∧ b < span.end) ∧
        (hist.queued.map WriteJob.block).Pairwise (· < ·) ∧
        ∀ q ∈ hist.sent, q.fileIndex < (FileLayout.ofSizes [2, 1]).fileSizes.length ∧
          0 < q.thisChunk ∧ q.fileOffset + q.thisChunk ≤ (FileLayout.ofSizes [2, 1]).fileSize q.fileIndex ∧
          ((FileLayout.ofSizes [2, 1]).blockInfo.blockLoc span.begin).byte ≤
            (FileLayout.ofSizes [2, 1]).requestStart q ∧
          (FileLayout.ofSizes [2, 1]).requestStart q + q.thisChunk ≤
            (Task.new (FileLayout.ofSizes [2, 1]).blockInfo span).endByte := by
  have h : (recordSteps (FileLayout.ofSizes [2, 1]) 0 (World.init 0 ⟨true, false, fun _ => false⟩)
      History.empty straddleTrace).toOption.map (fun p => p.1.alive && decide (0 < p.1.nextId) &&
        p.2.span == some ⟨0, 1⟩ && p.2.sent == [⟨0, 0, 2⟩, ⟨1, 0, 1⟩] &&
        p.2.replies.map (fun r => (r.status, r.body.length)) == [(206, 2), (206, 1)] &&
        p.2.queued.map WriteJob.block == [0]) = some true := by
    decide
  obtain ⟨w, hist, hrun, hp⟩ := recordSteps_exists h
  simp only [Bool.and_eq_true, beq_iff_eq, decide_eq_true_eq] at hp
  obtain ⟨⟨⟨⟨⟨ha, hn⟩, hspan⟩, hsent⟩, hreplies⟩, hq⟩ := hp
  refine ⟨w, hist, hrun, hq, reachable_task_outcomes hrun ha hn
    (fun s hs => by rw [hspan] at hs; cases hs; decide) fun i q r hqi hri _ => ?_⟩
  have hl := congrArg (·[i]?) hreplies
  simp only [List.getElem?_map, hri, Option.map_some'] at hl
  rw [hsent] at hqi
  rcases i with _ | _ | i <;> simp at hqi hl <;> subst hqi <;> simp [hl.2]

end LibTransmission
