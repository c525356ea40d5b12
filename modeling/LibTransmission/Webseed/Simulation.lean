import LibTransmission.Webseed.SessionInv
import LibTransmission.Webseed.TaskRun

/-!
# The session refines the life of a task

`TaskLog` follows one task through its fetches, each answered at once with its whole body; in the
session the body arrives in pieces through `onBufferGotData`, interleaved with every other event.
Recording along a run of the session what happens to task `k` gives the inputs of a `TaskLog` run,
and what the session issues for the task is what that run issues:

* `History`, `History.record`, `recordSteps` : the span `on_idle` was given for task `k`; for each
  completion of its fetch, the status, the bytes the buffer callbacks added and the torrent's
  `has_block` at that point; and the range requests, `write_block_data` jobs and `GotRejected`
  blocks the session issued for it;
* `World.Tracks` : task `k` of the heap, and its fetch in flight, are where a `TaskLog` is;
* `onIdle_frame`, `onBufferGotData_frame`, `onPartialDataFetched_frame` : `on_idle` and the
  callbacks of other tasks' fetches leave a task where it is; `onIdle_new` : the task `on_idle`
  creates for its `i`-th span is `TaskLog.start` of that span;
* `Tracks.partialDataFetched` : the completion of the task's fetch is `TaskLog.complete`;
* `Follows.record`, `Follows.created` : every event keeps the refinement, so
  `reachable_tasks_follow_taskLog` : along every run of a webseed not destroyed, each task created
  so far is where `TaskLog.run` puts it, and the session sent, queued and published for it what
  the run did.
-/

namespace LibTransmission

/-- The request a task has in flight in phase `p`. -/
def Phase.inFlight : Phase → List FetchRequest
  | .fetching q => [q]
  | _ => []

@[simp] theorem Phase.mem_inFlight {p : Phase} {q : FetchRequest} :
    q ∈ p.inFlight ↔ p = .fetching q := by
  cases p <;> simp [Phase.inFlight, eq_comm]

namespace TaskLog

variable (L : FileLayout)

/-- The answers of a session's fetches as a list, the `i`-th fetch answered by `replies[i]`. -/
def replyAt (replies : List Reply) (i : Nat) (_ : FetchRequest) : Reply :=
  replies.getD i ⟨0, [], none⟩

theorem run_congr {span : BlockSpan} {answer answer' : Nat → FetchRequest → Reply} :
    ∀ n, (∀ i < n, answer i = answer' i) → run L span answer n = run L span answer' n
  | 0, _ => rfl
  | n + 1, h => by rw [run, run, run_congr n fun i hi => h i (by omega), h n (by omega)]

theorem run_replyAt_append (span : BlockSpan) (replies : List Reply) (r : Reply) :
    run L span (replyAt (replies ++ [r])) (replies.length + 1) =
      (run L span (replyAt replies) replies.length).step L fun _ => r := by
  have hprefix : run L span (replyAt (replies ++ [r])) replies.length =
      run L span (replyAt replies) replies.length :=
    run_congr L replies.length fun i hi => funext fun _ => by
      simp [replyAt, List.getD_eq_getElem?_getD, List.getElem?_append_left hi]
  rw [run, hprefix]
  congr 1
  funext _
  simp [replyAt, List.getD_eq_getElem?_getD]

theorem complete_requests (s : TaskLog) (r : Reply) :
    (s.complete L r).requests = s.requests ++ (s.complete L r).phase.inFlight := by
  rcases complete_cases L s r with ⟨-, heq⟩ | ⟨_, -, -, heq⟩ | ⟨_, -, -, -, heq⟩ |
    ⟨_, -, -, -, heq⟩ <;> simp [heq, Phase.inFlight]

theorem complete_task_dead {s : TaskLog} (hs : s.task.dead = false) (r : Reply) :
    (s.complete L r).task.dead = false := by
  unfold complete
  cases r.torrent with
  | none => simpa using hs
  | some hasBlock =>
    rcases Task.onFetched_cases L hasBlock (r.status == 206) (s.task.append r.body) with
      ⟨-, h⟩ | ⟨-, -, h⟩ | ⟨-, -, h⟩ <;> simp [h, hs]

/-- A task is never flagged dead along its own run: only `~tr_webseed` does that. -/
theorem run_task_dead (span : BlockSpan) (answer : Nat → FetchRequest → Reply) :
    ∀ n, (run L span answer n).task.dead = false
  | 0 => rfl
  | n + 1 => by
    rw [run]
    unfold step
    split
    · exact complete_task_dead L (run_task_dead span answer n) _
    · exact run_task_dead span answer n

end TaskLog

@[simp] theorem Task.append_nil (task : Task) : task.append [] = task := by
  simp [Task.append]

theorem Task.append_append (task : Task) (a b : List UInt8) :
    (task.append a).append b = task.append (a ++ b) := by
  simp [Task.append]

namespace World

/-! ## The fetches of one task -/

/-- The requests of the fetches in flight for task `k`. -/
def reqsOf (fs : List Fetch) (k : Nat) : List FetchRequest :=
  (fs.filter fun f => f.task == k).map Fetch.req

@[simp] theorem reqsOf_append (fs gs : List Fetch) (k : Nat) :
    reqsOf (fs ++ gs) k = reqsOf fs k ++ reqsOf gs k := by
  simp [reqsOf]

@[simp] theorem reqsOf_singleton (f : Fetch) (k : Nat) :
    reqsOf [f] k = if f.task = k then [f.req] else [] := by
  by_cases h : f.task = k <;> simp [reqsOf, h]

theorem mem_reqsOf {fs : List Fetch} {k : Nat} {q : FetchRequest} :
    q ∈ reqsOf fs k ↔ ⟨k, q⟩ ∈ fs := by
  simp only [reqsOf, List.mem_map, List.mem_filter, beq_iff_eq]
  constructor
  · rintro ⟨⟨k', q'⟩, ⟨hf, rfl⟩, rfl⟩; exact hf
  · intro h; exact ⟨_, ⟨h, rfl⟩, rfl⟩

theorem reqsOf_eq_nil_of_lt {fs : List Fetch} {k : Nat} (h : ∀ f ∈ fs, f.task < k) :
    reqsOf fs k = [] := by
  simp only [reqsOf, List.map_eq_nil_iff, List.filter_eq_nil_iff, beq_iff_eq]
  exact fun f hf he => Nat.lt_irrefl _ (he ▸ h f hf)

theorem reqsOf_erase_of_ne {fs : List Fetch} {f : Fetch} {k : Nat} (h : f.task ≠ k) :
    reqsOf (fs.erase f) k = reqsOf fs k := by
  rw [reqsOf, ← List.erase_filter, List.erase_of_not_mem fun hf => h (by simpa using
    (List.mem_filter.mp hf).2)]
  rfl

theorem reqsOf_erase_self {fs : List Fetch} {k : Nat} {q : FetchRequest}
    (h : reqsOf fs k = [q]) : reqsOf (fs.erase ⟨k, q⟩) k = [] := by
  have hmem : (⟨k, q⟩ : Fetch) ∈ fs.filter fun f => f.task == k :=
    List.mem_filter.mpr ⟨mem_reqsOf.mp (by simp [h]), by simp⟩
  have hlen : (fs.filter fun f => f.task == k).length = 1 := by
    simpa [reqsOf] using congrArg List.length h
  rw [reqsOf, ← List.erase_filter, List.map_eq_nil_iff, ← List.length_eq_zero,
    List.length_erase_of_mem hmem, hlen]


/-! ## `on_idle` -/

variable {L : FileLayout} {w w' : World}

theorem foldlM_startTask_frame : ∀ {spans : List BlockSpan} {w w' : World}, w.torrent.isSome →
    spans.foldlM (startTask L) w = .ok w' →
    w'.alive = w.alive ∧ w'.torrent = w.torrent ∧ w'.jobs = w.jobs ∧ w'.events = w.events ∧
      w'.cache = w.cache ∧ w.nextId ≤ w'.nextId ∧
      ∀ k < w.nextId, w'.heap k = w.heap k ∧ reqsOf w'.fetches k = reqsOf w.fetches k
  | [], _, _, _, h => by cases h; exact ⟨rfl, rfl, rfl, rfl, rfl, le_rfl, fun _ _ => ⟨rfl, rfl⟩⟩
  | span :: rest, w, w', htor, h => by
    obtain ⟨w₁, h₁, hrest⟩ := foldlM_startTask_cons.mp h
    obtain ⟨-, hw₁⟩ := startTask_ok htor h₁
    obtain ⟨ha, ht, hj, he, hc, hn, hframe⟩ :=
      foldlM_startTask_frame (by rw [hw₁]; exact htor) hrest
    subst hw₁
    refine ⟨ha, ht, hj, he, hc, Nat.le_of_succ_le hn, fun k hk => ?_⟩
    have hne : k ≠ w.nextId := Nat.ne_of_lt hk
    obtain ⟨h1, h2⟩ := hframe k (Nat.lt_succ_of_lt hk)
    rw [h1, h2]
    simp [Function.update_noteq hne, Ne.symm hne]

theorem foldlM_startTask_new : ∀ {spans : List BlockSpan} {w w' : World}, w.torrent.isSome →
    (∀ f ∈ w.fetches, f.task < w.nextId) → spans.foldlM (startTask L) w = .ok w' →
    ∀ {k}, w.nextId ≤ k → k < w'.nextId → ∃ span, spans[k - w.nextId]? = some span ∧
      w'.heap k = some (Task.new L.blockInfo span) ∧
      reqsOf w'.fetches k = [taskRequestNextChunk L (Task.new L.blockInfo span)]
  | [], _, _, _, _, h, _, hk₁, hk₂ => by cases h; exact absurd hk₂ (Nat.not_lt.mpr hk₁)
  | span :: rest, w, w', htor, hfetch, h, k, hk₁, hk₂ => by
    obtain ⟨w₁, h₁, hrest⟩ := foldlM_startTask_cons.mp h
    obtain ⟨-, hw₁⟩ := startTask_ok htor h₁
    have htor₁ : w₁.torrent.isSome := by rw [hw₁]; exact htor
    have hn₁ : w₁.nextId = w.nextId + 1 := by rw [hw₁]
    rcases Nat.eq_or_lt_of_le hk₁ with rfl | hlt
    · -- created by this pass, and left alone by the rest of the loop
      obtain ⟨h1, h2⟩ := (foldlM_startTask_frame htor₁ hrest).2.2.2.2.2.2 w.nextId (by omega)
      refine ⟨span, by simp, ?_, ?_⟩
      · rw [h1, hw₁]; simp
      · rw [h2, hw₁]; simp [reqsOf_eq_nil_of_lt hfetch]
    · have hfetch₁ : ∀ f ∈ w₁.fetches, f.task < w₁.nextId := fun f hf => by
        rw [hw₁] at hf ⊢
        rcases List.mem_append.mp hf with hf | hf
        · exact Nat.lt_succ_of_lt (hfetch f hf)
        · rw [List.mem_singleton.mp hf]; exact Nat.lt_succ_self _
      obtain ⟨span', hget, hrest'⟩ :=
        foldlM_startTask_new htor₁ hfetch₁ hrest (by omega) hk₂
      refine ⟨span', ?_, hrest'⟩
      rw [show k - w.nextId = k - w₁.nextId + 1 by omega, List.getElem?_cons_succ]
      exact hget

theorem onIdle_frame {spans : List BlockSpan} (h : onIdle L w spans = .ok w') :
    w'.alive = w.alive ∧ w'.torrent = w.torrent ∧ w'.jobs = w.jobs ∧ w'.events = w.events ∧
      w'.cache = w.cache ∧ w.nextId ≤ w'.nextId ∧
      ∀ k < w.nextId, w'.heap k = w.heap k ∧ reqsOf w'.fetches k = reqsOf w.fetches k := by
  rcases onIdle_cases h with rfl | ⟨-, hready, h⟩
  · exact ⟨rfl, rfl, rfl, rfl, rfl, le_rfl, fun _ _ => ⟨rfl, rfl⟩⟩
  · exact foldlM_startTask_frame (torrentReady_isSome hready) h

theorem onIdle_new {spans : List BlockSpan} (h : onIdle L w spans = .ok w')
    (hfetch : ∀ f ∈ w.fetches, f.task < w.nextId) {k : Nat} (hk₁ : w.nextId ≤ k)
    (hk₂ : k < w'.nextId) : ∃ span, spans[k - w.nextId]? = some span ∧
      w'.heap k = some (Task.new L.blockInfo span) ∧
      reqsOf w'.fetches k = [taskRequestNextChunk L (Task.new L.blockInfo span)] := by
  rcases onIdle_cases h with rfl | ⟨-, hready, h⟩
  · exact absurd hk₂ (Nat.not_lt.mpr hk₁)
  obtain ⟨span, hget, hrest⟩ := foldlM_startTask_new (torrentReady_isSome hready) hfetch h hk₁ hk₂
  refine ⟨span, ?_, hrest⟩
  have hlt : k - w.nextId < w.limiter.slotsAvailable w.now := by
    by_contra hc
    rw [List.getElem?_take_eq_none (by omega)] at hget
    cases hget
  rwa [List.getElem?_take_of_lt hlt] at hget

/-! ## The simulation relation -/

/-- Task `k` of the session is where `s` is. While `s` fetches `q`, the heap holds `s`'s task with
the `pending` bytes of the answer already in its buffer, and `q` is the one fetch in flight for
`k`; a stalled task is in the heap with no fetch in flight; once `s` rejected its blocks or
retired, the task is freed. -/
def Tracks (w : World) (k : Nat) (s : TaskLog) (pending : List UInt8) : Prop :=
  match s.phase with
  | .fetching q => w.heap k = some (s.task.append pending) ∧ reqsOf w.fetches k = [q]
  | .stalled => w.heap k = some s.task ∧ reqsOf w.fetches k = [] ∧ pending = []
  | .rejected _ | .retired => w.heap k = none ∧ reqsOf w.fetches k = [] ∧ pending = []

variable {k : Nat} {s : TaskLog} {pending : List UInt8}

theorem Tracks.congr (ht : w.Tracks k s pending) (hheap : w'.heap k = w.heap k)
    (hreqs : reqsOf w'.fetches k = reqsOf w.fetches k) : w'.Tracks k s pending := by
  unfold Tracks at ht ⊢
  rw [hheap, hreqs]
  exact ht

theorem Tracks.fetch_eq (ht : w.Tracks k s pending) {f : Fetch} (hf : f ∈ w.fetches)
    (hk : f.task = k) : s.phase = .fetching f.req := by
  have hmem : f.req ∈ reqsOf w.fetches k := mem_reqsOf.mpr (by rw [← hk]; exact hf)
  unfold Tracks at ht
  split at ht
  · rename_i q hq
    have hq' : f.req = q := List.mem_singleton.mp (by rw [← ht.2]; exact hmem)
    rw [hq, hq']
  all_goals simp [ht.2.1] at hmem

theorem Tracks.reqsOf (ht : w.Tracks k s pending) : reqsOf w.fetches k = s.phase.inFlight := by
  unfold Tracks at ht
  split at ht
  · rename_i q hq; rw [ht.2, hq]; rfl
  all_goals rename_i hp; rw [ht.2.1]; simp [hp, Phase.inFlight]

theorem Inv.lt_nextId_of_heap (hw : Inv w) {task : Task} (hk : w.heap k = some task) :
    k < w.nextId :=
  Nat.lt_of_not_le fun h => by simp [hw.fresh k h] at hk

theorem onBufferGotData_frame {f : Fetch} {bytes : List UInt8} (hne : f.task ≠ k)
    (h : onBufferGotData w f bytes = .ok w') :
    w'.heap k = w.heap k ∧ reqsOf w'.fetches k = reqsOf w.fetches k := by
  obtain ⟨task, -, rfl | ⟨-, -, -, -, rfl⟩⟩ := onBufferGotData_cases h <;>
    exact ⟨Function.update_noteq (Ne.symm hne) _ _, rfl⟩

theorem onPartialDataFetched_frame {f : Fetch} {status : Nat}
    {spans : List BlockSpan} (hne : f.task ≠ k) (hk : k < w.nextId)
    (h : onPartialDataFetched L w f status spans = .ok w') :
    w'.heap k = w.heap k ∧ reqsOf w'.fetches k = reqsOf w.fetches k := by
  have hkf : k ≠ f.task := Ne.symm hne
  obtain ⟨task, -, ⟨-, rfl⟩ | ⟨-, -, -, hcases⟩⟩ := onPartialDataFetched_cases h
  · exact ⟨Function.update_noteq hkf _ _, reqsOf_erase_of_ne hne⟩
  rcases hcases with ⟨-, rfl⟩ | ⟨-, ⟨blocks, rfl⟩ | ⟨task', drained, -, -, -, rfl⟩ |
    ⟨drained, -, h⟩⟩
  · exact ⟨rfl, reqsOf_erase_of_ne hne⟩
  · exact ⟨Function.update_noteq hkf _ _, reqsOf_erase_of_ne hne⟩
  · exact ⟨Function.update_noteq hkf _ _,
      by simp [startFetch, setTask, writeBlocks, finishFetch, reqsOf_erase_of_ne hne, hne]⟩
  · obtain ⟨h1, h2⟩ := (onIdle_frame h).2.2.2.2.2.2 k hk
    exact ⟨h1.trans (Function.update_noteq hkf _ _), h2.trans (reqsOf_erase_of_ne hne)⟩

/-! ## The task's own fetch -/

theorem Tracks.bufferGotData (ht : w.Tracks k s pending) {q : FetchRequest}
    (hq : s.phase = .fetching q) {bytes : List UInt8}
    (h : w.step L (.bufferGotData ⟨k, q⟩ bytes) = .ok w') : w'.Tracks k s (pending ++ bytes) := by
  unfold Tracks at ht ⊢
  rw [hq] at ht ⊢
  obtain ⟨hk, hreqs⟩ := ht
  have hf : (⟨k, q⟩ : Fetch) ∈ w.fetches := mem_reqsOf.mp (by simp [hreqs])
  simp only [World.step, if_pos hf] at h
  obtain ⟨task, hk', rfl | ⟨-, -, -, -, rfl⟩⟩ := onBufferGotData_cases h <;>
    rw [hk] at hk' <;> cases hk' <;>
    exact ⟨by simp [World.setTask, Task.append_append], hreqs⟩

/-- The completion of the task's fetch is `TaskLog.complete`, the pending bytes being the body
and `has_block` the torrent's when it runs: it queues the blocks of the new passes that were
missing, publishes `GotRejected` for the blocks `TaskLog` rejects, and leaves the task where the
completed `TaskLog` is. -/
theorem Tracks.partialDataFetched (hw : Inv w) (halive : w.alive = true)
    (ht : w.Tracks k s pending) {q : FetchRequest} (hq : s.phase = .fetching q)
    (hdead : s.task.dead = false) {status : Nat} {spans : List BlockSpan}
    (h : w.step L (.partialDataFetched ⟨k, q⟩ status spans) = .ok w') :
    let s' := s.complete L ⟨status, pending, w.torrent.map TorrentState.hasBlock⟩
    w'.Tracks k s' [] ∧ ∃ drained, s'.drained = s.drained ++ drained ∧
      w'.jobs = w.jobs ++ (drained.filter fun d => !d.held).map (fun d => ⟨d.block, d.data⟩) ∧
      w'.events = w.events ++ s'.phase.rejectedBlocks.map PeerEvent.gotRejected := by
  have ht' := ht
  unfold Tracks at ht'
  rw [hq] at ht'
  obtain ⟨hk, hreqs⟩ := ht'
  have hf : (⟨k, q⟩ : Fetch) ∈ w.fetches := mem_reqsOf.mp (by simp [hreqs])
  have hkN : k < w.nextId := hw.lt_nextId_of_heap hk
  have hlive : liveIn w.heap k = true := by simp [liveIn, hk, hdead]
  have hn := Nat.pos_iff_ne_zero.mp (hw.nTasks_pos halive hf hlive)
  have hgone := reqsOf_erase_self hreqs
  simp only [World.step, if_pos hf, onPartialDataFetched, hk, Task.append_dead, hdead, halive,
    hn, Bool.false_eq_true, if_false, Bool.not_true] at h
  dsimp only
  unfold TaskLog.complete
  cases htor : w.torrent with
  | none =>
    -- the torrent is gone: the fetch ends and the task stalls
    rw [htor] at h
    cases Except.ok.inj h
    exact ⟨⟨hk, hgone, rfl⟩, [], by simp, by simp [finishFetch],
      by simp [finishFetch, Phase.rejectedBlocks]⟩
  | some tor =>
    rw [htor] at h
    simp only [Option.map_some']
    rcases hon : (s.task.append pending).onFetched L tor.hasBlock (status == 206) with
      blocks | ⟨task', drained, req'⟩ | ⟨task', drained⟩ <;>
      dsimp only at h <;> rw [hon] at h <;> dsimp only at h ⊢
    · -- a failed fetch: the task rejects its blocks and is freed
      cases Except.ok.inj h
      exact ⟨⟨by simp [eraseTask], hgone, rfl⟩, [], by simp,
        by simp [eraseTask, publishRejection, finishFetch],
        by simp [eraseTask, publishRejection, finishFetch, Phase.rejectedBlocks]⟩
    · -- data is still missing: the task asks for the next chunk
      have hreq : req' = taskRequestNextChunk L task' := by
        rcases Task.onFetched_cases L tor.hasBlock (status == 206) (s.task.append pending) with
          ⟨-, h'⟩ | ⟨-, -, h'⟩ | ⟨-, -, h'⟩ <;> rw [hon] at h' <;> cases h'
        rfl
      split at h
      · cases h
      obtain ⟨-, rfl⟩ := requestNextChunk_ok (by simp [setTask, writeBlocks, finishFetch, htor]) h
      refine ⟨⟨by simp [startFetch, setTask], ?_⟩, drained, rfl, rfl,
        by simp [startFetch, setTask, writeBlocks, finishFetch, Phase.rejectedBlocks]⟩
      simp [startFetch, setTask, writeBlocks, finishFetch, hgone, hreq]
    · -- the span is done: the task is freed and `on_idle` runs
      split at h
      · cases h
      obtain ⟨-, -, hjobs, hevents, -, -, hframe⟩ := onIdle_frame h
      obtain ⟨h1, h2⟩ := hframe k hkN
      refine ⟨⟨by rw [h1]; simp [eraseTask], by rw [h2]; exact hgone, rfl⟩, drained, rfl, ?_, ?_⟩
      · rw [hjobs]; rfl
      · rw [hevents]; simp [eraseTask, writeBlocks, finishFetch, Phase.rejectedBlocks]

/-! ## Whole runs -/

theorem step_alive {st : Step} (h : w.step L st = .ok w') (halive : w'.alive = true) :
    w.alive = true := by
  cases st with
  | idle spans =>
    simp only [World.step] at h
    split at h
    · assumption
    · cases Except.ok.inj h; exact halive
  | destroyWebseed =>
    cases Except.ok.inj h
    split at halive
    · assumption
    · exact halive
  | bufferGotData f bytes =>
    simp only [World.step] at h
    split at h
    · obtain ⟨task, -, rfl | ⟨-, -, -, -, rfl⟩⟩ := onBufferGotData_cases h <;> exact halive
    · cases Except.ok.inj h; exact halive
  | partialDataFetched f status spans =>
    simp only [World.step] at h
    split at h
    · obtain ⟨task, -, ⟨-, rfl⟩ | ⟨-, ha, -⟩⟩ := onPartialDataFetched_cases h
      · exact halive
      · exact ha
    · cases Except.ok.inj h; exact halive
  | writeBlock =>
    rcases writeBlockFunc_cases h with rfl | ⟨job, rest, -, rfl | rfl⟩ <;> exact halive
  | updateTorrent t =>
    cases Except.ok.inj h
    split at halive <;> exact halive
  | removeTorrent | tick _ => cases Except.ok.inj h; exact halive

end World

/-! ## What a run does with one task -/

/-- The blocks of the `GotRejected` events among `events`. -/
def gotRejectedBlocks (events : List PeerEvent) : List Nat :=
  events.filterMap fun
    | .gotRejected b => some b
    | _ => none

@[simp] theorem gotRejectedBlocks_map (blocks : List Nat) :
    gotRejectedBlocks (blocks.map PeerEvent.gotRejected) = blocks := by
  simp [gotRejectedBlocks, List.filterMap_map, Function.comp_def]

/-- What a run did with task `k`: the span `on_idle` created it for; the answers its fetches got,
each with the status, the bytes the buffer callbacks added and the torrent's `has_block` when the
fetch completed; the bytes of the fetch in flight so far; and the range requests, the
`write_block_data` jobs and the `GotRejected` blocks the session issued for it. -/
structure History where
  span : Option BlockSpan
  replies : List Reply
  pending : List UInt8
  sent : List FetchRequest
  queued : List WriteJob
  rejected : List Nat

namespace History

def empty : History := ⟨none, [], [], [], [], []⟩

/-- Task `k` is created by the event from `w` to `w'` when its id lies between their `nextId`s,
for the `(k - w.nextId)`-th span `on_idle` was given, with the fetch the event started for it. -/
def created (k : Nat) (w w' : World) (spans : List BlockSpan) (hist : History) : History :=
  if w.nextId ≤ k ∧ k < w'.nextId then
    ⟨spans[k - w.nextId]?, [], [], World.reqsOf w'.fetches k, [], []⟩
  else hist

/-- What the event `st`, taking `w` to `w'`, adds to the history of task `k`. -/
def record (k : Nat) (w w' : World) (hist : History) : Step → History
  | .idle spans => hist.created k w w' spans
  | .bufferGotData f bytes =>
    if f.task = k ∧ f ∈ w.fetches then { hist with pending := hist.pending ++ bytes } else hist
  | .partialDataFetched f status spans =>
    if f.task = k ∧ f ∈ w.fetches then
      { hist with
        replies := hist.replies ++ [⟨status, hist.pending, w.torrent.map TorrentState.hasBlock⟩]
        pending := []
        sent := hist.sent ++ World.reqsOf w'.fetches k
        queued := hist.queued ++ w'.jobs.drop w.jobs.length
        rejected := hist.rejected ++ gotRejectedBlocks (w'.events.drop w.events.length) }
    else hist.created k w w' spans
  | _ => hist

theorem created_of_lt {k : Nat} {w : World} (hk : k < w.nextId) (w' : World)
    (spans : List BlockSpan) (hist : History) : hist.created k w w' spans = hist :=
  if_neg fun h => absurd h.1 (Nat.not_le.mpr hk)

end History

/-- Replay a trace from `w`, recording what it does with task `k`. -/
def recordSteps (L : FileLayout) (k : Nat) :
    World → History → List Step → Except Fault (World × History)
  | w, hist, [] => .ok (w, hist)
  | w, hist, st :: rest =>
    (w.step L st).bind fun w' => recordSteps L k w' (hist.record k w w' st) rest

theorem recordSteps_exists {L : FileLayout} {k : Nat} {w₀ : World} {hist₀ : History}
    {trace : List Step} {p : World × History → Bool}
    (h : (recordSteps L k w₀ hist₀ trace).toOption.map p = some true) :
    ∃ w hist, recordSteps L k w₀ hist₀ trace = .ok (w, hist) ∧ p (w, hist) = true := by
  cases hr : recordSteps L k w₀ hist₀ trace with
  | error e => rw [hr] at h; cases h
  | ok r => rw [hr] at h; exact ⟨r.1, r.2, rfl, by simpa [Except.toOption] using h⟩

namespace World

variable {L : FileLayout} {w w' : World} {k : Nat} {hist : History}

/-- Task `k` of `w` is where `TaskLog.run` puts the span and the answers `hist` recorded, with the
pending bytes in its buffer, and the session sent, queued and published for it what that run
did. -/
def Follows (L : FileLayout) (w : World) (k : Nat) (hist : History) : Prop :=
  ∃ span, hist.span = some span ∧
    let s := TaskLog.run L span (TaskLog.replyAt hist.replies) hist.replies.length
    w.Tracks k s hist.pending ∧ hist.sent = s.requests ∧
      hist.queued = (s.drained.filter fun d => !d.held).map (fun d => ⟨d.block, d.data⟩) ∧
      hist.rejected = s.phase.rejectedBlocks

theorem Follows.congr (hf : w.Follows L k hist) (hheap : w'.heap k = w.heap k)
    (hreqs : reqsOf w'.fetches k = reqsOf w.fetches k) : w'.Follows L k hist := by
  obtain ⟨span, hspan, ht, hrest⟩ := hf
  exact ⟨span, hspan, ht.congr hheap hreqs, hrest⟩

/-- An event keeps the refinement of a task created before it. -/
theorem Follows.record (hw : Inv w) {st : Step} (h : w.step L st = .ok w')
    (halive : w'.alive = true) (hk : k < w.nextId) (hf : w.Follows L k hist) :
    w'.Follows L k (hist.record k w w' st) := by
  have halive₀ := step_alive h halive
  cases st with
  | idle spans =>
    simp only [World.step, if_pos halive₀] at h
    obtain ⟨h1, h2⟩ := (onIdle_frame h).2.2.2.2.2.2 k hk
    rw [History.record, History.created_of_lt hk]
    exact hf.congr h1 h2
  | bufferGotData f bytes =>
    by_cases hfk : f.task = k ∧ f ∈ w.fetches
    · simp only [History.record, if_pos hfk]
      obtain ⟨k', q⟩ := f
      obtain ⟨rfl, hmem⟩ := hfk
      obtain ⟨span, hspan, ht, hrest⟩ := hf
      exact ⟨span, hspan, ht.bufferGotData (ht.fetch_eq hmem rfl) h, hrest⟩
    · simp only [History.record, if_neg hfk]
      simp only [World.step] at h
      split at h
      · obtain ⟨h1, h2⟩ := onBufferGotData_frame (fun he => hfk ⟨he, ‹_›⟩) h
        exact hf.congr h1 h2
      · cases Except.ok.inj h; exact hf
  | partialDataFetched f status spans =>
    by_cases hfk : f.task = k ∧ f ∈ w.fetches
    · simp only [History.record, if_pos hfk]
      obtain ⟨k', q⟩ := f
      obtain ⟨rfl, hmem⟩ := hfk
      obtain ⟨span, hspan, ht, hsent, hqueued, hrej⟩ := hf
      have hq := ht.fetch_eq hmem rfl
      obtain ⟨ht', drained, hdr, hjobs, hevents⟩ :=
        ht.partialDataFetched hw halive₀ hq (TaskLog.run_task_dead L span _ _) h
      refine ⟨span, hspan, ?_⟩
      dsimp only
      rw [List.length_append, List.length_singleton, TaskLog.run_replyAt_append,
        TaskLog.step_fetching L hq]
      refine ⟨ht', ?_, ?_, ?_⟩
      · rw [hsent, ht'.reqsOf, TaskLog.complete_requests]
      · rw [hqueued, hjobs, List.drop_left, hdr]
        simp [List.filter_append]
      · rw [hrej, hevents, List.drop_left, gotRejectedBlocks_map, hq]
        rfl
    · simp only [History.record, if_neg hfk, History.created_of_lt hk]
      simp only [World.step] at h
      split at h
      · obtain ⟨h1, h2⟩ := onPartialDataFetched_frame (fun he => hfk ⟨he, ‹_›⟩) hk h
        exact hf.congr h1 h2
      · cases Except.ok.inj h; exact hf
  | writeBlock =>
    rcases writeBlockFunc_cases h with rfl | ⟨job, rest, -, rfl | rfl⟩ <;> exact hf.congr rfl rfl
  | destroyWebseed =>
    cases Except.ok.inj h
    rw [if_pos halive₀] at halive
    simp [destroy] at halive
  | updateTorrent t =>
    cases Except.ok.inj h
    split <;> exact hf.congr rfl rfl
  | removeTorrent | tick _ => cases Except.ok.inj h; exact hf.congr rfl rfl

theorem Follows.created (hw : Inv w) {st : Step} (h : w.step L st = .ok w')
    (hk₁ : w.nextId ≤ k) (hk₂ : k < w'.nextId) (hist : History) :
    w'.Follows L k (hist.record k w w' st) := by
  have hstart : ∀ {w₀ : World} {spans : List BlockSpan}, onIdle L w₀ spans = .ok w' →
      w₀.nextId = w.nextId → (∀ f ∈ w₀.fetches, f.task < w₀.nextId) →
      w'.Follows L k (hist.created k w w' spans) := by
    intro w₀ spans hidle hn hfetch
    obtain ⟨span, hget, hheap, hreqs⟩ := onIdle_new hidle hfetch (hn ▸ hk₁) hk₂
    rw [History.created, if_pos ⟨hk₁, hk₂⟩]
    refine ⟨span, by rw [← hn]; exact hget, ?_, hreqs, rfl, rfl⟩
    show w'.Tracks k (TaskLog.start L span) []
    unfold Tracks
    exact ⟨by simpa [TaskLog.start] using hheap, hreqs⟩
  have hnot : ¬ k < w.nextId := Nat.not_lt.mpr hk₁
  cases st with
  | idle spans =>
    simp only [World.step] at h
    split at h
    · exact hstart h rfl fun f hf => hw.alloc_lt hf
    · cases Except.ok.inj h; exact absurd hk₂ hnot
  | partialDataFetched f status spans =>
    simp only [World.step] at h
    split at h
    · rename_i hf
      have hfk : ¬ (f.task = k ∧ f ∈ w.fetches) := fun he => hnot (he.1 ▸ hw.alloc_lt hf)
      simp only [History.record, if_neg hfk]
      obtain ⟨task, -, ⟨-, rfl⟩ | ⟨-, -, -, hcases⟩⟩ := onPartialDataFetched_cases h
      · exact absurd hk₂ hnot
      rcases hcases with ⟨-, rfl⟩ | ⟨-, ⟨blocks, rfl⟩ | ⟨task', drained, -, -, -, rfl⟩ |
        ⟨drained, -, hidle⟩⟩
      · exact absurd hk₂ hnot
      · exact absurd hk₂ hnot
      · exact absurd hk₂ hnot
      · exact hstart hidle rfl fun g hg => hw.alloc_lt (List.mem_of_mem_erase hg)
    · cases Except.ok.inj h; exact absurd hk₂ hnot
  | bufferGotData f bytes =>
    simp only [World.step] at h
    split at h
    · obtain ⟨task, -, rfl | ⟨-, -, -, -, rfl⟩⟩ := onBufferGotData_cases h <;>
        exact absurd hk₂ hnot
    · cases Except.ok.inj h; exact absurd hk₂ hnot
  | writeBlock =>
    rcases writeBlockFunc_cases h with rfl | ⟨job, rest, -, rfl | rfl⟩ <;> exact absurd hk₂ hnot
  | destroyWebseed | updateTorrent _ =>
    cases Except.ok.inj h
    split at hk₂ <;> exact absurd hk₂ hnot
  | removeTorrent | tick _ => cases Except.ok.inj h; exact absurd hk₂ hnot

theorem recordSteps_follows : ∀ {trace : List Step} {w₀ w : World} {hist₀ : History},
    Reachable L w₀ → (w₀.alive = true → k < w₀.nextId → w₀.Follows L k hist₀) →
    recordSteps L k w₀ hist₀ trace = .ok (w, hist) → w.alive = true → k < w.nextId →
    w.Follows L k hist
  | [], _, _, _, _, hf, h => by cases h; exact hf
  | st :: rest, w₀, w, hist₀, hw, hf, h => by
    simp only [recordSteps] at h
    cases hs : w₀.step L st with
    | error e => rw [hs] at h; cases h
    | ok w₁ =>
      rw [hs] at h
      refine recordSteps_follows (hw.step hs) (fun ha hk => ?_) h
      by_cases hold : k < w₀.nextId
      · exact (hf (step_alive hs ha) hold).record hw.inv hs ha hold
      · exact Follows.created hw.inv hs (Nat.not_lt.mp hold) hk hist₀

end World

/-- Along every run of a webseed not destroyed, each task created so far is where `TaskLog.run`
puts the span `on_idle` created it for, answered as the run answered its fetches: the heap holds
its task, with the bytes of the fetch in flight in its buffer, and that fetch is the request the
`TaskLog` waits on; and the range requests, `write_block_data` jobs and `GotRejected` blocks the
session issued for it are the requests, the missing drained blocks and the rejected blocks of
that run. -/
theorem reachable_tasks_follow_taskLog {L : FileLayout} {k now : Nat} {t : TorrentState}
    {trace : List Step} {w : World} {hist : History}
    (hrun : recordSteps L k (World.init now t) History.empty trace = .ok (w, hist))
    (halive : w.alive = true) (hk : k < w.nextId) :
    ∃ span, hist.span = some span ∧
      let s := TaskLog.run L span (TaskLog.replyAt hist.replies) hist.replies.length
      w.Tracks k s hist.pending ∧ hist.sent = s.requests ∧
        hist.queued = (s.drained.filter fun d => !d.held).map (fun d => ⟨d.block, d.data⟩) ∧
        hist.rejected = s.phase.rejectedBlocks :=
  World.recordSteps_follows (.init now t) (fun _ h => absurd h (Nat.not_lt_zero k)) hrun halive hk

/-- A webseed on a torrent of two files of 2 and 1 bytes, one block straddling them: the server
sends the first file's bytes, the task asks for the second file, and once its byte is there the
block goes to the cache. -/
def straddleTrace : List Step :=
  [.idle [⟨0, 1⟩], .bufferGotData ⟨0, ⟨0, 0, 2⟩⟩ [0, 1], .partialDataFetched ⟨0, ⟨0, 0, 2⟩⟩ 206 [],
    .bufferGotData ⟨0, ⟨1, 0, 1⟩⟩ [2], .partialDataFetched ⟨0, ⟨1, 0, 1⟩⟩ 206 [], .writeBlock]

/-- On the straddling block the task takes two answers, both fetches are sent, and block 0 is
queued with its three bytes. -/
theorem reachable_tasks_follow_taskLog_straddling_block :
    ∃ w hist, recordSteps (FileLayout.ofSizes [2, 1]) 0
        (World.init 0 ⟨true, false, fun _ => false⟩) History.empty straddleTrace = .ok (w, hist) ∧
      w.alive = true ∧ 0 < w.nextId ∧ hist.replies.length = 2 ∧
      hist.sent = [⟨0, 0, 2⟩, ⟨1, 0, 1⟩] ∧ hist.queued = [⟨0, [0, 1, 2]⟩] ∧
      ∃ span, hist.span = some span ∧
        let s := TaskLog.run (FileLayout.ofSizes [2, 1]) span (TaskLog.replyAt hist.replies)
          hist.replies.length
        w.Tracks 0 s hist.pending ∧ hist.sent = s.requests ∧
          hist.queued = (s.drained.filter fun d => !d.held).map (fun d => ⟨d.block, d.data⟩) ∧
          hist.rejected = s.phase.rejectedBlocks := by
  have h : (recordSteps (FileLayout.ofSizes [2, 1]) 0 (World.init 0 ⟨true, false, fun _ => false⟩)
      History.empty straddleTrace).toOption.map (fun p => p.1.alive && decide (0 < p.1.nextId) &&
        p.2.replies.length == 2 && p.2.sent == [⟨0, 0, 2⟩, ⟨1, 0, 1⟩] &&
        p.2.queued == [⟨0, [0, 1, 2]⟩]) = some true := by
    decide
  obtain ⟨w, hist, hrun, hp⟩ := recordSteps_exists h
  simp only [Bool.and_eq_true, beq_iff_eq, decide_eq_true_eq] at hp
  obtain ⟨⟨⟨⟨ha, hn⟩, hlen⟩, hsent⟩, hq⟩ := hp
  exact ⟨w, hist, hrun, ha, hn, hlen, hsent, hq, reachable_tasks_follow_taskLog hrun ha hn⟩

end LibTransmission
