import LibTransmission.Webseed.ConnectionLimiter
import LibTransmission.Webseed.Task
import Mathlib.Logic.Function.Basic

/-!
# A webseed in its session

One `tr_webseed` of one torrent, with everything around it that can act on it: the idle timer,
the HTTP layer (buffer growth and completion of each fetch in flight), the session thread running
the queued `write_block_data` jobs, the torrent changing or going away, and the webseed's own
destruction. A `World` holds the webseed's fields, the heap of tasks, the fetches in flight and
the job queue; `step` runs one of these events under the session lock and fails with a `Fault`
when the code touches freed memory or a `TR_ASSERT` does not hold.

* `canRequest`, `requestBlocks`, `onIdle` : task creation, one task and one fetch per span;
* `onBufferGotData`, `onPartialDataFetched` : the two callbacks of a fetch;
* `writeBlockFunc`, `destroy` : a queued job on the session thread, and `~tr_webseed`;
* `Reachable`, `runSteps` : the worlds reachable from a fresh webseed, and the replay of a trace;
* `onIdle_cases`, `onBufferGotData_cases`, `onPartialDataFetched_cases` : what each can do.
-/

namespace LibTransmission

/-- The `tr_peer_event`s the webseed publishes through its callback. -/
inductive PeerEvent
  | gotBlock (block : Nat)
  | gotRejected (block : Nat)
  | gotPieceData (nBytes : Nat)
  deriving Repr, DecidableEq

/-- The torrent as `getTorrent()` finds it: `is_running()`, `is_done()` and `has_block()`. -/
structure TorrentState where
  running : Bool
  done : Bool
  hasBlock : Nat → Bool

/-- An HTTP fetch in flight: the task whose buffer it fills (`vtask`, `options.buffer`) and the
range it asked for. -/
structure Fetch where
  task : Nat
  req : FetchRequest
  deriving Repr, DecidableEq

/-- Modelled from the spec: a `write_block_data` queued by `run_in_session_thread` (session.h,
not under src/), run later and in order by the session thread. -/
structure WriteJob where
  block : Nat
  data : List UInt8
  deriving Repr, DecidableEq

/-- The code reads or writes a freed task or a destroyed webseed; a `TR_ASSERT(n_tasks > 0)` of
the limiter fails; or a `TR_ASSERT` on a task's cursor, buffer or next chunk fails. -/
inductive Fault
  | useAfterFree
  | assertionFailed
  | taskAssertionFailed
  deriving Repr, DecidableEq

/-- The session around one webseed. `alive` is false once `~tr_webseed` has run; `limiter` and
`tasks` are the webseed's `connection_limiter` and `tasks` set. Tasks live on a heap indexed by
allocation order; a freed task is `none`. -/
structure World where
  now : Nat
  torrent : Option TorrentState
  alive : Bool
  limiter : ConnectionLimiter
  tasks : List Nat
  heap : Nat → Option Task
  nextId : Nat
  fetches : List Fetch
  jobs : List WriteJob
  events : List PeerEvent
  cache : List (Nat × List UInt8)

/-- What can happen next: the idle timer fires (`tr_peerMgrGetNextRequests` answering `spans`);
the HTTP layer adds `bytes` to the buffer of fetch `f`, or completes it with `status` (with
`spans` for the `on_idle` a finished span runs); the session thread runs its next job; the
webseed is destroyed; the torrent changes or is removed; time passes. -/
inductive Step
  | idle (spans : List BlockSpan)
  | bufferGotData (f : Fetch) (bytes : List UInt8)
  | partialDataFetched (f : Fetch) (status : Nat) (spans : List BlockSpan)
  | writeBlock
  | destroyWebseed
  | updateTorrent (t : TorrentState)
  | removeTorrent
  | tick (dt : Nat)

namespace World

variable (L : FileLayout)

/-- `tr_webseedNew`: a webseed with no task, for a torrent that is there. -/
def init (now : Nat) (t : TorrentState) : World where
  now := now
  torrent := some t
  alive := true
  limiter := {}
  tasks := []
  heap := fun _ => none
  nextId := 0
  fetches := []
  jobs := []
  events := []
  cache := []

/-- `PreferredBlocksPerTask` of `canRequest`. -/
def PreferredBlocksPerTask : Nat := 64

/-- `getTorrent()` finds a torrent that is running and not done. -/
def torrentReady (w : World) : Bool :=
  match w.torrent with
  | some t => t.running && !t.done
  | none => false

/-- `tr_webseed::canRequest`: how many spans and blocks `on_idle` may ask for. -/
def canRequest (w : World) : Nat × Nat :=
  let nSlots := w.limiter.slotsAvailable w.now
  if nSlots = 0 then (0, 0)
  else if w.torrentReady then (nSlots, nSlots * PreferredBlocksPerTask) else (0, 0)

/-- The limiter counts one more task and the HTTP layer starts the fetch of task `id`. -/
def startFetch (w : World) (id : Nat) (task : Task) : World :=
  { w with limiter := w.limiter.taskStarted,
           fetches := w.fetches ++ [⟨id, taskRequestNextChunk L task⟩] }

/-- `task_request_next_chunk` for task `id`: with the torrent there, `TR_ASSERT(this_chunk > 0U)`,
then the fetch starts. -/
def requestNextChunk (w : World) (id : Nat) (task : Task) : Except Fault World :=
  if w.torrent.isSome then
    if (taskRequestNextChunk L task).thisChunk = 0 then .error .taskAssertionFailed
    else .ok (startFetch L w id task)
  else .ok w

/-- Task `id` is now `task`, in place. -/
def setTask (w : World) (id : Nat) (task : Task) : World :=
  { w with heap := Function.update w.heap id (some task) }

/-- One pass of the loop of `requestBlocks`: a new task for `span`, inserted into the set, and its
first request. -/
def startTask (w : World) (span : BlockSpan) : Except Fault World :=
  requestNextChunk L
    { setTask w w.nextId (Task.new L.blockInfo span) with
        nextId := w.nextId + 1, tasks := w.tasks ++ [w.nextId] }
    w.nextId (Task.new L.blockInfo span)

/-- `tr_webseed::requestBlocks`. -/
def requestBlocks (w : World) (spans : List BlockSpan) : Except Fault World :=
  if w.torrentReady then spans.foldlM (startTask L) w else .ok w

/-- `on_idle`: the spans the peer manager offers, cut to `max_spans`. -/
def onIdle (w : World) (spans : List BlockSpan) : Except Fault World :=
  if (canRequest w).1 = 0 ∨ (canRequest w).2 = 0 then .ok w
  else requestBlocks L w (spans.take (canRequest w).1)

/-- `tr_webseed::gotPieceData`: publish `GotPieceData`, then `connection_limiter.gotData()`. -/
def gotPieceData (w : World) (nBytes : Nat) : Except Fault World :=
  if !w.alive then .error .useAfterFree
  else if w.limiter.nTasks = 0 then .error .assertionFailed
  else .ok { w with events := w.events ++ [.gotPieceData nBytes], limiter := w.limiter.gotData }

/-- `onBufferGotData`: the HTTP layer added `bytes` to the buffer of fetch `f`'s task. -/
def onBufferGotData (w : World) (f : Fetch) (bytes : List UInt8) : Except Fault World :=
  match w.heap f.task with
  | none => .error .useAfterFree
  | some task =>
    if bytes.length = 0 || task.dead then .ok (setTask w f.task (task.append bytes))
    else gotPieceData (setTask w f.task (task.append bytes)) bytes.length

/-- The completed fetch leaves the HTTP layer and the limiter runs `taskFinished(success)`. -/
def finishFetch (w : World) (f : Fetch) (success : Bool) : World :=
  { w with fetches := w.fetches.erase f, limiter := w.limiter.taskFinished w.now success }

/-- The blocks `useFetchedBlocks` hands to the cache, each queued as a `write_block_data`. -/
def writeBlocks (w : World) (drained : List Drained) : World :=
  { w with jobs := w.jobs ++ (drained.filter fun d => !d.held).map fun d => ⟨d.block, d.data⟩ }

/-- `publishRejection`: a `GotRejected` for each block. -/
def publishRejection (w : World) (blocks : List Nat) : World :=
  { w with events := w.events ++ blocks.map PeerEvent.gotRejected }

/-- `webseed->tasks.erase(task); delete task;` -/
def eraseTask (w : World) (id : Nat) : World :=
  { w with tasks := w.tasks.erase id, heap := Function.update w.heap id none }

/-- `onPartialDataFetched`: fetch `f` completed with `status`. A dead task is freed; otherwise
the limiter is told, and with the torrent there the task rejects the rest of its span, or drains
its buffer and then asks for the next chunk, or retires and runs `on_idle`; the drain's
`TR_ASSERT`s are checked in both of the last two cases, and those on a finished task in the
last. -/
def onPartialDataFetched (w : World) (f : Fetch) (status : Nat) (spans : List BlockSpan) :
    Except Fault World :=
  match w.heap f.task with
  | none => .error .useAfterFree
  | some task =>
    if task.dead then
      .ok { w with fetches := w.fetches.erase f, heap := Function.update w.heap f.task none }
    else if !w.alive then .error .useAfterFree
    else if w.limiter.nTasks = 0 then .error .assertionFailed
    else
      match w.torrent with
      | none => .ok (finishFetch w f (status == 206))
      | some tor =>
        match task.onFetched L tor.hasBlock (status == 206) with
        | .rejected blocks =>
          .ok ((publishRejection (finishFetch w f (status == 206)) blocks).eraseTask f.task)
        | .next task' drained _ =>
          if !useFetchedBlocksAsserts L.blockInfo task then .error .taskAssertionFailed
          else requestNextChunk L
            (setTask (writeBlocks (finishFetch w f (status == 206)) drained) f.task task')
            f.task task'
        | .retired task' drained =>
          if !(useFetchedBlocksAsserts L.blockInfo task && retireAsserts task') then
            .error .taskAssertionFailed
          else onIdle L ((writeBlocks (finishFetch w f (status == 206)) drained).eraseTask f.task)
            spans

/-- `write_block_data::write_block_func`, run by the session thread on the first queued job: with
the torrent there, the block goes to the cache and the webseed that queued it publishes
`GotBlock`. -/
def writeBlockFunc (w : World) : Except Fault World :=
  match w.jobs with
  | [] => .ok w
  | job :: rest =>
    if w.torrent.isSome then
      if !w.alive then .error .useAfterFree
      else .ok { w with jobs := rest, cache := w.cache ++ [(job.block, job.data)],
                        events := w.events ++ [.gotBlock job.block] }
    else .ok { w with jobs := rest }

/-- `tr_webseed::~tr_webseed`: every task of the set is flagged dead and the set is cleared; the
idle timer goes with the webseed. -/
def destroy (w : World) : World :=
  { w with alive := false, tasks := [],
           heap := fun k => if k ∈ w.tasks then (w.heap k).map fun t => { t with dead := true }
             else w.heap k }

/-- One event. Callbacks of fetches not in flight and the timer of a destroyed webseed do not
occur; a removed torrent does not come back. -/
def step (w : World) : Step → Except Fault World
  | .idle spans => if w.alive then onIdle L w spans else .ok w
  | .bufferGotData f bytes => if f ∈ w.fetches then onBufferGotData w f bytes else .ok w
  | .partialDataFetched f status spans =>
    if f ∈ w.fetches then onPartialDataFetched L w f status spans else .ok w
  | .writeBlock => writeBlockFunc w
  | .destroyWebseed => .ok (if w.alive then destroy w else w)
  | .updateTorrent t => .ok (if w.torrent.isSome then { w with torrent := some t } else w)
  | .removeTorrent => .ok { w with torrent := none }
  | .tick dt => .ok { w with now := w.now + dt }

/-- Task `k` of the heap is allocated and not flagged dead. -/
def liveIn (heap : Nat → Option Task) (k : Nat) : Bool := (heap k).any fun t => !t.dead

/-- The fetches in flight for tasks that are allocated and not dead. -/
def liveCount (w : World) : Nat := w.fetches.countP fun f => liveIn w.heap f.task

@[simp] theorem liveIn_update (heap : Nat → Option Task) (k j : Nat) (v : Option Task) :
    liveIn (Function.update heap k v) j = if j = k then v.any (fun t => !t.dead) else liveIn heap j := by
  by_cases h : j = k
  · subst h; simp [liveIn]
  · simp [liveIn, Function.update_noteq h, h]

/-! ## What each event can do -/

variable {L} {w w' : World}

theorem requestNextChunk_ok (htor : w.torrent.isSome) {id : Nat} {task : Task}
    (h : requestNextChunk L w id task = .ok w') :
    0 < (taskRequestNextChunk L task).thisChunk ∧ w' = startFetch L w id task := by
  simp only [requestNextChunk, htor, if_true] at h
  split at h
  · cases h
  · exact ⟨Nat.pos_of_ne_zero ‹_›, (Except.ok.inj h).symm⟩

theorem requestNextChunk_error {id : Nat} {task : Task} {e : Fault}
    (h : requestNextChunk L w id task = .error e) : e = .taskAssertionFailed := by
  unfold requestNextChunk at h
  split at h
  · split at h
    · exact (Except.error.inj h).symm
    · cases h
  · cases h

theorem startTask_ok (htor : w.torrent.isSome) {span : BlockSpan}
    (h : startTask L w span = .ok w') :
    0 < (taskRequestNextChunk L (Task.new L.blockInfo span)).thisChunk ∧
    w' = { w with heap := Function.update w.heap w.nextId (some (Task.new L.blockInfo span)),
                  nextId := w.nextId + 1, tasks := w.tasks ++ [w.nextId],
                  limiter := w.limiter.taskStarted,
                  fetches := w.fetches ++
                    [⟨w.nextId, taskRequestNextChunk L (Task.new L.blockInfo span)⟩] } :=
  requestNextChunk_ok (by simpa [setTask] using htor) h

theorem foldlM_startTask_cons {span : BlockSpan} {spans : List BlockSpan} :
    (span :: spans).foldlM (startTask L) w = .ok w' ↔
      ∃ w₁, startTask L w span = .ok w₁ ∧ spans.foldlM (startTask L) w₁ = .ok w' := by
  rw [List.foldlM_cons]
  cases startTask L w span <;> simp [bind, Except.bind]

theorem foldlM_startTask_error : ∀ {spans : List BlockSpan} {w : World} {e : Fault},
    spans.foldlM (startTask L) w = .error e → e = .taskAssertionFailed
  | [], _, _, h => by cases h
  | span :: spans, w, e, h => by
    rw [List.foldlM_cons] at h
    cases h₁ : startTask L w span with
    | error e' => rw [h₁] at h; cases h; exact requestNextChunk_error h₁
    | ok w₁ => rw [h₁] at h; exact foldlM_startTask_error h

theorem onIdle_cases {spans : List BlockSpan} (h : onIdle L w spans = .ok w') :
    w' = w ∨
      (0 < w.limiter.slotsAvailable w.now ∧ w.torrentReady = true ∧
        (spans.take (w.limiter.slotsAvailable w.now)).foldlM (startTask L) w = .ok w') := by
  unfold onIdle canRequest at h
  by_cases h0 : w.limiter.slotsAvailable w.now = 0
  · simp only [h0, if_true, true_or] at h
    exact .inl (Except.ok.inj h).symm
  · by_cases hr : w.torrentReady = true
    · refine .inr ⟨Nat.pos_of_ne_zero h0, hr, ?_⟩
      simpa [h0, hr, requestBlocks, PreferredBlocksPerTask, Nat.mul_eq_zero] using h
    · simp only [h0, hr, if_false] at h
      exact .inl (by simpa [requestBlocks, hr] using h.symm)

/-- `on_idle` fails only on the `TR_ASSERT(this_chunk > 0U)` of a first request. -/
theorem onIdle_error {spans : List BlockSpan} {e : Fault} (h : onIdle L w spans = .error e) :
    e = .taskAssertionFailed := by
  unfold onIdle requestBlocks at h
  split at h
  · cases h
  · split at h
    · exact foldlM_startTask_error h
    · cases h

theorem onBufferGotData_cases {f : Fetch} {bytes : List UInt8}
    (h : onBufferGotData w f bytes = .ok w') :
    ∃ task, w.heap f.task = some task ∧
      ((w' = setTask w f.task (task.append bytes)) ∨
        (bytes.length ≠ 0 ∧ task.dead = false ∧ w.alive = true ∧ w.limiter.nTasks ≠ 0 ∧
          w' = { setTask w f.task (task.append bytes) with
                   events := w.events ++ [.gotPieceData bytes.length],
                   limiter := w.limiter.gotData })) := by
  unfold onBufferGotData at h
  split at h
  · cases h
  rename_i task hh
  refine ⟨task, hh, ?_⟩
  split at h
  · exact .inl (Except.ok.inj h).symm
  rename_i hb
  simp only [Bool.or_eq_true, decide_eq_true_eq, not_or, Bool.not_eq_true] at hb
  unfold gotPieceData at h
  simp only [setTask] at h
  split at h
  · cases h
  split at h
  · cases h
  rename_i ha hn
  exact .inr ⟨hb.1, hb.2, by simpa using ha, hn, (Except.ok.inj h).symm⟩

theorem onPartialDataFetched_cases {f : Fetch} {status : Nat} {spans : List BlockSpan}
    (h : onPartialDataFetched L w f status spans = .ok w') :
    ∃ task, w.heap f.task = some task ∧
      ((task.dead = true ∧
          w' = { w with fetches := w.fetches.erase f, heap := Function.update w.heap f.task none }) ∨
        (task.dead = false ∧ w.alive = true ∧ w.limiter.nTasks ≠ 0 ∧
          ((w.torrent = none ∧ w' = finishFetch w f (status == 206)) ∨
            (w.torrent.isSome ∧
              ((∃ blocks, w' =
                  (publishRejection (finishFetch w f (status == 206)) blocks).eraseTask f.task) ∨
                (∃ task' drained, status = 206 ∧ task'.dead = false ∧
                  0 < (taskRequestNextChunk L task').thisChunk ∧ w' = startFetch L
                  (setTask (writeBlocks (finishFetch w f (status == 206)) drained) f.task task')
                  f.task task') ∨
                (∃ drained, status = 206 ∧ onIdle L
                  ((writeBlocks (finishFetch w f (status == 206)) drained).eraseTask f.task)
                  spans = .ok w')))))) := by
  unfold onPartialDataFetched at h
  split at h
  · cases h
  rename_i task hh
  refine ⟨task, hh, ?_⟩
  split at h
  · exact .inl ⟨‹_›, (Except.ok.inj h).symm⟩
  rename_i hd
  split at h
  · cases h
  split at h
  · cases h
  rename_i ha hn
  refine .inr ⟨by simpa using hd, by simpa using ha, hn, ?_⟩
  split at h
  · exact .inl ⟨‹_›, (Except.ok.inj h).symm⟩
  rename_i tor htor
  refine .inr ⟨by simp [htor], ?_⟩
  split at h
  · exact .inl ⟨_, (Except.ok.inj h).symm⟩
  · rename_i task' drained req hon
    split at h
    · cases h
    have hdead : (status == 206) = true ∧ task'.dead = task.dead := by
      rcases Task.onFetched_cases L tor.hasBlock (status == 206) task with
        ⟨-, h'⟩ | ⟨hs, -, h'⟩ | ⟨-, -, h'⟩ <;> rw [h'] at hon <;> cases hon
      exact ⟨hs, by simp⟩
    obtain ⟨hpos, rfl⟩ := requestNextChunk_ok (by simp [setTask, writeBlocks, finishFetch, htor]) h
    exact .inr (.inl ⟨task', drained, by simpa using hdead.1, by simpa [hdead.2] using hd, hpos,
      rfl⟩)
  · rename_i task' drained hon
    split at h
    · cases h
    have hs : (status == 206) = true := by
      rcases Task.onFetched_cases L tor.hasBlock (status == 206) task with
        ⟨-, h'⟩ | ⟨-, -, h'⟩ | ⟨hs, -, h'⟩ <;> rw [h'] at hon <;> cases hon
      exact hs
    exact .inr (.inr ⟨_, by simpa using hs, h⟩)

theorem writeBlockFunc_cases (h : writeBlockFunc w = .ok w') :
    w' = w ∨ ∃ job rest, w.jobs = job :: rest ∧
      (w' = { w with jobs := rest } ∨
        w' = { w with jobs := rest, cache := w.cache ++ [(job.block, job.data)],
                      events := w.events ++ [.gotBlock job.block] }) := by
  unfold writeBlockFunc at h
  split at h
  · exact .inl (Except.ok.inj h).symm
  rename_i job rest hj
  refine .inr ⟨job, rest, hj, ?_⟩
  split at h
  · split at h
    · cases h
    · exact .inr (Except.ok.inj h).symm
  · exact .inl (Except.ok.inj h).symm

end World

/-- The worlds a webseed can reach from its creation, through events that do not fault. -/
inductive Reachable (L : FileLayout) : World → Prop
  | init (now : Nat) (t : TorrentState) : Reachable L (World.init now t)
  | step {w w' : World} {st : Step} : Reachable L w → w.step L st = .ok w' → Reachable L w'

/-- Replay a trace of events from a world; `none` once one faults. -/
def runSteps (L : FileLayout) : World → List Step → Except Fault World
  | w, [] => .ok w
  | w, st :: rest => (w.step L st).bind fun w' => runSteps L w' rest

theorem runSteps_reachable {L : FileLayout} :
    ∀ {w w' : World} {trace : List Step}, Reachable L w → runSteps L w trace = .ok w' →
      Reachable L w'
  | _, _, [], hw, h => by cases h; exact hw
  | w, _, st :: rest, hw, h => by
    simp only [runSteps] at h
    cases hs : w.step L st with
    | error e => rw [hs] at h; cases h
    | ok w₁ => rw [hs] at h; exact runSteps_reachable (hw.step hs) h

theorem runSteps_exists {L : FileLayout} {w₀ : World} {trace : List Step} {p : World → Bool}
    (h : (runSteps L w₀ trace).toOption.map p = some true) :
    ∃ w, runSteps L w₀ trace = .ok w ∧ p w = true := by
  cases hr : runSteps L w₀ trace with
  | error e => rw [hr] at h; cases h
  | ok w => rw [hr] at h; exact ⟨w, rfl, by simpa [Except.toOption] using h⟩

end LibTransmission
