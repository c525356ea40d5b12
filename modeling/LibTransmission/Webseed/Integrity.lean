import LibTransmission.Webseed.Simulation

/-!
# What reaches the cache

Over every interleaving of the events of one webseed, with any number of tasks at once: when the
peer manager offers spans of the torrent and the HTTP server sends, for each fetch, the bytes of
the range it asked for, in order and never past its end, every block queued for the cache and
every block written to it holds the torrent's own bytes of that block.

* `Task.Intact` : a task's cursor on a block boundary, its buffer ending at or before `end_byte`
  and holding the torrent's bytes from the cursor on; `useFetchedBlocks_intact` : the drain keeps
  it and hands each block its own bytes;
* `World.Honest`, `HonestReachable` : the events of such a peer manager and server;
* `World.Intact`, `Intact.step` : every live task intact, every fetch in flight asking for a range
  from at most the end of its task's buffer to at most `end_byte`, every queued job and every
  cache entry holding its block's bytes;
* `honest_cache_holds_block_bytes` : hence no block with other bytes reaches the cache;
* `Reachable.announced`, `honest_gotBlock_announces_cached_bytes` : the `GotBlock` events are, in
  order, the writes to the cache, so every block announced to the peer manager is in the cache
  with its bytes.
-/

namespace LibTransmission

open BlockInfo

/-- The first byte of the torrent the task has not buffered. -/
def Task.nextByte (task : Task) : Nat := task.loc.byte + task.content.length

/-- The first byte of the torrent request `q` asks for. -/
def FetchRequest.rangeBegin (L : FileLayout) (q : FetchRequest) : Nat :=
  fileBegin L.fileSizes q.fileIndex + q.fileOffset

/-- The byte after the last one request `q` asks for. -/
def FetchRequest.rangeEnd (L : FileLayout) (q : FetchRequest) : Nat := q.rangeBegin L + q.thisChunk

/-! ## One task -/

/-- A task as the drain loop needs it: the cursor on boundary `j`, `end_byte` the boundary `e` of a
span end inside the torrent, the buffer ending at or before `end_byte` and holding the torrent's
bytes from the cursor on. -/
structure Task.Intact (bi : BlockInfo) (content : Nat → UInt8) (task : Task) : Prop where
  cursor : ∃ j e, j ≤ e ∧ e ≤ bi.blockCount ∧ task.loc = bi.byteLoc (bi.boundary j) ∧
    task.endByte = bi.boundary e
  next_le : task.nextByte ≤ task.endByte
  data : task.content = torrentBytes content task.loc.byte task.content.length

variable {content : Nat → UInt8}

theorem Task.Intact.new {L : FileLayout} {span : BlockSpan} (hspan : span.begin < span.end)
    (hend : span.end ≤ L.blockInfo.blockCount) :
    (Task.new L.blockInfo span).Intact L.blockInfo content := by
  have hb : span.begin < L.blockInfo.blockCount := by omega
  have hle := L.blockInfo.boundary_mono hspan.le
  refine ⟨⟨span.begin, span.end, hspan.le, hend, ?_, TaskLog.endByte_new hspan hend⟩, ?_, rfl⟩
  · simp [Task.new, blockLoc, L.blockInfo.boundary_of_lt hb]
  · simp only [Task.nextByte, TaskLog.endByte_new hspan hend]
    simpa [Task.new, blockLoc, L.blockInfo.boundary_of_lt hb] using hle

theorem Task.Intact.append {bi : BlockInfo} {task : Task} (h : task.Intact bi content)
    {bytes : List UInt8} (hbytes : bytes = torrentBytes content task.nextByte bytes.length)
    (hle : task.nextByte + bytes.length ≤ task.endByte) :
    (task.append bytes).Intact bi content := by
  obtain ⟨hcur, -, hdata⟩ := h
  refine ⟨by simpa using hcur, by simpa [Task.nextByte, Nat.add_assoc] using hle, ?_⟩
  simp only [Task.append_content, Task.append_loc, List.length_append, torrentBytes_add]
  rw [← hdata]
  exact congrArg _ hbytes

/-- **The drain keeps a task intact.** From an intact task, `useFetchedBlocks` hands each block the
torrent's bytes of that block and leaves an intact task with the same first byte not buffered; a
buffer reaching `end_byte` leaves the cursor there. -/
theorem useFetchedBlocks_intact {bi : BlockInfo} (hasBlock : Nat → Bool) {task : Task}
    (h : task.Intact bi content) :
    let r := useFetchedBlocks bi hasBlock task
    r.1.Intact bi content ∧ r.1.nextByte = task.nextByte ∧
      (∀ d ∈ r.2, d.data = blockBytes bi content d.block) ∧
      (task.nextByte = task.endByte → r.1.loc.byte = task.endByte) := by
  obtain ⟨⟨j, e, hje, heN, hloc, hend⟩, hnext, hdata⟩ := h
  simp only [Task.nextByte, hloc, byteLoc_byte] at hnext hdata ⊢
  have heT := bi.boundary_le e
  have hT : bi.boundary j + task.content.length ≤ bi.totalSize := by omega
  rw [useFetchedBlocks_boundary bi hasBlock (hje.trans heN) hloc hT]
  -- the loop stops on boundary `m`, at or below the span's end `e`
  have hmX := bi.boundary_wholeBlocks_le (bi.boundary j + task.content.length)
  have hjm := bi.le_wholeBlocks hT (hje.trans heN) (Nat.le_add_right _ _)
  have hmN := bi.wholeBlocks_le hT
  generalize hm : bi.wholeBlocks (bi.boundary j + task.content.length) = m at hmX hjm hmN
  have hme : m ≤ e := by
    by_contra hc
    have := bi.boundary_lt_boundary (show e < m by omega) (by omega)
    omega
  have hjm' := bi.boundary_mono hjm
  refine ⟨⟨⟨m, e, hme, heN, rfl, hend⟩, ?_, ?_⟩, ?_, ?_, fun he => ?_⟩
  all_goals simp only [Task.nextByte, byteLoc_byte, List.length_drop]
  · omega
  · rw [hdata, torrentBytes_drop _ _ _ _ (by omega), torrentBytes_length]
    congr 1; omega
  · omega
  · intro d hd
    rw [hdata] at hd
    exact drainedFrom_torrentBytes bi hasBlock content hmN hmX d hd
  · rw [← hm, he, hend, bi.wholeBlocks_boundary heN]

/-- A drain that leaves the cursor short of `end_byte` leaves bytes of the span missing. -/
theorem Task.Intact.nextByte_lt_of_drain {bi : BlockInfo} {hasBlock : Nat → Bool} {task : Task}
    (h : task.Intact bi content) (hlt : (useFetchedBlocks bi hasBlock task).1.loc.byte < task.endByte) :
    (useFetchedBlocks bi hasBlock task).1.nextByte < (useFetchedBlocks bi hasBlock task).1.endByte := by
  obtain ⟨-, hnext, -, hend⟩ := useFetchedBlocks_intact hasBlock h
  rw [hnext, useFetchedBlocks_endByte]
  rcases Nat.lt_or_eq_of_le h.next_le with hlt' | heq
  · exact hlt'
  · exact absurd (hend heq) (Nat.ne_of_lt hlt)

theorem Task.Intact.request {L : FileLayout} {task : Task} (h : task.Intact L.blockInfo content)
    (hlt : task.nextByte < task.endByte) :
    (taskRequestNextChunk L task).rangeBegin L = task.nextByte ∧
      (taskRequestNextChunk L task).rangeEnd L ≤ task.endByte ∧
      0 < (taskRequestNextChunk L task).thisChunk := by
  obtain ⟨⟨j, e, -, -, -, hend⟩, -, -⟩ := h
  have heT : task.endByte ≤ L.fileSizes.sum := hend ▸ L.blockInfo.boundary_le e
  obtain ⟨-, hstart, hpos, -, hfit, -⟩ := TaskLog.taskRequestNextChunk_spec (L := L) rfl hlt heT
  exact ⟨hstart, by simp only [FetchRequest.rangeEnd, FetchRequest.rangeBegin, hstart]; exact hfit,
    hpos⟩

theorem Task.nextByte_new_lt {L : FileLayout} {span : BlockSpan} (hb : span.begin < span.end)
    (he : span.end ≤ L.blockInfo.blockCount) :
    (Task.new L.blockInfo span).nextByte < (Task.new L.blockInfo span).endByte := by
  rw [TaskLog.endByte_new hb he]
  have := L.blockInfo.boundary_lt_boundary hb (by omega)
  simpa [Task.nextByte, Task.new, blockLoc, L.blockInfo.boundary_of_lt (show span.begin <
    L.blockInfo.blockCount by omega)] using this

/-! ## Honest peer manager and server -/

namespace World

variable (L : FileLayout) (content : Nat → UInt8)

/-- The peer manager offers spans of the torrent, of one block or more. -/
def SpansInTorrent (spans : List BlockSpan) : Prop :=
  ∀ s ∈ spans, s.begin < s.end ∧ s.end ≤ L.blockInfo.blockCount

/-- The server goes on with the range fetch `f` asked for: the bytes its body adds to a live task's
buffer are those of the range that follow the `sent` ones it added already (the buffer having
grown from the range's first byte), and they do not go past the range. -/
def Serves (w : World) (f : Fetch) (bytes : List UInt8) : Prop :=
  ∀ task ∈ w.heap f.task, task.dead = false →
    task.nextByte - f.req.rangeBegin L + bytes.length ≤ f.req.thisChunk ∧
      bytes = ((L.requestedBytes content f.req.fileIndex f.req.fileOffset f.req.thisChunk).drop
        (task.nextByte - f.req.rangeBegin L)).take bytes.length

/-- The events of a peer manager that offers spans of the torrent and of a server that serves the
ranges it is asked for; the other events are not constrained. -/
def Honest (w : World) : Step → Prop
  | .idle spans => SpansInTorrent L spans
  | .bufferGotData f bytes => Serves L content w f bytes
  | .partialDataFetched _ _ spans => SpansInTorrent L spans
  | _ => True

instance (spans : List BlockSpan) : Decidable (SpansInTorrent L spans) :=
  inferInstanceAs (Decidable (∀ s ∈ spans, s.begin < s.end ∧ s.end ≤ L.blockInfo.blockCount))

instance (w : World) (f : Fetch) (bytes : List UInt8) : Decidable (Serves L content w f bytes) :=
  inferInstanceAs (Decidable (∀ task ∈ w.heap f.task, task.dead = false →
    task.nextByte - f.req.rangeBegin L + bytes.length ≤ f.req.thisChunk ∧
      bytes = ((L.requestedBytes content f.req.fileIndex f.req.fileOffset f.req.thisChunk).drop
        (task.nextByte - f.req.rangeBegin L)).take bytes.length))

instance (w : World) : (st : Step) → Decidable (w.Honest L content st)
  | .idle spans => inferInstanceAs (Decidable (SpansInTorrent L spans))
  | .bufferGotData f bytes => inferInstanceAs (Decidable (Serves L content w f bytes))
  | .partialDataFetched _ _ spans => inferInstanceAs (Decidable (SpansInTorrent L spans))
  | .writeBlock | .destroyWebseed | .updateTorrent _ | .removeTorrent | .tick _ => isTrue trivial

/-- Every queued job and every cache entry holds its block's bytes. -/
structure Stored (w : World) : Prop where
  jobs_intact : ∀ job ∈ w.jobs, job.data = blockBytes L.blockInfo content job.block
  cache_intact : ∀ c ∈ w.cache, c.2 = blockBytes L.blockInfo content c.1

/-- Every live task intact; every fetch in flight of a live task asking for a range that starts at
or before the end of its buffer and ends at or after it, at or before `end_byte`; every queued job
and every cache entry holding its block's bytes. -/
structure Intact (w : World) extends Stored L content w : Prop where
  task_intact : ∀ k task, w.heap k = some task → task.dead = false →
    task.Intact L.blockInfo content
  fetch_range : ∀ f ∈ w.fetches, ∀ task, w.heap f.task = some task → task.dead = false →
    f.req.rangeBegin L ≤ task.nextByte ∧ task.nextByte ≤ f.req.rangeEnd L ∧
      f.req.rangeEnd L ≤ task.endByte

end World

/-- The worlds a webseed reaches from its creation through honest events that do not fault. -/
inductive HonestReachable (L : FileLayout) (content : Nat → UInt8) : World → Prop
  | init (now : Nat) (t : TorrentState) : HonestReachable L content (World.init now t)
  | step {w w' : World} {st : Step} : HonestReachable L content w → w.Honest L content st →
      w.step L st = .ok w' → HonestReachable L content w'

/-- Replay a trace, checking `P` of each event in the world where it happens. -/
def traceSatisfies (L : FileLayout) (P : World → Step → Prop) [∀ w st, Decidable (P w st)] :
    World → List Step → Bool
  | _, [] => true
  | w, st :: rest => decide (P w st) &&
    match w.step L st with
    | .ok w' => traceSatisfies L P w' rest
    | .error _ => true

theorem HonestReachable.runSteps {L : FileLayout} :
    ∀ {w w' : World} {trace : List Step}, HonestReachable L content w →
      traceSatisfies L (fun w st => w.Honest L content st) w trace = true →
      LibTransmission.runSteps L w trace = .ok w' →
      HonestReachable L content w'
  | _, _, [], hw, _, h => by cases h; exact hw
  | w, _, st :: rest, hw, hh, h => by
    simp only [traceSatisfies, Bool.and_eq_true, decide_eq_true_eq] at hh
    simp only [LibTransmission.runSteps] at h
    cases hs : w.step L st with
    | error e => rw [hs] at h; cases h
    | ok w₁ =>
      rw [hs] at h hh
      exact HonestReachable.runSteps (hw.step hh.1 hs) hh.2 h

theorem HonestReachable.reachable {L : FileLayout} {w : World} (hw : HonestReachable L content w) :
    Reachable L w := by
  induction hw with
  | init now t => exact .init now t
  | step _ _ hs ih => exact ih.step hs

namespace World

variable {L : FileLayout} {w w' : World}

theorem Serves.bytes {f : Fetch} {bytes : List UInt8} (hs : Serves L content w f bytes)
    {task : Task} (hk : w.heap f.task = some task) (hdead : task.dead = false)
    (hb : f.req.rangeBegin L ≤ task.nextByte) :
    bytes = torrentBytes content task.nextByte bytes.length ∧
      task.nextByte + bytes.length ≤ f.req.rangeEnd L := by
  obtain ⟨hlen, hbytes⟩ := hs task hk hdead
  unfold FetchRequest.rangeEnd
  refine ⟨?_, by omega⟩
  rw [hbytes, show L.requestedBytes content f.req.fileIndex f.req.fileOffset f.req.thisChunk =
    torrentBytes content (f.req.rangeBegin L) f.req.thisChunk from rfl,
    torrentBytes_drop _ _ _ _ (by omega), torrentBytes_take _ _ _ _ (by omega),
    show f.req.rangeBegin L + (task.nextByte - f.req.rangeBegin L) = task.nextByte by omega]
  simp

/-! ## Events that only remove -/

theorem Intact.mono (hi : Intact L content w)
    (hheap : ∀ k task, w'.heap k = some task → task.dead = false → w.heap k = some task)
    (hf : ∀ f ∈ w'.fetches, f ∈ w.fetches) (hj : w'.jobs = w.jobs) (hc : w'.cache = w.cache) :
    Intact L content w' where
  task_intact k task hk hdead := hi.task_intact k task (hheap k task hk hdead) hdead
  fetch_range f hf' task hk hdead := hi.fetch_range f (hf f hf') task (hheap _ task hk hdead) hdead
  jobs_intact := hj ▸ hi.jobs_intact
  cache_intact := hc ▸ hi.cache_intact

theorem Intact.of_frame (hi : Intact L content w) (hheap : w'.heap = w.heap)
    (hf : w'.fetches = w.fetches) (hj : w'.jobs = w.jobs) (hc : w'.cache = w.cache) :
    Intact L content w' :=
  hi.mono (fun _ _ hk _ => hheap ▸ hk) (fun _ hg => hf ▸ hg) hj hc

theorem Intact.finishFetch (hi : Intact L content w) (f : Fetch) (success : Bool) :
    Intact L content (finishFetch w f success) :=
  hi.mono (fun _ _ hk _ => hk) (fun _ hg => List.mem_of_mem_erase hg) rfl rfl

theorem Intact.eraseTask (hi : Intact L content w) (k : Nat) : Intact L content (w.eraseTask k) :=
  hi.mono (fun j task hj _ => by
      by_cases h : j = k
      · simp [World.eraseTask, h] at hj
      · simpa [World.eraseTask, Function.update_noteq h] using hj)
    (fun _ hg => hg) rfl rfl

theorem Stored.writeBlocks (hs : Stored L content w) {drained : List Drained}
    (hd : ∀ d ∈ drained, d.data = blockBytes L.blockInfo content d.block) :
    Stored L content (writeBlocks w drained) := by
  refine ⟨fun job hjob => ?_, hs.cache_intact⟩
  rcases List.mem_append.mp hjob with h | h
  · exact hs.jobs_intact job h
  · obtain ⟨d, hd', rfl⟩ := List.mem_map.mp h
    exact hd d (List.mem_of_mem_filter hd')

/-- `write_block_func` moves the first queued job to the cache, or drops it. -/
theorem Stored.writeBlockFunc (hs : Stored L content w) (h : World.writeBlockFunc w = .ok w') :
    Stored L content w' := by
  rcases writeBlockFunc_cases h with rfl | ⟨job, rest, hjobs, rfl | rfl⟩
  · exact hs
  all_goals
    have hrest : ∀ j ∈ rest, j.data = blockBytes L.blockInfo content j.block := fun j hj =>
      hs.jobs_intact j (by rw [hjobs]; exact List.mem_cons_of_mem _ hj)
  · exact ⟨hrest, hs.cache_intact⟩
  · refine ⟨hrest, fun c hc => ?_⟩
    rcases List.mem_append.mp hc with hc | hc
    · exact hs.cache_intact c hc
    · rw [List.mem_singleton.mp hc]
      exact hs.jobs_intact job (by rw [hjobs]; exact List.mem_cons_self _ _)

theorem Intact.writeBlocks (hi : Intact L content w) {drained : List Drained}
    (hd : ∀ d ∈ drained, d.data = blockBytes L.blockInfo content d.block) :
    Intact L content (writeBlocks w drained) :=
  { hi with toStored := hi.toStored.writeBlocks hd }

/-! ## Events that add -/

theorem Intact.startFetch (hi : Intact L content w) {k : Nat} {task : Task}
    (hk : w.heap k = some task) (hlt : task.nextByte < task.endByte) :
    Intact L content (startFetch L w k task) := by
  refine { hi with toStored := ⟨hi.jobs_intact, hi.cache_intact⟩,
                   fetch_range := fun f hf t ht hdead => ?_ }
  rcases List.mem_append.mp hf with hf | hf
  · exact hi.fetch_range f hf t ht hdead
  · obtain rfl := List.mem_singleton.mp hf
    obtain rfl : t = task := Option.some.inj (ht.symm.trans hk)
    obtain ⟨h1, h2, -⟩ := (hi.task_intact k t hk hdead).request hlt
    refine ⟨h1.le, ?_, h2⟩
    show t.nextByte ≤
      (taskRequestNextChunk L t).rangeBegin L + (taskRequestNextChunk L t).thisChunk
    omega

theorem Intact.requestNextChunk (hi : Intact L content w) {k : Nat} {task : Task}
    (hk : w.heap k = some task) (hlt : task.nextByte < task.endByte)
    (h : World.requestNextChunk L w k task = .ok w') : Intact L content w' := by
  unfold World.requestNextChunk at h
  split at h
  · split at h
    · cases h
    · cases Except.ok.inj h; exact hi.startFetch hk hlt
  · cases Except.ok.inj h; exact hi

theorem Intact.setTask (hi : Intact L content w) {k : Nat} {task : Task}
    (hnone : ∀ f ∈ w.fetches, f.task ≠ k) (ht : task.Intact L.blockInfo content) :
    Intact L content (setTask w k task) := by
  refine { hi with toStored := ⟨hi.jobs_intact, hi.cache_intact⟩,
                   task_intact := fun j t hj hdead => ?_, fetch_range := fun f hf t hj hdead => ?_ }
  all_goals simp only [World.setTask] at hj
  · by_cases h : j = k
    · subst h; simp only [Function.update_same, Option.some.injEq] at hj; exact hj ▸ ht
    · exact hi.task_intact j t (by simpa [Function.update_noteq h] using hj) hdead
  · exact hi.fetch_range f hf t (by simpa [Function.update_noteq (hnone f hf)] using hj) hdead

theorem Intact.foldlM_startTask {spans : List BlockSpan} (hspans : SpansInTorrent L spans) :
    ∀ {w w' : World}, Intact L content w → (∀ f ∈ w.fetches, f.task < w.nextId) →
      w.torrent.isSome → spans.foldlM (startTask L) w = .ok w' → Intact L content w' := by
  induction spans with
  | nil => intro w w' hi _ _ h; cases h; exact hi
  | cons span spans ih =>
    intro w w' hi hlt htor h
    obtain ⟨w₁, h₁, hrest⟩ := foldlM_startTask_cons.mp h
    obtain ⟨hb, he⟩ := hspans span (List.mem_cons_self _ _)
    have hnew : (Task.new L.blockInfo span).Intact L.blockInfo content := Task.Intact.new hb he
    have hw₀ : Intact L content { w with nextId := w.nextId + 1, tasks := w.tasks ++ [w.nextId] } :=
      hi.of_frame rfl rfl rfl rfl
    have hw₁ := (hw₀.setTask (fun f hf => Nat.ne_of_lt (hlt f hf)) hnew).requestNextChunk
      (Function.update_same _ _ _) (Task.nextByte_new_lt hb he) h₁
    obtain ⟨-, rfl⟩ := startTask_ok htor h₁
    refine ih (fun s hs => hspans s (List.mem_cons_of_mem _ hs)) hw₁ (fun f hf => ?_) htor hrest
    rcases List.mem_append.mp hf with hf | hf
    · exact Nat.lt_succ_of_lt (hlt f hf)
    · simp [List.mem_singleton.mp hf]

theorem Intact.onIdle (hi : Intact L content w) (hlt : ∀ f ∈ w.fetches, f.task < w.nextId)
    {spans : List BlockSpan} (hspans : SpansInTorrent L spans) (h : onIdle L w spans = .ok w') :
    Intact L content w' := by
  rcases onIdle_cases h with rfl | ⟨-, hready, h⟩
  · exact hi
  · exact hi.foldlM_startTask (fun s hs => hspans s (List.mem_of_mem_take hs)) hlt
      (torrentReady_isSome hready) h

/-! ## The callbacks of a fetch -/

@[simp] theorem Task.nextByte_append (task : Task) (bytes : List UInt8) :
    (task.append bytes).nextByte = task.nextByte + bytes.length := by
  simp [Task.nextByte, Nat.add_assoc]

theorem Intact.onBufferGotData (hw : Inv w) (hi : Intact L content w) {f : Fetch}
    (hf : f ∈ w.fetches) {bytes : List UInt8} (hs : Serves L content w f bytes)
    (h : World.onBufferGotData w f bytes = .ok w') : Intact L content w' := by
  obtain ⟨task, hk, hcases⟩ := onBufferGotData_cases h
  suffices hset : Intact L content (World.setTask w f.task (task.append bytes)) by
    rcases hcases with rfl | ⟨-, -, -, -, rfl⟩
    · exact hset
    · exact hset.of_frame rfl rfl rfl rfl
  have hupd : ∀ j t, (World.setTask w f.task (task.append bytes)).heap j = some t → j ≠ f.task →
      w.heap j = some t := fun j t hj hne => by
    simpa [World.setTask, Function.update_noteq hne] using hj
  cases hdead : task.dead
  case true =>
    -- a dead task's buffer takes anything
    refine hi.mono (fun j t hj hd => ?_) (fun _ hg => hg) rfl rfl
    by_cases hne : j = f.task
    · subst hne; simp [World.setTask, hdead] at hj; simp [← hj, hdead] at hd
    · exact hupd j t hj hne
  case false =>
    obtain ⟨h1, h2, h3⟩ := hi.fetch_range f hf task hk hdead
    obtain ⟨hbytes, hle⟩ := hs.bytes hk hdead h1
    have ht := (hi.task_intact _ task hk hdead).append hbytes (by omega)
    refine { hi with toStored := ⟨hi.jobs_intact, hi.cache_intact⟩,
                     task_intact := fun j t hj hd => ?_, fetch_range := fun g hg t hj hd => ?_ }
    · by_cases hne : j = f.task
      · subst hne; simp only [World.setTask, Function.update_same, Option.some.injEq] at hj
        exact hj ▸ ht
      · exact hi.task_intact j t (hupd j t hj hne) hd
    · by_cases hne : g.task = f.task
      · obtain rfl := List.inj_on_of_nodup_map hw.fetch_nodup hg hf hne
        simp only [World.setTask, Function.update_same, Option.some.injEq] at hj
        subst hj
        simp only [Task.nextByte_append, Task.append_endByte]
        omega
      · exact hi.fetch_range g hg t (hupd _ t hj hne) hd

theorem Task.onFetched_next {L : FileLayout} {h : Nat → Bool} {success : Bool} {task task' : Task}
    {drained : List Drained} {req : FetchRequest}
    (hon : task.onFetched L h success = .next task' drained req) :
    success = true ∧ task' = (useFetchedBlocks L.blockInfo h task).1 ∧
      drained = (useFetchedBlocks L.blockInfo h task).2 ∧ task'.loc.byte < task.endByte := by
  rcases Task.onFetched_cases L h success task with ⟨-, h'⟩ | ⟨hs, hlt, h'⟩ | ⟨-, -, h'⟩ <;>
    rw [h'] at hon <;> cases hon
  exact ⟨hs, rfl, rfl, hlt⟩

theorem Task.onFetched_retired {L : FileLayout} {h : Nat → Bool} {success : Bool}
    {task task' : Task} {drained : List Drained}
    (hon : task.onFetched L h success = .retired task' drained) :
    success = true ∧ task' = (useFetchedBlocks L.blockInfo h task).1 ∧
      drained = (useFetchedBlocks L.blockInfo h task).2 ∧ task.endByte ≤ task'.loc.byte := by
  rcases Task.onFetched_cases L h success task with ⟨-, h'⟩ | ⟨-, -, h'⟩ | ⟨hs, hge, h'⟩ <;>
    rw [h'] at hon <;> cases hon
  exact ⟨hs, rfl, rfl, hge⟩

theorem Intact.onPartialDataFetched (hw : Inv w) (hi : Intact L content w) {f : Fetch}
    (hf : f ∈ w.fetches) {status : Nat} {spans : List BlockSpan} (hspans : SpansInTorrent L spans)
    (h : World.onPartialDataFetched L w f status spans = .ok w') : Intact L content w' := by
  obtain ⟨hnot, -⟩ := not_mem_map_task_erase hw.fetch_nodup hf
  have hnone : ∀ g ∈ w.fetches.erase f, g.task ≠ f.task := fun g hg he =>
    hnot (he ▸ List.mem_map_of_mem _ hg)
  have hlt : ∀ g ∈ w.fetches.erase f, g.task < w.nextId := fun g hg =>
    hw.alloc_lt (List.mem_of_mem_erase hg)
  unfold World.onPartialDataFetched at h
  split at h
  · cases h
  rename_i task hk
  split at h
  · -- a dead task's fetch frees it
    cases Except.ok.inj h
    refine hi.mono (fun j t hj hd => ?_) (fun _ hg => List.mem_of_mem_erase hg) rfl rfl
    by_cases hne : j = f.task
    · subst hne; simp at hj
    · simpa [Function.update_noteq hne] using hj
  rename_i hdead
  replace hdead : task.dead = false := by simpa using hdead
  split at h
  · cases h
  split at h
  · cases h
  split at h
  · -- the torrent is gone: the task stays with no fetch
    cases Except.ok.inj h
    exact hi.finishFetch f _
  rename_i tor htor
  obtain ⟨ht, -, hdata, -⟩ :=
    useFetchedBlocks_intact tor.hasBlock (hi.task_intact _ task hk hdead)
  split at h
  · -- a failed fetch erases the task
    cases Except.ok.inj h
    refine Intact.eraseTask ?_ f.task
    exact (hi.finishFetch f (status == 206)).of_frame rfl rfl rfl rfl
  · -- the drained blocks go to the cache and the next chunk is asked for
    rename_i task' drained req hon
    split at h
    · cases h
    obtain ⟨-, rfl, rfl, hlt'⟩ := Task.onFetched_next hon
    exact (((hi.finishFetch f (status == 206)).writeBlocks hdata).setTask hnone ht).requestNextChunk
      (Function.update_same _ _ _) ((hi.task_intact _ task hk hdead).nextByte_lt_of_drain hlt') h
  · -- the span is done: the drained blocks go to the cache and `on_idle` runs
    rename_i task' drained hon
    split at h
    · cases h
    obtain ⟨-, -, rfl, -⟩ := Task.onFetched_retired hon
    exact (((hi.finishFetch f _).writeBlocks hdata).eraseTask f.task).onIdle hlt hspans h

/-! ## The session thread and the destructor -/

theorem Intact.writeBlockFunc (hi : Intact L content w) (h : World.writeBlockFunc w = .ok w') :
    Intact L content w' := by
  have hs := hi.toStored.writeBlockFunc h
  rcases writeBlockFunc_cases h with rfl | ⟨job, rest, -, rfl | rfl⟩
  · exact hi
  all_goals exact { hi with toStored := hs }

/-- `~tr_webseed` only flags tasks dead. -/
theorem Intact.destroy (hi : Intact L content w) : Intact L content (World.destroy w) :=
  hi.mono (fun k t hk hd => by
      simp only [World.destroy] at hk
      split_ifs at hk
      · obtain ⟨t', -, rfl⟩ := Option.map_eq_some'.mp hk
        simp at hd
      · exact hk)
    (fun _ hg => hg) rfl rfl

/-! ## Every honest event -/

theorem Intact.step (hw : Inv w) (hi : Intact L content w) {st : Step} (hh : w.Honest L content st)
    (h : w.step L st = .ok w') : Intact L content w' := by
  cases st with
  | idle spans =>
    simp only [World.step] at h
    split at h
    · exact hi.onIdle (fun f hf => hw.alloc_lt hf) hh h
    · cases Except.ok.inj h; exact hi
  | bufferGotData f bytes =>
    simp only [World.step] at h
    split at h
    · exact hi.onBufferGotData hw ‹_› hh h
    · cases Except.ok.inj h; exact hi
  | partialDataFetched f status spans =>
    simp only [World.step] at h
    split at h
    · exact hi.onPartialDataFetched hw ‹_› hh h
    · cases Except.ok.inj h; exact hi
  | writeBlock => exact hi.writeBlockFunc h
  | destroyWebseed =>
    cases Except.ok.inj h
    split
    · exact hi.destroy
    · exact hi
  | updateTorrent t =>
    cases Except.ok.inj h
    split
    · exact hi.of_frame rfl rfl rfl rfl
    · exact hi
  | removeTorrent => cases Except.ok.inj h; exact hi.of_frame rfl rfl rfl rfl
  | tick dt => cases Except.ok.inj h; exact hi.of_frame rfl rfl rfl rfl

end World

theorem HonestReachable.intact {L : FileLayout} {w : World} (hw : HonestReachable L content w) :
    w.Intact L content := by
  induction hw with
  | init now t => exact ⟨⟨by simp [World.init], by simp [World.init]⟩, by simp [World.init],
      by simp [World.init]⟩
  | step hr hh hs ih => exact ih.step hr.reachable.inv hh hs

/-- **No corrupted block reaches the cache.** In every world a webseed reaches through events where
the peer manager offers spans of the torrent and the HTTP server sends, for each fetch, the bytes
of the range it asked for, in order and never past its end: every block written to the cache and
every block queued for it holds the torrent's bytes of that block, and every live task's buffer
holds the torrent's bytes from its cursor on, ending at or before `end_byte`. This holds across
every interleaving of any number of tasks, torrent changes and removal, and the destructor. -/
theorem honest_cache_holds_block_bytes {L : FileLayout} {w : World}
    (hw : HonestReachable L content w) :
    (∀ c ∈ w.cache, c.2 = blockBytes L.blockInfo content c.1) ∧
    (∀ job ∈ w.jobs, job.data = blockBytes L.blockInfo content job.block) ∧
    ∀ k task, w.heap k = some task → task.dead = false →
      task.content = torrentBytes content task.loc.byte task.content.length ∧
        task.loc.byte + task.content.length ≤ task.endByte := by
  have hi := hw.intact
  exact ⟨hi.cache_intact, hi.jobs_intact, fun k task hk hd =>
    ⟨(hi.task_intact k task hk hd).data, (hi.task_intact k task hk hd).next_le⟩⟩

/-! ## What the peer manager is told -/

/-- The blocks of the `GotBlock` events among `events`. -/
def gotBlocks (events : List PeerEvent) : List Nat :=
  events.filterMap fun
    | .gotBlock b => some b
    | _ => none

@[simp] theorem gotBlocks_append (es es' : List PeerEvent) :
    gotBlocks (es ++ es') = gotBlocks es ++ gotBlocks es' := List.filterMap_append _ _ _

@[simp] theorem gotBlocks_gotRejected (blocks : List Nat) :
    gotBlocks (blocks.map PeerEvent.gotRejected) = [] := by
  simp [gotBlocks, List.filterMap_map, Function.comp_def]

namespace World

variable {L : FileLayout} {w w' : World}

/-- The `GotBlock` events published are, in order, the blocks written to the cache. -/
def Announced (w : World) : Prop := gotBlocks w.events = w.cache.map Prod.fst

/-- Only `write_block_func` writes the cache or publishes `GotBlock`, and it does both. -/
theorem Announced.step (ha : w.Announced) {st : Step} (h : w.step L st = .ok w') :
    w'.Announced := by
  unfold Announced at ha ⊢
  cases st with
  | idle spans =>
    simp only [World.step] at h
    split at h
    · obtain ⟨-, -, -, he, hc, -⟩ := onIdle_frame h
      rw [he, hc]; exact ha
    · cases Except.ok.inj h; exact ha
  | bufferGotData f bytes =>
    simp only [World.step] at h
    split at h
    · obtain ⟨task, -, rfl | ⟨-, -, -, -, rfl⟩⟩ := onBufferGotData_cases h
      · exact ha
      · simpa [gotBlocks] using ha
    · cases Except.ok.inj h; exact ha
  | partialDataFetched f status spans =>
    simp only [World.step] at h
    split at h
    · obtain ⟨task, -, ⟨-, rfl⟩ | ⟨-, -, -, ⟨-, rfl⟩ | ⟨-, ⟨blocks, rfl⟩ |
        ⟨task', drained, -, -, -, rfl⟩ | ⟨drained, -, h⟩⟩⟩⟩ := onPartialDataFetched_cases h
      · exact ha
      · exact ha
      · simpa [eraseTask, publishRejection, finishFetch] using ha
      · exact ha
      · obtain ⟨-, -, -, he, hc, -⟩ := onIdle_frame h
        rw [he, hc]; exact ha
    · cases Except.ok.inj h; exact ha
  | writeBlock =>
    rcases writeBlockFunc_cases h with rfl | ⟨job, rest, -, rfl | rfl⟩
    · exact ha
    · exact ha
    · simp [gotBlocks] at ha ⊢; exact ha
  | destroyWebseed | updateTorrent _ =>
    cases Except.ok.inj h
    split <;> exact ha
  | removeTorrent | tick _ => cases Except.ok.inj h; exact ha

end World

theorem Reachable.announced {L : FileLayout} {w : World} (hw : Reachable L w) : w.Announced := by
  induction hw with
  | init now t => rfl
  | step _ hs ih => exact ih.step hs

/-- **Announced blocks are cached blocks.** In every honest run, the blocks of the `GotBlock`
events the webseed has published are, in order, the blocks written to the cache, and each of
them is in the cache with the torrent's bytes of that block: what the peer manager is told it has
is what the cache holds. -/
theorem honest_gotBlock_announces_cached_bytes {L : FileLayout} {w : World}
    (hw : HonestReachable L content w) :
    gotBlocks w.events = w.cache.map Prod.fst ∧
      ∀ b ∈ gotBlocks w.events, (b, blockBytes L.blockInfo content b) ∈ w.cache := by
  have ha : w.Announced := hw.reachable.announced
  refine ⟨ha, fun b hb => ?_⟩
  obtain ⟨c, hc, rfl⟩ := List.mem_map.mp (ha ▸ hb)
  rw [← hw.intact.cache_intact c hc]
  exact hc

/-- The straddling block reaches the cache with bytes `0, 1, 2`, the torrent's bytes being their
offsets. -/
theorem honest_cache_holds_block_bytes_straddling_block :
    ∃ w, runSteps (FileLayout.ofSizes [2, 1]) (World.init 0 ⟨true, false, fun _ => false⟩)
        straddleTrace = .ok w ∧
      HonestReachable (FileLayout.ofSizes [2, 1]) Nat.toUInt8 w ∧ w.cache = [(0, [0, 1, 2])] ∧
      (∀ c ∈ w.cache, c.2 = blockBytes (FileLayout.ofSizes [2, 1]).blockInfo Nat.toUInt8 c.1) ∧
      (∀ job ∈ w.jobs,
        job.data = blockBytes (FileLayout.ofSizes [2, 1]).blockInfo Nat.toUInt8 job.block) ∧
      ∀ k task, w.heap k = some task → task.dead = false →
        task.content = torrentBytes Nat.toUInt8 task.loc.byte task.content.length ∧
          task.loc.byte + task.content.length ≤ task.endByte := by
  have h : (runSteps (FileLayout.ofSizes [2, 1]) (World.init 0 ⟨true, false, fun _ => false⟩)
      straddleTrace).toOption.map (fun w => w.cache == [(0, [0, 1, 2])]) = some true := by
    decide
  obtain ⟨w, hrun, hcache⟩ := runSteps_exists h
  have hw : HonestReachable (FileLayout.ofSizes [2, 1]) Nat.toUInt8 w :=
    (HonestReachable.init 0 _).runSteps (by decide) hrun
  exact ⟨w, hrun, hw, by simpa using hcache, honest_cache_holds_block_bytes hw⟩

/-- On the straddling block, `GotBlock 0` is published once, with block 0 in the cache. -/
theorem honest_gotBlock_announces_cached_bytes_straddling_block :
    ∃ w, runSteps (FileLayout.ofSizes [2, 1]) (World.init 0 ⟨true, false, fun _ => false⟩)
        straddleTrace = .ok w ∧
      HonestReachable (FileLayout.ofSizes [2, 1]) Nat.toUInt8 w ∧ gotBlocks w.events = [0] ∧
      gotBlocks w.events = w.cache.map Prod.fst ∧
      ∀ b ∈ gotBlocks w.events,
        (b, blockBytes (FileLayout.ofSizes [2, 1]).blockInfo Nat.toUInt8 b) ∈ w.cache := by
  have h : (runSteps (FileLayout.ofSizes [2, 1]) (World.init 0 ⟨true, false, fun _ => false⟩)
      straddleTrace).toOption.map (fun w => gotBlocks w.events == [0]) = some true := by
    decide
  obtain ⟨w, hrun, hgot⟩ := runSteps_exists h
  have hw : HonestReachable (FileLayout.ofSizes [2, 1]) Nat.toUInt8 w :=
    (HonestReachable.init 0 _).runSteps (by decide) hrun
  exact ⟨w, hrun, hw, by simpa using hgot, honest_gotBlock_announces_cached_bytes hw⟩

end LibTransmission
