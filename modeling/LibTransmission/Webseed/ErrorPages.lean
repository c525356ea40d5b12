import LibTransmission.Webseed.Integrity

/-!
# Error pages and the task asserts

`onPartialDataFetched` erases a task whose fetch ends with any status but 206 before
`useFetchedBlocks` reads its buffer, so the body of a failed fetch never reaches the cache: only
the 206 answers of the server need to hold what was asked.

* `World.PartialContent`, `World.Answered`, `AnsweredReachable` : a server whose 206 answers carry
  a prefix of the range asked for, error pages holding anything, and a peer manager offering
  spans of the torrent;
* `World.Sound`, `Sound.step` : every fetch of a live task in flight reads into the buffer of an
  intact task, up to the range's first byte, and asks for a range ending at or before its
  `end_byte`; every queued job and cache entry holds its block's bytes;
* `answered_cache_holds_block_bytes` : hence no block with other bytes reaches the cache or its
  queue, whatever the error pages held;
* `Task.Intact.asserts`, `Task.Intact.retireAsserts`, `onIdle_ok` : the `TR_ASSERT`s of
  `useFetchedBlocks`, of a retiring task and of `task_request_next_chunk` hold on the tasks of such
  runs, so `answered_step_faults_only_after_destroy` : an event of such a run faults only after
  the destructor, as the use after free of `write_block_func`.
-/

namespace LibTransmission

open BlockInfo

/-! ## The asserts of one task -/

section

variable {content : Nat → UInt8}

/-- The drain of an intact task keeps its cursor on block boundaries up to `end_byte`. -/
theorem Task.Intact.asserts {bi : BlockInfo} {task : Task} (h : task.Intact bi content) :
    useFetchedBlocksAsserts bi task = true := by
  obtain ⟨⟨j, e, hje, heN, hloc, hend⟩, hnext, -⟩ := h
  exact useFetchedBlocksAsserts_boundary bi (hje.trans heN) hloc
    (by simpa [Task.nextByte, hloc] using hnext) (hend ▸ bi.boundary_le e)

theorem Task.Intact.retireAsserts {bi : BlockInfo} {task : Task} (h : task.Intact bi content)
    (hge : task.endByte ≤ task.loc.byte) : retireAsserts task = true := by
  have := h.next_le
  simp only [Task.nextByte] at this
  simp only [LibTransmission.retireAsserts, Bool.and_eq_true, List.isEmpty_iff, beq_iff_eq]
  exact ⟨List.eq_nil_of_length_eq_zero (by omega), by omega⟩

end

namespace World

variable {L : FileLayout} {w w' : World}

theorem startTask_ok_of_span {span : BlockSpan} (hb : span.begin < span.end)
    (he : span.end ≤ L.blockInfo.blockCount) (w : World) : ∃ w', startTask L w span = .ok w' := by
  have hnew : (Task.new L.blockInfo span).Intact L.blockInfo fun _ => 0 := Task.Intact.new hb he
  have hpos := (hnew.request (Task.nextByte_new_lt hb he)).2.2
  unfold startTask requestNextChunk
  split
  · exact ⟨_, if_neg (Nat.pos_iff_ne_zero.mp hpos)⟩
  · exact ⟨_, rfl⟩

theorem foldlM_startTask_ok {spans : List BlockSpan} (hspans : SpansInTorrent L spans) :
    ∀ w : World, ∃ w', spans.foldlM (startTask L) w = .ok w' := by
  induction spans with
  | nil => exact fun w => ⟨w, rfl⟩
  | cons span rest ih =>
    intro w
    obtain ⟨hb, he⟩ := hspans span (List.mem_cons_self _ _)
    obtain ⟨w₁, h₁⟩ := startTask_ok_of_span hb he w
    obtain ⟨w', h'⟩ := ih (fun s hs => hspans s (List.mem_cons_of_mem _ hs)) w₁
    exact ⟨w', foldlM_startTask_cons.mpr ⟨w₁, h₁, h'⟩⟩

theorem onIdle_ok {spans : List BlockSpan} (hspans : SpansInTorrent L spans) (w : World) :
    ∃ w', onIdle L w spans = .ok w' := by
  unfold onIdle requestBlocks
  split
  · exact ⟨w, rfl⟩
  · split
    · exact foldlM_startTask_ok (fun s hs => hspans s (List.mem_of_mem_take hs)) w
    · exact ⟨w, rfl⟩

/-! ## A server whose 206 answers hold what was asked -/

variable (L) (content : Nat → UInt8)

/-- A 206 answer to fetch `f` carries a prefix of the range asked for: what its body added to a
live task's buffer, from the range's first byte on. -/
def PartialContent (w : World) (f : Fetch) (status : Nat) : Prop :=
  status = 206 → ∀ task ∈ w.heap f.task, task.dead = false →
    task.content.drop (f.req.rangeBegin L - task.loc.byte) <+:
      L.requestedBytes content f.req.fileIndex f.req.fileOffset f.req.thisChunk

/-- The events of a peer manager that offers spans of the torrent and of a server whose 206
answers carry what was asked; the bytes of a body and the other events are not constrained. -/
def Answered (w : World) : Step → Prop
  | .idle spans => SpansInTorrent L spans
  | .partialDataFetched f status spans =>
    PartialContent L content w f status ∧ SpansInTorrent L spans
  | _ => True

instance (w : World) (f : Fetch) (status : Nat) : Decidable (PartialContent L content w f status) :=
  inferInstanceAs (Decidable (status = 206 → ∀ task ∈ w.heap f.task, task.dead = false →
    task.content.drop (f.req.rangeBegin L - task.loc.byte) <+:
      L.requestedBytes content f.req.fileIndex f.req.fileOffset f.req.thisChunk))

instance (w : World) : (st : Step) → Decidable (w.Answered L content st)
  | .idle spans => inferInstanceAs (Decidable (SpansInTorrent L spans))
  | .partialDataFetched f status spans =>
    inferInstanceAs (Decidable (PartialContent L content w f status ∧ SpansInTorrent L spans))
  | .bufferGotData _ _ | .writeBlock | .destroyWebseed | .updateTorrent _ | .removeTorrent
  | .tick _ => isTrue trivial

/-- Every fetch in flight of a live task reads into a buffer that, up to the range's first byte,
is an intact task's, and asks for a range ending at or before its `end_byte`; every queued job
and every cache entry holds its block's bytes. -/
structure Sound (w : World) extends Stored L content w : Prop where
  fetch_sound : ∀ f ∈ w.fetches, ∀ task, w.heap f.task = some task → task.dead = false →
    ∃ (base : Task) (post : List UInt8), task = base.append post ∧ base.Intact L.blockInfo content ∧
      base.nextByte = f.req.rangeBegin L ∧ f.req.rangeEnd L ≤ base.endByte

end World

variable {content : Nat → UInt8}

/-- The worlds a webseed reaches from its creation through answered events that do not fault. -/
inductive AnsweredReachable (L : FileLayout) (content : Nat → UInt8) : World → Prop
  | init (now : Nat) (t : TorrentState) : AnsweredReachable L content (World.init now t)
  | step {w w' : World} {st : Step} : AnsweredReachable L content w → w.Answered L content st →
      w.step L st = .ok w' → AnsweredReachable L content w'

theorem AnsweredReachable.runSteps {L : FileLayout} :
    ∀ {w w' : World} {trace : List Step}, AnsweredReachable L content w →
      traceSatisfies L (fun w st => w.Answered L content st) w trace = true →
      LibTransmission.runSteps L w trace = .ok w' → AnsweredReachable L content w'
  | _, _, [], hw, _, h => by cases h; exact hw
  | w, _, st :: rest, hw, hh, h => by
    simp only [traceSatisfies, Bool.and_eq_true, decide_eq_true_eq] at hh
    simp only [LibTransmission.runSteps] at h
    cases hs : w.step L st with
    | error e => rw [hs] at h; cases h
    | ok w₁ =>
      rw [hs] at h hh
      exact AnsweredReachable.runSteps (hw.step hh.1 hs) hh.2 h

theorem AnsweredReachable.reachable {L : FileLayout} {w : World}
    (hw : AnsweredReachable L content w) : Reachable L w := by
  induction hw with
  | init now t => exact .init now t
  | step _ _ hs ih => exact ih.step hs

namespace World

variable {L : FileLayout} {w w' : World}

/-! ## Events that only remove -/

theorem Sound.mono (hs : Sound L content w)
    (hheap : ∀ k task, w'.heap k = some task → task.dead = false → w.heap k = some task)
    (hf : ∀ f ∈ w'.fetches, f ∈ w.fetches) (hj : w'.jobs = w.jobs) (hc : w'.cache = w.cache) :
    Sound L content w' where
  fetch_sound f hf' task hk hdead := hs.fetch_sound f (hf f hf') task (hheap _ task hk hdead) hdead
  jobs_intact := hj ▸ hs.jobs_intact
  cache_intact := hc ▸ hs.cache_intact

theorem Sound.of_frame (hs : Sound L content w) (hheap : w'.heap = w.heap)
    (hf : w'.fetches = w.fetches) (hj : w'.jobs = w.jobs) (hc : w'.cache = w.cache) :
    Sound L content w' :=
  hs.mono (fun _ _ hk _ => hheap ▸ hk) (fun _ hg => hf ▸ hg) hj hc

theorem Sound.finishFetch (hs : Sound L content w) (f : Fetch) (success : Bool) :
    Sound L content (finishFetch w f success) :=
  hs.mono (fun _ _ hk _ => hk) (fun _ hg => List.mem_of_mem_erase hg) rfl rfl

theorem Sound.eraseTask (hs : Sound L content w) (k : Nat) : Sound L content (w.eraseTask k) :=
  hs.mono (fun j task hj _ => by
      by_cases h : j = k
      · simp [World.eraseTask, h] at hj
      · simpa [World.eraseTask, Function.update_noteq h] using hj)
    (fun _ hg => hg) rfl rfl

theorem Sound.writeBlocks (hs : Sound L content w) {drained : List Drained}
    (hd : ∀ d ∈ drained, d.data = blockBytes L.blockInfo content d.block) :
    Sound L content (writeBlocks w drained) :=
  { hs with toStored := hs.toStored.writeBlocks hd }

theorem Sound.setTask (hs : Sound L content w) {k : Nat} {task : Task}
    (hnone : ∀ f ∈ w.fetches, f.task ≠ k) : Sound L content (setTask w k task) where
  fetch_sound f hf t hj hdead := hs.fetch_sound f hf t
    (by simpa [World.setTask, Function.update_noteq (hnone f hf)] using hj) hdead
  jobs_intact := hs.jobs_intact
  cache_intact := hs.cache_intact

/-! ## Events that add -/

theorem Sound.startFetch (hs : Sound L content w) {k : Nat} {task : Task}
    (hk : w.heap k = some task) (ht : task.Intact L.blockInfo content)
    (hlt : task.nextByte < task.endByte) : Sound L content (startFetch L w k task) := by
  refine { hs with toStored := ⟨hs.jobs_intact, hs.cache_intact⟩,
                   fetch_sound := fun f hf t hft hdead => ?_ }
  rcases List.mem_append.mp hf with hf | hf
  · exact hs.fetch_sound f hf t hft hdead
  · obtain rfl := List.mem_singleton.mp hf
    obtain rfl : t = task := Option.some.inj (hft.symm.trans hk)
    obtain ⟨h1, h2, -⟩ := ht.request hlt
    exact ⟨t, [], (Task.append_nil t).symm, ht, h1.symm, h2⟩

theorem Sound.requestNextChunk (hs : Sound L content w) {k : Nat} {task : Task}
    (hk : w.heap k = some task) (ht : task.Intact L.blockInfo content)
    (hlt : task.nextByte < task.endByte) (h : World.requestNextChunk L w k task = .ok w') :
    Sound L content w' := by
  unfold World.requestNextChunk at h
  split at h
  · split at h
    · cases h
    · cases Except.ok.inj h; exact hs.startFetch hk ht hlt
  · cases Except.ok.inj h; exact hs

theorem Sound.foldlM_startTask {spans : List BlockSpan} (hspans : SpansInTorrent L spans) :
    ∀ {w w' : World}, Sound L content w → (∀ f ∈ w.fetches, f.task < w.nextId) →
      w.torrent.isSome → spans.foldlM (startTask L) w = .ok w' → Sound L content w' := by
  induction spans with
  | nil => intro w w' hs _ _ h; cases h; exact hs
  | cons span spans ih =>
    intro w w' hs hlt htor h
    obtain ⟨w₁, h₁, hrest⟩ := foldlM_startTask_cons.mp h
    obtain ⟨hb, he⟩ := hspans span (List.mem_cons_self _ _)
    have hw₀ : Sound L content { w with nextId := w.nextId + 1, tasks := w.tasks ++ [w.nextId] } :=
      hs.of_frame rfl rfl rfl rfl
    have hw₁ := (hw₀.setTask fun f hf => Nat.ne_of_lt (hlt f hf)).requestNextChunk
      (Function.update_same _ _ _) (Task.Intact.new hb he) (Task.nextByte_new_lt hb he) h₁
    obtain ⟨-, rfl⟩ := startTask_ok htor h₁
    refine ih (fun s hs => hspans s (List.mem_cons_of_mem _ hs)) hw₁ (fun f hf => ?_) htor hrest
    rcases List.mem_append.mp hf with hf | hf
    · exact Nat.lt_succ_of_lt (hlt f hf)
    · simp [List.mem_singleton.mp hf]

theorem Sound.onIdle (hs : Sound L content w) (hlt : ∀ f ∈ w.fetches, f.task < w.nextId)
    {spans : List BlockSpan} (hspans : SpansInTorrent L spans) (h : onIdle L w spans = .ok w') :
    Sound L content w' := by
  rcases onIdle_cases h with rfl | ⟨-, hready, h⟩
  · exact hs
  · exact hs.foldlM_startTask (fun s hs => hspans s (List.mem_of_mem_take hs)) hlt
      (torrentReady_isSome hready) h

/-! ## The callbacks of a fetch -/

/-- Any bytes may reach a buffer: they follow the range's first byte. -/
theorem Sound.onBufferGotData (hw : Inv w) (hs : Sound L content w) {f : Fetch}
    (hf : f ∈ w.fetches) {bytes : List UInt8} (h : World.onBufferGotData w f bytes = .ok w') :
    Sound L content w' := by
  obtain ⟨task, hk, hcases⟩ := onBufferGotData_cases h
  suffices hset : Sound L content (World.setTask w f.task (task.append bytes)) by
    rcases hcases with rfl | ⟨-, -, -, -, rfl⟩
    · exact hset
    · exact hset.of_frame rfl rfl rfl rfl
  refine { hs with toStored := ⟨hs.jobs_intact, hs.cache_intact⟩,
                   fetch_sound := fun g hg t hj hd => ?_ }
  by_cases hne : g.task = f.task
  · obtain rfl := List.inj_on_of_nodup_map hw.fetch_nodup hg hf hne
    simp only [World.setTask, Function.update_same, Option.some.injEq] at hj
    subst hj
    obtain ⟨base, post, rfl, hb, hn, he⟩ := hs.fetch_sound g hf task hk (by simpa using hd)
    exact ⟨base, post ++ bytes, Task.append_append _ _ _, hb, hn, he⟩
  · exact hs.fetch_sound g hg t (by simpa [World.setTask, Function.update_noteq hne] using hj) hd

/-- A 206 answer that holds what was asked leaves the fetch's task intact. -/
theorem Sound.task_intact (hs : Sound L content w) {f : Fetch} (hf : f ∈ w.fetches) {task : Task}
    (hk : w.heap f.task = some task) (hdead : task.dead = false)
    (hp : task.content.drop (f.req.rangeBegin L - task.loc.byte) <+:
      L.requestedBytes content f.req.fileIndex f.req.fileOffset f.req.thisChunk) :
    task.Intact L.blockInfo content := by
  obtain ⟨base, post, rfl, hb, hn, he⟩ := hs.fetch_sound f hf task hk hdead
  rw [← hn] at hp
  simp only [Task.nextByte, Task.append_content, Task.append_loc, Nat.add_sub_cancel_left,
    List.drop_left] at hp
  obtain ⟨hbytes, hlen⟩ := TaskLog.body_eq_torrentBytes hp
  simp only [FetchRequest.rangeEnd] at he
  exact hb.append (by rw [hn]; exact hbytes) (by omega)

theorem Sound.onPartialDataFetched (hw : Inv w) (hs : Sound L content w) {f : Fetch}
    (hf : f ∈ w.fetches) {status : Nat} (hp : PartialContent L content w f status)
    {spans : List BlockSpan} (hspans : SpansInTorrent L spans)
    (h : World.onPartialDataFetched L w f status spans = .ok w') : Sound L content w' := by
  obtain ⟨hnot, -⟩ := not_mem_map_task_erase hw.fetch_nodup hf
  have hnone : ∀ g ∈ w.fetches.erase f, g.task ≠ f.task := fun g hg he =>
    hnot (he ▸ List.mem_map_of_mem _ hg)
  have hlt : ∀ g ∈ w.fetches.erase f, g.task < w.nextId := fun g hg =>
    hw.alloc_lt (List.mem_of_mem_erase hg)
  unfold World.onPartialDataFetched at h
  split at h
  · cases h
  rename_i task hk
  split at h
  · -- a dead task's fetch frees it
    cases Except.ok.inj h
    refine hs.mono (fun j t hj hd => ?_) (fun _ hg => List.mem_of_mem_erase hg) rfl rfl
    by_cases hne : j = f.task
    · subst hne; simp at hj
    · simpa [Function.update_noteq hne] using hj
  rename_i hdead
  replace hdead : task.dead = false := by simpa using hdead
  split at h
  · cases h
  split at h
  · cases h
  split at h
  · -- the torrent is gone: the task stays with no fetch
    cases Except.ok.inj h
    exact hs.finishFetch f _
  rename_i tor htor
  split at h
  · -- a failed fetch erases the task, whatever its buffer holds
    cases Except.ok.inj h
    refine Sound.eraseTask ?_ f.task
    exact (hs.finishFetch f (status == 206)).of_frame rfl rfl rfl rfl
  · -- a 206 answer: the drained blocks go to the cache and the next chunk is asked for
    rename_i task' drained req hon
    split at h
    · cases h
    obtain ⟨hsucc, rfl, rfl, hlt'⟩ := Task.onFetched_next hon
    have ht := hs.task_intact hf hk hdead (hp (by simpa using hsucc) task hk hdead)
    obtain ⟨ht', -, hdata, -⟩ := useFetchedBlocks_intact tor.hasBlock ht
    exact (((hs.finishFetch f _).writeBlocks hdata).setTask hnone).requestNextChunk
      (Function.update_same _ _ _) ht' (ht.nextByte_lt_of_drain hlt') h
  · -- the span is done: the drained blocks go to the cache and `on_idle` runs
    rename_i task' drained hon
    split at h
    · cases h
    obtain ⟨hsucc, -, rfl, -⟩ := Task.onFetched_retired hon
    have ht := hs.task_intact hf hk hdead (hp (by simpa using hsucc) task hk hdead)
    exact (((hs.finishFetch f _).writeBlocks (useFetchedBlocks_intact tor.hasBlock ht).2.2.1
      ).eraseTask f.task).onIdle hlt hspans h

/-! ## Every answered event -/

theorem Sound.step (hw : Inv w) (hs : Sound L content w) {st : Step}
    (hh : w.Answered L content st) (h : w.step L st = .ok w') : Sound L content w' := by
  cases st with
  | idle spans =>
    simp only [World.step] at h
    split at h
    · exact hs.onIdle (fun f hf => hw.alloc_lt hf) hh h
    · cases Except.ok.inj h; exact hs
  | bufferGotData f bytes =>
    simp only [World.step] at h
    split at h
    · exact hs.onBufferGotData hw ‹_› h
    · cases Except.ok.inj h; exact hs
  | partialDataFetched f status spans =>
    simp only [World.step] at h
    split at h
    · exact hs.onPartialDataFetched hw ‹_› hh.1 hh.2 h
    · cases Except.ok.inj h; exact hs
  | writeBlock =>
    have hst := hs.toStored.writeBlockFunc h
    rcases writeBlockFunc_cases h with rfl | ⟨job, rest, -, rfl | rfl⟩
    · exact hs
    all_goals exact { hs with toStored := hst }
  | destroyWebseed =>
    cases Except.ok.inj h
    split
    · exact hs.mono (fun k t hk hd => by
          simp only [World.destroy] at hk
          split_ifs at hk
          · obtain ⟨t', -, rfl⟩ := Option.map_eq_some'.mp hk
            simp at hd
          · exact hk)
        (fun _ hg => hg) rfl rfl
    · exact hs
  | updateTorrent t =>
    cases Except.ok.inj h
    split
    · exact hs.of_frame rfl rfl rfl rfl
    · exact hs
  | removeTorrent | tick _ => cases Except.ok.inj h; exact hs.of_frame rfl rfl rfl rfl

/-! ## Faults -/

/-- A use after free comes only after the destructor: a fetch in flight always has its task. -/
theorem Inv.useAfterFree (hw : Inv w) {st : Step} (h : w.step L st = .error .useAfterFree) :
    w.alive = false := by
  cases st with
  | idle spans =>
    simp only [World.step] at h
    split at h
    · exact absurd (onIdle_error h) (by decide)
    · cases h
  | bufferGotData f bytes =>
    simp only [World.step] at h
    split at h
    · rename_i hf
      obtain ⟨task, hk⟩ := Option.isSome_iff_exists.mp (hw.fetch_alloc f hf)
      simp only [World.onBufferGotData, hk, World.gotPieceData] at h
      split_ifs at h with h₁ h₂ <;> first | (cases h; done) | simpa [World.setTask] using h₂
    · cases h
  | partialDataFetched f status spans =>
    simp only [World.step] at h
    split at h
    · rename_i hf
      obtain ⟨task, hk⟩ := Option.isSome_iff_exists.mp (hw.fetch_alloc f hf)
      simp only [World.onPartialDataFetched, hk] at h
      split at h
      · cases h
      split at h
      · rename_i halive; simpa using halive
      repeat' split at h
      all_goals first
        | cases h
        | exact absurd (requestNextChunk_error h) (by decide)
        | exact absurd (onIdle_error h) (by decide)
    · cases h
  | writeBlock =>
    simp only [World.step, World.writeBlockFunc] at h
    split at h
    · cases h
    · split_ifs at h with h₁ h₂
      simpa using h₂
  | destroyWebseed | updateTorrent _ | removeTorrent | tick _ => cases h

theorem Sound.step_ne_taskAssertionFailed (hs : Sound L content w) {st : Step}
    (hh : w.Answered L content st) : w.step L st ≠ .error .taskAssertionFailed := by
  intro h
  cases st with
  | idle spans =>
    simp only [World.step] at h
    split at h
    · obtain ⟨w', h'⟩ := onIdle_ok hh w
      rw [h'] at h; cases h
    · cases h
  | bufferGotData f bytes =>
    simp only [World.step] at h
    split at h
    · simp only [World.onBufferGotData, World.gotPieceData] at h
      split at h
      · cases h
      · split_ifs at h <;> cases h
    · cases h
  | partialDataFetched f status spans =>
    obtain ⟨hp, hspans⟩ := hh
    simp only [World.step] at h
    split at h
    swap
    · cases h
    rename_i hf
    unfold World.onPartialDataFetched at h
    split at h
    · cases h
    rename_i task hk
    split at h
    · cases h
    rename_i hdead
    replace hdead : task.dead = false := by simpa using hdead
    split at h
    · cases h
    split at h
    · cases h
    split at h
    · cases h
    rename_i tor htor
    have ht : status = 206 → task.Intact L.blockInfo content := fun h206 =>
      hs.task_intact hf hk hdead (hp h206 task hk hdead)
    split at h
    · cases h
    · -- the drain and the next request pass their asserts
      rename_i task' drained req hon
      obtain ⟨hsucc, rfl, rfl, hlt'⟩ := Task.onFetched_next hon
      have ht := ht (by simpa using hsucc)
      have hpos := ((useFetchedBlocks_intact tor.hasBlock ht).1.request
        (ht.nextByte_lt_of_drain hlt')).2.2
      simp only [ht.asserts, Bool.not_true, Bool.false_eq_true, if_false, World.requestNextChunk,
        Nat.pos_iff_ne_zero.mp hpos] at h
      split at h <;> cases h
    · -- the drain and the retirement pass their asserts, and `on_idle` its own
      rename_i task' drained hon
      obtain ⟨hsucc, rfl, rfl, hge⟩ := Task.onFetched_retired hon
      have ht := ht (by simpa using hsucc)
      have ht' := (useFetchedBlocks_intact tor.hasBlock ht).1
      simp only [ht.asserts, ht'.retireAsserts (by rwa [useFetchedBlocks_endByte]), Bool.and_self,
        Bool.not_true, Bool.false_eq_true, if_false] at h
      obtain ⟨w', h'⟩ := onIdle_ok hspans (((w.finishFetch f (status == 206)).writeBlocks
        (useFetchedBlocks L.blockInfo tor.hasBlock task).2).eraseTask f.task)
      rw [h'] at h; cases h
  | writeBlock =>
    simp only [World.step, World.writeBlockFunc] at h
    split at h
    · cases h
    · split_ifs at h
      cases h
  | destroyWebseed | updateTorrent _ | removeTorrent | tick _ => cases h

end World

theorem AnsweredReachable.sound {L : FileLayout} {w : World}
    (hw : AnsweredReachable L content w) : w.Sound L content := by
  induction hw with
  | init now t => exact ⟨⟨by simp [World.init], by simp [World.init]⟩, by simp [World.init]⟩
  | step hr hh hs ih => exact ih.step hr.reachable.inv hh hs

/-- **Error pages never reach the cache.** In every world a webseed reaches through events where
the peer manager offers spans of the torrent and every 206 answer of the server carries a prefix
of the range it was asked for, whatever the bodies of the failed fetches held: every block
written to the cache and every block queued for it holds the torrent's bytes of that block. -/
theorem answered_cache_holds_block_bytes {L : FileLayout} {w : World}
    (hw : AnsweredReachable L content w) :
    (∀ c ∈ w.cache, c.2 = blockBytes L.blockInfo content c.1) ∧
    (∀ job ∈ w.jobs, job.data = blockBytes L.blockInfo content job.block) :=
  ⟨hw.sound.cache_intact, hw.sound.jobs_intact⟩

/-- A one-byte torrent whose server first answers with 404 and an error page of the wrong byte,
then with 206 and the right one: the block reaches the cache with the right byte. -/
def errorPageTrace : List Step :=
  [.idle [⟨0, 1⟩], .bufferGotData ⟨0, ⟨0, 0, 1⟩⟩ [7], .partialDataFetched ⟨0, ⟨0, 0, 1⟩⟩ 404 [],
    .idle [⟨0, 1⟩], .bufferGotData ⟨1, ⟨0, 0, 1⟩⟩ [0], .partialDataFetched ⟨1, ⟨0, 0, 1⟩⟩ 206 [],
    .writeBlock]

theorem answered_cache_holds_block_bytes_after_error_page :
    ∃ w, runSteps (FileLayout.ofSizes [1]) (World.init 0 ⟨true, false, fun _ => false⟩)
        errorPageTrace = .ok w ∧
      AnsweredReachable (FileLayout.ofSizes [1]) Nat.toUInt8 w ∧ w.cache = [(0, [0])] ∧
      (∀ c ∈ w.cache, c.2 = blockBytes (FileLayout.ofSizes [1]).blockInfo Nat.toUInt8 c.1) ∧
      (∀ job ∈ w.jobs,
        job.data = blockBytes (FileLayout.ofSizes [1]).blockInfo Nat.toUInt8 job.block) := by
  have h : (runSteps (FileLayout.ofSizes [1]) (World.init 0 ⟨true, false, fun _ => false⟩)
      errorPageTrace).toOption.map (fun w => w.cache == [(0, [0])]) = some true := by
    decide
  obtain ⟨w, hrun, hcache⟩ := runSteps_exists h
  have hw : AnsweredReachable (FileLayout.ofSizes [1]) Nat.toUInt8 w :=
    (AnsweredReachable.init 0 _).runSteps (by decide) hrun
  exact ⟨w, hrun, hw, by simpa using hcache, answered_cache_holds_block_bytes hw⟩

/-- **Faults come only after the destructor.** In every world a webseed reaches through answered
events, the next answered event faults only when the webseed has been destroyed, and then only as
a use after free: the `TR_ASSERT`s of the drain, of a retiring task and of the requests, and the
limiter's, all hold. -/
theorem answered_step_faults_only_after_destroy {L : FileLayout} {w : World}
    (hw : AnsweredReachable L content w) {st : Step} (hh : w.Answered L content st) {e : Fault}
    (h : w.step L st = .error e) : e = .useAfterFree ∧ w.alive = false := by
  have hinv := hw.reachable.inv
  cases e with
  | useAfterFree => exact ⟨rfl, hinv.useAfterFree h⟩
  | assertionFailed => exact absurd h (hinv.step_ne_assertionFailed st)
  | taskAssertionFailed => exact absurd h (hw.sound.step_ne_taskAssertionFailed hh)

/-- The block is handed off, the webseed destroyed, and the queued job then run: the one fault. -/
theorem answered_step_faults_only_after_destroy_queued_write :
    ∃ w, runSteps (FileLayout.ofSizes [1]) (World.init 0 ⟨true, false, fun _ => false⟩)
        [.idle [⟨0, 1⟩], .bufferGotData ⟨0, ⟨0, 0, 1⟩⟩ [0],
          .partialDataFetched ⟨0, ⟨0, 0, 1⟩⟩ 206 [], .destroyWebseed] = .ok w ∧
      AnsweredReachable (FileLayout.ofSizes [1]) Nat.toUInt8 w ∧
      w.step (FileLayout.ofSizes [1]) .writeBlock = .error .useAfterFree ∧ w.alive = false := by
  have h : (runSteps (FileLayout.ofSizes [1]) (World.init 0 ⟨true, false, fun _ => false⟩)
      [.idle [⟨0, 1⟩], .bufferGotData ⟨0, ⟨0, 0, 1⟩⟩ [0],
        .partialDataFetched ⟨0, ⟨0, 0, 1⟩⟩ 206 [], .destroyWebseed]).toOption.map
      (fun w => w.step (FileLayout.ofSizes [1]) .writeBlock matches .error .useAfterFree) =
        some true := by
    decide
  obtain ⟨w, hrun, hstep⟩ := runSteps_exists h
  have hw : AnsweredReachable (FileLayout.ofSizes [1]) Nat.toUInt8 w :=
    (AnsweredReachable.init 0 _).runSteps (by decide) hrun
  have hstep : w.step (FileLayout.ofSizes [1]) .writeBlock = .error .useAfterFree := by
    revert hstep; split <;> simp_all
  exact ⟨w, hrun, hw, hstep,
    (answered_step_faults_only_after_destroy hw
      (show w.Answered (FileLayout.ofSizes [1]) Nat.toUInt8 .writeBlock from trivial) hstep).2⟩

/-- The overlong 206 answer of `run_overlong_reply`, in the session: its drain fails the assert
on the cursor. -/
example : runSteps (FileLayout.ofSizes [3]) (World.init 0 ⟨true, false, fun _ => false⟩)
    [.idle [⟨0, 1⟩], .bufferGotData ⟨0, ⟨0, 0, 3⟩⟩ [1, 2, 3, 4, 5, 6],
      .partialDataFetched ⟨0, ⟨0, 0, 3⟩⟩ 206 []] matches .error .taskAssertionFailed := by
  decide

end LibTransmission
