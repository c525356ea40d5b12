import LibTransmission.Webseed.Session

/-!
# The fetch accounting of a webseed

Over every interleaving of idle ticks, buffer callbacks, completions with any status and body,
queued jobs, torrent changes and removal, and the webseed's destruction:

* `World.Inv` : every fetch in flight writes into an allocated task, no task has two, the set
  holds exactly the live tasks while the webseed lives, every live task has a fetch in flight
  while the torrent is there, and the limiter's `n_tasks` counts the fetches of live tasks, at
  most `MaxConnections` of them;
* `Inv.startTask`, `Inv.onIdle`, `Inv.onBufferGotData`, `Inv.onPartialDataFetched`, `Inv.step` :
  each event keeps it, and `Inv.reachable` : every reachable world has it;
* `reachable_fetch_accounting` : hence the `TR_ASSERT(n_tasks > 0)` of `taskFinished`,
  `taskFailed` and `gotData` never fails.
-/

namespace LibTransmission

namespace World

variable {L : FileLayout}

/-! ## Fetch lists -/

theorem countP_eq_countP_erase_add {α : Type} [DecidableEq α] {p : α → Bool} {a : α} {l : List α}
    (h : a ∈ l) : l.countP p = (l.erase a).countP p + if p a then 1 else 0 := by
  rw [(List.perm_cons_erase h).countP_eq, List.countP_cons]

theorem not_mem_map_task_erase {fs : List Fetch} {f : Fetch} (hnd : (fs.map Fetch.task).Nodup)
    (hf : f ∈ fs) :
    f.task ∉ (fs.erase f).map Fetch.task ∧ ((fs.erase f).map Fetch.task).Nodup :=
  List.nodup_cons.mp (((List.perm_cons_erase hf).map Fetch.task).nodup_iff.mp hnd)

theorem mem_map_task_erase {fs : List Fetch} {f : Fetch} {k : Nat}
    (hk : k ∈ fs.map Fetch.task) (hne : k ≠ f.task) : k ∈ (fs.erase f).map Fetch.task := by
  obtain ⟨g, hg, rfl⟩ := List.mem_map.mp hk
  exact List.mem_map_of_mem _ ((List.mem_erase_of_ne fun h => hne (congrArg Fetch.task h)).mpr hg)

theorem countP_update_of_not_mem {fs : List Fetch} {heap : Nat → Option Task} {k : Nat}
    (v : Option Task) (hk : k ∉ fs.map Fetch.task) :
    fs.countP (fun f => liveIn (Function.update heap k v) f.task) =
      fs.countP (fun f => liveIn heap f.task) :=
  List.countP_congr fun f hf => by
    have : f.task ≠ k := fun h => hk (h ▸ List.mem_map_of_mem _ hf)
    simp [this]

/-! ## The invariant -/

/-- What holds of every reachable world. -/
structure Inv (w : World) : Prop where
  /-- Every fetch in flight writes into an allocated task. -/
  fetch_alloc : ∀ f ∈ w.fetches, (w.heap f.task).isSome
  /-- No task has two fetches in flight. -/
  fetch_nodup : (w.fetches.map Fetch.task).Nodup
  fresh : ∀ k, w.nextId ≤ k → w.heap k = none
  tasks_nodup : w.tasks.Nodup
  /-- While the webseed lives, its set holds exactly the live tasks. -/
  tasks_live : w.alive = true → ∀ k, k ∈ w.tasks ↔ liveIn w.heap k = true
  /-- Once it is destroyed, every task left is dead. -/
  dead_all : w.alive = false → ∀ k, liveIn w.heap k = false
  /-- While the torrent is there, every live task has a fetch in flight. -/
  in_flight : w.torrent.isSome → ∀ k, liveIn w.heap k = true → k ∈ w.fetches.map Fetch.task
  /-- `n_tasks` counts the fetches in flight of live tasks. -/
  n_tasks : w.alive = true → w.limiter.nTasks = w.liveCount
  n_tasks_le : w.liveCount ≤ ConnectionLimiter.MaxConnections

theorem Inv.init (now : Nat) (t : TorrentState) : Inv (init now t) where
  fetch_alloc := by simp [World.init]
  fetch_nodup := by simp [World.init]
  fresh := by simp [World.init]
  tasks_nodup := by simp [World.init]
  tasks_live := by simp [World.init, liveIn]
  dead_all := by simp [World.init]
  in_flight := by simp [World.init, liveIn]
  n_tasks := by simp [World.init, liveCount]
  n_tasks_le := by simp [World.init, liveCount]

variable {w w' : World}

theorem Inv.alloc_lt (hw : Inv w) {f : Fetch} (hf : f ∈ w.fetches) : f.task < w.nextId := by
  by_contra h
  have := hw.fetch_alloc f hf
  rw [hw.fresh _ (Nat.le_of_not_lt h)] at this
  cases this

theorem liveCount_pos {f : Fetch} (hf : f ∈ w.fetches) (hlive : liveIn w.heap f.task = true) :
    0 < w.liveCount :=
  List.countP_pos_iff.mpr ⟨f, hf, hlive⟩

theorem Inv.of_frame (hw : Inv w) (hlive : ∀ k, liveIn w'.heap k = liveIn w.heap k)
    (halloc : ∀ k, (w'.heap k).isSome = (w.heap k).isSome) (hf : w'.fetches = w.fetches)
    (hn : w'.nextId = w.nextId) (ht : w'.tasks = w.tasks) (ha : w'.alive = w.alive)
    (htor : w'.torrent.isSome → w.torrent.isSome) (hnt : w'.limiter.nTasks = w.limiter.nTasks) :
    Inv w' := by
  have hcount : w'.liveCount = w.liveCount := by
    simp only [liveCount, hf, hlive]
  refine ⟨fun f h => ?_, hf ▸ hw.fetch_nodup, fun k hk => ?_, ht ▸ hw.tasks_nodup,
    fun h k => ?_, fun h k => ?_, fun h k hk => ?_, fun h => ?_, hcount ▸ hw.n_tasks_le⟩
  · rw [halloc]; exact hw.fetch_alloc f (hf ▸ h)
  · have := halloc k
    rw [hw.fresh k (hn ▸ hk)] at this
    exact Option.not_isSome_iff_eq_none.mp (by simpa using this)
  · rw [ht, hlive]; exact hw.tasks_live (ha ▸ h) k
  · rw [hlive]; exact hw.dead_all (ha ▸ h) k
  · rw [hf]; exact hw.in_flight (htor h) k (hlive k ▸ hk)
  · rw [hnt, hcount]; exact hw.n_tasks (ha ▸ h)

theorem Inv.setTask (hw : Inv w) {k : Nat} {t t' : Task} (hk : w.heap k = some t)
    (hdead : t'.dead = t.dead) : Inv (World.setTask w k t') := by
  refine hw.of_frame (fun j => ?_) (fun j => ?_) rfl rfl rfl rfl id rfl
  all_goals
    by_cases h : j = k
    · subst h; simp [World.setTask, liveIn, hk, hdead]
    · simp [World.setTask, liveIn, Function.update_noteq h]

/-! ## Task creation -/

theorem torrentReady_isSome (h : w.torrentReady = true) : w.torrent.isSome := by
  cases ht : w.torrent with
  | none => simp [torrentReady, ht] at h
  | some _ => rfl

theorem Inv.startTask (hw : Inv w) (halive : w.alive = true) (htor : w.torrent.isSome)
    (hlt : w.liveCount < ConnectionLimiter.MaxConnections) {span : BlockSpan}
    (h : World.startTask L w span = .ok w') :
    Inv w' ∧ w'.liveCount = w.liveCount + 1 ∧ w'.nextId = w.nextId + 1 ∧ w'.alive = w.alive ∧
      w'.torrent = w.torrent := by
  obtain ⟨-, hw'⟩ := startTask_ok htor h
  have hnew : w.nextId ∉ w.fetches.map Fetch.task := fun h => by
    obtain ⟨f, hf, he⟩ := List.mem_map.mp h
    exact absurd he (Nat.ne_of_lt (hw.alloc_lt hf))
  have hcount : w'.liveCount = w.liveCount + 1 := by
    rw [hw']
    simp only [liveCount, List.countP_append, countP_update_of_not_mem _ hnew]
    simp [Task.new]
  subst hw'
  have hfree : w.nextId ∉ w.tasks := fun h => by
    have := ((hw.tasks_live halive _).mp h)
    simp [liveIn, hw.fresh _ le_rfl] at this
  refine ⟨⟨fun f hf => ?_, ?_, fun k hk => ?_, ?_, fun _ k => ?_, fun h => by simp [halive] at h,
    fun _ k hk => ?_, fun _ => ?_, by rw [hcount]; exact hlt⟩, hcount, rfl, rfl, rfl⟩
  all_goals dsimp only at *
  · rcases List.mem_append.mp hf with hf | hf
    · by_cases h : f.task = w.nextId
      · rw [h, Function.update_same]; rfl
      · simp [Function.update_noteq h, hw.fetch_alloc f hf]
    · rw [List.mem_singleton.mp hf]; simp
  · simpa [List.nodup_append, hnew] using hw.fetch_nodup
  · simp [Function.update_noteq (show k ≠ w.nextId by omega), hw.fresh k (by omega)]
  · simpa [List.nodup_append, hfree] using hw.tasks_nodup
  · by_cases h : k = w.nextId
    · simp [h, Task.new]
    · simp [h, hw.tasks_live halive k]
  · by_cases h : k = w.nextId
    · simp [h]
    · simp only [liveIn_update, h, if_false] at hk
      simp [hw.in_flight htor k hk]
  · rw [hcount, ← hw.n_tasks halive]; rfl

theorem Inv.foldlM_startTask : ∀ {spans : List BlockSpan} {w w' : World}, Inv w → w.alive = true →
    w.torrent.isSome → w.liveCount + spans.length ≤ ConnectionLimiter.MaxConnections →
    spans.foldlM (World.startTask L) w = .ok w' → Inv w' ∧ w'.nextId = w.nextId + spans.length
  | [], _, _, hw, _, _, _, h => by cases h; exact ⟨hw, rfl⟩
  | span :: spans, w, w', hw, halive, htor, hle, h => by
    obtain ⟨w₁, h₁, hrest⟩ := foldlM_startTask_cons.mp h
    simp only [List.length_cons] at hle
    obtain ⟨hw₁, hcount, hn, ha, ht⟩ := hw.startTask halive htor (by omega) h₁
    obtain ⟨hw', hn'⟩ := Inv.foldlM_startTask hw₁ (ha.trans halive) (by rw [ht]; exact htor)
      (by omega) hrest
    exact ⟨hw', by rw [hn', hn, List.length_cons]; omega⟩

/-- `slotsAvailable` leaves room below the cap for every task it lets `on_idle` create. -/
theorem slotsAvailable_add_le (l : ConnectionLimiter) (now : Nat) :
    l.slotsAvailable now = 0 ∨ l.nTasks + l.slotsAvailable now ≤ ConnectionLimiter.MaxConnections := by
  rw [ConnectionLimiter.slotsAvailable_eq]
  simp only [ConnectionLimiter.MaxConnections]
  split_ifs <;> omega

theorem Inv.onIdle (hw : Inv w) (halive : w.alive = true) {spans : List BlockSpan}
    (h : World.onIdle L w spans = .ok w') : Inv w' := by
  rcases onIdle_cases h with rfl | ⟨hpos, hready, h⟩
  · exact hw
  · have hle := slotsAvailable_add_le w.limiter w.now
    have := List.length_take_le (w.limiter.slotsAvailable w.now) spans
    exact (hw.foldlM_startTask halive (torrentReady_isSome hready)
      (by rw [← hw.n_tasks halive]; omega) h).1

/-! ## Completions -/

theorem Inv.nTasks_pos (hw : Inv w) (halive : w.alive = true) {f : Fetch} (hf : f ∈ w.fetches)
    (hlive : liveIn w.heap f.task = true) : 0 < w.limiter.nTasks :=
  hw.n_tasks halive ▸ liveCount_pos hf hlive

theorem countP_erase_of_live {f : Fetch} (hf : f ∈ w.fetches) (hlive : liveIn w.heap f.task = true) :
    (w.fetches.erase f).countP (fun g => liveIn w.heap g.task) = w.liveCount - 1 := by
  rw [liveCount, countP_eq_countP_erase_add hf, if_pos hlive]; rfl

theorem Inv.freeDead (hw : Inv w) {f : Fetch} (hf : f ∈ w.fetches) {task : Task}
    (hk : w.heap f.task = some task) (hdead : task.dead = true) :
    Inv { w with fetches := w.fetches.erase f, heap := Function.update w.heap f.task none } := by
  obtain ⟨hnot, hnd⟩ := not_mem_map_task_erase hw.fetch_nodup hf
  have hlive : ∀ j, liveIn (Function.update w.heap f.task none) j = liveIn w.heap j := fun j => by
    by_cases h : j = f.task
    · subst h; simp [liveIn, hk, hdead]
    · simp [h]
  have hcount : w.liveCount = (w.fetches.erase f).countP fun g => liveIn w.heap g.task := by
    rw [liveCount, countP_eq_countP_erase_add hf, if_neg (by simp [liveIn, hk, hdead])]; rfl
  refine ⟨fun g hg => ?_, hnd, fun j hj => ?_, hw.tasks_nodup, fun h j => ?_, fun h j => ?_,
    fun h j hj => ?_, fun h => ?_, ?_⟩
  all_goals dsimp only at *
  · have hne : g.task ≠ f.task := fun he => hnot (he ▸ List.mem_map_of_mem _ hg)
    simp [Function.update_noteq hne, hw.fetch_alloc g (List.mem_of_mem_erase hg)]
  · by_cases h : j = f.task
    · subst h; simp
    · simp [Function.update_noteq h, hw.fresh j hj]
  · rw [hlive]; exact hw.tasks_live h j
  · rw [hlive]; exact hw.dead_all h j
  · rw [hlive] at hj
    refine mem_map_task_erase (hw.in_flight h j hj) fun he => ?_
    subst he; simp [liveIn, hk, hdead] at hj
  · rw [hw.n_tasks h, hcount, liveCount, countP_update_of_not_mem _ hnot]
  · rw [liveCount, countP_update_of_not_mem _ hnot, ← hcount]; exact hw.n_tasks_le

theorem Inv.finishGone (hw : Inv w) (halive : w.alive = true) {f : Fetch} (hf : f ∈ w.fetches)
    (hlive : liveIn w.heap f.task = true) (htor : w.torrent = none) (success : Bool) :
    Inv (finishFetch w f success) := by
  have hcount : (finishFetch w f success).liveCount = w.liveCount - 1 :=
    countP_erase_of_live hf hlive
  refine ⟨fun g hg => hw.fetch_alloc g (List.mem_of_mem_erase hg),
    (not_mem_map_task_erase hw.fetch_nodup hf).2, hw.fresh, hw.tasks_nodup, hw.tasks_live,
    hw.dead_all, fun h => by simp [finishFetch, htor] at h, fun _ => ?_, ?_⟩
  · rw [hcount, ← hw.n_tasks halive]
    exact ConnectionLimiter.taskFinished_nTasks _ _ _
  · have := hw.n_tasks_le; omega

theorem Inv.retireTask (hw : Inv w) (halive : w.alive = true) {f : Fetch} (hf : f ∈ w.fetches)
    (hlive : liveIn w.heap f.task = true)
    (hheap : w'.heap = Function.update w.heap f.task none) (hfetch : w'.fetches = w.fetches.erase f)
    (htasks : w'.tasks = w.tasks.erase f.task) (hn : w'.nextId = w.nextId)
    (ha : w'.alive = w.alive) (htor : w'.torrent.isSome → w.torrent.isSome)
    (hnt : w'.limiter.nTasks = w.limiter.nTasks - 1) : Inv w' := by
  obtain ⟨hnot, hnd⟩ := not_mem_map_task_erase hw.fetch_nodup hf
  have hcount : w'.liveCount = w.liveCount - 1 := by
    rw [liveCount, hheap, hfetch, countP_update_of_not_mem _ hnot, countP_erase_of_live hf hlive]
  refine ⟨fun g hg => ?_, hfetch ▸ hnd, fun j hj => ?_, htasks ▸ hw.tasks_nodup.erase _,
    fun _ j => ?_, fun h => by simp [ha, halive] at h, fun ht j hj => ?_, fun _ => ?_, ?_⟩
  · rw [hfetch] at hg
    have hne : g.task ≠ f.task := fun he => hnot (he ▸ List.mem_map_of_mem _ hg)
    simp [hheap, Function.update_noteq hne, hw.fetch_alloc g (List.mem_of_mem_erase hg)]
  · by_cases h : j = f.task
    · simp [hheap, h]
    · simp [hheap, Function.update_noteq h, hw.fresh j (hn ▸ hj)]
  · rw [htasks, List.Nodup.mem_erase_iff hw.tasks_nodup, hheap]
    by_cases h : j = f.task
    · simp [h]
    · simp [h, hw.tasks_live halive j]
  · rw [hheap] at hj
    by_cases h : j = f.task
    · simp [h] at hj
    · simp only [liveIn_update, h, if_false] at hj
      rw [hfetch]; exact mem_map_task_erase (hw.in_flight (htor ht) j hj) h
  · rw [hnt, hcount, hw.n_tasks halive]
  · have := hw.n_tasks_le; omega

theorem Inv.refetch (hw : Inv w) (halive : w.alive = true) {f : Fetch} (hf : f ∈ w.fetches)
    (hlive : liveIn w.heap f.task = true) {task' : Task} (hdead : task'.dead = false)
    {req : FetchRequest}
    (hheap : w'.heap = Function.update w.heap f.task (some task'))
    (hfetch : w'.fetches = w.fetches.erase f ++ [⟨f.task, req⟩])
    (htasks : w'.tasks = w.tasks) (hn : w'.nextId = w.nextId) (ha : w'.alive = w.alive)
    (htor : w'.torrent.isSome → w.torrent.isSome) (hnt : w'.limiter.nTasks = w.limiter.nTasks) :
    Inv w' := by
  obtain ⟨hnot, hnd⟩ := not_mem_map_task_erase hw.fetch_nodup hf
  have hsame : ∀ j, liveIn w'.heap j = liveIn w.heap j := fun j => by
    rw [hheap]
    by_cases h : j = f.task
    · simp [h, hdead, hlive]
    · simp [h]
  have hcount : w'.liveCount = w.liveCount := by
    have hpos := liveCount_pos hf hlive
    rw [liveCount, hheap, hfetch, List.countP_append, countP_update_of_not_mem _ hnot,
      countP_erase_of_live hf hlive]
    simp [hdead]
    omega
  refine ⟨fun g hg => ?_, ?_, fun j hj => ?_, htasks ▸ hw.tasks_nodup,
    fun h j => ?_, fun h => by simp [ha, halive] at h, fun ht j hj => ?_, fun h => ?_, hcount ▸ hw.n_tasks_le⟩
  · rw [hfetch] at hg
    rcases List.mem_append.mp hg with hg | hg
    · have hne : g.task ≠ f.task := fun he => hnot (he ▸ List.mem_map_of_mem _ hg)
      simp [hheap, Function.update_noteq hne, hw.fetch_alloc g (List.mem_of_mem_erase hg)]
    · simp [hheap, List.mem_singleton.mp hg]
  · simpa [hfetch, List.nodup_append, hnot] using hnd
  · have := hw.alloc_lt hf
    simp [hheap, Function.update_noteq (show j ≠ f.task by omega), hw.fresh j (by omega)]
  · rw [htasks, hsame]; exact hw.tasks_live halive j
  · rw [hsame] at hj
    rw [hfetch, List.map_append, List.mem_append]
    by_cases h : j = f.task
    · simp [h]
    · exact .inl (mem_map_task_erase (hw.in_flight (htor ht) j hj) h)
  · rw [hnt, hcount]; exact hw.n_tasks halive

theorem Inv.onPartialDataFetched (hw : Inv w) {f : Fetch} (hf : f ∈ w.fetches) {status : Nat}
    {spans : List BlockSpan} (h : World.onPartialDataFetched L w f status spans = .ok w') :
    Inv w' := by
  obtain ⟨task, hk, ⟨hdead, rfl⟩ | ⟨hdead, halive, hn, hcases⟩⟩ := onPartialDataFetched_cases h
  · exact hw.freeDead hf hk hdead
  have hlive : liveIn w.heap f.task = true := by simp [liveIn, hk, hdead]
  have hnt := ConnectionLimiter.taskFinished_nTasks w.limiter w.now (status == 206)
  rcases hcases with ⟨htor, rfl⟩ | ⟨htor, ⟨blocks, rfl⟩ | ⟨task', drained, -, hdead', -, rfl⟩ |
    ⟨drained, -, h⟩⟩
  · exact hw.finishGone halive hf hlive htor _
  · exact hw.retireTask halive hf hlive rfl rfl rfl rfl rfl id hnt
  · refine hw.refetch halive hf hlive hdead' rfl rfl rfl rfl rfl id ?_
    simp only [startFetch, ConnectionLimiter.taskStarted_nTasks]
    exact hnt ▸ Nat.sub_add_cancel (Nat.pos_of_ne_zero hn)
  · have hw₁ : Inv (((w.finishFetch f (status == 206)).writeBlocks drained).eraseTask f.task) :=
      hw.retireTask halive hf hlive rfl rfl rfl rfl rfl id hnt
    exact hw₁.onIdle halive h

theorem Inv.onBufferGotData (hw : Inv w) {f : Fetch} {bytes : List UInt8}
    (h : World.onBufferGotData w f bytes = .ok w') : Inv w' := by
  obtain ⟨task, hk, rfl | ⟨-, -, -, -, rfl⟩⟩ := onBufferGotData_cases h
  · exact hw.setTask hk (Task.append_dead _ _)
  · exact (hw.setTask hk (Task.append_dead _ _)).of_frame (fun _ => rfl) (fun _ => rfl) rfl rfl rfl
      rfl id rfl

/-! ## Destruction -/

theorem Inv.destroy (hw : Inv w) (halive : w.alive = true) : Inv (World.destroy w) := by
  have hdead : ∀ k, liveIn (World.destroy w).heap k = false := fun k => by
    simp only [World.destroy]
    by_cases h : k ∈ w.tasks
    · cases hk : w.heap k <;> simp [liveIn, h, hk]
    · have := (hw.tasks_live halive k).not.mp h
      simpa [liveIn, h] using this
  have hcount : (World.destroy w).liveCount = 0 :=
    List.countP_eq_zero.mpr fun f _ => by simp [hdead]
  refine ⟨fun f hf => ?_, hw.fetch_nodup, fun k hk => ?_, List.nodup_nil,
    fun h => by simp [World.destroy] at h, fun _ => hdead, fun _ k hk => by simp [hdead] at hk,
    fun h => by simp [World.destroy] at h, by rw [hcount]; exact Nat.zero_le _⟩
  all_goals simp only [World.destroy] at *
  · have := hw.fetch_alloc f hf
    split_ifs <;> simpa using this
  · simp [hw.fresh k hk]

/-! ## Every event -/

theorem Inv.step (hw : Inv w) {st : Step} (h : w.step L st = .ok w') : Inv w' := by
  cases st with
  | idle spans =>
    simp only [World.step] at h
    split at h
    · exact hw.onIdle ‹_› h
    · cases Except.ok.inj h; exact hw
  | bufferGotData f bytes =>
    simp only [World.step] at h
    split at h
    · exact hw.onBufferGotData h
    · cases Except.ok.inj h; exact hw
  | partialDataFetched f status spans =>
    simp only [World.step] at h
    split at h
    · exact hw.onPartialDataFetched ‹_› h
    · cases Except.ok.inj h; exact hw
  | writeBlock =>
    rcases writeBlockFunc_cases h with rfl | ⟨job, rest, -, rfl | rfl⟩
    · exact hw
    all_goals exact hw.of_frame (fun _ => rfl) (fun _ => rfl) rfl rfl rfl rfl id rfl
  | destroyWebseed =>
    cases Except.ok.inj h
    split
    · exact hw.destroy ‹_›
    · exact hw
  | updateTorrent t =>
    cases Except.ok.inj h
    split
    · exact hw.of_frame (fun _ => rfl) (fun _ => rfl) rfl rfl rfl rfl (fun _ => ‹_›) rfl
    · exact hw
  | removeTorrent =>
    cases Except.ok.inj h
    exact hw.of_frame (fun _ => rfl) (fun _ => rfl) rfl rfl rfl rfl (fun h => by simp at h) rfl
  | tick dt =>
    cases Except.ok.inj h
    exact hw.of_frame (fun _ => rfl) (fun _ => rfl) rfl rfl rfl rfl id rfl

end World

theorem Reachable.inv {L : FileLayout} {w : World} (hw : Reachable L w) : w.Inv := by
  induction hw with
  | init now t => exact World.Inv.init now t
  | step _ hs ih => exact ih.step hs

namespace World

variable {L : FileLayout} {w : World}

/-- A callback of a live task's fetch finds `n_tasks` positive. -/
theorem Inv.step_ne_assertionFailed (hw : Inv w) (st : Step) :
    w.step L st ≠ .error .assertionFailed := by
  cases st with
  | bufferGotData f bytes =>
    simp only [World.step]
    split
    · rename_i hf
      obtain ⟨task, hk⟩ := Option.isSome_iff_exists.mp (hw.fetch_alloc f hf)
      simp only [World.onBufferGotData, World.gotPieceData, hk]
      split
      · simp
      rename_i hb
      simp only [Bool.or_eq_true, decide_eq_true_eq, not_or, Bool.not_eq_true] at hb
      split
      · simp
      rename_i ha
      have hpos := hw.nTasks_pos (by simpa [World.setTask] using ha) hf (by simp [liveIn, hk, hb.2])
      simp [World.setTask, Nat.pos_iff_ne_zero.mp hpos]
    · simp
  | partialDataFetched f status spans =>
    simp only [World.step]
    split
    · rename_i hf
      obtain ⟨task, hk⟩ := Option.isSome_iff_exists.mp (hw.fetch_alloc f hf)
      simp only [World.onPartialDataFetched, hk]
      split
      · simp
      rename_i hd
      split
      · simp
      rename_i ha
      have hpos := hw.nTasks_pos (by simpa using ha) hf (by simp [liveIn, hk, hd])
      rw [if_neg (Nat.pos_iff_ne_zero.mp hpos)]
      split
      · simp
      split
      · simp
      all_goals
        split
        · simp
        · first
          | exact fun h => absurd (requestNextChunk_error h) (by decide)
          | exact fun h => absurd (onIdle_error h) (by decide)
    · simp
  | writeBlock =>
    simp only [World.step, writeBlockFunc]
    split
    · simp
    · split
      · split <;> simp
      · simp
  | idle spans =>
    simp only [World.step]
    split
    · exact fun h => absurd (onIdle_error h) (by decide)
    · simp
  | _ => simp [World.step]

end World

/-- In every reachable world: no task has two fetches in flight; every fetch in flight writes into
a task that is not freed; while the torrent is there, every task in the webseed's set has exactly
one fetch in flight; `n_tasks` is the number of fetches in flight of the webseed's live tasks; and
no event makes the `TR_ASSERT(n_tasks > 0)` of `taskFinished`, `taskFailed` or `gotData` fail. -/
theorem reachable_fetch_accounting {L : FileLayout} {w : World} (hw : Reachable L w) :
    (w.fetches.map Fetch.task).Nodup ∧
    (∀ f ∈ w.fetches, (w.heap f.task).isSome) ∧
    (w.torrent.isSome → w.alive = true → ∀ k ∈ w.tasks, (w.fetches.map Fetch.task).count k = 1) ∧
    (w.alive = true → w.limiter.nTasks = w.liveCount) ∧
    ∀ st, w.step L st ≠ .error .assertionFailed := by
  have hi := hw.inv
  exact ⟨hi.fetch_nodup, hi.fetch_alloc, fun htor ha k hk =>
    List.count_eq_one_of_mem hi.fetch_nodup (hi.in_flight htor k ((hi.tasks_live ha k).mp hk)),
    hi.n_tasks, hi.step_ne_assertionFailed⟩

/-- The world after the first idle tick of a webseed on a one-byte torrent: one task, one fetch. -/
theorem reachable_fetch_accounting_first_task :
    ∃ w, runSteps (FileLayout.ofSizes [1]) (World.init 0 ⟨true, false, fun _ => false⟩)
        [.idle [⟨0, 1⟩]] = .ok w ∧ w.fetches.length = 1 ∧
      (w.fetches.map Fetch.task).Nodup ∧
      (∀ f ∈ w.fetches, (w.heap f.task).isSome) ∧
      (w.torrent.isSome → w.alive = true → ∀ k ∈ w.tasks, (w.fetches.map Fetch.task).count k = 1) ∧
      (w.alive = true → w.limiter.nTasks = w.liveCount) ∧
      ∀ st, w.step (FileLayout.ofSizes [1]) st ≠ .error .assertionFailed := by
  have h : (runSteps (FileLayout.ofSizes [1]) (World.init 0 ⟨true, false, fun _ => false⟩)
      [.idle [⟨0, 1⟩]]).toOption.map (fun w => w.fetches.length == 1) = some true := by
    decide
  obtain ⟨w, hrun, hp⟩ := runSteps_exists h
  exact ⟨w, hrun, by simpa using hp,
    reachable_fetch_accounting (runSteps_reachable (.init 0 _) hrun)⟩

end LibTransmission
