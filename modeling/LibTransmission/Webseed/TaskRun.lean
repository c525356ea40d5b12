import LibTransmission.Webseed.Drain

/-!
# A task's life

One task from `requestBlocks` on, as the HTTP layer answers its fetches one after another. The
`k`-th fetch is answered by `answer k`, as a function of the request, so a run covers every
pattern of complete, short, failed and over-long answers and every change of `has_block`.

* `Reply`, `Phase`, `TaskLog` : a task with the requests it sent, the body bytes of the answers it
  consumed, and the passes of its drain loop;
* `TaskLog.complete` : `onBufferGotData` and `onPartialDataFetched` on one answer, with its four
  outcomes in `complete_cases`; `TaskLog.run`;
* `TaskLog.Inv` : the cursor sits on a block boundary of the span, the passes so far cover the
  blocks below it, and the request in flight asks for the first byte not received
  (`Inv.start`, `Inv.complete`, `Inv.run`), for answers no longer than asked;
* `TaskLog.DataInv` : for answers that are prefixes of the asked bytes, the buffer, the received
  bytes and every pass hold the torrent's own bytes (`DataInv.complete`, `DataInv.run`).
-/

namespace LibTransmission

open BlockInfo

/-- What answers a fetch: the HTTP status, the body bytes `onBufferGotData` saw added to the
task's buffer, and the torrent's `has_block` when `onPartialDataFetched` runs, `none` once the
torrent is gone. -/
structure Reply where
  status : Nat
  body : List UInt8
  torrent : Option (Nat → Bool)

/-- Where a task is: one fetch in flight; stuck in the webseed's set with no fetch, the torrent
being gone; erased after rejecting blocks; or erased with its span done. -/
inductive Phase
  | fetching (req : FetchRequest)
  | stalled
  | rejected (blocks : List Nat)
  | retired
  deriving Repr, DecidableEq

/-- The blocks published as `GotRejected`. -/
def Phase.rejectedBlocks : Phase → List Nat
  | rejected blocks => blocks
  | _ => []

/-- Whether the task is still in the webseed's `tasks` set. -/
def Phase.inTasks : Phase → Bool
  | fetching _ => true
  | stalled => true
  | _ => false

/-- A task with what it sent and took in: its requests, the body bytes of the answers it consumed
(those of 206 answers with the torrent there), and the passes of its drain loop. -/
structure TaskLog where
  task : Task
  phase : Phase
  requests : List FetchRequest
  received : List UInt8
  drained : List Drained

namespace TaskLog

variable (L : FileLayout)

/-- `requestBlocks` creates the task and `task_request_next_chunk` sends its first request. -/
def start (span : BlockSpan) : TaskLog where
  task := Task.new L.blockInfo span
  phase := .fetching (taskRequestNextChunk L (Task.new L.blockInfo span))
  requests := [taskRequestNextChunk L (Task.new L.blockInfo span)]
  received := []
  drained := []

/-- The fetch in flight ends with reply `r`: its body is in the buffer, then
`onPartialDataFetched` runs. -/
def complete (s : TaskLog) (r : Reply) : TaskLog :=
  let task := s.task.append r.body
  match r.torrent with
  | none => { s with task := task, phase := .stalled }
  | some hasBlock =>
    match task.onFetched L hasBlock (r.status == 206) with
    | .rejected blocks => { s with task := task, phase := .rejected blocks }
    | .next task' drained req' =>
      { task := task', phase := .fetching req', requests := s.requests ++ [req'],
        received := s.received ++ r.body, drained := s.drained ++ drained }
    | .retired task' drained =>
      { s with task := task', phase := .retired, received := s.received ++ r.body,
               drained := s.drained ++ drained }

/-- The HTTP layer answers the fetch in flight, if there is one. -/
def step (answer : FetchRequest → Reply) (s : TaskLog) : TaskLog :=
  match s.phase with
  | .fetching req => s.complete L (answer req)
  | _ => s

/-- The task after `n` answers. -/
def run (span : BlockSpan) (answer : Nat → FetchRequest → Reply) : Nat → TaskLog
  | 0 => start L span
  | n + 1 => (run span answer n).step L (answer n)

/-- The server that answers every request with 206 and all the asked bytes of a torrent whose
bytes are `content`, the torrent holding none of the blocks. -/
def completeAnswer (content : Nat → UInt8) (_ : Nat) (q : FetchRequest) : Reply :=
  ⟨206, L.requestedBytes content q.fileIndex q.fileOffset q.thisChunk, some fun _ => false⟩

theorem step_fetching {s : TaskLog} {q : FetchRequest} (h : s.phase = .fetching q)
    (answer : FetchRequest → Reply) : s.step L answer = s.complete L (answer q) := by
  simp [step, h]

theorem step_of_not_fetching {s : TaskLog} (h : ∀ q, s.phase ≠ .fetching q)
    (answer : FetchRequest → Reply) : s.step L answer = s := by
  unfold step; split
  · exact absurd ‹_› (h _)
  · rfl

theorem run_of_stalled {span : BlockSpan} {answer : Nat → FetchRequest → Reply} {n m : Nat}
    (h : (run L span answer n).phase = .stalled) (hm : n ≤ m) :
    run L span answer m = run L span answer n := by
  induction m, hm using Nat.le_induction with
  | base => rfl
  | succ m _ ih => rw [run, ih, step_of_not_fetching L (by simp [h])]

/-- What one answer does to a task: with the torrent gone the task stalls; otherwise a failed
fetch rejects the blocks from the cursor's on, and a 206 answer drains the buffer and then asks
for the next chunk or retires. -/
theorem complete_cases (s : TaskLog) (r : Reply) :
    (r.torrent = none ∧
      s.complete L r = { s with task := s.task.append r.body, phase := .stalled }) ∨
    (∃ hasBlock, r.torrent = some hasBlock ∧ r.status ≠ 206 ∧
      s.complete L r = { s with
        task := s.task.append r.body
        phase := .rejected (List.range' s.task.loc.block (s.task.blocks.end - s.task.loc.block)) }) ∨
    (∃ hasBlock, r.torrent = some hasBlock ∧ r.status = 206 ∧
      (useFetchedBlocks L.blockInfo hasBlock (s.task.append r.body)).1.loc.byte < s.task.endByte ∧
      s.complete L r =
        { task := (useFetchedBlocks L.blockInfo hasBlock (s.task.append r.body)).1
          phase := .fetching
            (taskRequestNextChunk L (useFetchedBlocks L.blockInfo hasBlock (s.task.append r.body)).1)
          requests := s.requests ++
            [taskRequestNextChunk L (useFetchedBlocks L.blockInfo hasBlock (s.task.append r.body)).1]
          received := s.received ++ r.body
          drained := s.drained ++ (useFetchedBlocks L.blockInfo hasBlock (s.task.append r.body)).2 }) ∨
    (∃ hasBlock, r.torrent = some hasBlock ∧ r.status = 206 ∧
      s.task.endByte ≤ (useFetchedBlocks L.blockInfo hasBlock (s.task.append r.body)).1.loc.byte ∧
      s.complete L r =
        { s with
          task := (useFetchedBlocks L.blockInfo hasBlock (s.task.append r.body)).1
          phase := .retired
          received := s.received ++ r.body
          drained := s.drained ++ (useFetchedBlocks L.blockInfo hasBlock (s.task.append r.body)).2 }) := by
  unfold complete
  rcases hh : r.torrent with _ | hasBlock
  · exact .inl ⟨rfl, rfl⟩
  rcases Task.onFetched_cases L hasBlock (r.status == 206) (s.task.append r.body) with
    ⟨hf, heq⟩ | ⟨hok, hlt, heq⟩ | ⟨hok, hge, heq⟩ <;> simp only [heq]
  · exact .inr (.inl ⟨hasBlock, rfl, by simpa using hf, rfl⟩)
  · exact .inr (.inr (.inl ⟨hasBlock, rfl, by simpa using hok, hlt, rfl⟩))
  · exact .inr (.inr (.inr ⟨hasBlock, rfl, by simpa using hok, hge, rfl⟩))

theorem complete_drained (s : TaskLog) (r : Reply) :
    ∃ new, (s.complete L r).drained = s.drained ++ new ∧
      ∀ hasBlock, r.torrent = some hasBlock → ∀ d ∈ new, d.held = hasBlock d.block := by
  rcases complete_cases L s r with ⟨-, heq⟩ | ⟨-, -, -, heq⟩ | ⟨hb, hh, -, -, heq⟩ |
    ⟨hb, hh, -, -, heq⟩
  · exact ⟨[], by simp [heq], fun _ _ _ h => by simp at h⟩
  · exact ⟨[], by simp [heq], fun _ _ _ h => by simp at h⟩
  all_goals
    refine ⟨_, by rw [heq], fun h' hh' d hd => ?_⟩
    obtain rfl : hb = h' := Option.some.inj (hh.symm.trans hh')
    exact drainLoop_held L.blockInfo hb _ _ _ d hd

/-! ## The cursor invariant -/

variable (b e : Nat)

/-- The invariant of a task of span `[b, e)`. While fetching, the cursor sits on boundary `j`
inside the span, the passes so far are the blocks `b, ..., j - 1`, the buffer ends before the
span does, at the first byte not received, and the request in flight is the one for that byte.
A rejected task rejects from its cursor to the span's end; a retired one has its cursor at the
end, an empty buffer and a pass for every block. -/
def Inv (s : TaskLog) : Prop :=
  s.task.blocks = ⟨b, e⟩ ∧ s.task.endByte = L.blockInfo.boundary e ∧
  match s.phase with
  | .fetching req => ∃ j, b ≤ j ∧ j < e ∧ s.task.loc = L.blockInfo.byteLoc (L.blockInfo.boundary j) ∧
      L.blockInfo.boundary j + s.task.content.length < L.blockInfo.boundary e ∧
      L.blockInfo.boundary j + s.task.content.length =
        L.blockInfo.boundary b + s.received.length ∧
      req = taskRequestNextChunk L s.task ∧
      s.drained.map Drained.block = List.range' b (j - b)
  | .stalled => ∃ j, b ≤ j ∧ j < e ∧ s.task.loc = L.blockInfo.byteLoc (L.blockInfo.boundary j) ∧
      s.drained.map Drained.block = List.range' b (j - b)
  | .rejected blocks => ∃ j, b ≤ j ∧ j < e ∧ s.task.loc.block = j ∧
      blocks = List.range' j (e - j) ∧ s.drained.map Drained.block = List.range' b (j - b)
  | .retired => s.task.loc.byte = L.blockInfo.boundary e ∧ s.task.content = [] ∧
      L.blockInfo.boundary b + s.received.length = L.blockInfo.boundary e ∧
      s.drained.map Drained.block = List.range' b (e - b)

variable {L b e}

theorem endByte_new {span : BlockSpan} (hspan : span.begin < span.end)
    (hend : span.end ≤ L.blockInfo.blockCount) :
    (Task.new L.blockInfo span).endByte = L.blockInfo.boundary span.end := by
  have hsz := L.blockInfo.blockSize_eq_boundary_sub (show span.end - 1 < _ by omega)
  have hlt := L.blockInfo.boundary_lt_boundary (show span.end - 1 < span.end by omega)
    (show span.end - 1 < _ by omega)
  simp only [Task.new, blockLoc_byte, ← L.blockInfo.boundary_of_lt (show span.end - 1 < _ by omega),
    show span.end - 1 + 1 = span.end by omega] at hsz hlt ⊢
  omega

theorem Inv.start {span : BlockSpan} (hspan : span.begin < span.end)
    (hend : span.end ≤ L.blockInfo.blockCount) :
    Inv L span.begin span.end (start L span) := by
  have hb : span.begin < L.blockInfo.blockCount := by omega
  refine ⟨rfl, endByte_new hspan hend, span.begin, le_rfl, hspan, ?_, ?_, ?_, rfl, by
    simp [TaskLog.start]⟩
  · simp [TaskLog.start, Task.new, blockLoc, L.blockInfo.boundary_of_lt hb]
  · simpa [TaskLog.start, Task.new] using L.blockInfo.boundary_lt_boundary hspan hb
  · simp [TaskLog.start, Task.new]

/-- What the request in flight asks for: the rest of the file holding byte `x`, the first byte
not buffered, cut at the span's end; at least one byte. -/
theorem taskRequestNextChunk_spec {task : Task} {x : Nat}
    (hx : task.loc.byte + task.content.length = x) (hxe : x < task.endByte)
    (hE : task.endByte ≤ L.fileSizes.sum) :
    let q := taskRequestNextChunk L task
    ContainsByte L.fileSizes q.fileIndex x ∧
      fileBegin L.fileSizes q.fileIndex + q.fileOffset = x ∧
      0 < q.thisChunk ∧ q.fileOffset + q.thisChunk ≤ L.fileSize q.fileIndex ∧
      x + q.thisChunk ≤ task.endByte ∧
      q.thisChunk = min (L.fileSize q.fileIndex - q.fileOffset) (task.endByte - x) := by
  have hT : x < L.fileSizes.sum := by omega
  obtain ⟨hc, -⟩ := L.fileOffset_spec x hT
  obtain ⟨h1, h2⟩ := L.fileOffset_add hT
  simp only [taskRequestNextChunk, byteLoc_byte, hx]
  exact ⟨hc, h1, by omega, by omega, by omega, trivial⟩

/-- A 206 answer no longer than asked, from a fetching state whose cursor is on boundary `j`:
the drain takes the blocks `j, ..., m - 1` and leaves the cursor on boundary `m ≤ e`, short of
`e` exactly when the answer stopped short of the span's end. -/
theorem Inv.drain {s : TaskLog} {q : FetchRequest} {r : Reply} (hs : Inv L b e s)
    (heN : e ≤ L.blockInfo.blockCount) (hq : s.phase = .fetching q)
    (hbody : r.body.length ≤ q.thisChunk) (hasBlock : Nat → Bool) :
    ∃ j m, b ≤ j ∧ j < e ∧ j ≤ m ∧ m ≤ e ∧ s.task.loc = L.blockInfo.byteLoc (L.blockInfo.boundary j) ∧
      L.blockInfo.boundary j + s.task.content.length = L.blockInfo.boundary b + s.received.length ∧
      q = taskRequestNextChunk L s.task ∧ s.drained.map Drained.block = List.range' b (j - b) ∧
      fileBegin L.fileSizes q.fileIndex + q.fileOffset =
        L.blockInfo.boundary j + s.task.content.length ∧
      L.blockInfo.boundary j ≤ L.blockInfo.boundary m ∧
      L.blockInfo.boundary m ≤ L.blockInfo.boundary j + (s.task.content.length + r.body.length) ∧
      L.blockInfo.boundary j + (s.task.content.length + r.body.length) ≤ L.blockInfo.boundary e ∧
      (m < e ↔ L.blockInfo.boundary j + (s.task.content.length + r.body.length) <
        L.blockInfo.boundary e) ∧
      useFetchedBlocks L.blockInfo hasBlock (s.task.append r.body) =
        ({ s.task.append r.body with
            loc := L.blockInfo.byteLoc (L.blockInfo.boundary m)
            content := (s.task.content ++ r.body).drop
              (L.blockInfo.boundary m - L.blockInfo.boundary j) },
          drainedFrom L.blockInfo hasBlock j (s.task.content ++ r.body) m) := by
  obtain ⟨-, hend, hph⟩ := hs
  rw [hq] at hph
  obtain ⟨j, hbj, hje, hloc, hX, hrecv, hreq, hdr⟩ := hph
  have bi_e := L.blockInfo.boundary_le e
  have hjN : j < L.blockInfo.blockCount := by omega
  obtain ⟨-, hstart, -, -, hqE, -⟩ := taskRequestNextChunk_spec (L := L)
    (show s.task.loc.byte + s.task.content.length = _ from rfl)
    (by rw [hloc, byteLoc_byte, hend]; omega) (by rw [hend]; simpa using bi_e)
  rw [← hreq, hloc, byteLoc_byte, hend] at hqE
  rw [← hreq, hloc, byteLoc_byte] at hstart
  have hX1 : L.blockInfo.boundary j + (s.task.append r.body).content.length ≤
      L.blockInfo.boundary e := by simp; omega
  rw [useFetchedBlocks_boundary L.blockInfo hasBlock hjN.le (by simpa using hloc) (by omega)]
  generalize hm : L.blockInfo.wholeBlocks (L.blockInfo.boundary j +
    (s.task.append r.body).content.length) = m
  have hjm : j ≤ m := hm ▸ L.blockInfo.le_wholeBlocks (by omega) hjN.le (Nat.le_add_right _ _)
  have hmN : m ≤ L.blockInfo.blockCount := hm ▸ L.blockInfo.wholeBlocks_le (by omega)
  have hmX : L.blockInfo.boundary m ≤
      L.blockInfo.boundary j + (s.task.append r.body).content.length :=
    hm ▸ L.blockInfo.boundary_wholeBlocks_le _
  simp only [Task.append_content, List.length_append] at hX1 hmX hm
  have hme : m ≤ e := by
    by_contra h
    have := L.blockInfo.boundary_lt_boundary (show e < m by omega) (by omega)
    omega
  refine ⟨j, m, hbj, hje, hjm, hme, hloc, hrecv, hreq, hdr, hstart, L.blockInfo.boundary_mono hjm, hmX,
    hX1, ⟨fun hmE => lt_of_le_of_ne hX1 fun heqX => ?_, fun hlt => ?_⟩, rfl⟩
  · rw [heqX, L.blockInfo.wholeBlocks_boundary heN] at hm
    omega
  · by_contra h
    have := L.blockInfo.boundary_mono (show e ≤ m by omega)
    omega

theorem Inv.complete {s : TaskLog} {q : FetchRequest} {r : Reply} (hs : Inv L b e s)
    (heN : e ≤ L.blockInfo.blockCount) (hq : s.phase = .fetching q)
    (hr : r.status = 206 → r.body.length ≤ q.thisChunk) :
    Inv L b e (s.complete L r) := by
  have ⟨hblocks, hend, hph⟩ := hs
  rw [hq] at hph
  obtain ⟨j, hbj, hje, hloc, -, -, -, hdr⟩ := hph
  rcases complete_cases L s r with ⟨-, heq⟩ | ⟨-, -, -, heq⟩ | ⟨hasBlock, -, hok, hcmp, heq⟩ |
    ⟨hasBlock, -, hok, hcmp, heq⟩ <;> rw [heq]
  · -- the torrent is gone: the task stalls where it was
    exact ⟨hblocks, hend, j, hbj, hje, hloc, hdr⟩
  · -- a failed fetch rejects the span from the cursor's block on
    have hblock : s.task.loc.block = j := by
      rw [hloc, L.blockInfo.byteLoc_boundary_block (by omega)]
    exact ⟨hblocks, hend, j, hbj, hje, hblock, by simp [hblocks, hblock], hdr⟩
  all_goals
    obtain ⟨j, m, hbj, hje, hjm, hme, hloc, hrecv, -, hdr, -, hjm', hmX, hX1, hiff, hdrain⟩ :=
      hs.drain heN hq (hr hok) hasBlock
    have hdr' : (s.drained ++ drainedFrom L.blockInfo hasBlock j
        (s.task.content ++ r.body) m).map Drained.block = List.range' b (m - b) := by
      rw [List.map_append, hdr, drainedFrom_blocks, show m - b = (m - j) + (j - b) by omega,
        ← List.range'_append_1, show b + (j - b) = j by omega]
    rw [hdrain] at hcmp ⊢
    simp only [byteLoc_byte, hend] at hcmp
  · -- data is still missing: the next chunk from boundary `m`
    have hmE : m < e := by
      by_contra h
      have := L.blockInfo.boundary_mono (show e ≤ m by omega)
      omega
    refine ⟨hblocks, hend, m, by omega, hmE, rfl, ?_, ?_, rfl, hdr'⟩
    · have := hiff.mp hmE
      simp only [List.length_drop, List.length_append]; omega
    · simp only [List.length_drop, List.length_append]; omega
  · -- the span is complete
    have hme' : m = e := by
      by_contra h
      have := L.blockInfo.boundary_lt_boundary (show m < e by omega) (by omega)
      omega
    subst hme'
    refine ⟨hblocks, hend, by simp, ?_, ?_, hdr'⟩
    · simp only [List.drop_eq_nil_iff, List.length_append]; omega
    · simp only [List.length_append]; omega

theorem Inv.step {s : TaskLog} (hs : Inv L b e s) (heN : e ≤ L.blockInfo.blockCount)
    {answer : FetchRequest → Reply}
    (hr : ∀ q, s.phase = .fetching q → (answer q).status = 206 →
      (answer q).body.length ≤ q.thisChunk) :
    Inv L b e (s.step L answer) := by
  rcases hq : s.phase with q | _ | _ | _
  · rw [step_fetching L hq]; exact hs.complete heN hq (hr q hq)
  all_goals rw [step_of_not_fetching L (by simp [hq])]; exact hs

theorem Inv.run {span : BlockSpan} (hspan : span.begin < span.end)
    (hend : span.end ≤ L.blockInfo.blockCount) {answer : Nat → FetchRequest → Reply}
    (hr : ∀ k q, (run L span answer k).phase = .fetching q → (answer k q).status = 206 →
      (answer k q).body.length ≤ q.thisChunk) :
    ∀ n, Inv L span.begin span.end (run L span answer n)
  | 0 => Inv.start hspan hend
  | n + 1 => (Inv.run hspan hend hr n).step hend (hr n)

theorem Inv.drained_blocks {s : TaskLog} (hs : Inv L b e s) :
    ∃ j, j ≤ e ∧ s.drained.map Drained.block = List.range' b (j - b) := by
  obtain ⟨-, -, hph⟩ := hs
  split at hph
  · obtain ⟨j, -, hje, -, -, -, -, h⟩ := hph; exact ⟨j, hje.le, h⟩
  · obtain ⟨j, -, hje, -, h⟩ := hph; exact ⟨j, hje.le, h⟩
  · obtain ⟨j, -, hje, -, -, h⟩ := hph; exact ⟨j, hje.le, h⟩
  · exact ⟨e, le_rfl, hph.2.2.2⟩

/-! ## The data invariant -/

variable (L b) (content : Nat → UInt8)

/-- For a torrent whose bytes are `content`: every pass took its block's own bytes, the received
bytes are the torrent's from the span's start on, and while fetching the buffer holds the
torrent's bytes from the cursor on. -/
def DataInv (s : TaskLog) : Prop :=
  (∀ d ∈ s.drained, d.data = blockBytes L.blockInfo content d.block) ∧
  s.received = torrentBytes content (L.blockInfo.boundary b) s.received.length ∧
  ∀ q, s.phase = .fetching q →
    s.task.content = torrentBytes content s.task.loc.byte s.task.content.length

variable {L b content}

theorem DataInv.start (span : BlockSpan) : DataInv L span.begin content (start L span) :=
  ⟨by simp [TaskLog.start], by simp [TaskLog.start, torrentBytes],
    fun _ _ => by simp [TaskLog.start, Task.new, torrentBytes]⟩

theorem body_eq_torrentBytes {body : List UInt8} {q : FetchRequest}
    (h : body <+: L.requestedBytes content q.fileIndex q.fileOffset q.thisChunk) :
    body = torrentBytes content (fileBegin L.fileSizes q.fileIndex + q.fileOffset) body.length ∧
      body.length ≤ q.thisChunk := by
  have hlen := h.length_le
  simp only [FileLayout.requestedBytes, List.length_map, List.length_range'] at hlen
  refine ⟨?_, hlen⟩
  rw [List.prefix_iff_eq_take.mp h]
  simp only [FileLayout.requestedBytes, List.length_take, List.length_map, List.length_range',
    Nat.min_eq_left hlen]
  exact torrentBytes_take content _ _ _ hlen

theorem DataInv.complete {s : TaskLog} {q : FetchRequest} {r : Reply} (hs : Inv L b e s)
    (hd : DataInv L b content s) (heN : e ≤ L.blockInfo.blockCount) (hq : s.phase = .fetching q)
    (hr : r.status = 206 →
      r.body <+: L.requestedBytes content q.fileIndex q.fileOffset q.thisChunk) :
    DataInv L b content (s.complete L r) := by
  obtain ⟨hdrd, hrec, hcont⟩ := hd
  have hc := hcont q hq
  rcases complete_cases L s r with ⟨-, heq⟩ | ⟨-, -, -, heq⟩ | ⟨hasBlock, -, hok, -, heq⟩ |
    ⟨hasBlock, -, hok, -, heq⟩ <;> rw [heq]
  · exact ⟨hdrd, hrec, fun _ h => by simp at h⟩
  · exact ⟨hdrd, hrec, fun _ h => by simp at h⟩
  all_goals
    obtain ⟨hbody, hlen⟩ := body_eq_torrentBytes (hr hok)
    obtain ⟨j, m, hbj, hje, hjm, hme, hloc, hrecv, -, -, hstart, hjm', hmX, hX1, -, hdrain⟩ :=
      hs.drain heN hq hlen hasBlock
    rw [hstart] at hbody
    rw [hloc, byteLoc_byte] at hc
    have hc1 : s.task.content ++ r.body = torrentBytes content (L.blockInfo.boundary j)
        (s.task.content.length + r.body.length) := by
      rw [torrentBytes_add, ← hc, ← hbody]
    rw [hdrain]
    have hdrd' : ∀ d ∈ s.drained ++ drainedFrom L.blockInfo hasBlock j
        (s.task.content ++ r.body) m, d.data = blockBytes L.blockInfo content d.block := by
      intro d hd
      rcases List.mem_append.mp hd with hd | hd
      · exact hdrd d hd
      · rw [hc1] at hd
        exact drainedFrom_torrentBytes L.blockInfo hasBlock content (by omega) hmX d hd
    have hrec' : s.received ++ r.body = torrentBytes content (L.blockInfo.boundary b)
        (s.received ++ r.body).length := by
      rw [List.length_append, torrentBytes_add, ← hrec, ← hrecv, ← hbody]
  · refine ⟨hdrd', hrec', fun _ _ => ?_⟩
    simp only [byteLoc_byte]
    rw [hc1, torrentBytes_drop _ _ _ _ (by omega), torrentBytes_length]
    congr 1
    omega
  · exact ⟨hdrd', hrec', fun _ h => by simp at h⟩

theorem DataInv.step {s : TaskLog} (hs : Inv L b e s) (hd : DataInv L b content s)
    (heN : e ≤ L.blockInfo.blockCount) {answer : FetchRequest → Reply}
    (hr : ∀ q, s.phase = .fetching q → (answer q).status = 206 →
      (answer q).body <+: L.requestedBytes content q.fileIndex q.fileOffset q.thisChunk) :
    DataInv L b content (s.step L answer) := by
  rcases hq : s.phase with q | _ | _ | _
  · rw [step_fetching L hq]; exact hd.complete hs heN hq (hr q hq)
  all_goals rw [step_of_not_fetching L (by simp [hq])]; exact hd

theorem DataInv.run {span : BlockSpan} (hspan : span.begin < span.end)
    (hend : span.end ≤ L.blockInfo.blockCount) {answer : Nat → FetchRequest → Reply}
    (hr : ∀ k q, (run L span answer k).phase = .fetching q → (answer k q).status = 206 →
      (answer k q).body <+: L.requestedBytes content q.fileIndex q.fileOffset q.thisChunk) :
    ∀ n, DataInv L span.begin content (run L span answer n)
  | 0 => DataInv.start span
  | n + 1 =>
    (DataInv.run hspan hend hr n).step
      (Inv.run hspan hend (fun k q hq h => (body_eq_torrentBytes (hr k q hq h)).2) n) hend (hr n)

end TaskLog

end LibTransmission
