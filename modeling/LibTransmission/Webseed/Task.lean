import LibTransmission.FileLayout

/-!
# Web tasks

`tr_webseed_task` and what webseed.cc does with one task:

* `Task.new` : the constructor; `endByte` is the end of the span's last block;
* `useFetchedBlocks` : the drain loop, run by `drainLoop` with the buffer length as fuel, since
  each pass takes at least one byte from the buffer (`BlockInfo.blockSize_pos`), and its
  `TR_ASSERT`s on the cursor after each pass (`useFetchedBlocksAsserts`);
* `taskRequestNextChunk` : the range request for the rest of the file the next byte lies in;
* `Task.onFetched` : `onPartialDataFetched` on a live task, once the limiter is told and the
  torrent is found: reject the rest of the span, or drain and then continue or retire.
-/

namespace LibTransmission

open BlockInfo

/-- `tr_block_span_t`: the blocks `begin, ..., end - 1`. -/
structure BlockSpan where
  begin : Nat
  «end» : Nat
  deriving Repr, DecidableEq

/-- `tr_webseed_task`, without its webseed and session pointers (one webseed of one session is
modelled): the span, the end of its last block, the cursor (the next block to save), the
response buffer, and the flag the webseed's destructor sets. -/
structure Task where
  blocks : BlockSpan
  endByte : Nat
  loc : Location
  content : List UInt8
  dead : Bool
  deriving Repr, DecidableEq

/-- `tr_webseed_task::tr_webseed_task`. -/
def Task.new (bi : BlockInfo) (blocks : BlockSpan) : Task where
  blocks := blocks
  endByte := (bi.blockLoc (blocks.end - 1)).byte + bi.blockSize (blocks.end - 1)
  loc := bi.blockLoc blocks.begin
  content := []
  dead := false

/-- The HTTP layer adds `bytes` to the task's buffer, which the fetch was given as
`options.buffer`. -/
def Task.append (task : Task) (bytes : List UInt8) : Task :=
  { task with content := task.content ++ bytes }

@[simp] theorem Task.append_blocks (task : Task) (bytes : List UInt8) :
    (task.append bytes).blocks = task.blocks := rfl
@[simp] theorem Task.append_endByte (task : Task) (bytes : List UInt8) :
    (task.append bytes).endByte = task.endByte := rfl
@[simp] theorem Task.append_loc (task : Task) (bytes : List UInt8) :
    (task.append bytes).loc = task.loc := rfl
@[simp] theorem Task.append_content (task : Task) (bytes : List UInt8) :
    (task.append bytes).content = task.content ++ bytes := rfl
@[simp] theorem Task.append_dead (task : Task) (bytes : List UInt8) :
    (task.append bytes).dead = task.dead := rfl

/-- One pass of the loop in `useFetchedBlocks`: the block at the cursor, the `block_size` bytes
taken from the front of the buffer, and what `has_block` answered. Held blocks are drained;
the others go to the cache in a `write_block_data`. -/
structure Drained where
  block : Nat
  data : List UInt8
  held : Bool
  deriving Repr, DecidableEq

/-- The `for (;;)` loop of `useFetchedBlocks`, from cursor `loc` over buffer `buf`. -/
def drainLoop (bi : BlockInfo) (hasBlock : Nat → Bool) :
    Nat → Location → List UInt8 → Location × List UInt8 × List Drained
  | 0, loc, buf => (loc, buf, [])
  | fuel + 1, loc, buf =>
    let blockSize := bi.blockSize loc.block
    if buf.length < blockSize then (loc, buf, [])
    else
      let r := drainLoop bi hasBlock fuel (bi.byteLoc (loc.byte + blockSize)) (buf.drop blockSize)
      (r.1, r.2.1, ⟨loc.block, buf.take blockSize, hasBlock loc.block⟩ :: r.2.2)

/-- `useFetchedBlocks`, once `getTorrent()` has found the torrent, whose `has_block` is
`hasBlock`: the task with its new cursor and buffer, and the passes of the loop. -/
def useFetchedBlocks (bi : BlockInfo) (hasBlock : Nat → Bool) (task : Task) :
    Task × List Drained :=
  let r := drainLoop bi hasBlock task.content.length task.loc task.content
  ({ task with loc := r.1, content := r.2.1 }, r.2.2)

/-- The cursors the loop of `useFetchedBlocks` moves the task to, one per pass, from cursor `loc`
over buffer `buf`: where its two `TR_ASSERT`s look. -/
def drainCursors (bi : BlockInfo) : Nat → Location → List UInt8 → List Location
  | 0, _, _ => []
  | fuel + 1, loc, buf =>
    let blockSize := bi.blockSize loc.block
    if buf.length < blockSize then []
    else
      bi.byteLoc (loc.byte + blockSize) ::
        drainCursors bi fuel (bi.byteLoc (loc.byte + blockSize)) (buf.drop blockSize)

/-- `TR_ASSERT(task->loc.byte <= task->end_byte)` and
`TR_ASSERT(task->loc.byte == task->end_byte || task->loc.block_offset == 0)`. -/
def cursorAsserts (endByte : Nat) (loc : Location) : Bool :=
  decide (loc.byte ≤ endByte) && (loc.byte == endByte || loc.blockOffset == 0)

/-- The `TR_ASSERT`s of `useFetchedBlocks`, at the end of each pass of its loop. -/
def useFetchedBlocksAsserts (bi : BlockInfo) (task : Task) : Bool :=
  (drainCursors bi task.content.length task.loc task.content).all (cursorAsserts task.endByte)

/-- `TR_ASSERT(evbuffer_get_length(task->content()) == 0)` and
`TR_ASSERT(task->loc.byte == task->end_byte)` of `onPartialDataFetched`, on a task whose span is
done. -/
def retireAsserts (task : Task) : Bool :=
  task.content.isEmpty && task.loc.byte == task.endByte

/-- The range request of `task_request_next_chunk`: bytes `fileOffset` to
`fileOffset + thisChunk - 1` of file `fileIndex`. The URL is `makeUrl` of the file's subpath and
the speed limit tag is the torrent's id; neither is read by a modelled function. -/
structure FetchRequest where
  fileIndex : Nat
  fileOffset : Nat
  thisChunk : Nat
  deriving Repr, DecidableEq

/-- The inclusive `Range` the request formats. -/
def FetchRequest.range (q : FetchRequest) : Nat × Nat := (q.fileOffset, q.fileOffset + q.thisChunk - 1)

/-- `task_request_next_chunk`, once `getTorrent()` has found the torrent: the request for the
rest of the file holding the first byte not yet buffered, cut at the task's end. -/
def taskRequestNextChunk (L : FileLayout) (task : Task) : FetchRequest :=
  let loc := L.blockInfo.byteLoc (task.loc.byte + task.content.length)
  let fileIndex := (L.fileOffset loc.byte).1
  let fileOffset := (L.fileOffset loc.byte).2
  let leftInFile := L.fileSize fileIndex - fileOffset
  let leftInTask := task.endByte - loc.byte
  { fileIndex, fileOffset, thisChunk := min leftInFile leftInTask }

/-- What `onPartialDataFetched` does with a live task whose torrent is still there. -/
inductive Outcome
  /-- The fetch failed: `GotRejected` for these blocks; the task is erased and freed. -/
  | rejected (blocks : List Nat)
  /-- Data is still missing: the task drained its buffer and requests the next chunk. -/
  | next (task : Task) (drained : List Drained) (req : FetchRequest)
  /-- The span is done: the task drained its buffer, is erased and freed, and `on_idle` runs. -/
  | retired (task : Task) (drained : List Drained)
  deriving Repr

/-- `onPartialDataFetched` after `taskFinished(success)` and `getTorrent()`; `success` is
`status == 206`. -/
def Task.onFetched (L : FileLayout) (hasBlock : Nat → Bool) (success : Bool) (task : Task) :
    Outcome :=
  if !success then .rejected (List.range' task.loc.block (task.blocks.end - task.loc.block))
  else
    let r := useFetchedBlocks L.blockInfo hasBlock task
    if r.1.loc.byte < r.1.endByte then .next r.1 r.2 (taskRequestNextChunk L r.1)
    else .retired r.1 r.2

@[simp] theorem useFetchedBlocks_blocks (bi : BlockInfo) (h : Nat → Bool) (task : Task) :
    (useFetchedBlocks bi h task).1.blocks = task.blocks := rfl

@[simp] theorem useFetchedBlocks_endByte (bi : BlockInfo) (h : Nat → Bool) (task : Task) :
    (useFetchedBlocks bi h task).1.endByte = task.endByte := rfl

@[simp] theorem useFetchedBlocks_dead (bi : BlockInfo) (h : Nat → Bool) (task : Task) :
    (useFetchedBlocks bi h task).1.dead = task.dead := rfl

/-- The three things `onPartialDataFetched` can do with a live task. -/
theorem Task.onFetched_cases (L : FileLayout) (h : Nat → Bool) (success : Bool) (task : Task) :
    (success = false ∧ task.onFetched L h success =
      .rejected (List.range' task.loc.block (task.blocks.end - task.loc.block))) ∨
    (success = true ∧ (useFetchedBlocks L.blockInfo h task).1.loc.byte < task.endByte ∧
      task.onFetched L h success = .next (useFetchedBlocks L.blockInfo h task).1
        (useFetchedBlocks L.blockInfo h task).2
        (taskRequestNextChunk L (useFetchedBlocks L.blockInfo h task).1)) ∨
    (success = true ∧ task.endByte ≤ (useFetchedBlocks L.blockInfo h task).1.loc.byte ∧
      task.onFetched L h success = .retired (useFetchedBlocks L.blockInfo h task).1
        (useFetchedBlocks L.blockInfo h task).2) := by
  unfold Task.onFetched
  cases success
  · exact .inl ⟨rfl, rfl⟩
  · by_cases hlt : (useFetchedBlocks L.blockInfo h task).1.loc.byte < task.endByte
    · exact .inr (.inl ⟨rfl, hlt, by simp [hlt]⟩)
    · exact .inr (.inr ⟨rfl, by omega, by simp [hlt]⟩)

end LibTransmission
