import LibTransmission.Webseed.TaskRun

/-!
# The range requests of a task

What `task_request_next_chunk` asks the server for, over a whole run of one task.

* `Inv.request_spec` : the request in flight names one file and a nonempty range inside it,
  starting at the first byte of the span not yet received and ending at or before `end_byte`;
* `FileLayout.Covers` : requests laid one after another over a byte range, one per file it meets,
  in ascending file order; `Covers.snoc` adds the next request;
* `ReqInv` : against complete answers, the requests sent so far cover the span up to the end of
  the one in flight (`ReqInv.start`, `ReqInv.complete`, `ReqInv.run`);
* `run_requests_partition_span` : each request is well formed, and against complete answers with
  the torrent there the task retires after at most `end_byte - start_byte` answers, its requests
  partitioning the span; `run_requests_stop_without_torrent` : a completion finding the torrent
  gone ends the requests short of the span's end.
-/

namespace LibTransmission

open BlockInfo

namespace FileLayout

variable (L : FileLayout)

/-- The first torrent byte a request asks for. -/
def requestStart (q : FetchRequest) : Nat := fileBegin L.fileSizes q.fileIndex + q.fileOffset

/-- The requests `qs` ask, one after another, for the torrent bytes `[x, y)`: each starts where
the one before it ended and asks for at least one byte. -/
def Tiles : Nat → List FetchRequest → Nat → Prop
  | x, [], y => x = y
  | x, q :: qs, y => L.requestStart q = x ∧ 0 < q.thisChunk ∧ Tiles (x + q.thisChunk) qs y

/-- File `i` holds a byte of `[x, y)`. -/
def Meets (i x y : Nat) : Prop := ∃ z, x ≤ z ∧ z < y ∧ ContainsByte L.fileSizes i z

/-- The requests `rs` partition `[x, y)`, in ascending file order, one for each file meeting it. -/
def Covers (x : Nat) (rs : List FetchRequest) (y : Nat) : Prop :=
  L.Tiles x rs y ∧ (rs.map FetchRequest.fileIndex).Pairwise (· < ·) ∧
    ∀ i, i ∈ rs.map FetchRequest.fileIndex ↔ L.Meets i x y

variable {L}

theorem Tiles.le : ∀ {x y : Nat} {rs : List FetchRequest}, L.Tiles x rs y → x ≤ y
  | _, _, [], h => Nat.le_of_eq h
  | _, _, _ :: _, h => Nat.le_trans (Nat.le_add_right _ _) (Tiles.le h.2.2)

theorem Tiles.snoc : ∀ {x y : Nat} {rs : List FetchRequest} {q : FetchRequest},
    L.Tiles x rs y → L.requestStart q = y → 0 < q.thisChunk →
    L.Tiles x (rs ++ [q]) (y + q.thisChunk)
  | _, _, [], _, h, hq, hpos => ⟨hq.trans h.symm, hpos, by rw [h]; rfl⟩
  | _, _, _ :: _, _, h, hq, hpos => ⟨h.1, h.2.1, Tiles.snoc h.2.2 hq hpos⟩

theorem Meets.mono {i x y y' : Nat} (h : L.Meets i x y) (hy : y ≤ y') : L.Meets i x y' :=
  let ⟨z, h1, h2, h3⟩ := h
  ⟨z, h1, Nat.lt_of_lt_of_le h2 hy, h3⟩

theorem requestStart_add_of_fileEnd {q : FetchRequest} (hi : q.fileIndex < L.fileSizes.length)
    (h : q.fileOffset + q.thisChunk = L.fileSize q.fileIndex) :
    L.requestStart q + q.thisChunk = fileBegin L.fileSizes (q.fileIndex + 1) := by
  unfold requestStart
  unfold fileSize at h
  rw [fileBegin_succ _ hi]
  omega

theorem lt_of_containsByte {i j x : Nat} (hj : ContainsByte L.fileSizes j x)
    (hx : fileBegin L.fileSizes (i + 1) ≤ x) : i < j := by
  by_contra hle
  have := fileBegin_mono L.fileSizes (show j + 1 ≤ i + 1 by omega)
  have := fileBegin_succ L.fileSizes hj.1
  have := hj.2.2
  omega

theorem containsByte_of_request {q : FetchRequest} (hi : q.fileIndex < L.fileSizes.length)
    (hfit : q.fileOffset + q.thisChunk ≤ L.fileSize q.fileIndex) {z : Nat}
    (h1 : L.requestStart q ≤ z) (h2 : z < L.requestStart q + q.thisChunk) :
    ContainsByte L.fileSizes q.fileIndex z := by
  unfold requestStart at h1 h2
  unfold fileSize at hfit
  exact ⟨hi, by omega, by omega⟩

theorem Covers.nil (x : Nat) : L.Covers x [] x :=
  ⟨rfl, List.Pairwise.nil, fun _ => ⟨fun h => by simp at h, fun ⟨_, h1, h2, _⟩ => by omega⟩⟩

theorem Covers.snoc {x y : Nat} {rs : List FetchRequest} {q : FetchRequest} (h : L.Covers x rs y)
    (hlt : ∀ a ∈ rs.map FetchRequest.fileIndex, a < q.fileIndex) (hstart : L.requestStart q = y)
    (hpos : 0 < q.thisChunk) (hi : q.fileIndex < L.fileSizes.length)
    (hfit : q.fileOffset + q.thisChunk ≤ L.fileSize q.fileIndex) :
    L.Covers x (rs ++ [q]) (y + q.thisChunk) := by
  obtain ⟨htiles, hpair, hmem⟩ := h
  have hxy := htiles.le
  refine ⟨htiles.snoc hstart hpos, ?_, fun i => ?_⟩
  · rw [List.map_append, List.pairwise_append]
    exact ⟨hpair, List.pairwise_singleton _ _, fun a ha _ hb => by
      rw [List.mem_singleton.mp hb]; exact hlt a ha⟩
  · rw [List.map_append, List.mem_append, hmem, List.map_singleton, List.mem_singleton]
    constructor
    · rintro (hm | rfl)
      · exact hm.mono (Nat.le_add_right _ _)
      · exact ⟨y, hxy, by omega, containsByte_of_request hi hfit (by omega) (by omega)⟩
    · rintro ⟨z, h1, h2, hz⟩
      by_cases hzy : z < y
      · exact .inl ⟨z, h1, hzy, hz⟩
      · exact .inr (hz.unique (containsByte_of_request hi hfit (by omega) (by omega)))

end FileLayout

namespace TaskLog

variable {L : FileLayout} {b e : Nat}

/-- The request in flight of a task keeping `Inv`: it asks for the rest of the file holding the
first byte not received, cut at the span's end, and for at least one byte. -/
theorem Inv.request_spec {s : TaskLog} {q : FetchRequest} (hs : Inv L b e s)
    (hq : s.phase = .fetching q) :
    ContainsByte L.fileSizes q.fileIndex (L.blockInfo.boundary b + s.received.length) ∧
      L.requestStart q = L.blockInfo.boundary b + s.received.length ∧ 0 < q.thisChunk ∧
      q.fileOffset + q.thisChunk ≤ L.fileSize q.fileIndex ∧
      L.blockInfo.boundary b + s.received.length + q.thisChunk ≤ L.blockInfo.boundary e ∧
      (q.fileOffset + q.thisChunk = L.fileSize q.fileIndex ∨
        L.blockInfo.boundary b + s.received.length + q.thisChunk = L.blockInfo.boundary e) ∧
      L.blockInfo.boundary b + s.received.length < L.blockInfo.boundary e := by
  obtain ⟨-, hend, hph⟩ := hs
  rw [hq] at hph
  obtain ⟨j, -, -, hloc, hX, hrecv, rfl, -⟩ := hph
  have hx : s.task.loc.byte + s.task.content.length = L.blockInfo.boundary b + s.received.length := by
    rw [hloc, byteLoc_byte, hrecv]
  have hxe : L.blockInfo.boundary b + s.received.length < s.task.endByte := by rwa [hend, ← hrecv]
  obtain ⟨hc, hstart, hpos, hfit, hle, hmin⟩ :=
    taskRequestNextChunk_spec hx hxe (by rw [hend]; simpa using L.blockInfo.boundary_le e)
  rw [hend] at hle hmin hxe
  refine ⟨hc, hstart, hpos, hfit, hle, ?_, hxe⟩
  rw [Nat.min_def] at hmin
  split at hmin <;> omega

theorem complete_of_success {s : TaskLog} {r : Reply} (h206 : r.status = 206)
    {hasBlock : Nat → Bool} (hh : r.torrent = some hasBlock) :
    (s.complete L r).received = s.received ++ r.body ∧
      ((∃ q', (s.complete L r).phase = .fetching q' ∧
          (s.complete L r).requests = s.requests ++ [q']) ∨
        ((s.complete L r).phase = .retired ∧ (s.complete L r).requests = s.requests)) := by
  rcases complete_cases L s r with ⟨hnone, -⟩ | ⟨-, -, hf, -⟩ | ⟨_, -, -, -, heq⟩ | ⟨_, -, -, -, heq⟩
  · simp [hh] at hnone
  · exact absurd h206 hf
  all_goals simp [heq]

/-! ## Against complete answers -/

variable (L b e)

/-- The requests against complete answers: while fetching, those sent so far partition the span
from its start to the end of the one in flight, whose file comes last; once retired, they
partition the whole span. No other phase is reached. -/
def ReqInv (s : TaskLog) : Prop :=
  match s.phase with
  | .fetching q =>
    L.Covers (L.blockInfo.boundary b) s.requests
        (L.blockInfo.boundary b + s.received.length + q.thisChunk) ∧
      ∀ a ∈ s.requests.map FetchRequest.fileIndex, a ≤ q.fileIndex
  | .retired => L.Covers (L.blockInfo.boundary b) s.requests (L.blockInfo.boundary e)
  | _ => False

variable {L b e}

theorem ReqInv.start {span : BlockSpan} (hspan : span.begin < span.end)
    (hend : span.end ≤ L.blockInfo.blockCount) :
    ReqInv L span.begin span.end (start L span) := by
  obtain ⟨-, hstart, hpos, hfit, -⟩ := (Inv.start hspan hend).request_spec rfl
  have hcont := ((Inv.start hspan hend).request_spec rfl).1
  refine ⟨(FileLayout.Covers.nil _).snoc (by simp) hstart hpos hcont.1 hfit, ?_⟩
  simp [TaskLog.start]

/-- A complete answer keeps `ReqInv`: the next request names a later file, since the one in
flight asked for the rest of its file. -/
theorem ReqInv.complete {s : TaskLog} {q : FetchRequest} {r : Reply} (hs : Inv L b e s)
    (hr : ReqInv L b e s) (heN : e ≤ L.blockInfo.blockCount) (hq : s.phase = .fetching q)
    (h206 : r.status = 206) (hlen : r.body.length = q.thisChunk) {hasBlock : Nat → Bool}
    (hh : r.torrent = some hasBlock) :
    ReqInv L b e (s.complete L r) := by
  have hs' := hs.complete heN hq fun _ => hlen.le
  unfold ReqInv at hr
  rw [hq] at hr
  obtain ⟨hC, hmax⟩ := hr
  obtain ⟨hcont, hstart, -, -, -, hends, -⟩ := hs.request_spec hq
  obtain ⟨hrecv, ⟨q', hq', hreqs⟩ | ⟨hret, hreqs⟩⟩ := complete_of_success (s := s) (L := L) h206 hh
  · -- the next chunk starts below the span's end, so the one in flight ran to its file's end
    obtain ⟨hcont', hstart', hpos', hfit', -, -, hlt'⟩ := hs'.request_spec hq'
    rw [hrecv, List.length_append, hlen, ← Nat.add_assoc] at hcont' hstart' hlt'
    have hfileEnd := FileLayout.requestStart_add_of_fileEnd hcont.1 (hends.resolve_right (by omega))
    have hqq' : q.fileIndex < q'.fileIndex :=
      FileLayout.lt_of_containsByte hcont' (by rw [← hfileEnd, hstart])
    unfold ReqInv
    rw [hq', hreqs, hrecv, List.length_append, hlen, ← Nat.add_assoc]
    refine ⟨hC.snoc (fun a ha => Nat.lt_of_le_of_lt (hmax a ha) hqq') hstart' hpos' hcont'.1 hfit',
      fun a ha => ?_⟩
    rw [List.map_append, List.mem_append, List.map_singleton, List.mem_singleton] at ha
    rcases ha with ha | rfl
    · exact (Nat.lt_of_le_of_lt (hmax a ha) hqq').le
    · exact le_rfl
  · -- the span is complete: the range covered so far ends at `end_byte`
    have hall := hs'.2.2
    rw [hret] at hall
    rw [hrecv, List.length_append, hlen, ← Nat.add_assoc] at hall
    unfold ReqInv
    rw [hret, hreqs, ← hall.2.2.1]
    exact hC

variable {answer : Nat → FetchRequest → Reply}

theorem ReqInv.run {span : BlockSpan} (hspan : span.begin < span.end)
    (hend : span.end ≤ L.blockInfo.blockCount)
    (full : ∀ k q, (answer k q).status = 206 ∧ (answer k q).body.length = q.thisChunk ∧
      (answer k q).torrent.isSome) :
    ∀ n, ReqInv L span.begin span.end (run L span answer n) ∧
      ((run L span answer n).phase = .retired ∨
        ∃ q, (run L span answer n).phase = .fetching q ∧ n ≤ (run L span answer n).received.length)
  | 0 => ⟨ReqInv.start hspan hend, .inr ⟨_, rfl, Nat.zero_le _⟩⟩
  | n + 1 => by
    obtain ⟨hr, hprog⟩ := ReqInv.run hspan hend full n
    have hs := Inv.run hspan hend (fun k q _ _ => (full k q).2.1.le) n
    rcases hprog with hret | ⟨q, hq, hn⟩
    · rw [TaskLog.run, step_of_not_fetching L (by simp [hret])]
      exact ⟨hr, .inl hret⟩
    · obtain ⟨h206, hlen, hsome⟩ := full n q
      obtain ⟨hasBlock, hh⟩ := Option.isSome_iff_exists.mp hsome
      have hpos := (hs.request_spec hq).2.2.1
      rw [TaskLog.run, step_fetching L hq]
      refine ⟨hr.complete hs hend hq h206 hlen hh, ?_⟩
      obtain ⟨hrecv, ⟨q', hq', -⟩ | ⟨hret, -⟩⟩ := complete_of_success (s := TaskLog.run L span answer n)
        (L := L) h206 hh
      · refine .inr ⟨q', hq', ?_⟩
        rw [hrecv, List.length_append, hlen]
        omega
      · exact .inl hret

/-- The range requests of a task, against answers whose 206 bodies are no longer than asked:
each names a file and a nonempty range inside it (`file_offset + this_chunk ≤ file_size`),
starting at the first byte of `[start_byte, end_byte)` not received and ending at or before
`end_byte`. Against complete answers, the task retires within `end_byte - start_byte` answers and
its requests partition `[start_byte, end_byte)` in ascending file order, one for each file holding
a byte of it. -/
theorem run_requests_partition_span {span : BlockSpan} (hspan : span.begin < span.end)
    (hend : span.end ≤ L.blockInfo.blockCount)
    (bounded : ∀ k q, (answer k q).status = 206 → (answer k q).body.length ≤ q.thisChunk) :
    let startByte := (L.blockInfo.blockLoc span.begin).byte
    let endByte := (Task.new L.blockInfo span).endByte
    (∀ n q, (run L span answer n).phase = .fetching q →
      q.fileIndex < L.fileSizes.length ∧ 0 < q.thisChunk ∧
      q.fileOffset + q.thisChunk ≤ L.fileSize q.fileIndex ∧
      L.requestStart q = startByte + (run L span answer n).received.length ∧
      L.requestStart q + q.thisChunk ≤ endByte) ∧
    ((∀ k q, (answer k q).status = 206 ∧ (answer k q).body.length = q.thisChunk ∧
        (answer k q).torrent.isSome) →
      let s := run L span answer (endByte - startByte)
      s.phase = .retired ∧ L.Tiles startByte s.requests endByte ∧
      (s.requests.map FetchRequest.fileIndex).Pairwise (· < ·) ∧
      ∀ i, i ∈ s.requests.map FetchRequest.fileIndex ↔ L.Meets i startByte endByte) := by
  dsimp only
  have hS : (L.blockInfo.blockLoc span.begin).byte = L.blockInfo.boundary span.begin := by
    rw [blockLoc_byte, L.blockInfo.boundary_of_lt (by omega)]
  rw [hS, endByte_new hspan hend]
  refine ⟨fun n q hq => ?_, fun full => ?_⟩
  · obtain ⟨hcont, hstart, hpos, hfit, hE, -⟩ := (Inv.run hspan hend (fun k q _ => bounded k q) n).request_spec hq
    exact ⟨hcont.1, hpos, hfit, hstart, hstart ▸ hE⟩
  · obtain ⟨hr, hprog⟩ := ReqInv.run hspan hend full
      (L.blockInfo.boundary span.end - L.blockInfo.boundary span.begin)
    have hret : (run L span answer
        (L.blockInfo.boundary span.end - L.blockInfo.boundary span.begin)).phase = .retired := by
      rcases hprog with hret | ⟨q, hq, hn⟩
      · exact hret
      · have := ((Inv.run hspan hend (fun k q _ _ => (full k q).2.1.le) _).request_spec hq).2.2.2.2.2.2
        omega
    unfold ReqInv at hr
    rw [hret] at hr
    exact ⟨hret, hr⟩

/-- A span of one block over files of sizes 2, 0 and 1: the empty file is passed over, and two
requests, for file 0 and file 2, partition the block. -/
theorem run_requests_partition_span_three_files :
    let L := FileLayout.ofSizes [2, 0, 1]
    let answer := completeAnswer L fun x => x.toUInt8
    let startByte := (L.blockInfo.blockLoc 0).byte
    let endByte := (Task.new L.blockInfo ⟨0, 1⟩).endByte
    (∀ n q, (run L ⟨0, 1⟩ answer n).phase = .fetching q →
      q.fileIndex < L.fileSizes.length ∧ 0 < q.thisChunk ∧
      q.fileOffset + q.thisChunk ≤ L.fileSize q.fileIndex ∧
      L.requestStart q = startByte + (run L ⟨0, 1⟩ answer n).received.length ∧
      L.requestStart q + q.thisChunk ≤ endByte) ∧
    ((∀ k q, (answer k q).status = 206 ∧ (answer k q).body.length = q.thisChunk ∧
        (answer k q).torrent.isSome) →
      let s := run L ⟨0, 1⟩ answer (endByte - startByte)
      s.phase = .retired ∧ L.Tiles startByte s.requests endByte ∧
      (s.requests.map FetchRequest.fileIndex).Pairwise (· < ·) ∧
      ∀ i, i ∈ s.requests.map FetchRequest.fileIndex ↔ L.Meets i startByte endByte) :=
  run_requests_partition_span (L := FileLayout.ofSizes [2, 0, 1])
    (show (⟨0, 1⟩ : BlockSpan).begin < (⟨0, 1⟩ : BlockSpan).end by decide)
    (by decide) fun _ q _ => by simp [completeAnswer, FileLayout.requestedBytes]

/-- When the torrent is gone by the time the first complete answer arrives, a task over a block
straddling two files sends the request for the first file only and never another, so its
requests stop at byte 2 of the span's 3. -/
theorem run_requests_stop_without_torrent :
    let L := FileLayout.ofSizes [2, 1]
    let answer : Nat → FetchRequest → Reply := fun _ q =>
      ⟨206, L.requestedBytes (fun _ => 0) q.fileIndex q.fileOffset q.thisChunk, none⟩
    (Task.new L.blockInfo ⟨0, 1⟩).endByte = 3 ∧
      ∀ m, 1 ≤ m → (run L ⟨0, 1⟩ answer m).phase = .stalled ∧
        (run L ⟨0, 1⟩ answer m).requests = [⟨0, 0, 2⟩] := by
  intro L answer
  refine ⟨by decide, fun m hm => ?_⟩
  rw [run_of_stalled L (n := 1) (by decide) hm]
  decide

end TaskLog

end LibTransmission
