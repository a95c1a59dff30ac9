import MiniRedis.Protocol.Grammar
import MiniRedis.Server.Connection

/-!
# Segmentation of the stream

What a connection does on a stream that is cut into chunks. As long as nothing is
malformed, the cuts make no difference (`outer_loop_of_wait`). A malformed request throws
away what is in the buffer, and that is what the last chunk brought: the bytes behind it
are dropped or executed depending on the cuts. `cuttings_agree_iff` says exactly when no
two cuttings differ.
-/

namespace MiniRedis

namespace RespParser

/-- Asterisks alone are the start of a request. -/
theorem parse_asterisks {raw : Bytes} (h : ∀ byte ∈ raw, byte = 42) : respVerdict raw = .wait := by
  rw [verdict_wait_iff]
  cases raw with
  | nil => exact ⟨_, rfl⟩
  | cons first rest =>
      obtain rfl : first = 42 := h first List.mem_cons_self
      have hnone : findCrlf rest = none := find_crlf_none fun byte hbyte => by
        rw [h byte (List.mem_cons_of_mem _ hbyte)]
        decide
      refine ⟨"missing CRLF after array length", ?_⟩
      simp [parseOne, array_mark, readNumberLine, hnone, bind, Except.bind]
      rfl

/-- A buffer that does not start with an asterisk is malformed. -/
theorem parse_other {first : UInt8} {rest : Bytes} (h : first ≠ 42) :
    respVerdict (first :: rest) = .fail "expected RESP array" := by
  rw [verdict_fail_iff]
  simp [parseOne, array_mark, h]

end RespParser

namespace Session

variable {σ : Type} (dispatch : Command → Py σ Response)

/-- What one chunk leaves, in closed form. -/
def deliver (session : Session σ) (chunk : Bytes) : Session σ :=
  if session.closed then session else session.settle dispatch (session.buffer ++ chunk)

/-- The outer loop ends, and each chunk is delivered in order. -/
theorem outer_loop_spec (chunks : List Bytes) (hchunks : ∀ chunk ∈ chunks, chunk ≠ [])
    (session : Session σ) :
    outerLoop dispatch session chunks = some (chunks.foldl (deliver dispatch) session) := by
  induction chunks generalizing session with
  | nil => rfl
  | cons chunk rest ih =>
      rw [outerLoop, if_neg (hchunks chunk List.mem_cons_self), receive_spec]
      exact ih (fun other hother => hchunks other (List.mem_cons_of_mem _ hother)) _

variable {dispatch}

/-- A closed connection stays as it is. -/
theorem deliver_closed {session : Session σ} (h : session.closed = true) (chunks : List Bytes) :
    chunks.foldl (deliver dispatch) session = session := by
  induction chunks with
  | nil => rfl
  | cons chunk rest ih => rw [List.foldl_cons, deliver, if_pos h, ih]

/-- After a delivery that leaves the parser waiting, the next one settles what both brought. -/
theorem settle_append_wait {raw : Bytes} (h : (respParser.split raw).error = none) (more : Bytes)
    (session : Session σ) :
    session.settle dispatch (raw ++ more) =
      (session.settle dispatch raw).deliver dispatch more := by
  simp only [settle, deliver, Incremental.StableParser.split_append_wait h, Service.serve_append, h]
  cases hraised : (Service.serve dispatch (respParser.split raw).items session.world).raised with
  | true => simp [hraised]
  | false => simp [List.append_assoc]

/-- Behind a malformed request, the rest of the chunk makes no difference. -/
theorem settle_append_fail {raw : Bytes} {message : String}
    (h : (respParser.split raw).error = some message) (more : Bytes) (session : Session σ) :
    session.settle dispatch (raw ++ more) = session.settle dispatch raw := by
  simp [settle, Incremental.StableParser.split_append_fail h, h]

/-- The handler waits for more data. -/
structure Waiting (session : Session σ) : Prop where
  isOpen : session.closed = false
  wait : respVerdict session.buffer = .wait

/-- A new connection waits for data. -/
theorem waiting_start (world : σ) : (start world).Waiting := ⟨rfl, rfl⟩

/-- While nothing arrives, nothing happens. -/
theorem Waiting.settle {session : Session σ} (h : session.Waiting) :
    session.settle dispatch session.buffer = session := by
  obtain ⟨buffer, world, dispatched, written, closed⟩ := session
  obtain ⟨rfl, hwait⟩ := h
  have hsplit : respParser.split buffer = ⟨[], buffer, none⟩ :=
    Incremental.StableParser.split_wait hwait
  simp [Session.settle, hsplit, Service.serve]

/-- An open connection that was settled waits. -/
theorem waiting_settle (session : Session σ) (raw : Bytes)
    (h : (session.settle dispatch raw).closed = false) : (session.settle dispatch raw).Waiting := by
  refine ⟨h, ?_⟩
  have hraised :
      (Service.serve dispatch (respParser.split raw).items session.world).raised = false :=
    h
  have hrest := respParser.parse_rest raw
  cases herror : (respParser.split raw).error with
  | none =>
      rw [herror] at hrest
      have hbuffer : (session.settle dispatch raw).buffer = (respParser.split raw).rest := by
        simp [Session.settle, hraised, herror]
      rw [hbuffer]
      exact hrest
  | some message => simp [Session.settle, hraised, herror, respVerdict, RespParser.parseOne]

/-- The buffer of an open connection that was settled without a malformed request. -/
theorem buffer_settle (session : Session σ) {raw : Bytes}
    (h : (session.settle dispatch raw).closed = false)
    (herror : (respParser.split raw).error = none) :
    (session.settle dispatch raw).buffer = (respParser.split raw).rest := by
  have hraised :
      (Service.serve dispatch (respParser.split raw).items session.world).raised = false :=
    h
  simp [Session.settle, hraised, herror]

/-- As long as nothing is malformed, the cuts make no difference. -/
theorem run_of_wait (dispatch : Command → Py σ Response) (chunks : List Bytes)
    {session : Session σ} (hwaiting : session.Waiting)
    (h : (respParser.split (session.buffer ++ chunks.flatten)).error = none) :
    chunks.foldl (deliver dispatch) session =
      session.settle dispatch (session.buffer ++ chunks.flatten) := by
  induction chunks generalizing session with
  | nil => simpa using hwaiting.settle.symm
  | cons chunk rest ih =>
      rw [List.flatten_cons, ← List.append_assoc] at h ⊢
      have hfirst : (respParser.split (session.buffer ++ chunk)).error = none := by
        cases herror : (respParser.split (session.buffer ++ chunk)).error with
        | none => rfl
        | some message =>
            rw [Incremental.StableParser.split_append_fail herror] at h
            cases h
      have hdeliver : session.deliver dispatch chunk =
          session.settle dispatch (session.buffer ++ chunk) := by
        rw [deliver, if_neg (by simp [hwaiting.isOpen])]
      rw [List.foldl_cons, hdeliver, settle_append_wait hfirst]
      cases hclosed : (session.settle dispatch (session.buffer ++ chunk)).closed with
      | true => rw [deliver_closed hclosed, deliver, if_pos hclosed]
      | false =>
          have hrest := h
          rw [Incremental.StableParser.split_append_wait hfirst,
            ← buffer_settle session hclosed hfirst] at hrest
          rw [ih (waiting_settle session _ hclosed) hrest, deliver, if_neg (by simp [hclosed])]

/-- A malformed request is answered within some chunk, and what stands behind it in later chunks
is left to come. -/
theorem run_of_fail (dispatch : Command → Py σ Response) (chunks : List Bytes)
    {session : Session σ} (hwaiting : session.Waiting) {message : String}
    (h : (respParser.split (session.buffer ++ chunks.flatten)).error = some message) :
    ∃ before after, chunks = before ++ after ∧
      before.foldl (deliver dispatch) session =
        session.settle dispatch (session.buffer ++ chunks.flatten) ∧
      ∃ part, (respParser.split (session.buffer ++ chunks.flatten)).rest =
        part ++ after.flatten ∧ respVerdict part = .fail message := by
  induction chunks generalizing session with
  | nil =>
      refine ⟨[], [], rfl, ?_, (respParser.split (session.buffer ++ [])).rest, by simp, ?_⟩
      · simpa using hwaiting.settle.symm
      · have hrest := respParser.parse_rest (session.buffer ++ [])
        rw [List.flatten_nil] at h
        rwa [h] at hrest
  | cons chunk rest ih =>
      rw [List.flatten_cons, ← List.append_assoc] at h ⊢
      have hdeliver : session.deliver dispatch chunk =
          session.settle dispatch (session.buffer ++ chunk) := by
        rw [deliver, if_neg (by simp [hwaiting.isOpen])]
      cases herror : (respParser.split (session.buffer ++ chunk)).error with
      | some other =>
          -- the first chunk completes the malformed request
          rw [settle_append_fail herror]
          have hsplit := Incremental.StableParser.split_append_fail herror rest.flatten
          rw [hsplit] at h ⊢
          cases h
          have hrest := respParser.parse_rest (session.buffer ++ chunk)
          rw [herror] at hrest
          exact ⟨[chunk], rest, rfl, hdeliver, _, rfl, hrest⟩
      | none =>
          have hsplit := Incremental.StableParser.split_append_wait herror rest.flatten
          rw [settle_append_wait herror]
          cases hclosed : (session.settle dispatch (session.buffer ++ chunk)).closed with
          | true =>
              have hrest := respParser.parse_rest (session.buffer ++ chunk ++ rest.flatten)
              rw [h] at hrest
              refine ⟨chunk :: rest, [], by simp, ?_, _, by simp, hrest⟩
              rw [List.foldl_cons, hdeliver, deliver_closed hclosed, deliver, if_pos hclosed]
          | false =>
              rw [hsplit] at h ⊢
              rw [← buffer_settle session hclosed herror] at h ⊢
              obtain ⟨before, after, hchunks, hrun, hpart⟩ :=
                ih (waiting_settle session _ hclosed) h
              refine ⟨chunk :: before, after, by rw [hchunks]; rfl, ?_, hpart⟩
              rw [List.foldl_cons, hdeliver, hrun, deliver, if_neg (by simp [hclosed])]

/-- Two cuttings of a stream do the same: the handler dispatches the same commands and writes the
same replies. -/
def CuttingsAgree (dispatch : Command → Py σ Response) (world : σ) (stream : Bytes) : Prop :=
  ∀ cuts cuts' : List Bytes, (∀ chunk ∈ cuts, chunk ≠ []) → (∀ chunk ∈ cuts', chunk ≠ []) →
    cuts.flatten = stream → cuts'.flatten = stream →
    ∃ session session', handleClient dispatch world cuts = some session ∧
      handleClient dispatch world cuts' = some session' ∧
      session.dispatched = session'.dispatched ∧ session.written = session'.written

/-- Serving a command before the first malformed request raises, or behind the bytes that make
the request malformed there is nothing but asterisks. -/
def NothingBehindMalformed (dispatch : Command → Py σ Response) (world : σ) (stream : Bytes) :
    Prop :=
  (Service.serve dispatch (respParser.split stream).items world).raised = true ∨
    ∀ part behind message, (respParser.split stream).rest = part ++ behind →
      RespParser.parseOne part = .error (.protocol message) → ∀ byte ∈ behind, byte = 42

/-- With nothing behind a malformed request, every cutting settles the whole stream. -/
theorem run_of_nothing_behind {world : σ} {stream : Bytes}
    (h : NothingBehindMalformed dispatch world stream) {cuts : List Bytes}
    (hcuts : ∀ chunk ∈ cuts, chunk ≠ []) (hflatten : cuts.flatten = stream) :
    ∃ session, handleClient dispatch world cuts = some session ∧
      session.dispatched = ((start world).settle dispatch stream).dispatched ∧
      session.written = ((start world).settle dispatch stream).written := by
  refine ⟨_, outer_loop_spec dispatch cuts hcuts (start world), ?_⟩
  subst hflatten
  cases herror : (respParser.split cuts.flatten).error with
  | none =>
      rw [run_of_wait dispatch cuts (waiting_start world) herror]
      exact ⟨rfl, rfl⟩
  | some message =>
      obtain ⟨before, after, hchunks, hrun, part, hrest, hpart⟩ :=
        run_of_fail dispatch cuts (waiting_start world) herror
      rw [show (start world).buffer ++ cuts.flatten = cuts.flatten from rfl] at hrun hrest
      have hafter : cuts.foldl (deliver dispatch) (start world) =
          after.foldl (deliver dispatch) ((start world).settle dispatch cuts.flatten) := by
        rw [← hrun, ← List.foldl_append, ← hchunks]
      rw [hafter]
      cases hclosed : ((start world).settle dispatch cuts.flatten).closed with
      | true =>
          rw [deliver_closed hclosed]
          exact ⟨rfl, rfl⟩
      | false =>
          rcases h with hraised | hbehind
          · exact absurd hclosed (by rw [Bool.not_eq_false]; exact hraised)
          · -- asterisks alone are neither dispatched nor answered
            have hstars := hbehind part after.flatten message hrest (verdict_fail_iff.mp hpart)
            have hbuffer : ((start world).settle dispatch cuts.flatten).buffer = [] := by
              simp [settle, herror]
            have hsplit : respParser.split after.flatten = ⟨[], after.flatten, none⟩ :=
              Incremental.StableParser.split_wait (RespParser.parse_asterisks hstars)
            have hlast := run_of_wait dispatch after
              (waiting_settle (start world) _ hclosed)
            rw [hbuffer, List.nil_append, hsplit] at hlast
            rw [hlast rfl]
            simp [settle, hsplit, Service.serve]

/-- With a byte other than an asterisk behind a malformed request, the cut before that byte leads
to a second error reply. -/
theorem not_agree_of_behind {world : σ} {stream part between last : Bytes} {message : String}
    {byte : UInt8}
    (hraised : (Service.serve dispatch (respParser.split stream).items world).raised = false)
    (hrest : (respParser.split stream).rest = part ++ (between ++ byte :: last))
    (hparse : RespParser.parseOne part = .error (.protocol message)) (hbyte : byte ≠ 42) :
    ¬ CuttingsAgree dispatch world stream := by
  intro hagree
  have hpart : respParser.parse part = .fail message := verdict_fail_iff.mpr hparse
  obtain ⟨front, hstream, hfront⟩ := respParser.exists_front stream
  rw [hrest] at hstream
  -- the chunk before the cut is malformed, and so is the one behind it
  have hbefore : respParser.split (front ++ (part ++ between)) =
      ⟨(respParser.split stream).items, part ++ between, some message⟩ := by
    rw [hfront, Incremental.StableParser.split_fail (respParser.fail_append hpart between),
      List.append_nil]
  have hbehind : respParser.split (byte :: last) =
      ⟨[], byte :: last, some "expected RESP array"⟩ :=
    Incremental.StableParser.split_fail (RespParser.parse_other hbyte)
  have hwhole : (respParser.split stream).error = some message := by
    rw [hstream, hfront, Incremental.StableParser.split_fail (respParser.fail_append hpart _)]
  have hpartNe : part ≠ [] := by
    rintro rfl
    cases hparse
  have hflatten : [front ++ (part ++ between), byte :: last].flatten = stream := by
    rw [hstream]
    simp
  obtain ⟨session, session', hrun, hrun', -, hwritten⟩ :=
    hagree [front ++ (part ++ between), byte :: last] [stream] (by simp [hpartNe])
      (by simp [hstream, hpartNe]) hflatten (by simp)
  rw [handleClient, outer_loop_spec dispatch _ (by simp [hpartNe])] at hrun
  rw [handleClient, outer_loop_spec dispatch _ (by simp [hstream, hpartNe])] at hrun'
  cases hrun
  cases hrun'
  simp [deliver, start, settle, hbefore, hbehind, hwhole, hraised, Service.serve] at hwritten

/-- Two cuttings of a stream never differ exactly when there is nothing behind a malformed
request. -/
theorem cuttings_agree_iff (dispatch : Command → Py σ Response) (world : σ) (stream : Bytes) :
    CuttingsAgree dispatch world stream ↔ NothingBehindMalformed dispatch world stream := by
  refine ⟨fun hagree => ?_, fun h => ?_⟩
  · cases hraised : (Service.serve dispatch (respParser.split stream).items world).raised with
    | true => exact .inl hraised
    | false =>
        refine .inr fun part behind message hrest hparse byte hbyte => ?_
        by_contra hother
        obtain ⟨between, last, rfl⟩ := List.append_of_mem hbyte
        exact not_agree_of_behind hraised hrest hparse hother hagree
  · intro cuts cuts' hcuts hcuts' hflatten hflatten'
    obtain ⟨session, hrun, hdispatched, hwritten⟩ := run_of_nothing_behind h hcuts hflatten
    obtain ⟨session', hrun', hdispatched', hwritten'⟩ := run_of_nothing_behind h hcuts' hflatten'
    exact ⟨session, session', hrun, hrun', by rw [hdispatched, hdispatched'],
      by rw [hwritten, hwritten']⟩

/-- Behind a byte that starts no request, a `PING` is executed if it comes in a chunk of its own,
and dropped otherwise. -/
theorem ping_behind_malformed :
    ¬ CuttingsAgree (fun _ => pure (.simpleString "PONG")) ()
      (Bytes.ofText "x*1\r\n$4\r\nPING\r\n") := by
  intro hagree
  obtain ⟨session, session', hrun, hrun', hdispatched, -⟩ :=
    hagree [Bytes.ofText "x", Bytes.ofText "*1\r\n$4\r\nPING\r\n"]
      [Bytes.ofText "x*1\r\n$4\r\nPING\r\n"] (by decide) (by decide) (by decide) (by decide)
  have hexecuted : handleClient (fun _ => pure (.simpleString "PONG")) ()
      [Bytes.ofText "x", Bytes.ofText "*1\r\n$4\r\nPING\r\n"] =
        some ⟨[], (), [⟨"PING", []⟩],
          [Bytes.ofText "-ERR expected RESP array\r\n", Bytes.ofText "+PONG\r\n"], false⟩ := by
    rfl
  have hdropped : handleClient (fun _ => pure (.simpleString "PONG")) ()
      [Bytes.ofText "x*1\r\n$4\r\nPING\r\n"] =
        some ⟨[], (), [], [Bytes.ofText "-ERR expected RESP array\r\n"], false⟩ := by
    rfl
  rw [hexecuted] at hrun
  rw [hdropped] at hrun'
  cases hrun
  cases hrun'
  cases hdispatched

end Session

end MiniRedis
