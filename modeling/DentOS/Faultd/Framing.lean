/-
  Messages on the pipe of a service (faultd.c): `faultd_client_write` and `faultd_server_read`.

  A message is a record of fixed size, with a text behind it when its field `backtrace_symbols` is not
  null, up to a null character.  The server finds out the one from the other, so a message that has been
  written whole is taken out whole (`readMessage_eq`), also when its text does not fit into the buffer:
  what does not fit is read and dropped.  Then the terminator is dropped as well, and the buffer holds no
  string (`cstring_bufferOf`).  So the messages come out as they were written exactly when every text is
  shorter than the buffer (`framing`).

  `backtrace_symbols_fd` writes a line for each address of the backtrace; what it writes is in
  `Message.lines`.  The record is the one of a 64-bit machine.
-/
import DentOS.Faultd.Pipe
import Mathlib.Data.Fin.Tuple.Basic
import Mathlib.Data.List.Forall2

namespace DentOS.Faultd

/-! ## Messages: a record of fixed size, and the text of its backtrace -/

/-- `sizeof(faultd_info_t)`. -/
def faultdInfoSize : Nat := 560

/-- Where `backtrace_symbols` is in the record, its last field. -/
def backtraceSymbolsOffset : Nat := 552

/-- `FAULTD_CONFIG_BACKTRACE_SYMBOLS_SIZE`. -/
def backtraceSymbolsSize : Nat := 4096

/-- `FAULTD_CONFIG_SERVICE_PIPES_MAX`. -/
abbrev servicePipesMax : Nat := 8

/-- `faultd_info_t`, as it is in memory. -/
structure FaultdInfo where
  bytes : List UInt8
  size : bytes.length = faultdInfoSize

/-- `backtrace_symbols` is not null. -/
def hasSymbols (info : List UInt8) : Bool := (info.drop backtraceSymbolsOffset).any (· ≠ 0)

/-- A record, with what `backtrace_symbols_fd` writes for its backtrace. -/
structure Message where
  /-- The record itself. -/
  info : FaultdInfo
  /-- The lines of the backtrace. -/
  lines : List (List UInt8)
  /-- A symbol name is a C string, so no line has a zero. -/
  noNul : ∀ line ∈ lines, 0 ∉ line

namespace Message

/-- The header says whether there are symbols. -/
def hasSymbols (m : Message) : Bool := Faultd.hasSymbols m.info.bytes

/-- The lines, one behind the other. -/
def text (m : Message) : List UInt8 := m.lines.flatten

/-- No line has a NUL in it. -/
theorem noNul_text (m : Message) : 0 ∉ m.text := by
  intro h
  obtain ⟨line, hline, h⟩ := List.mem_flatten.mp h
  exact m.noNul line hline h

/-- The message on the pipe. -/
def encode (m : Message) : List UInt8 :=
  m.info.bytes ++ if m.hasSymbols then m.text ++ [0] else []

end Message

/-! ## The client writes the record, the lines and a zero -/

/-- `faultd_client_write`: what it returns, and what it has put into the pipe. -/
def faultdClientWrite (m : Message) (ws : List Wrote) : Option (Int × List UInt8 × List Wrote) :=
  match writeSize faultdInfoSize ws m.info.bytes with
  | none => none
  | some (rv, info, ws) =>
      if rv < 0 then some (rv, info, ws)
      else if m.hasSymbols then
        -- what comes of the last write is not looked at
        match writeSize 1 ws [0] with
        | none => none
        | some (_, nul, ws) => some (0, info ++ (m.text ++ nul), ws)
      else some (0, info, ws)

/-- One call after the other. -/
def clientWrites : List Message → List Wrote → Option (List UInt8 × List Wrote)
  | [], ws => some ([], ws)
  | m :: msgs, ws =>
      match faultdClientWrite m ws with
      | none => none
      | some (_, written, ws) =>
          (clientWrites msgs ws).map fun (stream, ws) => (written ++ stream, ws)

/-- Where no write fails, what is written is the encoded message. -/
theorem faultdClientWrite_eq {m : Message} {ws ws' : List Wrote} {rv : Int} {written : List UInt8}
    (hws : .failed ∉ ws) (h : faultdClientWrite m ws = some (rv, written, ws')) :
    written = m.encode ∧ .failed ∉ ws' := by
  unfold faultdClientWrite at h
  split at h
  · cases h
  · rename_i rv₁ info ws₁ hinfo
    obtain ⟨rfl, rfl, hws₁⟩ := writeSize_eq hws hinfo
    rw [if_neg (by decide)] at h
    split at h
    · rename_i hsymbols
      split at h
      · cases h
      · rename_i rv₂ nul ws₂ hnul
        obtain ⟨-, rfl, hws₂⟩ := writeSize_eq hws₁ hnul
        cases h
        exact ⟨by rw [Message.encode, if_pos hsymbols], hws₂⟩
    · rename_i hsymbols
      cases h
      exact ⟨by rw [Message.encode, if_neg hsymbols, List.append_nil], hws₁⟩

/-- What a client has written is its messages. -/
theorem clientWrites_eq {msgs : List Message} {ws ws' : List Wrote} {stream : List UInt8}
    (hws : .failed ∉ ws) (h : clientWrites msgs ws = some (stream, ws')) :
    stream = msgs.flatMap Message.encode := by
  induction msgs generalizing ws stream with
  | nil =>
      cases h
      rfl
  | cons m msgs ih =>
      rw [clientWrites] at h
      split at h
      · cases h
      · rename_i rv written ws₁ hwrite
        obtain ⟨rfl, hws₁⟩ := faultdClientWrite_eq hws hwrite
        obtain ⟨⟨stream', ws''⟩, hstream, heq⟩ := Option.map_eq_some_iff.mp h
        cases heq
        rw [ih hws₁ hstream, List.flatMap_cons]

/-! ## The server selects a pipe, reads the record, and then the text byte by byte -/

/-- The number of a service. -/
abbrev Sid := Fin servicePipesMax

/-- `faultd_service_t`: `pipefd` is zero when there is no pipe. -/
structure Service where
  /-- The path of the pipe. -/
  pipename : Option String
  /-- The descriptor that it is read from. -/
  pipefd : Nat

/-- `faultd_server_t`.  No two services read from one descriptor. -/
structure Server where
  /-- The services by their number. -/
  services : Sid → Service
  /-- The service that was read last. -/
  sidLast : Sid
  /-- Every open descriptor belongs to one service. -/
  distinct : ∀ i j, (services i).pipefd ≠ 0 → (services i).pipefd = (services j).pipefd → i = j

/-- The pipe behind each descriptor. -/
abbrev Pipes := Nat → Pipe

/-- What `faultd_server_read` returns, and the record as it was read, whose pointers are replaced by the
    two fields behind it. -/
structure Received where
  /-- The service that the message came over. -/
  sid : Sid
  /-- The bytes of the record. -/
  info : List UInt8
  /-- The name of the pipe, in the place of the pointer to it. -/
  pipename : Option String
  /-- The text of the backtrace, in the place of the pointer to it. -/
  backtraceSymbols : Option (List UInt8)
  deriving DecidableEq

/-- `select` does not wait for this pipe. -/
def readable (p : Pipe) : Bool := p.any (· ≠ .cut)

/-- The descriptors that are waited for; none when the service has no pipe. -/
def watched (server : Server) : Option Sid → Option (Nat → Bool)
  | none => some fun fd => fd ≠ 0 ∧ ∃ i, (server.services i).pipefd = fd
  | some sid =>
      if (server.services sid).pipefd = 0 then none
      else some fun fd => fd = (server.services sid).pipefd

/-- `faultd_wait_services__`: the descriptors that are ready, and none when it blocks.  Without a sid it
    waits for all services (`-1`).  A sid that is none is not found out by the test at its head. -/
def faultdWaitServices (server : Server) (pipes : Pipes) (sid : Option Sid) :
    Option (Except Unit (Nat → Bool)) :=
  match watched server sid with
  | none => some (.error ())
  | some fds =>
      let rfds := fun fd => fds fd && readable (pipes fd)
      if ∃ i, rfds (server.services i).pipefd then some (.ok rfds) else none

/-- What is read from a service that is ready. -/
def readMessage (s : Sid) (service : Service) (p : Pipe) : Option (Except Unit Received × Pipe) :=
  match readSize faultdInfoSize p with
  | none => none
  | some (.error e, p) => some (.error e, p)
  | some (.ok info, p) =>
      if hasSymbols info then
        match readUntil 0 backtraceSymbolsSize 0 (List.replicate backtraceSymbolsSize 0) p with
        | none => none
        | some (_, symbols, p) => some (.ok ⟨s, info, service.pipename, some symbols⟩, p)
      else some (.ok ⟨s, info, service.pipename, none⟩, p)

/-- The loop of `faultd_server_read`, with the number of services it still has to look at. -/
def serverLoop (server : Server) (rfds : Nat → Bool) :
    Nat → Nat → Pipes → Option (Except Unit Received × Server × Pipes)
  | 0, _, pipes => some (.error (), server, pipes)
  | count + 1, i, pipes =>
      let s : Sid := Fin.ofNat servicePipesMax i
      let fd := (server.services s).pipefd
      if rfds fd then
        match readMessage s (server.services s) (pipes fd) with
        | none => none
        | some (.error _, p) => serverLoop server rfds count (i + 1) (Function.update pipes fd p)
        | some (.ok r, p) =>
            some (.ok r, { server with sidLast := s }, Function.update pipes fd p)
      else serverLoop server rfds count (i + 1) pipes

/-- `faultd_server_read`: none when it blocks. -/
def faultdServerRead (server : Server) (pipes : Pipes) (sid : Option Sid) :
    Option (Except Unit Received × Server × Pipes) :=
  match faultdWaitServices server pipes sid with
  | none => none
  | some (.error e) => some (.error e, server, pipes)
  | some (.ok rfds) => serverLoop server rfds servicePipesMax (server.sidLast + 1) pipes

/-- `n` calls of `faultd_server_read`, none when one of them blocks or fails. -/
def serverReads (sid : Option Sid) :
    Nat → Server → Pipes → Option (List Received × Server × Pipes)
  | 0, server, pipes => some ([], server, pipes)
  | n + 1, server, pipes =>
      match faultdServerRead server pipes sid with
      | some (.ok r, server, pipes) =>
          (serverReads sid n server pipes).map fun (rs, state) => (r :: rs, state)
      | _ => none

/-! ## What is promised: each message is returned as it was sent -/

/-- The string in a buffer, none when it does not end within it. -/
def cstring (buffer : List UInt8) : Option (List UInt8) :=
  if 0 ∈ buffer then some (buffer.takeWhile (· ≠ 0)) else none

/-- The buffer holds the text, or the front of a text that is too long for it. -/
structure Holds (text buffer : List UInt8) : Prop where
  size : buffer.length = backtraceSymbolsSize
  string : ∃ str, cstring buffer = some str
    ∧ (str = text ∨ backtraceSymbolsSize ≤ text.length ∧ str <+: text)

/-- A message as it was written. -/
structure Whole (s : Sid) (service : Service) (m : Message) (r : Received) : Prop where
  sid : r.sid = s
  info : r.info = m.info.bytes
  pipename : r.pipename = service.pipename
  symbols : m.hasSymbols = true → ∃ buffer, r.backtraceSymbols = some buffer ∧ Holds m.text buffer
  noSymbols : m.hasSymbols = false → r.backtraceSymbols = none

/-- The server reads `stream` from the pipe of `s`: it is asked for that service, or no other one has
    anything to read. -/
structure Carries (server : Server) (pipes : Pipes) (sid : Option Sid) (s : Sid)
    (stream : List UInt8) : Prop where
  used : (server.services s).pipefd ≠ 0
  sid : sid = some s ∨ sid = none ∧ ∀ i, i ≠ s → readable (pipes (server.services i).pipefd) = false
  sound : Sound (pipes (server.services s).pipefd)
  bytes : bytes (pipes (server.services s).pipefd) = stream

/-! ## One message, read from a pipe that begins with it -/

/-- What a text becomes in the buffer. -/
def bufferOf (text : List UInt8) : List UInt8 :=
  storeAll backtraceSymbolsSize (List.replicate backtraceSymbolsSize 0) 0 (text ++ [0])

/-- The buffer holds the text and its NUL as far as there is room, and zeros behind them. -/
theorem bufferOf_eq (text : List UInt8) :
    bufferOf text = (text ++ [0]).take backtraceSymbolsSize
      ++ List.replicate (backtraceSymbolsSize - (text.length + 1)) 0 := by
  rw [bufferOf, storeAll_zeros, List.length_append, List.length_singleton]

/-- The buffer has its fixed length. -/
theorem bufferOf_length (text : List UInt8) : (bufferOf text).length = backtraceSymbolsSize := by
  rw [bufferOf_eq]
  simp only [List.length_append, List.length_take, List.length_replicate, List.length_singleton]
  omega

/-- A text that fits is terminated. -/
theorem cstring_bufferOf {text : List UInt8} (htext : 0 ∉ text)
    (h : text.length < backtraceSymbolsSize) : cstring (bufferOf text) = some text := by
  have hbuffer : bufferOf text
      = text ++ 0 :: List.replicate (backtraceSymbolsSize - (text.length + 1)) 0 := by
    rw [bufferOf_eq, List.take_of_length_le (by simp; omega), List.append_assoc,
      List.singleton_append]
  have hpos : ∀ b ∈ text, decide (b ≠ 0) = true := fun b hb =>
    decide_eq_true fun h0 => htext (h0 ▸ hb)
  rw [hbuffer, cstring, if_pos (by simp), List.takeWhile_append_of_pos hpos]
  simp

/-- A text that does not fit takes the place of its terminator too. -/
theorem cstring_bufferOf_long {text : List UInt8} (htext : 0 ∉ text)
    (h : backtraceSymbolsSize ≤ text.length) : cstring (bufferOf text) = none := by
  have hbuffer : bufferOf text = text.take backtraceSymbolsSize := by
    rw [bufferOf_eq, List.take_append_of_le_length h, Nat.sub_eq_zero_of_le (by omega),
      List.replicate_zero, List.append_nil]
  rw [hbuffer, cstring, if_neg fun hmem => htext (List.mem_of_mem_take hmem)]

/-- The buffer holds the text exactly when there is room for the NUL. -/
theorem holds_bufferOf_iff {text : List UInt8} (htext : 0 ∉ text) :
    Holds text (bufferOf text) ↔ text.length < backtraceSymbolsSize := by
  constructor
  · rintro ⟨-, str, hstr, -⟩
    refine Nat.lt_of_not_le fun hlong => ?_
    rw [cstring_bufferOf_long htext hlong] at hstr
    cases hstr
  · intro h
    exact ⟨bufferOf_length text, text, cstring_bufferOf htext h, .inl rfl⟩

/-- What the server makes of a message. -/
def received (s : Sid) (service : Service) (m : Message) : Received where
  sid := s
  info := m.info.bytes
  pipename := service.pipename
  backtraceSymbols := if m.hasSymbols then some (bufferOf m.text) else none

/-- A text shorter than the buffer. -/
def Message.Fits (m : Message) : Prop :=
  m.hasSymbols = true → m.text.length < backtraceSymbolsSize

/-- A message is received whole exactly when its symbols fit. -/
theorem whole_received_iff (s : Sid) (service : Service) (m : Message) :
    Whole s service m (received s service m) ↔ m.Fits := by
  constructor
  · intro h hsymbols
    obtain ⟨buffer, hbuffer, hholds⟩ := h.symbols hsymbols
    rw [received, if_pos hsymbols] at hbuffer
    cases hbuffer
    exact (holds_bufferOf_iff m.noNul_text).mp hholds
  · intro h
    refine ⟨rfl, rfl, rfl, fun hsymbols => ⟨bufferOf m.text, if_pos hsymbols, ?_⟩, fun hsymbols => ?_⟩
    · exact (holds_bufferOf_iff m.noNul_text).mpr (h hsymbols)
    · exact if_neg (ne_true_of_eq_false hsymbols)

/-- **A message that has been written whole is taken out whole.** -/
theorem readMessage_eq (s : Sid) (service : Service) {p : Pipe} {m : Message} {rest : List UInt8}
    (hp : Sound p) (hbytes : bytes p = m.encode ++ rest) :
    ∃ p', readMessage s service p = some (.ok (received s service m), p')
      ∧ bytes p' = rest ∧ Sound p' := by
  rw [Message.encode, List.append_assoc] at hbytes
  obtain ⟨p₁, hinfo, hbytes₁, hp₁⟩ := readSize_eq hp (by decide) hbytes m.info.size
  by_cases hsymbols : m.hasSymbols = true
  · rw [if_pos hsymbols, List.append_assoc, List.singleton_append] at hbytes₁
    obtain ⟨p₂, htext, hbytes₂, hp₂⟩ := readUntil_eq hp₁ hbytes₁ m.noNul_text backtraceSymbolsSize 0
      (List.replicate backtraceSymbolsSize 0)
    refine ⟨p₂, ?_, hbytes₂, hp₂⟩
    have hinfo' : hasSymbols m.info.bytes = true := hsymbols
    simp only [readMessage, hinfo, hinfo', if_true, htext, received, hsymbols, bufferOf]
  · rw [if_neg hsymbols, List.nil_append] at hbytes₁
    refine ⟨p₁, ?_, hbytes₁, hp₁⟩
    have hinfo' : ¬ hasSymbols m.info.bytes = true := hsymbols
    simp only [readMessage, hinfo, if_neg hinfo', received, if_neg hsymbols]

/-- What a message has on the pipe while it is being written: nothing yet, or its record and the front
    of its text. -/
inductive Partial : List UInt8 → Prop where
  | nothing : Partial []
  | text (info : FaultdInfo) (hsymbols : hasSymbols info.bytes = true) (t : List UInt8) (ht : 0 ∉ t) :
      Partial (info.bytes ++ t)

/-- The server waits for the rest of a message. -/
theorem readMessage_blocks {s : Sid} {service : Service} {p : Pipe} (hp : Sound p)
    (h : Partial (bytes p)) : readMessage s service p = none := by
  generalize hbytes : bytes p = stream at h
  cases h with
  | nothing =>
      rw [readMessage, readSize_blocks hp (by rw [hbytes]; decide)]
  | text info hsymbols t ht =>
      obtain ⟨p₁, hinfo, hbytes₁, hp₁⟩ := readSize_eq hp (by decide) hbytes info.size
      simp only [readMessage, hinfo, hsymbols, if_true,
        readUntil_blocks hp₁ (hbytes₁ ▸ ht)]

/-! ## One call of `faultd_server_read` -/

/-- Of the services that are waited for, at most `s` has anything to read. -/
theorem Carries.watched {server : Server} {pipes : Pipes} {sid : Option Sid} {s : Sid}
    {stream : List UInt8} (h : Carries server pipes sid s stream) :
    ∃ fds, watched server sid = some fds ∧ ∀ i,
      (fds (server.services i).pipefd && readable (pipes (server.services i).pipefd)) = true
        ↔ i = s ∧ readable (pipes (server.services s).pipefd) = true := by
  rcases h.sid with rfl | ⟨rfl, hquiet⟩
  · refine ⟨_, if_neg h.used, fun i => ?_⟩
    rw [Bool.and_eq_true, decide_eq_true_iff]
    constructor
    · rintro ⟨hfd, hread⟩
      obtain rfl := server.distinct s i h.used hfd.symm
      exact ⟨rfl, hread⟩
    · rintro ⟨rfl, hread⟩
      exact ⟨rfl, hread⟩
  · refine ⟨_, rfl, fun i => ?_⟩
    rw [Bool.and_eq_true, decide_eq_true_iff]
    constructor
    · rintro ⟨-, hread⟩
      by_cases hi : i = s
      · exact ⟨hi, hi ▸ hread⟩
      · rw [hquiet i hi] at hread
        cases hread
    · rintro ⟨rfl, hread⟩
      exact ⟨⟨h.used, i, rfl⟩, hread⟩

/-- The loop passes over what is not ready. -/
theorem serverLoop_skip {server : Server} {rfds : Nat → Bool} {s : Sid}
    (hrfds : ∀ i, rfds (server.services i).pipefd = true ↔ i = s) (pipes : Pipes) {count i k : Nat}
    (hk : k < count) (hs : Fin.ofNat servicePipesMax (i + k) = s) :
    ∃ count' i', Fin.ofNat servicePipesMax i' = s
      ∧ serverLoop server rfds count i pipes = serverLoop server rfds (count' + 1) i' pipes := by
  induction k generalizing count i with
  | zero =>
      obtain ⟨count, rfl⟩ := Nat.exists_eq_succ_of_ne_zero (Nat.ne_of_gt hk)
      exact ⟨count, i, hs, rfl⟩
  | succ k ih =>
      obtain ⟨count, rfl⟩ := Nat.exists_eq_succ_of_ne_zero (Nat.ne_of_gt (Nat.zero_lt_of_lt hk))
      by_cases hi : Fin.ofNat servicePipesMax i = s
      · exact ⟨count, i, hi, rfl⟩
      · obtain ⟨count', i', hi', heq⟩ := ih (Nat.lt_of_succ_lt_succ hk)
          (by rw [Nat.add_right_comm, Nat.add_assoc]; exact hs)
        refine ⟨count', i', hi', ?_⟩
        rw [← heq, serverLoop, if_neg fun hready => hi ((hrfds _).mp hready)]

/-- The loop ends at a service from which a message can be read. -/
theorem serverLoop_reads {server : Server} {rfds : Nat → Bool} {s : Sid} {pipes : Pipes} {count i : Nat}
    (hi : Fin.ofNat servicePipesMax i = s) (hready : rfds (server.services s).pipefd = true)
    {r : Received} {p' : Pipe}
    (hread : readMessage s (server.services s) (pipes (server.services s).pipefd) = some (.ok r, p')) :
    serverLoop server rfds (count + 1) i pipes =
      some (.ok r, { server with sidLast := s }, Function.update pipes (server.services s).pipefd p') := by
  rw [serverLoop]
  simp only [hi, hready, if_true, hread]

/-- What `faultd_server_read` does with the service that is ready. -/
theorem faultdServerRead_ready {server : Server} {pipes : Pipes} {sid : Option Sid} {s : Sid}
    {stream : List UInt8} (h : Carries server pipes sid s stream)
    (hready : readable (pipes (server.services s).pipefd) = true) :
    ∃ rfds count i, Fin.ofNat servicePipesMax i = s ∧ rfds (server.services s).pipefd = true
      ∧ faultdServerRead server pipes sid = serverLoop server rfds (count + 1) i pipes := by
  obtain ⟨fds, hwatched, hfds⟩ := h.watched
  generalize hset : (fun fd => fds fd && readable (pipes fd)) = rfds
  have hrfds : ∀ i, rfds (server.services i).pipefd = true ↔ i = s := fun i => by
    rw [← hset, hfds i, and_iff_left hready]
  have hwait : faultdWaitServices server pipes sid = some (.ok rfds) := by
    simp only [faultdWaitServices, hwatched, hset]
    exact if_pos ⟨s, (hfds s).mpr ⟨rfl, hready⟩⟩
  -- the services that it looks at are all of them, from the one behind `sidLast`
  have hk : (s.val + servicePipesMax - (server.sidLast.val + 1)) % servicePipesMax
      < servicePipesMax := Nat.mod_lt _ (by decide)
  have hs : Fin.ofNat servicePipesMax (server.sidLast.val + 1
      + (s.val + servicePipesMax - (server.sidLast.val + 1)) % servicePipesMax) = s := by
    have hlt : s.val < 8 := s.isLt
    have hlast : server.sidLast.val < 8 := server.sidLast.isLt
    apply Fin.ext
    simp only [Fin.ofNat, servicePipesMax]
    omega
  obtain ⟨count, i, hi, hloop⟩ := serverLoop_skip hrfds pipes hk hs
  refine ⟨rfds, count, i, hi, (hrfds s).mpr rfl, ?_⟩
  rw [faultdServerRead, hwait]
  exact hloop

/-- A pipe with a byte in it has something to read. -/
theorem readable_of_bytes {p : Pipe} (h : bytes p ≠ []) : readable p = true := by
  induction p with
  | nil => exact absurd rfl h
  | cons item p ih =>
      cases item with
      | cut => exact ih h
      | _ => rfl

/-- A message has a header. -/
theorem Message.encode_ne_nil (m : Message) : m.encode ≠ [] := by
  intro h
  have hsize := m.info.size
  rw [(List.append_eq_nil_iff.mp h).1] at hsize
  cases hsize

/-- **A call returns the message in front.** -/
theorem faultdServerRead_eq {server : Server} {pipes : Pipes} {sid : Option Sid} {s : Sid}
    {m : Message} {rest : List UInt8} (h : Carries server pipes sid s (m.encode ++ rest)) :
    ∃ pipes', faultdServerRead server pipes sid
        = some (.ok (received s (server.services s) m), { server with sidLast := s }, pipes')
      ∧ Carries { server with sidLast := s } pipes' sid s rest := by
  obtain ⟨p', hread, hbytes, hsound⟩ := readMessage_eq s (server.services s) h.sound h.bytes
  have hready : readable (pipes (server.services s).pipefd) = true := by
    refine readable_of_bytes ?_
    rw [h.bytes]
    exact List.append_ne_nil_of_left_ne_nil m.encode_ne_nil rest
  obtain ⟨rfds, count, i, hi, hrfds, hloop⟩ := faultdServerRead_ready h hready
  refine ⟨Function.update pipes (server.services s).pipefd p', ?_, h.used, ?_, ?_, ?_⟩
  · rw [hloop]
    exact serverLoop_reads hi hrfds hread
  · refine h.sid.imp_right fun ⟨hnone, hquiet⟩ => ⟨hnone, fun j hj => ?_⟩
    rw [Function.update_of_ne fun heq => hj (server.distinct s j h.used heq.symm).symm]
    exact hquiet j hj
  · rw [Function.update_self]
    exact hsound
  · rw [Function.update_self]
    exact hbytes

/-- A call waits for the rest of a message. -/
theorem faultdServerRead_blocks {server : Server} {pipes : Pipes} {sid : Option Sid} {s : Sid}
    {stream : List UInt8} (h : Carries server pipes sid s stream) (hfront : Partial stream) :
    faultdServerRead server pipes sid = none := by
  by_cases hready : readable (pipes (server.services s).pipefd) = true
  · obtain ⟨rfds, count, i, hi, hrfds, hloop⟩ := faultdServerRead_ready h hready
    have hread : readMessage s (server.services s) (pipes (server.services s).pipefd) = none :=
      readMessage_blocks h.sound (h.bytes ▸ hfront)
    rw [hloop, serverLoop]
    simp only [hi, hrfds, if_true, hread]
  · obtain ⟨fds, hwatched, hfds⟩ := h.watched
    simp only [faultdServerRead, faultdWaitServices, hwatched]
    rw [if_neg]
    rintro ⟨i, hi⟩
    exact hready ((hfds i).mp hi).2

/-! ## All messages, by induction on the calls -/

/-- **As many calls as messages return them all**, in order, and leave what is behind them. -/
theorem serverReads_eq {server : Server} {pipes : Pipes} {sid : Option Sid} {s : Sid}
    {msgs : List Message} {rest : List UInt8}
    (h : Carries server pipes sid s (msgs.flatMap Message.encode ++ rest)) :
    ∃ server' pipes', serverReads sid msgs.length server pipes
        = some (msgs.map (received s (server.services s)), server', pipes')
      ∧ Carries server' pipes' sid s rest := by
  induction msgs generalizing server pipes with
  | nil => exact ⟨server, pipes, rfl, h⟩
  | cons m msgs ih =>
      rw [List.flatMap_cons, List.append_assoc] at h
      obtain ⟨pipes₁, hread, h₁⟩ := faultdServerRead_eq h
      obtain ⟨server₂, pipes₂, hreads, h₂⟩ := ih h₁
      refine ⟨server₂, pipes₂, ?_, h₂⟩
      rw [List.length_cons, serverReads, hread]
      simp only [hreads, Option.map_some, List.map_cons]

/-- A list of messages is received whole when each of them fits. -/
theorem whole_map_iff (s : Sid) (service : Service) (msgs : List Message) :
    List.Forall₂ (Whole s service) msgs (msgs.map (received s service)) ↔ ∀ m ∈ msgs, m.Fits := by
  rw [List.forall₂_map_right_iff, List.forall₂_same]
  exact forall₂_congr fun m _ => whole_received_iff s service m

/-- **Framing.**  The messages that a client has written come out whole and in order, in as many calls and
    however the bytes are split into reads, if and only if every text is shorter than the buffer. -/
theorem framing {server : Server} {pipes : Pipes} {sid : Option Sid} {s : Sid}
    {msgs : List Message} {ws ws' : List Wrote} {stream : List UInt8} (hws : .failed ∉ ws)
    (hwrites : clientWrites msgs ws = some (stream, ws'))
    (h : Carries server pipes sid s stream) :
    (∃ rs server' pipes', serverReads sid msgs.length server pipes = some (rs, server', pipes')
      ∧ List.Forall₂ (Whole s (server.services s)) msgs rs) ↔ ∀ m ∈ msgs, m.Fits := by
  rw [clientWrites_eq hws hwrites, ← List.append_nil (msgs.flatMap Message.encode)] at h
  obtain ⟨server', pipes', hreads, -⟩ := serverReads_eq h
  rw [← whole_map_iff s (server.services s) msgs]
  constructor
  · rintro ⟨rs, server'', pipes'', hrs, hwhole⟩
    rw [hreads] at hrs
    cases hrs
    exact hwhole
  · intro hwhole
    exact ⟨_, server', pipes', hreads, hwhole⟩

/-! ## A server with one service -/

/-- A record with `backtrace_symbols` as the signal handler sets it, and nothing else in it. -/
def symbolsInfo : FaultdInfo :=
  ⟨List.replicate backtraceSymbolsOffset 0 ++ [1, 0, 0, 0, 0, 0, 0, 0], by simp; decide⟩

/-- The header of the example has symbols. -/
theorem hasSymbols_symbolsInfo : hasSymbols symbolsInfo.bytes = true := by
  have hdrop : symbolsInfo.bytes.drop backtraceSymbolsOffset = [1, 0, 0, 0, 0, 0, 0, 0] :=
    List.drop_left' List.length_replicate
  rw [hasSymbols, hdrop]
  rfl

/-- A message whose text is `n` times the letter `x`. -/
def letters (n : Nat) : Message :=
  ⟨symbolsInfo, [List.replicate n 120], by simp [List.mem_replicate]⟩

/-- The example has as many letters as it says. -/
theorem letters_text_length (n : Nat) : (letters n).text.length = n := by
  simp [letters, Message.text]

/-- The message of the example is written in two pieces. -/
theorem clientWrites_letters (n : Nat) :
    clientWrites [letters n] [.wrote faultdInfoSize, .wrote 1] = some ((letters n).encode, []) := by
  have hinfo : (letters n).info.bytes.drop faultdInfoSize = [] :=
    List.drop_eq_nil_of_le (Nat.le_of_eq (letters n).info.size)
  have hsymbols : (letters n).hasSymbols = true := hasSymbols_symbolsInfo
  have hwrite : faultdClientWrite (letters n) [.wrote faultdInfoSize, .wrote 1]
      = some (0, (letters n).encode, []) := by
    simp only [faultdClientWrite, writeSize, hinfo, if_true, hsymbols, Message.encode]
    rfl
  simp only [clientWrites, hwrite, Option.map_some, List.append_nil]

/-- A server with one service. -/
def oneServer : Server where
  services i := if i = 0 then ⟨some "/var/run/faultd", 5⟩ else ⟨none, 0⟩
  sidLast := 0
  distinct := by decide

/-- What has been written is read without a mark in it. -/
def onePipe (stream : List UInt8) : Pipes := fun fd =>
  if fd = 5 then stream.map .byte else []

/-- A stream without cuts is its own bytes. -/
theorem bytes_map_byte (p : Pipe) : ∀ stream : List UInt8, bytes (stream.map .byte ++ p) = stream ++ bytes p
  | [] => rfl
  | b :: stream => congrArg (b :: ·) (bytes_map_byte p stream)

/-- What is in the pipe of the one service is read from it. -/
theorem carries_one {pipes : Pipes} (hquiet : pipes 0 = []) (hsound : Sound (pipes 5)) :
    Carries oneServer pipes none 0 (bytes (pipes 5)) := by
  refine ⟨by decide, .inr ⟨rfl, fun i hi => ?_⟩, hsound, rfl⟩
  have hfd : (oneServer.services i).pipefd = 0 := by
    simp only [oneServer, if_neg hi]
  rw [hfd, hquiet]
  rfl

/-- The pipe carries the stream to the one service. -/
theorem carries_onePipe (stream : List UInt8) :
    Carries oneServer (onePipe stream) none 0 stream := by
  have hbytes : bytes (onePipe stream 5) = stream := by
    have h := bytes_map_byte [] stream
    rwa [List.append_nil, bytes, List.append_nil] at h
  have hsound : Sound (onePipe stream 5) := by simp [onePipe, Sound]
  have h := carries_one rfl hsound
  rwa [hbytes] at h

/-- What has been written, with a read that is cut short behind `n` bytes. -/
def cutPipe (n : Nat) (stream : List UInt8) : Pipes := fun fd =>
  if fd = 5 then (stream.take n).map .byte ++ .cut :: (stream.drop n).map .byte else []

/-- A cut in the middle loses nothing. -/
theorem carries_cutPipe (n : Nat) (stream : List UInt8) :
    Carries oneServer (cutPipe n stream) none 0 stream := by
  have hbytes : bytes (cutPipe n stream 5) = stream := by
    have hdrop := bytes_map_byte [] (stream.drop n)
    rw [List.append_nil] at hdrop
    show bytes ((stream.take n).map .byte ++ .cut :: (stream.drop n).map .byte) = stream
    rw [bytes_map_byte]
    show stream.take n ++ bytes ((stream.drop n).map .byte) = stream
    rw [hdrop]
    show stream.take n ++ (stream.drop n ++ []) = stream
    rw [List.append_nil, List.take_append_drop]
  have hbyte : ∀ l : List UInt8, .error ∉ l.map Item.byte := fun l h => by
    obtain ⟨b, -, hb⟩ := List.mem_map.mp h
    cases hb
  have hsound : Sound (cutPipe n stream 5) := fun hmem => by
    rcases List.mem_append.mp hmem with h | h
    · exact hbyte _ h
    · exact hbyte _ ((List.mem_cons.mp h).resolve_left (by decide))
  have h := carries_one rfl hsound
  rwa [hbytes] at h

/-- The write of a record that is cut short and then interrupted. -/
theorem clientWrite_letters (n : Nat) (ws : List Wrote) :
    faultdClientWrite (letters n) (.wrote 7 :: .interrupted :: .wrote faultdInfoSize :: .wrote 1 :: ws)
      = some (0, (letters n).encode, ws) := by
  have hinfo : ((letters n).info.bytes.drop 7).drop faultdInfoSize = [] := by
    rw [List.drop_drop]
    exact List.drop_eq_nil_of_le (by rw [(letters n).info.size]; decide)
  have hmore : (letters n).info.bytes.drop 7 ≠ [] := by
    refine List.ne_nil_of_length_pos ?_
    rw [List.length_drop, (letters n).info.size]
    decide
  have hsymbols : (letters n).hasSymbols = true := hasSymbols_symbolsInfo
  simp only [faultdClientWrite, writeSize, hinfo, hmore, if_false, if_true, hsymbols, Message.encode,
    List.take_append_drop]
  rfl

/-- Two messages, with writes and a read that are cut short inside the records. -/
theorem framing_letters : ∃ rs server' pipes',
    serverReads none 2 oneServer (cutPipe 9 ([letters 1, letters 2].flatMap Message.encode))
      = some (rs, server', pipes')
      ∧ List.Forall₂ (Whole 0 (oneServer.services 0)) [letters 1, letters 2] rs := by
  have hwrites : clientWrites [letters 1, letters 2] [.wrote 7, .interrupted, .wrote faultdInfoSize, .wrote 1,
      .wrote 7, .interrupted, .wrote faultdInfoSize, .wrote 1]
      = some ([letters 1, letters 2].flatMap Message.encode, []) := by
    simp only [clientWrites, clientWrite_letters, Option.map_some, List.flatMap_cons, List.flatMap_nil]
  refine (framing (by decide) hwrites (carries_cutPipe 9 _)).mpr fun m hm _ => ?_
  rcases List.mem_cons.mp hm with rfl | hm
  · rw [letters_text_length]
    decide
  · rw [List.mem_singleton.mp hm, letters_text_length]
    decide

/-- A text as long as the buffer leaves no room for the terminator. -/
theorem framing_long : ∃ (m : Message) (ws ws' : List Wrote) (stream : List UInt8),
    .failed ∉ ws ∧ clientWrites [m] ws = some (stream, ws')
      ∧ Carries oneServer (onePipe stream) none 0 stream
      ∧ ¬ ∃ rs server' pipes',
          serverReads none 1 oneServer (onePipe stream) = some (rs, server', pipes')
            ∧ List.Forall₂ (Whole 0 (oneServer.services 0)) [m] rs := by
  refine ⟨letters backtraceSymbolsSize, _, _, _, by decide, clientWrites_letters _,
    carries_onePipe _, ?_⟩
  rintro ⟨rs, server', pipes', hrs, hwhole⟩
  have hcarries : Carries oneServer (onePipe (letters backtraceSymbolsSize).encode) none 0
      ([letters backtraceSymbolsSize].flatMap Message.encode ++ []) := by
    simpa using carries_onePipe _
  obtain ⟨_, _, hreads, -⟩ := serverReads_eq hcarries
  have hreads' : _ = some (rs, server', pipes') := hrs
  rw [show (1 : Nat) = [letters backtraceSymbolsSize].length from rfl, hreads] at hreads'
  cases hreads'
  have hfits := (whole_map_iff 0 (oneServer.services 0) _).mp hwhole _ (List.mem_singleton_self _)
    hasSymbols_symbolsInfo
  rw [letters_text_length] at hfits
  exact Nat.lt_irrefl _ hfits

end DentOS.Faultd
