/-
  `faultd_server_read` for all services (faultd.c): no service is starved.

  A call looks at the services one after the other, from the one behind the service that the last message
  came from, and reads from the first one that is ready; where that read fails it goes on.  So a service
  that is ready and is passed over comes closer: the calls start behind the service that was read instead,
  which is in front of it (`closer`).  There are `FAULTD_CONFIG_SERVICE_PIPES_MAX` places, so after as many
  calls it has been read from (`round_robin`).

  Between two calls anything may happen to the pipes and to the services; `sid_last` is only set by a call.

  The induction is on how many places the service is behind the one that the next call starts with.  Only
  calls that return a message are counted: each of them takes at least one of the places in front away.
-/
import DentOS.Faultd.Framing
import Mathlib.Data.List.Chain

namespace DentOS.Faultd

/-! ## The services that a call reads from, in the order of its loop -/

-- the zero that `Fin.ofNat` asks for
instance neZero_servicePipesMax : @NeZero Nat Zero.ofOfNat0 servicePipesMax := ⟨Nat.succ_ne_zero 7⟩

/-- The services that the loop of `faultd_server_read` reads from, in order. -/
def loopReads (server : Server) (rfds : Nat → Bool) : Nat → Nat → Pipes → List Sid
  | 0, _, _ => []
  | count + 1, i, pipes =>
      let s : Sid := Fin.ofNat servicePipesMax i
      let fd := (server.services s).pipefd
      if rfds fd then
        match readMessage s (server.services s) (pipes fd) with
        | some (.error _, p) => s :: loopReads server rfds count (i + 1) (Function.update pipes fd p)
        | _ => [s]
      else loopReads server rfds count (i + 1) pipes

/-- The services that a call with `sid` -1 reads from. -/
def reads (server : Server) (pipes : Pipes) : List Sid :=
  match faultdWaitServices server pipes none with
  | some (.ok rfds) => loopReads server rfds servicePipesMax (server.sidLast + 1) pipes
  | _ => []

/-- A call with `sid` -1 that returned a message. -/
structure Call where
  /-- The server in front of the call. -/
  server : Server
  /-- What is in the pipes then. -/
  pipes : Pipes
  /-- The message that was returned. -/
  received : Received
  /-- The server behind the call. -/
  server' : Server
  /-- What is left in the pipes. -/
  pipes' : Pipes
  /-- The call returned it. -/
  returns : faultdServerRead server pipes none = some (.ok received, server', pipes')

namespace Call

/-- The pipe of the service can be read without waiting. -/
def Ready (s : Sid) (c : Call) : Prop :=
  (c.server.services s).pipefd ≠ 0 ∧ readable (c.pipes (c.server.services s).pipefd) = true

/-- The call reads from the service: it returns what it got, or the read failed. -/
structure ReadsFrom (s : Sid) (c : Call) : Prop where
  mem : s ∈ reads c.server c.pipes
  got : c.received.sid = s ∨
    ∃ e p, readMessage s (c.server.services s) (c.pipes (c.server.services s).pipefd) = some (.error e, p)

/-- A call behind another one, whatever happened in between. -/
def Follows (c d : Call) : Prop := d.server.sidLast = c.server'.sidLast

end Call

/-! ## One call takes the first service behind the last one -/

/-- How many services are looked at before `s`. -/
def distance (last s : Sid) : Nat := (s.val + servicePipesMax - (last.val + 1)) % servicePipesMax

/-- A service is less than a whole round away. -/
theorem distance_lt (last s : Sid) : distance last s < servicePipesMax := Nat.mod_lt _ (by decide)

/-- The service that many steps behind the last one is the service itself. -/
theorem ofNat_distance (last s : Sid) : Fin.ofNat servicePipesMax (last + 1 + distance last s) = s := by
  have hs : s.val < 8 := s.isLt
  have hlast : last.val < 8 := last.isLt
  apply Fin.ext
  simp only [Fin.ofNat, distance, servicePipesMax]
  omega

/-- A service in front of `s` is nearer to it than where the scan began. -/
theorem distance_ofNat {last s : Sid} {j : Nat} (hj : j < distance last s) :
    distance (Fin.ofNat servicePipesMax (last + 1 + j)) s < distance last s := by
  have hs : s.val < 8 := s.isLt
  have hlast : last.val < 8 := last.isLt
  simp only [distance, Fin.ofNat, servicePipesMax] at hj ⊢
  omega

section

variable {server server' : Server} {rfds : Nat → Bool} {s : Sid} {pipes pipes' : Pipes} {r : Received}

/-- What the loop returns comes from the service that is remembered. -/
theorem readMessage_sid {service : Service} {p p' : Pipe} (h : readMessage s service p = some (.ok r, p')) :
    r.sid = s := by
  unfold readMessage at h
  split at h
  · cases h
  · cases h
  · split at h
    · split at h
      · cases h
      · cases h
        rfl
    · cases h
      rfl

/-- The scan at a service that is ready reads from it. -/
theorem loop_at (hready : rfds (server.services s).pipefd = true) {count i : Nat}
    (hi : Fin.ofNat servicePipesMax i = s)
    (hloop : serverLoop server rfds (count + 1) i pipes = some (.ok r, server', pipes')) :
    s ∈ loopReads server rfds (count + 1) i pipes ∧ (r.sid = s ∨
      ∃ e p, readMessage s (server.services s) (pipes (server.services s).pipefd) = some (.error e, p)) := by
  rw [serverLoop] at hloop
  rw [loopReads]
  simp only [hi, hready, if_true] at hloop ⊢
  split at hloop
  · cases hloop
  · rename_i e p hread
    simp only [hread]
    exact ⟨List.mem_cons_self, .inr ⟨e, p, rfl⟩⟩
  · rename_i r' p hread
    cases hloop
    simp only [hread]
    exact ⟨List.mem_cons_self, .inl (readMessage_sid hread)⟩

/-- **The scan** reads from a service that is ready, or ends at one in front of it. -/
theorem loop_reaches (hset : ∀ i, rfds (server.services i).pipefd = true → (server.services i).pipefd ≠ 0)
    (hready : rfds (server.services s).pipefd = true) : ∀ {k count i : Nat} {pipes : Pipes}, k < count →
    Fin.ofNat servicePipesMax (i + k) = s →
    serverLoop server rfds count i pipes = some (.ok r, server', pipes') →
    (s ∈ loopReads server rfds count i pipes ∧ (r.sid = s ∨
      ∃ e p, readMessage s (server.services s) (pipes (server.services s).pipefd) = some (.error e, p))) ∨
    ∃ j < k, server'.sidLast = Fin.ofNat servicePipesMax (i + j) := by
  intro k count
  induction count generalizing k with
  | zero => exact fun hk => absurd hk (Nat.not_lt_zero k)
  | succ count ih =>
      intro i pipes hk hs hloop
      by_cases hi : Fin.ofNat servicePipesMax i = s
      · exact .inl (loop_at hready hi hloop)
      · -- the scan is in front of the service
        rw [serverLoop] at hloop
        rw [loopReads]
        obtain ⟨k, rfl⟩ : ∃ n, k = n + 1 := by
          refine Nat.exists_eq_succ_of_ne_zero fun hzero => hi ?_
          rw [hzero] at hs
          exact hs
        have hs' : Fin.ofNat servicePipesMax (i + 1 + k) = s := by
          rw [Nat.add_right_comm, Nat.add_assoc]
          exact hs
        have hk' : k < count := Nat.lt_of_succ_lt_succ hk
        have hnext : (∃ j < k, server'.sidLast = Fin.ofNat servicePipesMax (i + 1 + j)) →
            ∃ j < k + 1, server'.sidLast = Fin.ofNat servicePipesMax (i + j) := by
          rintro ⟨j, hj, hlast⟩
          refine ⟨j + 1, Nat.succ_lt_succ hj, ?_⟩
          rw [hlast, Nat.add_right_comm, Nat.add_assoc]
        generalize hat : Fin.ofNat servicePipesMax i = t at *
        by_cases ht : rfds (server.services t).pipefd = true
        · simp only [ht, if_true] at hloop ⊢
          split at hloop
          · cases hloop
          · rename_i e p hread
            have hother : (server.services s).pipefd ≠ (server.services t).pipefd := fun heq =>
              hi (server.distinct t s (hset t ht) heq.symm)
            have hrest := ih hk' hs' hloop
            rw [Function.update_of_ne hother] at hrest
            simp only [hread]
            exact hrest.imp (fun h => ⟨List.mem_cons_of_mem t h.1, h.2⟩) hnext
          · rename_i r' p hread
            cases hloop
            exact .inr ⟨0, Nat.succ_pos k, hat.symm⟩
        · simp only [ht] at hloop ⊢
          exact (ih hk' hs' hloop).imp id hnext

end

/-- **A service that is passed over comes closer.** -/
theorem closer {s : Sid} {c : Call} (hready : c.Ready s) :
    c.ReadsFrom s ∨ distance c.server'.sidLast s < distance c.server.sidLast s := by
  obtain ⟨server, pipes, r, server', pipes', hreturns⟩ := c
  have hset : ∃ rfds, faultdWaitServices server pipes none = some (.ok rfds) ∧
      ∀ i, rfds (server.services i).pipefd = true ↔ (server.services i).pipefd ≠ 0 ∧
        readable (pipes (server.services i).pipefd) = true := by
    have hiff : ∀ i, (decide ((server.services i).pipefd ≠ 0 ∧
        ∃ i', (server.services i').pipefd = (server.services i).pipefd) &&
          readable (pipes (server.services i).pipefd)) = true ↔ (server.services i).pipefd ≠ 0 ∧
        readable (pipes (server.services i).pipefd) = true := by
      intro i
      rw [Bool.and_eq_true, decide_eq_true_eq]
      exact ⟨fun h => ⟨h.1.1, h.2⟩, fun h => ⟨⟨h.1, i, rfl⟩, h.2⟩⟩
    exact ⟨_, if_pos ⟨s, (hiff s).mpr hready⟩, hiff⟩
  obtain ⟨rfds, hwait, hiff⟩ := hset
  rw [faultdServerRead, hwait] at hreturns
  rcases loop_reaches (fun i hi => ((hiff i).mp hi).1) ((hiff s).mpr hready) (distance_lt server.sidLast s)
    (ofNat_distance server.sidLast s) hreturns with ⟨hmem, hgot⟩ | ⟨j, hj, hlast⟩
  · refine .inl ⟨?_, hgot⟩
    unfold reads
    rw [hwait]
    exact hmem
  · refine .inr ?_
    show distance server'.sidLast s < distance server.sidLast s
    rw [hlast]
    exact distance_ofNat hj

/-! ## Every run: how long a service with a message can be passed over -/

/-- Calls in a row, at least one more than there are services in front. -/
theorem reads_within {s : Sid} : ∀ {calls : List Call}, calls.IsChain Call.Follows →
    (∀ c ∈ calls, c.Ready s) → (∀ c ∈ calls.head?, distance c.server.sidLast s < calls.length) →
    calls ≠ [] → ∃ c ∈ calls, c.ReadsFrom s
  | [], _, _, _, h => absurd rfl h
  | c :: calls, hchain, hready, hdistance, _ => by
      rcases closer (hready c List.mem_cons_self) with hreads | hcloser
      · exact ⟨c, List.mem_cons_self, hreads⟩
      · have hlength : distance c.server.sidLast s < calls.length + 1 := hdistance c rfl
        have hne : calls ≠ [] := by
          rintro rfl
          rw [List.length_nil] at hlength
          omega
        have hnext : ∀ d ∈ calls.head?, distance d.server.sidLast s < calls.length := by
          intro d hd
          obtain ⟨rest, rfl⟩ := List.head?_eq_some_iff.mp hd
          rw [(List.isChain_cons_cons.mp hchain).1]
          omega
        obtain ⟨d, hd, hreads⟩ := reads_within hchain.tail
          (fun d hd => hready d (List.mem_cons_of_mem c hd)) hnext hne
        exact ⟨d, List.mem_cons_of_mem c hd, hreads⟩

/-- Two services, and the one that was read from last. -/
def twoServer (last : Sid) : Server where
  services i :=
    if i = 0 then ⟨some "/var/run/faultd", 5⟩ else if i = 1 then ⟨some "/var/run/onlpd", 6⟩ else ⟨none, 0⟩
  sidLast := last
  distinct := by decide

/-- As many messages wait in the pipe of each. -/
structure Waiting (n : Nat) (pipes : Pipes) : Prop where
  sound : ∀ fd, Sound (pipes fd)
  bytes : ∀ fd, fd = 5 ∨ fd = 6 → bytes (pipes fd) = (List.replicate n (letters 0)).flatMap Message.encode

/-- Both pipes have something to read as long as a message is left. -/
theorem Waiting.ready {n : Nat} {pipes : Pipes} (h : Waiting (n + 1) pipes) {fd : Nat}
    (hfd : fd = 5 ∨ fd = 6) : readable (pipes fd) = true := by
  refine readable_of_bytes ?_
  rw [h.bytes fd hfd, List.replicate_succ, List.flatMap_cons]
  exact List.append_ne_nil_of_left_ne_nil (letters 0).encode_ne_nil _

/-- Of two that are ready the one is read from that was not read from last. -/
theorem two_returns {pipes : Pipes} (h₅ : readable (pipes 5) = true)
    (h₆ : readable (pipes 6) = true) {s last : Sid} (h : s = 0 ∧ last = 1 ∨ s = 1 ∧ last = 0)
    {r : Received} {p' : Pipe} (hread : readMessage s ((twoServer last).services s)
      (pipes ((twoServer last).services s).pipefd) = some (.ok r, p')) :
    faultdServerRead (twoServer last) pipes none =
      some (.ok r, twoServer s, Function.update pipes ((twoServer last).services s).pipefd p') := by
  have hwait : faultdWaitServices (twoServer last) pipes none = some (.ok fun fd =>
      decide (fd ≠ 0 ∧ ∃ i, ((twoServer last).services i).pipefd = fd) && readable (pipes fd)) :=
    if_pos ⟨0, by simp [twoServer, h₅]; exact ⟨0, rfl⟩⟩
  generalize hrfds : (fun fd => decide (fd ≠ 0 ∧ ∃ i, ((twoServer last).services i).pipefd = fd) &&
    readable (pipes fd)) = rfds at hwait
  have hfree : rfds 0 = false := hrfds ▸ rfl
  have hfirst : rfds 5 = true := by
    rw [← hrfds]
    exact (Bool.and_eq_true _ _).mpr ⟨decide_eq_true ⟨by decide, 0, rfl⟩, h₅⟩
  have hsecond : rfds 6 = true := by
    rw [← hrfds]
    exact (Bool.and_eq_true _ _).mpr ⟨decide_eq_true ⟨by decide, 1, rfl⟩, h₆⟩
  rw [faultdServerRead, hwait]
  rcases h with ⟨rfl, rfl⟩ | ⟨rfl, rfl⟩
  · -- the six services that are not used, and then the first
    have hunused : ∀ i < 8, 2 ≤ i →
        ((twoServer 1).services (Fin.ofNat servicePipesMax i)).pipefd = 0 := by decide
    have hskip : ∀ count i : Nat, i < 8 → 2 ≤ i → serverLoop (twoServer 1) rfds (count + 1) i pipes =
        serverLoop (twoServer 1) rfds count (i + 1) pipes := by
      intro count i hlt hle
      rw [serverLoop, hunused i hlt hle, hfree, if_neg (by decide)]
    show serverLoop (twoServer 1) rfds 8 2 pipes = _
    rw [hskip 7 2 (by decide) (by decide), hskip 6 3 (by decide) (by decide),
      hskip 5 4 (by decide) (by decide), hskip 4 5 (by decide) (by decide),
      hskip 3 6 (by decide) (by decide), hskip 2 7 (by decide) (by decide)]
    exact serverLoop_reads rfl hfirst hread
  · show serverLoop (twoServer 0) rfds 8 1 pipes = _
    exact serverLoop_reads rfl hsecond hread

/-- A pipe with more than one message gives the first. -/
theorem Waiting.read {n : Nat} {pipes : Pipes} (h : Waiting (n + 1) pipes) (s : Sid) (service : Service)
    {fd : Nat} (hfd : fd = 5 ∨ fd = 6) : ∃ r p', readMessage s service (pipes fd) = some (.ok r, p') ∧
      DentOS.Faultd.bytes p' = (List.replicate n (letters 0)).flatMap Message.encode ∧ Sound p' := by
  have hbytes := h.bytes fd hfd
  rw [List.replicate_succ, List.flatMap_cons] at hbytes
  obtain ⟨p', hread, hrest, hsound⟩ := readMessage_eq s service (h.sound fd) hbytes
  exact ⟨_, p', hread, hrest, hsound⟩

/-- Two calls take a message from each of the two, which are ready all the time. -/
theorem two_calls {n : Nat} {pipes : Pipes} (h : Waiting (n + 2) pipes) :
    ∃ c d : Call, c.server = twoServer 1 ∧ c.Follows d ∧ d.server' = twoServer 1 ∧
      Waiting (n + 1) d.pipes' ∧ ∀ s, s = 0 ∨ s = 1 → c.Ready s ∧ d.Ready s := by
  obtain ⟨r₁, p₁, hread₁, hbytes₁, hsound₁⟩ := h.read 0 ((twoServer 1).services 0) (.inl rfl)
  have hcall₁ := two_returns (h.ready (.inl rfl)) (h.ready (.inr rfl)) (.inl ⟨rfl, rfl⟩) hread₁
  obtain ⟨r₂, p₂, hread₂, hbytes₂, hsound₂⟩ := h.read 1 ((twoServer 0).services 1) (.inr rfl)
  have hready₁ : readable (Function.update pipes 5 p₁ 5) = true := by
    rw [Function.update_self]
    refine readable_of_bytes ?_
    rw [hbytes₁, List.replicate_succ, List.flatMap_cons]
    exact List.append_ne_nil_of_left_ne_nil (letters 0).encode_ne_nil _
  have hread₂' : readMessage 1 ((twoServer 0).services 1)
      (Function.update pipes 5 p₁ ((twoServer 0).services 1).pipefd) = some (.ok r₂, p₂) := hread₂
  have hcall₂ := two_returns hready₁ (h.ready (.inr rfl)) (.inr ⟨rfl, rfl⟩) hread₂'
  refine ⟨⟨_, _, _, _, _, hcall₁⟩, ⟨_, _, _, _, _, hcall₂⟩, rfl, rfl, rfl, ⟨fun fd => ?_, fun fd hfd => ?_⟩,
    fun s hs => ?_⟩
  · show Sound (Function.update (Function.update pipes 5 p₁) 6 p₂ fd)
    rw [Function.update_apply, Function.update_apply]
    split
    · exact hsound₂
    split
    · exact hsound₁
    · exact h.sound fd
  · rcases hfd with rfl | rfl
    · exact hbytes₁
    · exact hbytes₂
  · rcases hs with rfl | rfl
    · exact ⟨⟨(by decide : 5 ≠ 0), h.ready (.inl rfl)⟩, ⟨(by decide : 5 ≠ 0), hready₁⟩⟩
    · exact ⟨⟨(by decide : 6 ≠ 0), h.ready (.inr rfl)⟩, ⟨(by decide : 6 ≠ 0), h.ready (.inr rfl)⟩⟩

/-- `k` pairs of such calls follow one another while `k` messages wait on both pipes. -/
theorem exists_calls : ∀ {k : Nat} {pipes : Pipes}, Waiting (k + 1) pipes →
    ∃ calls : List Call, calls.length = 2 * k ∧ calls.IsChain Call.Follows ∧
      (∀ s, s = 0 ∨ s = 1 → ∀ c ∈ calls, c.Ready s) ∧ ∀ c ∈ calls.head?, c.server = twoServer 1
  | 0, _, _ => ⟨[], rfl, List.isChain_nil, nofun, nofun⟩
  | k + 1, pipes, h => by
      obtain ⟨c, d, hc, hcd, hd, hrest, hready⟩ := two_calls h
      obtain ⟨calls, hlength, hchain, hcalls, hhead⟩ := exists_calls hrest
      refine ⟨c :: d :: calls, ?_, ?_, fun s hs x hx => ?_, fun x hx => ?_⟩
      · rw [List.length_cons, List.length_cons, hlength]
        omega
      · refine List.isChain_cons_cons.mpr ⟨hcd, List.isChain_cons.mpr ⟨fun x hx => ?_, hchain⟩⟩
        rw [Call.Follows, hhead x hx, hd]
      · rcases List.mem_cons.mp hx with rfl | hx
        · exact (hready s hs).1
        rcases List.mem_cons.mp hx with rfl | hx
        · exact (hready s hs).2
        · exact hcalls s hs x hx
      · cases hx
        exact hc

end DentOS.Faultd
