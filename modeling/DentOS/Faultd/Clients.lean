/-
  Several clients that write to one pipe, each with `faultd_client_write`, a write at a time.

  A message with symbols is several writes, and nothing on the pipe says whose they are.  What another
  client writes between the record and the terminator becomes part of the text, or ends it
  (`torn_message`).  While nobody does that, the pipe holds the messages that are complete, one behind
  the other, and at most the front of one that is not (`Inv`), and the server reads just these
  (`delivered`).

  The record is written at once, since it is smaller than `PIPE_BUF`, and so is a line; one that is longer
  counts as several.  What the server reads does not depend on when it reads: it waits for what is missing.
-/
import DentOS.Faultd.Framing
import DentOS.Lib.Transition

namespace DentOS.Faultd

open Relation

/-! ## Clients: each has its messages, and writes one of them piece by piece -/

/-- The messages that a client has still to write, and the one that it is writing the text of, with the
    lines that remain. -/
structure Client where
  /-- The messages that are still to be written. -/
  todo : List Message
  /-- The message that is being written, and the lines of it that remain. -/
  current : Option (Message × List (List UInt8))

/-- The messages that are not complete. -/
def Client.pending (c : Client) : List Message := (c.current.map Prod.fst).toList ++ c.todo

variable {ι : Type}

/-- What has been written to the pipe, and which messages are complete. -/
structure World (ι : Type) where
  /-- How far each client has got. -/
  clients : ι → Client
  /-- The bytes in the pipe. -/
  stream : List UInt8
  /-- The messages that were written whole, with their clients. -/
  completed : List (ι × Message)

/-- Every client has its messages to write, and nothing is in the pipe. -/
def World.start (msgs : ι → List Message) : World ι := ⟨fun i => ⟨msgs i, none⟩, [], []⟩

/-- A client is between the record and the terminator of a message. -/
def World.Idle (w : World ι) (i : ι) : Prop := (w.clients i).current = none

variable [DecidableEq ι]

/-- The messages of a client that are complete. -/
def World.sent (w : World ι) (i : ι) : List Message :=
  (w.completed.filter (·.1 = i)).map Prod.snd

/-- One write of `faultd_client_write`. -/
inductive Write (i : ι) : World ι → World ι → Prop where
  | record {w : World ι} {m : Message} {todo : List Message}
      (hclient : w.clients i = ⟨m :: todo, none⟩) (hsymbols : m.hasSymbols = false) :
      Write i w {
        clients := Function.update w.clients i ⟨todo, none⟩
        stream := w.stream ++ m.info.bytes
        completed := w.completed ++ [(i, m)] }
  | symbolsRecord {w : World ι} {m : Message} {todo : List Message}
      (hclient : w.clients i = ⟨m :: todo, none⟩) (hsymbols : m.hasSymbols = true) :
      Write i w { w with
        clients := Function.update w.clients i ⟨todo, some (m, m.lines)⟩
        stream := w.stream ++ m.info.bytes }
  -- backtrace_symbols_fd
  | line {w : World ι} {m : Message} {line : List UInt8} {lines : List (List UInt8)}
      {todo : List Message} (hclient : w.clients i = ⟨todo, some (m, line :: lines)⟩) :
      Write i w { w with
        clients := Function.update w.clients i ⟨todo, some (m, lines)⟩
        stream := w.stream ++ line }
  | terminator {w : World ι} {m : Message} {todo : List Message}
      (hclient : w.clients i = ⟨todo, some (m, [])⟩) :
      Write i w {
        clients := Function.update w.clients i ⟨todo, none⟩
        stream := w.stream ++ [0]
        completed := w.completed ++ [(i, m)] }

/-! ## What is promised: the pipe has whole messages, as they were sent -/

/-- **Every message whole, and no other.**  However the bytes are split into reads, the server gets the
    messages that are complete, in some order, and then waits; and of no client has a message been lost. -/
structure Delivered (msgs : ι → List Message) (w : World ι) : Prop where
  reads : ∀ (server : Server) (pipes : Pipes) (sid : Option Sid) (s : Sid),
    Carries server pipes sid s w.stream →
    ∃ order rs server' pipes', order.Perm (w.completed.map Prod.snd)
      ∧ serverReads sid w.completed.length server pipes = some (rs, server', pipes')
      ∧ List.Forall₂ (Whole s (server.services s)) order rs
      ∧ faultdServerRead server' pipes' sid = none
  sent : ∀ i, w.sent i ++ (w.clients i).pending = msgs i

/-- **Writes that do not tear a message.**  Nobody else is between the record and the terminator of a
    message, and the text of a message that is begun is shorter than the buffer. -/
structure InOrder (w : World ι) (i : ι) : Prop where
  alone : ∀ j, j ≠ i → w.Idle j
  fits : w.Idle i → ∀ m ∈ (w.clients i).todo.head?, m.Fits

/-- A write by a client whose turn it is. -/
def OrderlyWrite (w w' : World ι) : Prop := ∃ i, InOrder w i ∧ Write i w w'

/-! ## The invariant: the pipe is the complete messages, and the pieces of those begun -/

/-- What is on the pipe behind the messages that are complete. -/
inductive Remainder (w : World ι) : List UInt8 → Prop where
  | nothing (hidle : ∀ i, w.Idle i) : Remainder w []
  | front {i : ι} {m : Message} {lines : List (List UInt8)} {front : List UInt8}
      (hcurrent : (w.clients i).current = some (m, lines)) (hothers : ∀ j, j ≠ i → w.Idle j)
      (hsymbols : m.hasSymbols = true) (hfits : m.Fits) (htext : front ++ lines.flatten = m.text) :
      Remainder w (m.info.bytes ++ front)

/-- **The invariant**: the stream is the completed messages and the beginning of the one that is being
    written, the completed ones fit, and no message is lost. -/
structure Inv (msgs : ι → List Message) (w : World ι) : Prop where
  stream : ∃ rest, w.stream = (w.completed.map Prod.snd).flatMap Message.encode ++ rest
    ∧ Remainder w rest
  fits : ∀ m ∈ w.completed.map Prod.snd, m.Fits
  sent : ∀ i, w.sent i ++ (w.clients i).pending = msgs i

/-- At the start nothing is written. -/
theorem inv_start (msgs : ι → List Message) : Inv msgs (.start msgs) :=
  ⟨⟨[], rfl, .nothing fun _ => rfl⟩, nofun, fun _ => rfl⟩

/-! ## One write of some client keeps the invariant -/

section

variable {w : World ι} {i : ι}

/-- The client that was changed has the new message. -/
theorem current_update (clients : ι → Client) (i : ι) (c : Client) :
    (Function.update clients i c i).current = c.current := by
  rw [Function.update_self]

/-- No other client is writing. -/
theorem others_update {clients : ι → Client} {c : Client}
    (halone : ∀ j, j ≠ i → (clients j).current = none) (j : ι) (hj : j ≠ i) :
    (Function.update clients i c j).current = none := by
  rw [Function.update_of_ne hj]
  exact halone j hj

/-- Nobody is writing once the client is done. -/
theorem idle_update {clients : ι → Client} {todo : List Message}
    (halone : ∀ j, j ≠ i → (clients j).current = none) (j : ι) :
    (Function.update clients i ⟨todo, none⟩ j).current = none := by
  by_cases hj : j = i
  · rw [hj, Function.update_self]
  · exact others_update halone j hj

omit [DecidableEq ι] in
/-- Nothing is left behind when nobody is writing. -/
theorem Remainder.of_idle {rest : List UInt8} (h : Remainder w rest) (hidle : ∀ i, w.Idle i) :
    rest = [] := by
  cases h with
  | nothing => rfl
  | front hcurrent =>
      rw [hidle _] at hcurrent
      cases hcurrent

/-- What is left behind is of the client that is writing. -/
theorem Remainder.of_current {rest : List UInt8} {m : Message} {lines : List (List UInt8)}
    (h : Remainder w rest) (hcurrent : (w.clients i).current = some (m, lines)) :
    ∃ front, rest = m.info.bytes ++ front ∧ m.hasSymbols = true ∧ m.Fits
      ∧ front ++ lines.flatten = m.text := by
  cases h with
  | nothing hidle =>
      rw [hidle i] at hcurrent
      cases hcurrent
  | @front i' m' lines' front hcurrent' hothers hsymbols hfits htext =>
      by_cases hi : i = i'
      · subst hi
        rw [hcurrent'] at hcurrent
        cases hcurrent
        exact ⟨front, rfl, hsymbols, hfits, htext⟩
      · rw [hothers i hi] at hcurrent
        cases hcurrent

/-- A message that becomes complete is no longer pending. -/
theorem sent_complete {msgs : ι → List Message} {m : Message} {c : Client}
    (hsent : ∀ j, w.sent j ++ (w.clients j).pending = msgs j)
    (hpending : (w.clients i).pending = m :: c.pending) (stream : List UInt8) (j : ι) :
    World.sent ⟨Function.update w.clients i c, stream, w.completed ++ [(i, m)]⟩ j
      ++ (Function.update w.clients i c j).pending = msgs j := by
  rw [← hsent j, World.sent, World.sent, List.filter_append, List.map_append]
  by_cases hj : j = i
  · subst hj
    rw [Function.update_self, hpending]
    simp
  · rw [Function.update_of_ne hj]
    simp [Ne.symm hj]

omit [DecidableEq ι] in
/-- With one more that fits, the completed messages fit. -/
theorem fits_complete {m : Message} (hfits : ∀ m ∈ w.completed.map Prod.snd, m.Fits) (hm : m.Fits) :
    ∀ m' ∈ (w.completed ++ [(i, m)]).map Prod.snd, m'.Fits := by
  intro m' hm'
  rw [List.map_append, List.mem_append] at hm'
  rcases hm' with hm' | hm'
  · exact hfits m' hm'
  · rw [List.mem_singleton.mp hm']
    exact hm

/-- What was sent and what is pending are still the client's messages. -/
theorem sent_update {msgs : ι → List Message} {c : Client}
    (hsent : ∀ j, w.sent j ++ (w.clients j).pending = msgs j)
    (hpending : (w.clients i).pending = c.pending) (j : ι) :
    w.sent j ++ (Function.update w.clients i c j).pending = msgs j := by
  by_cases hj : j = i
  · subst hj
    rw [Function.update_self, ← hpending]
    exact hsent j
  · rw [Function.update_of_ne hj]
    exact hsent j

end

/-- **One write** keeps the invariant. -/
theorem Inv.write {msgs : ι → List Message} {w w' : World ι} {i : ι} (hw : Inv msgs w)
    (horder : InOrder w i) (hst : Write i w w') : Inv msgs w' := by
  obtain ⟨⟨rest, hstream, hrest⟩, hfits, hsent⟩ := hw
  have hidle (hi : w.Idle i) (j : ι) : w.Idle j :=
    (em (j = i)).elim (fun hj => hj ▸ hi) (horder.alone j)
  cases hst with
  | @record m todo hclient hsymbols =>
      obtain rfl := hrest.of_idle (hidle (congrArg Client.current hclient))
      refine ⟨⟨[], ?_, .nothing (idle_update horder.alone)⟩, fits_complete hfits ?_,
        sent_complete hsent ?_ _⟩
      · have hencode : m.encode = m.info.bytes := by
          rw [Message.encode, if_neg (ne_true_of_eq_false hsymbols), List.append_nil]
        show w.stream ++ m.info.bytes = _
        rw [hstream]
        simp [hencode]
      · exact fun h => absurd h (ne_true_of_eq_false hsymbols)
      · rw [hclient]
        rfl
  | @symbolsRecord m todo hclient hsymbols =>
      obtain rfl := hrest.of_idle (hidle (congrArg Client.current hclient))
      have hm : m.Fits := horder.fits (congrArg Client.current hclient) m (by rw [hclient]; rfl)
      refine ⟨⟨m.info.bytes ++ [], ?_, ?_⟩, hfits, sent_update hsent ?_⟩
      · show w.stream ++ m.info.bytes = _
        rw [hstream, List.append_nil, List.append_nil]
      · exact .front (current_update ..) (others_update horder.alone) hsymbols hm rfl
      · rw [hclient]
        rfl
  | @line m line lines todo hclient =>
      obtain ⟨front, rfl, hsymbols, hm, htext⟩ := hrest.of_current (congrArg Client.current hclient)
      refine ⟨⟨m.info.bytes ++ (front ++ line), ?_, ?_⟩, hfits, sent_update hsent ?_⟩
      · show w.stream ++ line = _
        rw [hstream, List.append_assoc, List.append_assoc]
      · refine .front (current_update ..) (others_update horder.alone) hsymbols hm ?_
        rw [List.append_assoc, ← List.flatten_cons, htext]
      · rw [hclient]
        rfl
  | @terminator m todo hclient =>
      obtain ⟨front, rfl, hsymbols, hm, htext⟩ := hrest.of_current (congrArg Client.current hclient)
      refine ⟨⟨[], ?_, .nothing (idle_update horder.alone)⟩, fits_complete hfits hm,
        sent_complete hsent ?_ _⟩
      · -- with the terminator the front is the whole message
        have hencode : m.encode = m.info.bytes ++ (front ++ [0]) := by
          rw [Message.encode, if_pos hsymbols, ← htext, List.flatten_nil, List.append_nil]
        show w.stream ++ [0] = _
        rw [hstream]
        simp [hencode]
      · rw [hclient]
        rfl

/-! ## Every run whose writes are orderly delivers its messages -/

omit [DecidableEq ι] in
/-- What is behind the completed messages is the beginning of one. -/
theorem Remainder.toPartial {w : World ι} {rest : List UInt8} (h : Remainder w rest) : Partial rest := by
  cases h with
  | nothing => exact .nothing
  | @front _ m lines front _ _ hsymbols _ htext =>
      refine .text m.info hsymbols front fun h0 => m.noNul_text ?_
      rw [← htext]
      exact List.mem_append_left _ h0

/-- The invariant says what is delivered. -/
theorem Inv.toDelivered {msgs : ι → List Message} {w : World ι} (hw : Inv msgs w) :
    Delivered msgs w := by
  obtain ⟨⟨rest, hstream, hrest⟩, hfits, hsent⟩ := hw
  refine ⟨fun server pipes sid s h => ?_, hsent⟩
  rw [hstream] at h
  obtain ⟨server', pipes', hreads, h'⟩ := serverReads_eq h
  rw [List.length_map] at hreads
  exact ⟨_, _, server', pipes', .refl _, hreads, (whole_map_iff s (server.services s) _).mpr hfits,
    faultdServerRead_blocks h' hrest.toPartial⟩

/-- **Several clients.**  In every run in which no client writes into a message of another one, the server
    gets every message whole. -/
theorem delivered {msgs : ι → List Message} {w : World ι}
    (h : ReflTransGen OrderlyWrite (.start msgs) w) : Delivered msgs w :=
  (Transition.invariant (fun _ _ hw ⟨_, horder, hst⟩ => hw.write horder hst) h
    (inv_start msgs)).toDelivered

/-! ## Small runs: two clients, whole and torn -/

/-- Two clients that fault at once, with one line of text each. -/
def twoFaults : World (Fin 2) := .start fun _ => [letters 1]

/-- With two clients, the turn is known from the other one. -/
theorem inOrder_letter {w : World (Fin 2)} {i j : Fin 2} (hij : ∀ k, k ≠ i → k = j) (hj : w.Idle j)
    (htodo : (w.clients i).todo.head? = none ∨ (w.clients i).todo.head? = some (letters 1)) :
    InOrder w i := by
  refine ⟨fun k hk => hij k hk ▸ hj, fun _ m hm _ => ?_⟩
  rcases htodo with htodo | htodo <;> rw [htodo] at hm <;> cases hm
  rw [letters_text_length]
  decide

/-- One behind the other. -/
theorem delivered_in_turn :
    ∃ w : World (Fin 2), w.completed.length = 2 ∧ Delivered (fun _ => [letters 1]) w := by
  have h₁ := (ReflTransGen.single ⟨0, inOrder_letter (j := 1) (by decide) rfl (.inr rfl),
    .symbolsRecord rfl hasSymbols_symbolsInfo⟩ : ReflTransGen OrderlyWrite twoFaults _)
  have h₂ := h₁.tail ⟨0, inOrder_letter (j := 1) (by decide) rfl (.inl rfl), .line rfl⟩
  have h₃ := h₂.tail ⟨0, inOrder_letter (j := 1) (by decide) rfl (.inl rfl), .terminator rfl⟩
  have h₄ := h₃.tail ⟨1, inOrder_letter (j := 0) (by decide) rfl (.inr rfl),
    .symbolsRecord rfl hasSymbols_symbolsInfo⟩
  have h₅ := h₄.tail ⟨1, inOrder_letter (j := 0) (by decide) rfl (.inl rfl), .line rfl⟩
  have h₆ := h₅.tail ⟨1, inOrder_letter (j := 0) (by decide) rfl (.inl rfl), .terminator rfl⟩
  exact ⟨_, rfl, delivered h₆⟩

/-- A message with no text is not one with a letter. -/
theorem not_whole_letter {s : Sid} {service : Service} :
    ¬ Whole s service (letters 1) (received s service (letters 0)) := by
  intro h
  obtain ⟨buffer, hbuffer, hholds⟩ := h.symbols hasSymbols_symbolsInfo
  have hzero : (letters 0).hasSymbols = true := hasSymbols_symbolsInfo
  rw [received, if_pos hzero] at hbuffer
  cases hbuffer
  obtain ⟨-, str, hstr, htext⟩ := hholds
  rw [cstring_bufferOf (letters 0).noNul_text (by rw [letters_text_length]; decide)] at hstr
  cases hstr
  rcases htext with htext | ⟨hlong, -⟩
  · have hlength := congrArg List.length htext
    rw [letters_text_length, letters_text_length] at hlength
    cases hlength
  · rw [letters_text_length] at hlong
    exact absurd hlong (by decide)

/-- To the server this begins with a message that has no text. -/
theorem torn_stream (line : List UInt8) : ∃ rest,
    [] ++ symbolsInfo.bytes ++ symbolsInfo.bytes ++ line ++ [0] = (letters 0).encode ++ rest := by
  have hinfo : symbolsInfo.bytes = 0 :: symbolsInfo.bytes.tail := rfl
  have hencode : (letters 0).encode = symbolsInfo.bytes ++ [0] := by
    rw [Message.encode, if_pos (show (letters 0).hasSymbols = true from hasSymbols_symbolsInfo)]
    rfl
  refine ⟨symbolsInfo.bytes.tail ++ line ++ [0], ?_⟩
  rw [hencode]
  nth_rewrite 2 [hinfo]
  simp

/-- Where the second message is in front of the first, nothing was delivered in order. -/
theorem not_delivered {msgs : Fin 2 → List Message} {w : World (Fin 2)} {rest : List UInt8}
    (hcompleted : w.completed = [(0, letters 1)]) (hstream : w.stream = (letters 0).encode ++ rest) :
    ¬ Delivered msgs w := by
  intro h
  have hcarries := carries_onePipe w.stream
  obtain ⟨order, rs, server', pipes', horder, hrs, hwhole, -⟩ := h.reads _ _ _ _ hcarries
  rw [hstream] at hcarries
  obtain ⟨pipes₁, hread, -⟩ := faultdServerRead_eq hcarries
  rw [← hstream] at hread
  rw [hcompleted] at horder hrs
  obtain rfl : order = [letters 1] := List.perm_singleton.mp horder
  simp only [List.length_singleton, serverReads, hread, Option.map_some] at hrs
  cases hrs
  cases hwhole with
  | cons h _ => exact not_whole_letter h

/-- The record of the second client comes between the record and the text of the first one, and ends the
    text with its first byte. -/
theorem torn_message : ∃ w : World (Fin 2),
    ReflTransGen (fun w w' => ∃ i, Write i w w') twoFaults w
      ∧ ¬ Delivered (fun _ => [letters 1]) w := by
  have h₁ := (ReflTransGen.single ⟨0, .symbolsRecord rfl hasSymbols_symbolsInfo⟩ :
    ReflTransGen (fun w w' => ∃ i, Write i w w') twoFaults _)
  have h₂ := h₁.tail ⟨1, .symbolsRecord rfl hasSymbols_symbolsInfo⟩
  have h₃ := h₂.tail ⟨0, .line rfl⟩
  have h₄ := h₃.tail ⟨0, .terminator rfl⟩
  obtain ⟨rest, hstream⟩ := torn_stream (List.replicate 1 120)
  exact ⟨_, h₄, not_delivered rfl hstream⟩

end DentOS.Faultd
